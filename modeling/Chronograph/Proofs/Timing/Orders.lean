import Chronograph.Proofs.Timing.Average

/-!
# Walks in any order

A walk over the names of a map meets each name once, so what it does to one name
does not depend on when the name is met: after a walk that alters a map at the
names it meets, each of them has been altered once and all others not at all
(`NameMap.get?_foldl_alter`).  Two consequences are used for every order of a
walk: values made anew one by one are made anew all together
(`NameMap.foldl_alter_eq_mapValues`), and the totals of a run come out the same
(`foldl_alter_eq_addRun`).
-/

namespace Chronograph

variable {α β : Type}

namespace NameMap

theorem nodup_names (m : NameMap α) : m.names.Nodup := by
  refine List.pairwise_map.mpr (List.Pairwise.imp ?_ m.sorted)
  intro a b hlt heq
  rw [heq] at hlt
  exact String.lt_irrefl _ hlt

/-- An alteration depends on what it makes of the value that is there. -/
theorem alter_congr {m : NameMap α} {name : String} {f g : Option α → α}
    (h : f (m.get? name) = g (m.get? name)) : m.alter name f = m.alter name g := by
  refine ext_get? ?_
  intro other
  rw [get?_alter, get?_alter, h]

/-- Altering the value under a name that is there changes no other value and no
name. -/
theorem alter_eq_mapValues {m : NameMap α} {name : String} {old : α}
    (h : m.get? name = some old) (f : Option α → α) :
    m.alter name f = m.mapValues fun other v => if name = other then f (some v) else v := by
  refine ext_get? ?_
  intro other
  rw [get?_alter, get?_mapValues]
  by_cases heq : name = other
  · subst heq
    simp [h]
  · simp [heq]

theorem exists_of_mem_names {m : NameMap α} {name : String} (h : name ∈ m.names) :
    ∃ v, m.get? name = some v :=
  Option.isSome_iff_exists.mp ((mem_names_iff m name).mp h)

theorem names_alter {m : NameMap α} {name : String} (h : name ∈ m.names) (f : Option α → α) :
    (m.alter name f).names = m.names := by
  obtain ⟨old, hold⟩ := exists_of_mem_names h
  rw [alter_eq_mapValues hold, names_mapValues]

/-- Replacing a value by itself changes nothing. -/
theorem insert_eq_self {m : NameMap α} {name : String} {value : α} (h : m.get? name = some value) :
    m.insert name value = m := by
  refine ext_get? ?_
  intro other
  rw [get?_insert]
  split
  · next heq => rw [← heq, h]
  · rfl

/-- Entering a value under a name that is there changes nothing. -/
theorem alter_getD {m : NameMap α} {name : String} {old : α} (h : m.get? name = some old)
    (value : α) : (m.alter name fun v => v.getD value) = m := by
  refine Eq.trans (alter_congr ?_) (insert_eq_self h)
  rw [h, Option.getD_some]

/-- A value entered and then replaced is one alteration. -/
theorem insert_alter (m : NameMap α) (name : String) (f g : Option α → α) :
    (m.alter name f).insert name (g (m.get? name)) = m.alter name g := by
  refine ext_get? ?_
  intro other
  rw [get?_insert, get?_alter, get?_alter]
  split <;> rfl

/-- Making values anew can be put off until after an alteration. -/
theorem mapValues_alter {m : NameMap α} {name : String} {f : Option α → α} {g : α → β}
    {f' : Option β → β} (h : ∀ old, g (f old) = f' (old.map g)) :
    (m.alter name f).mapValues (fun _ v => g v) = (m.mapValues fun _ v => g v).alter name f' := by
  refine ext_get? ?_
  intro other
  rw [get?_mapValues, get?_alter, get?_alter, get?_mapValues, get?_mapValues]
  split
  · rw [Option.map_some, h]
  · rfl

/-- **A walk** alters each name that it meets once, and no other. -/
theorem get?_foldl_alter {names : List String} (hnames : names.Nodup) (f : String → Option α → α)
    (m : NameMap α) (name : String) :
    (names.foldl (fun m met => m.alter met (f met)) m).get? name =
      if name ∈ names then some (f name (m.get? name)) else m.get? name := by
  induction names generalizing m with
  | nil => rfl
  | cons first rest ih =>
      obtain ⟨hfirst, hrest⟩ := List.nodup_cons.mp hnames
      rw [List.foldl_cons, ih hrest, get?_alter]
      by_cases heq : first = name
      · subst heq
        simp [hfirst]
      · simp [heq, Ne.symm heq]

/-- A walk over all names of a map that makes each value anew, in any order. -/
theorem foldl_alter_eq_mapValues {m : NameMap α} {names : List String} (h : names.Perm m.names)
    (f : String → α → α) (value : α) :
    names.foldl (fun m name => m.alter name fun old => f name (old.getD value)) m =
      m.mapValues f := by
  refine ext_get? ?_
  intro name
  rw [get?_foldl_alter (h.nodup_iff.mpr m.nodup_names), get?_mapValues]
  split
  · next hmem =>
      obtain ⟨old, hold⟩ := exists_of_mem_names (h.mem_iff.mp hmem)
      simp [hold]
  · next hnot =>
      rw [h.mem_iff, mem_names_iff, Option.not_isSome_iff_eq_none] at hnot
      simp [hnot]

end NameMap

/-- The totals with the time of one operator of a run. -/
def addTime (run : Run) (totals : NameMap Total) (name : String) : NameMap Total :=
  totals.alter name fun old => (old.getD {}).add ((run.get? name).getD .zero)

/-- **The totals with the times of one more run**, in any order of its operators. -/
theorem foldl_addTime_eq_addRun {run : Run} {names : List String} (h : names.Perm run.names)
    (totals : NameMap Total) : names.foldl (addTime run) totals = addRun totals run := by
  refine NameMap.ext_get? ?_
  intro name
  rw [get?_addRun]
  refine (NameMap.get?_foldl_alter (h.nodup_iff.mpr run.nodup_names)
    (fun met old => (old.getD {}).add ((run.get? met).getD .zero)) totals name).trans ?_
  have hmem : name ∈ names ↔ (run.get? name).isSome := by
    rw [h.mem_iff, NameMap.mem_names_iff]
  cases htime : run.get? name with
  | none => rw [if_neg (by simp [hmem, htime])]
  | some time => rw [if_pos (by simp [hmem, htime]), Option.getD_some]

end Chronograph
