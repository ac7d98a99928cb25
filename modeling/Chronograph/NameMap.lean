/-!
# Maps by name

A finite map from names to values, kept as the list of its entries in
ascending order of the names.  The order is part of the type, so two maps are
equal exactly when they hold the same values under the same names
(`NameMap.ext_get?`).
-/

namespace Chronograph

variable {α β : Type}

/-- Entries in ascending order of their names, each name once. -/
def SortedByName (entries : List (String × α)) : Prop :=
  entries.Pairwise fun a b => a.1 < b.1

/-- A finite map from names to values. -/
structure NameMap (α : Type) where
  entries : List (String × α)
  sorted : SortedByName entries

namespace NameMap

instance [DecidableEq α] : DecidableEq (NameMap α) := fun a b =>
  decidable_of_iff (a.entries = b.entries) (by cases a; cases b; simp)

/-- The map without entries. -/
def empty : NameMap α := ⟨[], List.Pairwise.nil⟩

instance : Inhabited (NameMap α) := ⟨empty⟩

/-- The value under a name, in a list of entries. -/
def lookup (name : String) : List (String × α) → Option α
  | [] => none
  | (key, value) :: rest => if key = name then some value else lookup name rest

/-- The value under a name. -/
def get? (m : NameMap α) (name : String) : Option α := lookup name m.entries

/-- The names of a map, in ascending order. -/
def names (m : NameMap α) : List String := m.entries.map Prod.fst

/-- The values of a map, in the order of their names. -/
def values (m : NameMap α) : List α := m.entries.map Prod.snd

/-- Entries with the value under a name made from the old one. -/
def alterEntries (name : String) (f : Option α → α) : List (String × α) → List (String × α)
  | [] => [(name, f none)]
  | (key, value) :: rest =>
    if key < name then (key, value) :: alterEntries name f rest
    else if key = name then (name, f (some value)) :: rest
    else (name, f none) :: (key, value) :: rest

theorem fst_mem_alterEntries {name : String} {f : Option α → α} {entries : List (String × α)}
    {e : String × α} (h : e ∈ alterEntries name f entries) :
    e.1 = name ∨ e ∈ entries := by
  induction entries with
  | nil => simp [alterEntries] at h; exact .inl (by simp [h])
  | cons first rest ih =>
      simp only [alterEntries] at h
      split at h
      · rcases List.mem_cons.mp h with rfl | h
        · exact .inr List.mem_cons_self
        · exact (ih h).imp id (List.mem_cons_of_mem _)
      · split at h
        · rcases List.mem_cons.mp h with rfl | h
          · exact .inl rfl
          · exact .inr (List.mem_cons_of_mem _ h)
        · rcases List.mem_cons.mp h with rfl | h
          · exact .inl rfl
          · exact .inr h

theorem sorted_alterEntries (name : String) (f : Option α → α) {entries : List (String × α)}
    (h : SortedByName entries) : SortedByName (alterEntries name f entries) := by
  induction entries with
  | nil => simp [alterEntries, SortedByName]
  | cons first rest ih =>
      obtain ⟨hfirst, hrest⟩ := List.pairwise_cons.mp h
      simp only [alterEntries]
      split
      next hlt =>
        refine List.pairwise_cons.mpr ⟨fun e he => ?_, ih hrest⟩
        rcases fst_mem_alterEntries he with heq | hmem
        · rw [heq]; exact hlt
        · exact hfirst e hmem
      next hnlt =>
        split
        next heq =>
          refine List.pairwise_cons.mpr ⟨fun e he => ?_, hrest⟩
          have := hfirst e he
          rwa [heq] at this
        next hne =>
          have hgt : name < first.1 := by
            rcases String.le_total first.1 name with hle | hle
            · exact absurd (String.not_le.mp fun hge => hne (String.le_antisymm hle hge)) hnlt
            · exact String.not_le.mp fun hge => hne (String.le_antisymm hge hle)
          refine List.pairwise_cons.mpr ⟨fun e he => ?_, h⟩
          rcases List.mem_cons.mp he with rfl | he
          · exact hgt
          · exact String.lt_trans hgt (hfirst e he)

/-- The map with the value under a name made from the old one, if there is one. -/
def alter (m : NameMap α) (name : String) (f : Option α → α) : NameMap α :=
  ⟨alterEntries name f m.entries, sorted_alterEntries name f m.sorted⟩

/-- The map with a value under a name, in the place of an old one. -/
def insert (m : NameMap α) (name : String) (value : α) : NameMap α := m.alter name fun _ => value

/-- The map of some entries; of entries with one name the last counts. -/
def ofList (entries : List (String × α)) : NameMap α :=
  entries.foldl (fun m e => m.insert e.1 e.2) empty

theorem sorted_map (f : String → α → β) {entries : List (String × α)} (h : SortedByName entries) :
    SortedByName (entries.map fun e => (e.1, f e.1 e.2)) :=
  List.pairwise_map.mpr h

/-- The map with each value made from its name and the old value. -/
def mapValues (m : NameMap α) (f : String → α → β) : NameMap β :=
  ⟨m.entries.map fun e => (e.1, f e.1 e.2), sorted_map f m.sorted⟩

/-! ## The view of a map by its names -/

/-- No value stands under a name that is smaller than all names of the entries. -/
theorem lookup_eq_none {name : String} {entries : List (String × α)}
    (h : ∀ e ∈ entries, name < e.1) : lookup name entries = none := by
  induction entries with
  | nil => rfl
  | cons first rest ih =>
      have hne : ¬ first.1 = name := fun heq =>
        String.lt_irrefl name (heq ▸ h first List.mem_cons_self)
      simp only [lookup, if_neg hne]
      exact ih fun e he => h e (List.mem_cons_of_mem _ he)

theorem lookup_alterEntries (name other : String) (f : Option α → α)
    {entries : List (String × α)} (h : SortedByName entries) :
    lookup other (alterEntries name f entries) =
      if name = other then some (f (lookup name entries)) else lookup other entries := by
  induction entries with
  | nil => simp [alterEntries, lookup]
  | cons first rest ih =>
      obtain ⟨hfirst, hrest⟩ := List.pairwise_cons.mp h
      simp only [alterEntries]
      split
      next hlt =>
        have hne : first.1 ≠ name := fun heq => String.lt_irrefl name (heq ▸ hlt)
        simp only [lookup, ih hrest, if_neg hne]
        by_cases ho : first.1 = other
        · have : ¬ name = other := fun h => hne (ho.trans h.symm)
          simp [ho, this]
        · simp [ho]
      next hnlt =>
        split
        next heq => subst heq; by_cases ho : first.1 = other <;> simp [lookup, ho]
        next hne =>
          have hlt : name < first.1 := by
            rcases String.le_total first.1 name with hle | hle
            · exact absurd (String.not_le.mp fun hge => hne (String.le_antisymm hle hge)) hnlt
            · exact String.not_le.mp fun hge => hne (String.le_antisymm hge hle)
          have hnone : lookup name rest = none :=
            lookup_eq_none fun e he => String.lt_trans hlt (hfirst e he)
          simp [lookup, hne, hnone]

/-- Under the altered name stands the new value, under all others the old. -/
theorem get?_alter (m : NameMap α) (name other : String) (f : Option α → α) :
    (m.alter name f).get? other = if name = other then some (f (m.get? name)) else m.get? other :=
  lookup_alterEntries name other f m.sorted

theorem get?_insert (m : NameMap α) (name other : String) (value : α) :
    (m.insert name value).get? other = if name = other then some value else m.get? other :=
  get?_alter m name other _

@[simp] theorem get?_empty (name : String) : (empty : NameMap α).get? name = none := rfl

theorem lookup_map (f : String → α → β) (name : String) (entries : List (String × α)) :
    lookup name (entries.map fun e => (e.1, f e.1 e.2)) = (lookup name entries).map (f name) := by
  induction entries with
  | nil => rfl
  | cons first rest ih =>
      by_cases h : first.1 = name
      · simp [lookup, h]
      · simp [lookup, h, ih]

/-- Under each name stands the value made from the old one. -/
@[simp] theorem get?_mapValues (m : NameMap α) (f : String → α → β) (name : String) :
    (m.mapValues f).get? name = (m.get? name).map (f name) :=
  lookup_map f name m.entries

/-- Making new values keeps the names. -/
@[simp] theorem names_mapValues (m : NameMap α) (f : String → α → β) :
    (m.mapValues f).names = m.names := by
  simp [names, mapValues]

theorem isSome_lookup_iff (name : String) (entries : List (String × α)) :
    (lookup name entries).isSome ↔ name ∈ entries.map Prod.fst := by
  induction entries with
  | nil => simp [lookup]
  | cons first rest ih =>
      by_cases h : first.1 = name
      · simp [lookup, h]
      · simp only [lookup, if_neg h, ih, List.map_cons, List.mem_cons, Ne.symm h, false_or]

/-- A map has a value under exactly its names. -/
theorem mem_names_iff (m : NameMap α) (name : String) :
    name ∈ m.names ↔ (m.get? name).isSome :=
  (isSome_lookup_iff name m.entries).symm

theorem eq_of_lookup_eq {xs ys : List (String × α)} (hx : SortedByName xs) (hy : SortedByName ys)
    (h : ∀ name, lookup name xs = lookup name ys) : xs = ys := by
  induction xs generalizing ys with
  | nil =>
      cases ys with
      | nil => rfl
      | cons y ys => have := h y.1; simp [lookup] at this
  | cons x xs ih =>
      obtain ⟨hx1, hx2⟩ := List.pairwise_cons.mp hx
      cases ys with
      | nil => have := h x.1; simp [lookup] at this
      | cons y ys =>
          obtain ⟨hy1, hy2⟩ := List.pairwise_cons.mp hy
          have hname : x.1 = y.1 := by
            refine String.le_antisymm ?_ ?_
            · refine String.not_lt.mp fun hlt => ?_
              have := h y.1
              rw [@lookup_eq_none _ _ (x :: xs) fun e he => ?_] at this
              · simp [lookup] at this
              · rcases List.mem_cons.mp he with rfl | he
                · exact hlt
                · exact String.lt_trans hlt (hx1 e he)
            · refine String.not_lt.mp fun hlt => ?_
              have := h x.1
              rw [@lookup_eq_none _ _ (y :: ys) fun e he => ?_] at this
              · simp [lookup] at this
              · rcases List.mem_cons.mp he with rfl | he
                · exact hlt
                · exact String.lt_trans hlt (hy1 e he)
          have hvalue : x.2 = y.2 := by
            have := h x.1
            simpa [lookup, hname] using this
          have hrest : xs = ys := by
            refine ih hx2 hy2 fun name => ?_
            by_cases hn : x.1 = name
            · rw [lookup_eq_none fun e he => hn ▸ hx1 e he,
                lookup_eq_none fun e he => hn ▸ hname ▸ hy1 e he]
            · have := h name
              simpa [lookup, hn, hname ▸ hn] using this
          obtain ⟨xn, xv⟩ := x
          obtain ⟨yn, yv⟩ := y
          simp only at hname hvalue
          rw [hname, hvalue, hrest]

/-- Two maps are equal that hold the same values under the same names. -/
theorem ext_get? {m n : NameMap α} (h : ∀ name, m.get? name = n.get? name) : m = n := by
  have := eq_of_lookup_eq m.sorted n.sorted h
  cases m; cases n; simp_all

end NameMap

end Chronograph
