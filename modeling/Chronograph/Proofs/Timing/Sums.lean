import Chronograph.Proofs.Binary.Sums
import Chronograph.Proofs.Timing.Average

/-!
# Averages of whole times

A clock gives whole microseconds, and a float holds every whole number up to
`2 ^ 53`.  While the exact total of an operator stays within that bound, so does
every sum on the way to it, in whatever order its times are added: each sum is
a float and is computed without error (`foldl_add_ofNat`).  What is left of the
order is a list of times, rearranged; its exact total and its length are those
of every other arrangement, and only the last step, the division, rounds.

Runs that are recorded at the same time reach the history in any order.  By
`average_union_order_free` that order cannot be told from their average.
-/

namespace Chronograph

/-- The whole number of microseconds that a time is, if it is one. -/
def Micros.whole? : Micros → Option Nat
  | number x => (wholeValue? x.toModel.unpack).bind Int.toNat?
  | undefined => none

/-- The exact total of an operator over some runs; times that are not whole
numbers are left out. -/
def exactTotal (name : String) (runs : List Run) : Nat :=
  ((timesOf name runs).filterMap Micros.whole?).sum

/-- A float is the one nearest to a rational. -/
def IsNearest (q : ℚ) (x : Float) : Prop :=
  ∃ v, HasValue x v ∧ RoundsTo .binary64 q v ∧
    ∀ b, Representable .binary64 b → |q - v| ≤ |q - b|

/-! ## Whole times -/

/-- A whole time is the float of its number, or minus zero. -/
theorem Micros.eq_of_whole? {t : Micros} {n : Nat} (h : t.whole? = some n) :
    ∃ x, t = number x ∧ (HasValue x n ∨ n = 0 ∧ x.toModel.unpack = .zero .negative) := by
  cases t with
  | undefined => cases h
  | number x =>
      refine ⟨x, rfl, ?_⟩
      obtain ⟨w, hw, hn⟩ := Option.bind_eq_some_iff.mp h
      have hwn : w = n := by
        cases w with
        | ofNat k => cases hn; rfl
        | negSucc k => cases hn
      subst hwn
      cases hx : x.toModel.unpack with
      | notANumber => rw [hx] at hw; cases hw
      | infinity s => rw [hx] at hw; cases hw
      | zero s =>
          rw [hx] at hw
          have hzero : n = 0 := by
            have := Option.some.inj hw
            omega
          subst hzero
          cases s with
          | negative => exact .inr ⟨rfl, rfl⟩
          | positive => exact .inl (.inl ⟨hx, Nat.cast_zero⟩)
      | finite s m e hm =>
          rw [hx] at hw
          obtain ⟨k, hk, hsign⟩ := wholeValue?_finite.mp hw
          have hpos : 0 < k := by
            have : (0 : ℚ) < k := by
              rw [hk]
              exact mul_pos (by exact_mod_cast hm) (two_zpow_pos e)
            exact_mod_cast this
          cases s with
          | negative =>
              have : (n : Int) = -(k : Int) := hsign
              omega
          | positive =>
              have : (n : Int) = (k : Int) := hsign
              have hnk : n = k := by omega
              subst hnk
              exact .inl (.inr ⟨m, e, hm, hx, hk⟩)

/-- What a clock gives is whole, up to the bound. -/
theorem Micros.whole?_ofNat {n : Nat} (h : n ≤ 2 ^ 53) : (ofNat n).whole? = some n := by
  have hwhole : wholeValue? (signed false (nearestFloat n)).toModel.unpack = some n :=
    (wholeValue?_signed (hasValue_nearestFloat h)).mpr ⟨n, rfl, rfl⟩
  show (wholeValue? (nearestFloat n).toModel.unpack).bind Int.toNat? = some n
  exact Option.bind_eq_some_iff.mpr ⟨n, hwhole, rfl⟩

theorem Micros.zero_eq_ofNat : zero = ofNat 0 := by decide +kernel

/-- **One more whole time** is added exactly, if the total is within the bound. -/
theorem Micros.ofNat_add {t : Micros} {m n : Nat} (ht : t.whole? = some n)
    (h : m + n ≤ 2 ^ 53) : (ofNat m).add t = ofNat (m + n) := by
  obtain ⟨x, rfl, hx⟩ := Micros.eq_of_whole? ht
  have hsum : nearestFloat m + x = nearestFloat (m + n) := by
    cases hx with
    | inl hvalue => exact nearestFloat_add hvalue h
    | inr hzero =>
        obtain ⟨rfl, hnegative⟩ := hzero
        exact nearestFloat_add_negative_zero hnegative (by omega)
  simp only [ofNat, add, hsum, (hasValue_nearestFloat h).isNaN, Bool.false_and,
    Bool.false_eq_true, if_false]

/-- **Whole times add up exactly**, in the order in which they are. -/
theorem foldl_add_ofNat {times : List Micros} (hwhole : ∀ t ∈ times, t.whole?.isSome = true)
    {m : Nat} (h : m + (times.filterMap Micros.whole?).sum ≤ 2 ^ 53) :
    times.foldl Micros.add (.ofNat m) = .ofNat (m + (times.filterMap Micros.whole?).sum) := by
  induction times generalizing m with
  | nil => rfl
  | cons t times ih =>
      obtain ⟨n, hn⟩ := Option.isSome_iff_exists.mp (hwhole t List.mem_cons_self)
      rw [List.filterMap_cons_some hn, List.sum_cons] at h ⊢
      rw [List.foldl_cons, Micros.ofNat_add hn (by omega),
        ih (fun other hother => hwhole other (List.mem_cons_of_mem _ hother)) (by omega),
        Nat.add_assoc]

/-! ## Runs in another order -/

/-- What stands under a name is one of the values. -/
theorem NameMap.mem_values_of_get? {α : Type} (m : NameMap α) {name : String} {value : α}
    (h : m.get? name = some value) : value ∈ m.values := by
  obtain ⟨entries, sorted⟩ := m
  simp only [NameMap.get?, NameMap.values] at h ⊢
  clear sorted
  induction entries with
  | nil => cases h
  | cons first rest ih =>
      rw [NameMap.lookup] at h
      rw [List.map_cons, List.mem_cons]
      split at h
      · exact .inl (Option.some.inj h).symm
      · exact .inr (ih h)

/-- An operator has the same times in every order of the runs, in that order. -/
theorem perm_timesOf {runs other : List Run} (h : other.Perm runs) (name : String) :
    (timesOf name other).Perm (timesOf name runs) :=
  h.filterMap _

theorem exactTotal_perm {runs other : List Run} (h : other.Perm runs) (name : String) :
    exactTotal name other = exactTotal name runs :=
  ((perm_timesOf h name).filterMap _).sum_eq

/-- An operator that no run has timed has a total of zero. -/
theorem exactTotal_eq_zero {runs : List Run} {name : String}
    (h : ∀ run ∈ runs, name ∉ run.names) : exactTotal name runs = 0 := by
  have hnone : timesOf name runs = [] := by
    by_contra hne
    obtain ⟨run, hrun, hname⟩ := (timesOf_ne_nil_iff name runs).mp hne
    exact h run hrun hname
  rw [exactTotal, hnone]
  rfl

/-! ## Averages -/

/-- The average of an operator with whole times: its exact total by the number
of its times, each as a float. -/
theorem get?_average_whole {runs : List Run} {name : String}
    (hwhole : ∀ t ∈ timesOf name runs, t.whole?.isSome = true)
    (hbound : exactTotal name runs ≤ 2 ^ 53) :
    (average .union runs).get? name =
      if timesOf name runs = [] then none
      else some (.number
        (nearestFloat (exactTotal name runs) / nearestFloat (timesOf name runs).length)) := by
  have hsum := foldl_add_ofNat hwhole (m := 0) (by rw [Nat.zero_add]; exact hbound)
  rw [get?_average_union, Micros.zero_eq_ofNat, hsum, Nat.zero_add]
  rfl

/-- A quotient of two whole numbers that are floats is the float nearest to it. -/
theorem isNearest_div {m n : Nat} (hm : m ≤ 2 ^ 53) (hpos : 0 < n) (hn : n ≤ 2 ^ 53) :
    IsNearest (m / n) (nearestFloat m / nearestFloat n) := by
  have hpos' : (0 : ℚ) < n := by exact_mod_cast hpos
  have hle : (m : ℚ) / n ≤ ((2 ^ 53 : ℕ) : ℚ) := by
    have hone : (1 : ℚ) ≤ n := by exact_mod_cast hpos
    have hm' : (m : ℚ) ≤ ((2 ^ 53 : ℕ) : ℚ) := by exact_mod_cast hm
    exact le_trans (div_le_self (Nat.cast_nonneg m) hone) hm'
  have hbound : ((2 ^ 53 : ℕ) : ℚ) < 2 ^ (1024 : ℤ) := by
    rw [Nat.cast_pow, ← zpow_natCast]
    exact zpow_lt_zpow_right₀ (by norm_num) (by norm_num)
  have hdiv := isRounded_div (hasValue_nearestFloat hm) (hasValue_nearestFloat hn) hpos'
  obtain ⟨v, hv, hx⟩ := hdiv.hasValue (representable_of_le le_rfl) hbound hle
  exact ⟨v, hx, hv, fun b hb => hv.nearest hb⟩

/-- **The order of runs leaves no trace in their average.**  If all times are
whole numbers and the exact total of every operator is at most `2 ^ 53`, then
under `union` every order of the runs has the same average, bit for bit.  Its
operators are those of the runs; the value of each is its exact total divided by
the number of runs that have it, both as floats, and that is the float nearest
to the exact quotient.  (A number of runs beyond `2 ^ 53`, which only times of
zero leave room for, is itself rounded before it divides.) -/
theorem average_union_order_free {runs other : List Run} (horder : other.Perm runs)
    (hwhole : ∀ run ∈ runs, ∀ time ∈ run.values, time.whole?.isSome = true)
    (hbound : ∀ name, exactTotal name runs ≤ 2 ^ 53) :
    average .union other = average .union runs ∧
    (∀ name, name ∈ (average .union runs).names ↔ ∃ run ∈ runs, name ∈ run.names) ∧
    ∀ name, (∃ run ∈ runs, name ∈ run.names) →
      let count := runs.countP fun run => name ∈ run.names
      ∃ x, (average .union runs).get? name = some (.number x) ∧
        x = nearestFloat (exactTotal name runs) / nearestFloat count ∧
        (count ≤ 2 ^ 53 → IsNearest ((exactTotal name runs : ℚ) / count) x) := by
  have htimes (name : String) : ∀ t ∈ timesOf name runs, t.whole?.isSome = true := by
    intro t ht
    obtain ⟨run, hrun, htime⟩ := List.mem_filterMap.mp ht
    exact hwhole run hrun t (run.mem_values_of_get? htime)
  refine ⟨?_, ?_, ?_⟩
  · refine NameMap.ext_get? ?_
    intro name
    have hperm := perm_timesOf horder name
    have hother : ∀ t ∈ timesOf name other, t.whole?.isSome = true :=
      fun t ht => htimes name t (hperm.mem_iff.mp ht)
    have htotal := exactTotal_perm horder name
    have hnil : timesOf name other = [] ↔ timesOf name runs = [] := by
      rw [← List.length_eq_zero_iff, ← List.length_eq_zero_iff, hperm.length_eq]
    rw [get?_average_whole (htimes name) (hbound name),
      get?_average_whole hother (htotal.trans_le (hbound name)), htotal, hperm.length_eq]
    simp only [hnil]
  · intro name
    rw [NameMap.mem_names_iff, ← timesOf_ne_nil_iff, get?_average_union]
    by_cases hnil : timesOf name runs = [] <;> simp [hnil]
  · intro name hname
    have hne := (timesOf_ne_nil_iff name runs).mpr hname
    have hpos : 0 < runs.countP fun run => name ∈ run.names := by
      rw [← length_timesOf]
      exact List.length_pos_iff.mpr hne
    refine ⟨_, ?_, rfl, ?_⟩
    · rw [get?_average_whole (htimes name) (hbound name), if_neg hne, length_timesOf]
    · exact isNearest_div (hbound name) hpos

/-- Three runs of different operators; the total of one of them is at the bound. -/
def unevenRuns : List Run :=
  [.ofList [("a", .ofNat 9007199254740990), ("b", .ofNat 3)],
    .ofList [("a", .ofNat 1), ("c", .ofNat 7)],
    .ofList [("a", .ofNat 1), ("b", .ofNat 4)]]

theorem unevenRuns_whole : ∀ run ∈ unevenRuns, ∀ time ∈ run.values, time.whole?.isSome = true := by
  decide +kernel

theorem exactTotal_unevenRuns_le (name : String) : exactTotal name unevenRuns ≤ 2 ^ 53 := by
  have hknown : ∀ run ∈ unevenRuns, ∀ name ∈ run.names, exactTotal name unevenRuns ≤ 2 ^ 53 := by
    decide +kernel
  by_cases hname : ∃ run ∈ unevenRuns, name ∈ run.names
  · obtain ⟨run, hrun, hmem⟩ := hname
    exact hknown run hrun name hmem
  · push Not at hname
    rw [exactTotal_eq_zero hname]
    exact Nat.zero_le _

/-- Recorded the other way round, these runs have the same average; that of the
operator at the bound is nearest to a quotient that is no float. -/
theorem average_union_order_free_uneven :
    average .union unevenRuns.reverse = average .union unevenRuns ∧
      ∃ x, (average .union unevenRuns).get? "a" = some (.number x) ∧
        IsNearest ((9007199254740992 : ℕ) / (3 : ℕ)) x := by
  obtain ⟨hsame, -, hvalues⟩ := average_union_order_free (List.reverse_perm unevenRuns)
    unevenRuns_whole exactTotal_unevenRuns_le
  have htotal : exactTotal "a" unevenRuns = 9007199254740992 := by decide +kernel
  have hcount : unevenRuns.countP (fun run => "a" ∈ run.names) = 3 := by decide +kernel
  have hnamed : ∃ run ∈ unevenRuns, "a" ∈ run.names := by decide +kernel
  obtain ⟨x, hx, -, hnearest⟩ := hvalues "a" hnamed
  rw [htotal, hcount] at hnearest
  exact ⟨hsame, x, hx, hnearest (by norm_num)⟩

end Chronograph
