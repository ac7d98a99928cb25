import Chronograph.Proofs.Graph.Constants

/-!
# Weights of described graphs

The numbers of a description that is read are finite, because every number that is
read has a value; they reach the constants of floats in two steps.  The nearest
double-width float is finite again.  The narrowing to single width is not checked, and
turns a magnitude of at least `2 ^ 128 - 2 ^ 103` into an infinity
(`Json.Number.TooLargeForSingle`).

So double-width constants have finite elements only (`isFinite_of_double`), and the
infinite elements of single-width constants are those of the numbers that are too large
(`elements_of_float`).
-/

namespace Chronograph

open Json (Follows RecordFormat)

/-! ## Numbers of a description -/

/-- A number has a value, which a float that is not finite has not. -/
def Json.Number.Finite (n : Json.Number) : Prop := ∃ v, n.value? = some v

/-- All numbers of constants are finite. -/
def Description.FiniteNumbers (d : Description) : Prop :=
  ∀ c ∈ d.constants, ∀ n ∈ c.data, n.Finite

theorem Json.readNumber_finite :
    Follows (fun n (_ : Json.Number) => n.Finite) Json.readNumber Json.readNumber := by
  intro s n rest h
  exact ⟨n, h, readNumber_value h⟩

theorem ConstantDescription.format_finite :
    Follows (fun c (_ : ConstantDescription) => ∀ n ∈ c.data, n.Finite)
      ConstantDescription.format.read ConstantDescription.format.read := by
  apply RecordFormat.follows
  · exact fun n hn => absurd hn List.not_mem_nil
  · refine .cons ?_ (.cons ?_ (.cons ?_ (.cons ?_ .nil)))
    case refine_4 =>
      refine Json.Field.follows_of Json.readNumber_finite.list ?_ _ _
      intro c _ numbers _ _ hnumbers n hn
      obtain ⟨_, -, hfinite⟩ := exists_of_forall₂ hnumbers hn
      exact hfinite
    all_goals
      refine Json.Field.follows_of (Follows.refl _) ?_ _ _
      intro c _ v _ h _
      exact h

/-- **The numbers of a description that is read are finite.** -/
theorem Description.ofJson_finite {text : String} {d : Description}
    (h : Description.ofJson text = .ok d) : d.FiniteNumbers := by
  suffices hfollows : Follows (fun (d _ : Description) => d.FiniteNumbers) Description.format.read
      Description.format.read by
    obtain ⟨_, -, hd⟩ := hfollows.readWhole h
    exact hd
  apply RecordFormat.follows
  · exact fun c hc => absurd hc List.not_mem_nil
  · refine .cons ?_ (.cons ?_ (.cons ?_ (.cons ?_ (.cons ?_ (.cons ?_ (.cons ?_ (.cons ?_
      (.cons ?_ .nil))))))))
    case refine_5 =>
      refine Json.Field.follows_of ConstantDescription.format_finite.list ?_ _ _
      intro d _ constants _ _ hconstants c hc
      obtain ⟨_, -, hfinite⟩ := exists_of_forall₂ hconstants hc
      exact hfinite
    all_goals
      refine Json.Field.follows_of (Follows.refl _) ?_ _ _
      intro d _ v _ h _
      exact h

/-! ## The two conversions -/

/-- The magnitudes that single-width floats do not reach. -/
def Json.Number.TooLargeForSingle (n : Json.Number) : Prop :=
  ∃ v, n.value? = some v ∧ 2 ^ 128 - 2 ^ 103 ≤ |v|

/-- What is rounded from a word is at most `2 ^ 64`. -/
theorem RoundsTo.le_of_word {k : ℕ} {v : ℚ} (h : RoundsTo .binary64 k v) (hk : k ≤ 2 ^ 64) :
    v ≤ 2 ^ 64 := by
  have hbound := representable_two_zpow (by norm_num : -1074 ≤ (64 : ℤ))
  exact h.le_of_le hbound (by exact_mod_cast hk)

namespace Json.Number.NearestDouble

variable {n : Json.Number} {y : Float}

/-- The nearest float of a finite number is finite, and below a limit beyond all words
exactly if the number is. -/
theorem exactValue? (h : n.NearestDouble y) {v limit : ℚ} (hv : n.value? = some v)
    (hlimit : 2 ^ 64 < limit) :
    ∃ q, Chronograph.exactValue? y.toModel.unpack = some q ∧ (|q| < limit ↔ |v| < limit) := by
  cases h with
  | @natural k _ w hround hx =>
      have hword : (k.toNat : ℚ) ≤ 2 ^ 64 := by exact_mod_cast k.toNat_lt.le
      have hw := hround.le_of_word k.toNat_lt.le
      refine ⟨_, hx.hasMagnitude.exactValue?, iff_of_true ?_ ?_⟩
      · rw [abs_withSign _ hx.nonneg]
        linarith
      · rw [← Option.some.inj hv, abs_of_nonneg (Nat.cast_nonneg _)]
        linarith
  | @negative k _ w hround hx =>
      have hlow := k.le_toInt
      have hhigh := k.toInt_lt
      have hword : k.toInt.natAbs ≤ 2 ^ 64 := by omega
      have hword' : (k.toInt.natAbs : ℚ) ≤ 2 ^ 64 := by exact_mod_cast hword
      have hw := hround.le_of_word hword
      refine ⟨_, hx.hasMagnitude_neg.exactValue?, iff_of_true ?_ ?_⟩
      · rw [abs_withSign _ hx.nonneg]
        linarith
      · rw [← Option.some.inj hv, ← Int.cast_abs, ← Nat.cast_natAbs]
        linarith
  | float x => exact ⟨v, hv, Iff.rfl⟩

/-- The nearest double-width float of a finite number is finite. -/
theorem isFinite (h : n.NearestDouble y) (hn : n.Finite) : y.isFinite = true := by
  obtain ⟨v, hv⟩ := hn
  obtain ⟨q, hq, -⟩ := h.exactValue? hv (lt_add_one _)
  exact isFinite_iff_exactValue?.mpr ⟨q, hq⟩

/-- **The narrowed float of a finite number** is not NaN, and finite unless the number
is too large. -/
theorem narrowed (h : n.NearestDouble y) (hn : n.Finite) {x : Float32}
    (hx : NarrowedTo .binary32 y.toModel.unpack x.toModel.unpack) :
    x.isNaN = false ∧ (x.isFinite = true ↔ ¬ n.TooLargeForSingle) := by
  obtain ⟨v, hv⟩ := hn
  obtain ⟨q, hq, hlimit⟩ := h.exactValue? hv (by norm_num : (2 : ℚ) ^ 64 < 2 ^ 128 - 2 ^ 103)
  constructor
  · show x.toModel.unpack.isNaN = false
    rw [← Bool.not_eq_true, hx.isNaN_iff]
    intro hnan
    cases hy : y.toModel.unpack with
    | notANumber =>
        rw [hy] at hq
        cases hq
    | _ =>
        rw [hy] at hnan
        cases hnan
  · show x.toModel.unpack.isFinite = true ↔ _
    rw [hx.isFinite_iff (by decide), overflowLimit_binary32]
    simp only [TooLargeForSingle, hq, hv, Option.some.injEq, exists_eq_left', not_le]
    exact hlimit

end Json.Number.NearestDouble

/-! ## Constants of floats -/

/-- **Single-width constants** have no NaN, and the infinities of the numbers that are
too large. -/
theorem ConstantDescription.StoredIn.elements_of_float {c : ConstantDescription} {k : Constant}
    (h : c.StoredIn k) (hfinite : ∀ n ∈ c.data, n.Finite) {values : List Float32}
    (hdata : k.data = .float values) :
    c.data.Forall₂ (fun n x => x.isNaN = false ∧ (x.isFinite = true ↔ ¬ n.TooLargeForSingle))
      values := by
  have hstores := h.data
  rw [hdata] at hstores
  refine ((List.forall₂_and_left _ _).mpr ⟨hfinite, hstores.of_float⟩).imp ?_
  intro n x hnx
  obtain ⟨hn, y, hy, hx⟩ := hnx
  exact hy.narrowed hn hx

/-- A single-width constant has an infinite element exactly if one of its numbers is too
large. -/
theorem ConstantDescription.StoredIn.exists_isInf_iff {c : ConstantDescription} {k : Constant}
    (h : c.StoredIn k) (hfinite : ∀ n ∈ c.data, n.Finite) {values : List Float32}
    (hdata : k.data = .float values) :
    (∃ x ∈ values, x.toModel.unpack.isInf = true) ↔ ∃ n ∈ c.data, n.TooLargeForSingle := by
  have hall := h.elements_of_float hfinite hdata
  have hinf : ∀ (n : Json.Number) (x : Float32),
      x.isNaN = false ∧ (x.isFinite = true ↔ ¬ n.TooLargeForSingle) →
        (x.toModel.unpack.isInf = true ↔ n.TooLargeForSingle) := by
    intro n x hnx
    exact (isInf_iff hnx.1).trans ((not_congr hnx.2).trans not_not)
  constructor
  · intro hx
    obtain ⟨x, hx, hxinf⟩ := hx
    obtain ⟨n, hn, hnx⟩ := exists_of_forall₂ hall.flip hx
    exact ⟨n, hn, (hinf n x hnx).mp hxinf⟩
  · intro hn
    obtain ⟨n, hn, hlarge⟩ := hn
    obtain ⟨x, hx, hnx⟩ := exists_of_forall₂ hall hn
    exact ⟨x, hx, (hinf n x hnx).mpr hlarge⟩

namespace Graph

variable {d : Description} {g : Graph} {k : Constant}

/-- Every number of the last constant of a name is a number of the description. -/
theorem finite_of_lastOfName (hd : d.FiniteNumbers) {c : ConstantDescription}
    (hc : d.LastOfName c) : ∀ n ∈ c.data, n.Finite := by
  obtain ⟨before, after, hsplit, -⟩ := hc
  exact hd c (by rw [hsplit]; simp)

/-- **Double-width constants are finite.** -/
theorem isFinite_of_double (hd : d.FiniteNumbers) (h : ofDescription d = .ok g)
    (hk : k ∈ g.constants) {values : List Float} (hdata : k.data = .double values) :
    ∀ x ∈ values, x.isFinite = true := by
  obtain ⟨c, hc, hstored⟩ := exists_storedIn h hk
  have hstores := hstored.data
  rw [hdata] at hstores
  intro x hx
  obtain ⟨n, hn, hnx⟩ := exists_of_forall₂ hstores.of_double.flip hx
  exact hnx.isFinite (finite_of_lastOfName hd hc n hn)

end Graph

end Chronograph
