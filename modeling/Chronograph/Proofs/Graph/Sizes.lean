import Mathlib.Algebra.BigOperators.Group.List.Basic
import Mathlib.Data.List.TakeWhile
import Chronograph.Graph.Tensor

/-!
# Sizes of shapes

The number of elements of a shape is multiplied up from the left, and is there
exactly if no product on the way is too large for a word of 64 bits
(`elementCount_eq_some_iff`).  A dimension of zero makes all later products
zero, but does not take back one that came before it and was too large.

So the number differs from the product that fits (`exactCount`) for the shapes
whose first zero comes too late, and for no others (`elementCount_eq_ite`).
-/

namespace Chronograph

namespace Shape

/-- The product of the dimensions. -/
def product (shape : Shape) : Nat := (shape.map UInt64.toNat).prod

/-- Every product of dimensions from the left fits in 64 bits. -/
def Fits (shape : Shape) : Prop := ∀ k, product (shape.take k) < 2 ^ 64

@[simp] theorem product_nil : product [] = 1 := rfl

@[simp] theorem product_cons (d : UInt64) (shape : Shape) :
    product (d :: shape) = d.toNat * product shape := by
  simp [product]

theorem Fits.product_lt {shape : Shape} (h : shape.Fits) : shape.product < 2 ^ 64 := by
  have := h shape.length
  rwa [List.take_length] at this

end Shape

theorem toNat_mul_of_lt {a b : UInt64} (h : a.toNat * b.toNat < 2 ^ 64) :
    (a * b).toNat = a.toNat * b.toNat := by
  rw [UInt64.toNat_mul]
  exact Nat.mod_eq_of_lt h

theorem checkedMul_eq_some_iff {a b n : UInt64} :
    checkedMul a b = some n ↔ a.toNat * b.toNat < 2 ^ 64 ∧ n.toNat = a.toNat * b.toNat := by
  unfold checkedMul
  by_cases h : a.toNat * b.toNat < UInt64.size
  · rw [if_pos h, Option.some_inj, ← UInt64.toNat_inj, toNat_mul_of_lt h]
    exact ⟨fun heq => ⟨h, heq.symm⟩, fun heq => heq.2.symm⟩
  · rw [if_neg h]
    exact ⟨fun hn => absurd hn (by simp), fun hn => absurd hn.1 h⟩

/-- A product that is multiplied up from some number on. -/
theorem foldlM_checkedMul_eq_some_iff {shape : Shape} {a n : UInt64} :
    shape.foldlM checkedMul a = some n ↔
      (∀ k, a.toNat * Shape.product (shape.take k) < 2 ^ 64) ∧
        n.toNat = a.toNat * shape.product := by
  induction shape generalizing a with
  | nil =>
      have ha := a.toNat_lt
      simp [← UInt64.toNat_inj, eq_comm, ha]
  | cons d shape ih =>
      rw [List.foldlM_cons, Option.bind_eq_bind, Option.bind_eq_some_iff]
      constructor
      · rintro ⟨b, hb, hn⟩
        obtain ⟨-, hvalue⟩ := checkedMul_eq_some_iff.mp hb
        obtain ⟨hfits, hn⟩ := ih.mp hn
        refine ⟨fun k => ?_, ?_⟩
        · cases k with
          | zero => simpa using a.toNat_lt
          | succ k => simpa [hvalue, Nat.mul_assoc] using hfits k
        · rw [hn, hvalue, Shape.product_cons, Nat.mul_assoc]
      · rintro ⟨hfits, hn⟩
        have hd : a.toNat * d.toNat < 2 ^ 64 := by simpa using hfits 1
        have hvalue : (a * d).toNat = a.toNat * d.toNat := toNat_mul_of_lt hd
        refine ⟨a * d, checkedMul_eq_some_iff.mpr ⟨hd, hvalue⟩, ih.mpr ⟨fun k => ?_, ?_⟩⟩
        · simpa [hvalue, Nat.mul_assoc] using hfits (k + 1)
        · rw [hn, hvalue, Shape.product_cons, Nat.mul_assoc]

/-- **A shape has a number of elements** exactly if every product from the left
fits in 64 bits; the number is the product of all dimensions. -/
theorem elementCount_eq_some_iff {shape : Shape} {n : UInt64} :
    shape.elementCount = some n ↔ shape.Fits ∧ n.toNat = shape.product := by
  rw [Shape.elementCount, foldlM_checkedMul_eq_some_iff]
  simp [Shape.Fits]

theorem elementCount_eq_none_iff {shape : Shape} : shape.elementCount = none ↔ ¬ shape.Fits := by
  constructor
  · intro hnone hfits
    have hsome : shape.elementCount = some (UInt64.ofNat shape.product) :=
      elementCount_eq_some_iff.mpr ⟨hfits, by
        rw [UInt64.toNat_ofNat']; exact Nat.mod_eq_of_lt hfits.product_lt⟩
    rw [hnone] at hsome
    cases hsome
  · intro hfits
    cases h : shape.elementCount with
    | none => rfl
    | some n => exact absurd (elementCount_eq_some_iff.mp h).1 hfits

/-! ## Zeros -/

namespace Shape

/-- The number of elements that a shape stands for, if it fits in 64 bits. -/
def exactCount (shape : Shape) : Option UInt64 :=
  if shape.product < 2 ^ 64 then some (UInt64.ofNat shape.product) else none

/-- The dimensions before the first zero. -/
def beforeZero (shape : Shape) : Shape := shape.takeWhile (· ≠ 0)

/-- A shape has a zero, but the product of the dimensions before it does not fit. -/
def ZeroTooLate (shape : Shape) : Prop := 0 ∈ shape ∧ 2 ^ 64 ≤ shape.beforeZero.product

instance (shape : Shape) : Decidable shape.ZeroTooLate :=
  inferInstanceAs (Decidable (0 ∈ shape ∧ 2 ^ 64 ≤ shape.beforeZero.product))

theorem beforeZero_cons_zero (shape : Shape) : beforeZero (0 :: shape) = [] := rfl

theorem beforeZero_cons {d : UInt64} (hd : d ≠ 0) (shape : Shape) :
    beforeZero (d :: shape) = d :: beforeZero shape :=
  List.takeWhile_cons_of_pos (by simpa using hd)

/-- Without a zero, all dimensions stand before it. -/
theorem beforeZero_of_not_mem {shape : Shape} (h : 0 ∉ shape) : shape.beforeZero = shape := by
  apply List.takeWhile_eq_self_iff.mpr
  intro d hd
  have hne : d ≠ 0 := fun hzero => h (hzero ▸ hd)
  simpa using hne

theorem product_eq_zero {shape : Shape} (h : 0 ∈ shape) : shape.product = 0 := by
  induction shape with
  | nil => cases h
  | cons d shape ih =>
      rw [product_cons]
      cases List.mem_cons.mp h with
      | inl hd => rw [← hd, UInt64.toNat_zero, Nat.zero_mul]
      | inr hmem => rw [ih hmem, Nat.mul_zero]

/-- The order of the dimensions does not matter to their product. -/
theorem product_perm {shape other : Shape} (h : other.Perm shape) :
    other.product = shape.product :=
  (h.map UInt64.toNat).prod_eq

/-- Products from the left grow up to the first zero and vanish from there on. -/
theorem forall_product_take_iff {shape : Shape} {a : ℕ} :
    (∀ k, a * product (shape.take k) < 2 ^ 64) ↔ a * shape.beforeZero.product < 2 ^ 64 := by
  induction shape generalizing a with
  | nil => simp [beforeZero]
  | cons d shape ih =>
      by_cases hd : d = 0
      · subst hd
        rw [beforeZero_cons_zero]
        constructor
        · intro h
          exact h 0
        · intro h k
          cases k with
          | zero => exact h
          | succ k => simp
      · have hpos : 0 < d.toNat := Nat.pos_of_ne_zero fun h => hd (UInt64.toNat_inj.mp h)
        rw [beforeZero_cons hd, product_cons, ← Nat.mul_assoc, ← ih]
        constructor
        · intro h k
          simpa [Nat.mul_assoc] using h (k + 1)
        · intro h k
          cases k with
          | zero =>
              have hfirst : a * d.toNat * 1 < 2 ^ 64 := h 0
              have hgrow := Nat.le_mul_of_pos_right a hpos
              rw [List.take_zero, product_nil]
              omega
          | succ k => simpa [Nat.mul_assoc] using h k

/-- **A shape fits** exactly if the dimensions before its first zero do. -/
theorem fits_iff {shape : Shape} : shape.Fits ↔ shape.beforeZero.product < 2 ^ 64 := by
  have h := @forall_product_take_iff shape 1
  unfold Fits
  simpa only [Nat.one_mul] using h

theorem not_fits_of_zeroTooLate {shape : Shape} (h : shape.ZeroTooLate) : ¬ shape.Fits := by
  rw [fits_iff]
  exact Nat.not_lt.mpr h.2

theorem fits_of_zero_mem {shape : Shape} (hzero : 0 ∈ shape) (h : ¬ shape.ZeroTooLate) :
    shape.Fits := by
  rw [fits_iff]
  by_contra hlarge
  exact h ⟨hzero, Nat.not_lt.mp hlarge⟩

theorem exactCount_of_zero_mem {shape : Shape} (h : 0 ∈ shape) : shape.exactCount = some 0 := by
  unfold exactCount
  rw [product_eq_zero h]
  rfl

end Shape

/-- **The number of elements is the product, if it fits**, except where a zero comes
too late: then there is none, although the product is zero. -/
theorem elementCount_eq_ite (shape : Shape) :
    shape.elementCount = if shape.ZeroTooLate then none else shape.exactCount := by
  by_cases hlate : shape.ZeroTooLate
  · rw [if_pos hlate]
    exact elementCount_eq_none_iff.mpr (Shape.not_fits_of_zeroTooLate hlate)
  · rw [if_neg hlate]
    by_cases hfits : shape.Fits
    · unfold Shape.exactCount
      rw [if_pos hfits.product_lt]
      apply elementCount_eq_some_iff.mpr
      exact ⟨hfits, UInt64.toNat_ofNat_of_lt' hfits.product_lt⟩
    · have hzero : 0 ∉ shape := fun hzero => hfits (Shape.fits_of_zero_mem hzero hlate)
      have hlarge := mt Shape.fits_iff.mpr hfits
      rw [Shape.beforeZero_of_not_mem hzero] at hlarge
      rw [elementCount_eq_none_iff.mpr hfits, Shape.exactCount, if_neg hlarge]

/-- Two orders of the same dimensions have one number of elements exactly if the zero
comes too late in both or in neither. -/
theorem elementCount_eq_iff_of_perm {shape other : Shape} (h : other.Perm shape) :
    other.elementCount = shape.elementCount ↔ (other.ZeroTooLate ↔ shape.ZeroTooLate) := by
  have hexact : other.exactCount = shape.exactCount := by
    unfold Shape.exactCount
    rw [Shape.product_perm h]
  rw [elementCount_eq_ite, elementCount_eq_ite, hexact]
  by_cases hshape : shape.ZeroTooLate
  · have hcount := Shape.exactCount_of_zero_mem hshape.1
    by_cases hother : other.ZeroTooLate <;> simp [hshape, hother, hcount]
  · by_cases hother : other.ZeroTooLate
    · have hcount := Shape.exactCount_of_zero_mem (h.mem_iff.mp hother.1)
      simp [hshape, hother, hcount]
    · simp [hshape, hother]

end Chronograph
