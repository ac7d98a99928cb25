import Chronograph.Proofs.Module.Acceptance

/-!
# Tensors without elements

A shape with a dimension of zero holds nothing, whatever its other dimensions are, and
a tensor of such a shape should be passed over, or reported as an empty output.  Its
number of elements is multiplied up from the left, however, and the products before
the first zero are looked at one by one.  If one of them does not fit, the tensor is
reported as one that is too large (`Shape.ZeroTooLate`).

What becomes of a tensor with a zero in its shape depends on that alone
(`countElements_of_zero_mem`), so it depends on the order of the dimensions.
-/

namespace Chronograph

/-- The number of elements of a shape with a zero: none at all, or a fault. -/
theorem countElements_of_zero_mem (name : String) {shape : Shape} (h : 0 ∈ shape) :
    countElements name shape =
      if shape.ZeroTooLate then .error (.shapeOverflow name) else .ok 0 := by
  unfold countElements
  rw [elementCount_eq_ite, Shape.exactCount_of_zero_mem h]
  by_cases hlate : shape.ZeroTooLate
  · rw [if_pos hlate, if_pos hlate]
  · rw [if_neg hlate, if_neg hlate]

theorem Tensor.verdict_of_zero_mem {t : Tensor} (htype : t.type.Declared) (hzero : 0 ∈ t.shape) :
    t.verdict = if t.shape.ZeroTooLate then .refused (.shapeOverflow t.name)
      else .skipped (.emptyIntermediateSkipped t.name) := by
  obtain ⟨codeType, hcode⟩ := htype.exists_codeType?
  unfold Tensor.verdict
  rw [hcode, countElements_of_zero_mem t.name hzero]
  by_cases hlate : t.shape.ZeroTooLate
  · rw [if_pos hlate, if_pos hlate]
  · rw [if_neg hlate, if_neg hlate]
    rfl

/-- A constant may still have elements that its shape has no place for. -/
theorem Constant.verdict_of_zero_mem {c : Constant} (htype : c.type.Declared)
    (hzero : 0 ∈ c.shape) :
    c.verdict = if c.shape.ZeroTooLate then .refused (.shapeOverflow c.name)
      else if c.data.length = 0 then .skipped (.emptyConstantSkipped c.name)
      else .refused (.constantSize c.name 0 c.data.length) := by
  obtain ⟨codeType, hcode⟩ := htype.exists_codeType?
  unfold Constant.verdict
  rw [hcode, countElements_of_zero_mem c.name hzero]
  by_cases hlate : c.shape.ZeroTooLate
  · rw [if_pos hlate, if_pos hlate]
  · rw [if_neg hlate, if_neg hlate]
    by_cases hempty : c.data.length = 0 <;> simp [hempty]

theorem Designates.output_of_zero_mem {g : Graph} {t : Tensor} (h : Designates g t)
    (htype : t.type.Declared) (hzero : 0 ∈ t.shape) :
    g.output = .error (if t.shape.ZeroTooLate then .shapeOverflow t.name
      else .emptyOutput t.name) := by
  by_cases hlate : t.shape.ZeroTooLate
  · rw [if_pos hlate]
    exact (OutputFault.overflow h htype (Shape.not_fits_of_zeroTooLate hlate)).output_eq
  · rw [if_neg hlate]
    have hfits := Shape.fits_of_zero_mem hzero hlate
    exact (OutputFault.empty h htype hfits (Shape.product_eq_zero hzero)).output_eq

/-- **The number of elements is the exact product**, or there is none if that does not
fit in 64 bits, for all shapes but those whose zero comes too late; these have no
number of elements, though their product is zero.  So two orders of the same
dimensions agree exactly if the zero comes too late in both or in neither.  A tensor
with a zero in its shape is skipped, or reported as an empty output, exactly if the
zero does not come too late; otherwise it is reported as too large. -/
theorem element_count_exact (shape : Shape) :
    (shape.elementCount = shape.exactCount ↔ ¬ shape.ZeroTooLate) ∧
    (shape.ZeroTooLate → shape.elementCount = none ∧ shape.exactCount = some 0) ∧
    (0 ∈ shape → ¬ shape.ZeroTooLate → shape.elementCount = some 0) ∧
    (∀ other : Shape, other.Perm shape →
      (other.elementCount = shape.elementCount ↔ (other.ZeroTooLate ↔ shape.ZeroTooLate))) ∧
    (∀ t : Tensor, t.shape = shape → t.type.Declared → 0 ∈ shape →
      t.verdict = (if shape.ZeroTooLate then .refused (.shapeOverflow t.name)
        else .skipped (.emptyIntermediateSkipped t.name)) ∧
      ∀ g, Designates g t →
        g.output = .error (if shape.ZeroTooLate then .shapeOverflow t.name
          else .emptyOutput t.name)) ∧
    ∀ c : Constant, c.shape = shape → c.type.Declared → 0 ∈ shape →
      c.verdict = if shape.ZeroTooLate then .refused (.shapeOverflow c.name)
        else if c.data.length = 0 then .skipped (.emptyConstantSkipped c.name)
        else .refused (.constantSize c.name 0 c.data.length) := by
  refine ⟨?_, ?_, ?_, fun other h => elementCount_eq_iff_of_perm h, ?_, ?_⟩
  · rw [elementCount_eq_ite]
    by_cases hlate : shape.ZeroTooLate
    · simp [hlate, Shape.exactCount_of_zero_mem hlate.1]
    · simp [hlate]
  · intro hlate
    rw [elementCount_eq_ite, if_pos hlate]
    exact ⟨rfl, Shape.exactCount_of_zero_mem hlate.1⟩
  · intro hzero hlate
    rw [elementCount_eq_ite, if_neg hlate, Shape.exactCount_of_zero_mem hzero]
  · intro t ht htype hzero
    subst ht
    exact ⟨Tensor.verdict_of_zero_mem htype hzero, fun g h => h.output_of_zero_mem htype hzero⟩
  · intro c hc htype hzero
    subst hc
    exact Constant.verdict_of_zero_mem htype hzero

/-- Its output has a zero behind two dimensions whose product does not fit. -/
def lateGraph : Graph where
  name := "late"
  outputs := ["Y"]
  intermediates := [{ name := "Y", type := .float, shape := [0xFFFFFFFFFFFFFFFF, 2, 0] }]

/-- A zero behind two dimensions whose product does not fit: there is no number of
elements, an output of this shape is reported as too large, and with the zero in front
the number is zero. -/
theorem element_count_exact_late :
    Shape.elementCount [0xFFFFFFFFFFFFFFFF, 2, 0] = none ∧
      Shape.exactCount [0xFFFFFFFFFFFFFFFF, 2, 0] = some 0 ∧
      Shape.elementCount [0, 0xFFFFFFFFFFFFFFFF, 2] = some 0 ∧
      lateGraph.output = .error (.shapeOverflow "Y") := by
  have hlate : Shape.ZeroTooLate [0xFFFFFFFFFFFFFFFF, 2, 0] := by decide
  have hfirst : ¬ Shape.ZeroTooLate [0, 0xFFFFFFFFFFFFFFFF, 2] := by decide
  obtain ⟨-, hnone, -, -, htensor, -⟩ := element_count_exact [0xFFFFFFFFFFFFFFFF, 2, 0]
  obtain ⟨-, -, hzero, -⟩ := element_count_exact [0, 0xFFFFFFFFFFFFFFFF, 2]
  refine ⟨(hnone hlate).1, (hnone hlate).2, hzero (by decide) hfirst, ?_⟩
  obtain ⟨-, houtput⟩ :=
    htensor { name := "Y", type := .float, shape := _ } rfl (.inl rfl) (by decide)
  have h := houtput lateGraph ⟨rfl, [], [], rfl, by simp⟩
  rw [if_pos hlate] at h
  exact h

end Chronograph
