import Mathlib.Data.List.Forall2
import Chronograph.Proofs.Code.Literal
import Chronograph.Proofs.Module.Verdicts

/-!
# Initializers hold the constants

A constant is declared only with as many elements as its shape asks for, and at
least one.  Its initializer is then a braced list with one literal an element,
which is taken apart again at the separators, because no literal contains one;
and each literal is read back as its element (`denotes_literals`), for all bit
patterns of the four element types that are declared.
-/

namespace Chronograph

/-- Texts that stand for the elements of a constant, one by one and in order. -/
def Denotes : TensorData → List (List Char) → Prop
  | .float values, texts => values.Forall₂ (fun x text =>
      SpellsFloat ['f'] x.toModel.unpack text ∧ readFloat32 text = some x) texts
  | .double values, texts => values.Forall₂ (fun x text =>
      SpellsFloat [] x.toModel.unpack text ∧ readFloat64 text = some x) texts
  | .int32 values, texts => values.Forall₂ (fun x text =>
      (readInt text).bind IntExpr.eval = some (false, x.toInt)) texts
  | .int64 values, texts => values.Forall₂ (fun x text =>
      (readInt text).bind IntExpr.eval = some (true, x.toInt)) texts
  | .raw .., _ => False

/-- The literals of a constant stand for its elements. -/
theorem denotes_literals {data : TensorData} (hdata : ∀ type bytes, data ≠ .raw type bytes) :
    Denotes data data.literals := by
  cases data with
  | float values =>
      refine List.forall₂_map_right_iff.mpr (List.forall₂_same.mpr ?_)
      intro x _
      exact ⟨spellsFloat_floatLiteral _ _ _, readFloat32_float32Literal x⟩
  | double values =>
      refine List.forall₂_map_right_iff.mpr (List.forall₂_same.mpr ?_)
      intro x _
      exact ⟨spellsFloat_floatLiteral _ _ _, readFloat64_float64Literal x⟩
  | int32 values =>
      refine List.forall₂_map_right_iff.mpr (List.forall₂_same.mpr ?_)
      intro x _
      exact eval_int32Literal x
  | int64 values =>
      refine List.forall₂_map_right_iff.mpr (List.forall₂_same.mpr ?_)
      intro x _
      exact eval_int64Literal x
  | raw type bytes => exact absurd rfl (hdata type bytes)

/-- There is one literal an element. -/
theorem length_literals {data : TensorData} (hdata : ∀ type bytes, data ≠ .raw type bytes) :
    data.literals.length = data.length := by
  cases data with
  | raw type bytes => exact absurd rfl (hdata type bytes)
  | _ => exact List.length_map _

/-- What is known of a constant that is declared. -/
theorem Constant.verdict_eq_declared {c : Constant} {b : Buffer} (h : c.verdict = .declared b) :
    b.init = braced c.data.literals ∧ c.data.length = b.length.toNat ∧ 0 < c.data.length := by
  obtain ⟨codeType, length, -, -, hlength, hne, rfl⟩ := Constant.verdict_declared_iff.mp h
  have hpos : length.toNat ≠ 0 := fun hzero => hne (eq_zero_iff_toNat.mpr hzero)
  exact ⟨rfl, hlength, by omega⟩

/-- **The initializer of a declared constant is a list of its elements**, each
spelled by a literal that is read back as the element, and nothing else. -/
theorem declared_denotes (c : Constant) (b : Buffer) (hdata : ∀ type bytes, c.data ≠ .raw type bytes)
    (h : c.verdict = .declared b) :
    ∃ inner, b.init.toList = '{' :: inner ++ ['}'] ∧
      (splitAtCommas inner).length = c.data.length ∧ Denotes c.data (splitAtCommas inner) := by
  obtain ⟨hinit, -, hpos⟩ := Constant.verdict_eq_declared h
  have hlength := length_literals hdata
  have hne : c.data.literals ≠ [] := by
    intro hnil
    rw [hnil, List.length_nil] at hlength
    omega
  refine ⟨[',', ' '].intercalate c.data.literals, ?_, ?_, ?_⟩
  · rw [hinit]
    exact String.toList_ofList
  · rw [splitAtCommas_intercalate hne (comma_not_mem_literals c.data)]
    exact hlength
  · rw [splitAtCommas_intercalate hne (comma_not_mem_literals c.data)]
    exact denotes_literals hdata

/-- A constant of the least `int` and its neighbour. -/
def leastConstant : Constant where
  name := "least"
  shape := [2]
  data := .int32 [Int32.minValue, Int32.minValue + 1]

/-- The buffer of that constant. -/
def leastBuffer : Buffer where
  tensor := "least"
  type := .int32
  codeType := "int32_t"
  length := 2
  init := "\x7b(-2147483647 - 1), -2147483647\x7d"

theorem declared_denotes_least : leastConstant.verdict = .declared leastBuffer ∧
    ∃ inner, leastBuffer.init.toList = '{' :: inner ++ ['}'] ∧
      (splitAtCommas inner).length = leastConstant.data.length ∧
      Denotes leastConstant.data (splitAtCommas inner) :=
  have h : leastConstant.verdict = .declared leastBuffer := by decide +kernel
  ⟨h, declared_denotes leastConstant leastBuffer (by simp [leastConstant]) h⟩

end Chronograph
