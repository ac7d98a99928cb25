import Chronograph.Proofs.Graph.Integers
import Chronograph.Proofs.Module.Buffers

/-!
# Constants that lose their elements

The buffer of a constant is as long as its shape asks for, and its initializer
should spell that many elements.  An array whose initializer is shorter is filled
up with zeros, without a word from a compiler.

The declared type, the length and the literals of a constant are three views of
its data.  They agree for all data but bytes, which may bear any element type:
under a type that is declared, bytes have a type and a length, but no literals
(`Constant.Lost`).  The graph of a description keeps as bytes only what is not
declared, so none of its constants is lost.
-/

namespace Chronograph

/-- A text stands for a value of an element type. -/
def ElementType.Literal : ElementType → List Char → Prop
  | float, text => ∃ x, readFloat32 text = some x
  | double, text => ∃ x, readFloat64 text = some x
  | int32, text => ∃ v, (readInt text).bind IntExpr.eval = some (false, v)
  | int64, text => ∃ v, (readInt text).bind IntExpr.eval = some (true, v)
  | int8, _ | uint8, _ | bool, _ | float16, _ => False

/-- The initializer of a buffer spells as many elements as the buffer has. -/
def Buffer.Complete (b : Buffer) : Prop :=
  ∃ inner, b.init.toList = '{' :: inner ++ ['}'] ∧
    (splitAtCommas inner).length = b.length.toNat ∧
    ∀ text ∈ splitAtCommas inner, b.type.Literal text

/-- A constant of bytes under a type that is declared, with as many elements as its
shape asks for. -/
inductive Constant.Lost (c : Constant) : Prop
  | intro (type : ElementType) (bytes : List UInt8) (hdata : c.data = .raw type bytes)
      (htype : type.Declared) (hshape : c.shape.Fits)
      (hlength : bytes.length / type.byteSize = c.shape.product) (hpos : 0 < c.shape.product)

/-! ## Literals of elements -/

/-- A text that stands for an element is a literal of its type. -/
theorem literal_of_denotes {data : TensorData} {texts : List (List Char)} (h : Denotes data texts) :
    ∀ text ∈ texts, data.elementType.Literal text := by
  intro text htext
  cases data with
  | float values | double values =>
      obtain ⟨x, -, hx⟩ := exists_of_forall₂ h.flip htext
      exact ⟨x, hx.2⟩
  | int32 values | int64 values =>
      obtain ⟨x, -, hx⟩ := exists_of_forall₂ h.flip htext
      exact ⟨x.toInt, hx⟩
  | raw type bytes => exact h.elim

/-- Nothing is no literal. -/
theorem not_literal_nil (type : ElementType) : ¬ type.Literal [] := by
  cases type with
  | float | double =>
      intro h
      obtain ⟨x, hx⟩ := h
      cases hx
  | int32 | int64 =>
      intro h
      obtain ⟨v, hv⟩ := h
      cases hv
  | int8 | uint8 | bool | float16 => exact id

/-! ## Declared constants -/

/-- An initializer with the literals of the data is complete. -/
theorem Buffer.complete_of_literals {b : Buffer} {data : TensorData}
    (hdata : ∀ type bytes, data ≠ .raw type bytes) (hinit : b.init = braced data.literals)
    (htype : b.type = data.elementType) (hlength : data.length = b.length.toNat)
    (hpos : 0 < data.length) : b.Complete := by
  have hcount := length_literals hdata
  have hne : data.literals ≠ [] := List.ne_nil_of_length_pos (hcount ▸ hpos)
  have hsplit := splitAtCommas_intercalate hne (comma_not_mem_literals data)
  refine ⟨[',', ' '].intercalate data.literals, ?_, ?_, ?_⟩
  · rw [hinit]
    exact String.toList_ofList
  · rw [hsplit, hcount, hlength]
  · rw [hsplit, htype]
    exact literal_of_denotes (denotes_literals hdata)

/-- An initializer without elements is that of no buffer. -/
theorem Buffer.not_complete_of_empty {b : Buffer} (h : b.init = "\x7b\x7d") : ¬ b.Complete := by
  intro hcomplete
  obtain ⟨inner, hinner, -, hliterals⟩ := hcomplete
  have hnil : inner = [] := by
    rw [h] at hinner
    exact List.append_cancel_right (List.cons.inj hinner).2.symm
  rw [hnil] at hliterals
  exact not_literal_nil _ (hliterals [] List.mem_cons_self)

/-- The type of a declared constant's buffer is that of its data, and it is a
declared one. -/
theorem Constant.type_of_verdict {c : Constant} {b : Buffer} (h : c.verdict = .declared b) :
    b.type = c.data.elementType ∧ c.data.elementType.Declared := by
  obtain ⟨codeType, length, hcode, -, -, -, rfl⟩ := Constant.verdict_declared_iff.mp h
  exact ⟨rfl, declared_of_codeType? hcode⟩

/-- A lost constant is declared all the same, with an initializer of no elements. -/
theorem Constant.Lost.verdict {c : Constant} (h : c.Lost) :
    ∃ b, c.verdict = .declared b ∧ b.init = "\x7b\x7d" ∧ b.length.toNat = c.shape.product := by
  obtain ⟨type, bytes, hdata, htype, hshape, hlength, hpos⟩ := h
  obtain ⟨codeType, hcode⟩ := htype.exists_codeType?
  obtain ⟨length, hcount⟩ := exists_countElements c.name hshape
  obtain ⟨-, hvalue⟩ := countElements_eq_ok_iff.mp hcount
  have hne : length ≠ 0 := fun hzero => by
    have := eq_zero_iff_toNat.mp hzero
    omega
  have hctype : c.type = type := by
    unfold Constant.type
    rw [hdata]
    rfl
  have hclength : c.data.length = length.toNat := by
    rw [hdata, hvalue]
    exact hlength
  refine ⟨_, Constant.verdict_declared_iff.mpr
    ⟨codeType, length, hctype ▸ hcode, hcount, hclength, hne, rfl⟩, ?_, hvalue⟩
  rw [hdata]
  rfl

/-- Bytes that are declared are lost. -/
theorem Constant.lost_of_raw {c : Constant} {b : Buffer} (h : c.verdict = .declared b)
    {type : ElementType} {bytes : List UInt8} (hdata : c.data = .raw type bytes) : c.Lost := by
  obtain ⟨codeType, length, hcode, hcount, hlength, hne, -⟩ := Constant.verdict_declared_iff.mp h
  obtain ⟨hshape, hvalue⟩ := countElements_eq_ok_iff.mp hcount
  have hpos : length.toNat ≠ 0 := fun hzero => hne (eq_zero_iff_toNat.mpr hzero)
  have htype : type.Declared := by
    have := declared_of_codeType? hcode
    unfold Constant.type at this
    rw [hdata] at this
    exact this
  rw [hdata] at hlength
  exact ⟨type, bytes, hdata, htype, hshape, hlength.trans hvalue, by omega⟩

theorem Constant.complete_iff {c : Constant} {b : Buffer} (h : c.verdict = .declared b) :
    b.Complete ↔ ∀ type bytes, c.data ≠ .raw type bytes := by
  constructor
  · intro hcomplete type bytes hdata
    obtain ⟨b', hb', hempty, -⟩ := (Constant.lost_of_raw h hdata).verdict
    obtain rfl : b = b' := Verdict.declared.inj (h.symm.trans hb')
    exact Buffer.not_complete_of_empty hempty hcomplete
  · intro hdata
    obtain ⟨hinit, hlength, hpos⟩ := Constant.verdict_eq_declared h
    exact Buffer.complete_of_literals hdata hinit (Constant.type_of_verdict h).1 hlength hpos

/-! ## Graphs of descriptions -/

/-- Bytes are kept of a described constant only if its type is not declared. -/
theorem ConstantDescription.not_declared_of_raw {c : ConstantDescription} {type : ElementType}
    {bytes : List UInt8} (h : c.elements = .ok (.raw type bytes)) : ¬ type.Declared := by
  have htype : type = c.type := c.elements_type h
  rw [htype]
  unfold elements at h
  cases hc : c.type with
  | float | double =>
      rw [hc] at h
      cases h
  | int32 | int64 =>
      rw [hc] at h
      obtain ⟨values, -, h⟩ := Json.bind_eq_ok h
      cases h
  | int8 | uint8 | bool | float16 => simp [ElementType.Declared]

theorem not_lost_of_described {d : Description} {g : Graph} (h : Graph.ofDescription d = .ok g)
    {c : Constant} (hc : c ∈ g.constants) : ¬ c.Lost := by
  intro hlost
  obtain ⟨type, bytes, hdata, htype, -⟩ := hlost
  obtain ⟨constants, hconstants, htable⟩ := constants_ofDescription h
  rw [htable] at hc
  obtain ⟨before, after, rfl, -⟩ := last_of_mem_tableOf hc
  obtain ⟨before', written, after', -, hwritten, -⟩ := split_of_forall₂ (forall₂_of_mapM hconstants)
  obtain ⟨data, helements, hk⟩ := Json.bind_eq_ok hwritten
  cases hk
  subst hdata
  exact ConstantDescription.not_declared_of_raw helements htype

/-- **A declared constant keeps its elements** exactly if its data are no bytes: its
initializer is then a list of as many literals of the element type as the buffer is
long.  The constants that are declared without their elements are the lost ones, and
a lost constant is declared with an initializer of no elements at all.  No constant of
a described graph is lost. -/
theorem initializer_complete (c : Constant) :
    (∀ b, c.verdict = .declared b → (b.Complete ↔ ∀ type bytes, c.data ≠ .raw type bytes)) ∧
    ((∃ b, c.verdict = .declared b ∧ ¬ b.Complete) ↔ c.Lost) ∧
    (c.Lost → ∃ b, c.verdict = .declared b ∧ b.init = "\x7b\x7d" ∧
      b.length.toNat = c.shape.product) ∧
    ∀ d g, Graph.ofDescription d = .ok g → c ∈ g.constants → ¬ c.Lost := by
  refine ⟨fun b h => Constant.complete_iff h, ⟨?_, ?_⟩, Constant.Lost.verdict,
    fun d g h hc => not_lost_of_described h hc⟩
  · intro h
    obtain ⟨b, hb, hnot⟩ := h
    rw [Constant.complete_iff hb] at hnot
    push Not at hnot
    obtain ⟨type, bytes, hdata⟩ := hnot
    exact Constant.lost_of_raw hb hdata
  · intro h
    obtain ⟨b, hb, hempty, -⟩ := h.verdict
    exact ⟨b, hb, Buffer.not_complete_of_empty hempty⟩

/-- Two floats as bytes. -/
def lostConstant : Constant where
  name := "W"
  shape := [2]
  data := .raw .float [0x00, 0x00, 0x80, 0x3F, 0x00, 0x00, 0x00, 0x40]

/-- A buffer of two floats, both zero. -/
theorem initializer_complete_lost :
    lostConstant.verdict = .declared {
      tensor := "W", type := .float, codeType := "float", length := 2, init := "\x7b\x7d" } ∧
    lostConstant.Lost ∧ ∃ b, lostConstant.verdict = .declared b ∧ ¬ b.Complete := by
  obtain ⟨-, hlost, -, -⟩ := initializer_complete lostConstant
  have h : lostConstant.Lost := by
    have hcount : countElements "W" [2] = .ok 2 := by decide
    exact ⟨.float, _, rfl, .inl rfl, (countElements_eq_ok_iff.mp hcount).1, by decide, by decide⟩
  exact ⟨by decide +kernel, h, hlost.mpr h⟩

end Chronograph
