import Chronograph.Proofs.Graph.Integers
import Chronograph.Proofs.Json.Values

/-!
# Constants from descriptions

Which descriptions give a graph, and what the constants of that graph hold.

A number of an integer type must be whole and in the range of the type, and a float
must not be beyond `2 ^ 53`; all other types take every number
(`ElementType.Takes`).  The conversion walks the constants, and the numbers of each,
up to the first one that is not taken (`mapM_eq_error_iff`, used for both walks), so
that a constant of a name that comes again is no less converted.  What is stored for
a number is said by its exact value (`Stores`), one case for each element type.
-/

namespace Chronograph

open Float.Model.UnpackedFloat (unpack)
open Json (bind_eq_ok)

/-! ## Walks with faults -/

section Walks

variable {ε α β : Type} {f : α → Except ε β}

end Walks

/-! ## Numbers that a type takes -/

/-- The whole numbers in the range of an integer type; the other types have no range. -/
def ElementType.InRange : ElementType → ℤ → Prop
  | int32, v => -2 ^ 31 ≤ v ∧ v < 2 ^ 31
  | int64, v => -2 ^ 63 ≤ v ∧ v < 2 ^ 63
  | int8, v => -2 ^ 7 ≤ v ∧ v < 2 ^ 7
  | uint8, v => 0 ≤ v ∧ v < 2 ^ 8
  | float, _ | double, _ | bool, _ | float16, _ => True

/-- The bytes of words of sixteen bits, the lower byte of each first. -/
inductive LowFirst : List (BitVec 16) → List UInt8 → Prop
  | nil : LowFirst [] []
  | cons {word : BitVec 16} {words : List (BitVec 16)} {low high : UInt8} {bytes : List UInt8}
      (hword : word.toNat = low.toNat + 256 * high.toNat) (h : LowFirst words bytes) :
      LowFirst (word :: words) (low :: high :: bytes)

theorem lowFirst_flatMap (words : List (BitVec 16)) : LowFirst words (words.flatMap lowFirst) := by
  induction words with
  | nil => exact .nil
  | cons word words ih =>
      have hword := word.isLt
      refine .cons ?_ ih
      rw [UInt8.toNat_ofNat_of_lt' (by unfold UInt8.size; omega),
        UInt8.toNat_ofNat_of_lt' (by unfold UInt8.size; omega)]
      omega

theorem LowFirst.length {words : List (BitVec 16)} {bytes : List UInt8} (h : LowFirst words bytes) :
    bytes.length = 2 * words.length := by
  induction h with
  | nil => rfl
  | cons hword h ih =>
      simp only [List.length_cons, ih]
      omega

/-- What is stored for numbers, in their order: whole numbers of the integer types, as
bytes in two's complement for the small ones; the nearest double-width float, as it is
or narrowed to the format; a truth value, which is whether the number is not zero. -/
inductive Stores (numbers : List Json.Number) : ElementType → TensorData → Prop
  | float {values : List Float32} (h : numbers.Forall₂ (fun n x => ∃ y, n.NearestDouble y ∧
      NarrowedTo .binary32 y.toModel.unpack x.toModel.unpack) values) :
      Stores numbers .float (.float values)
  | double {values : List Float} (h : numbers.Forall₂ Json.Number.NearestDouble values) :
      Stores numbers .double (.double values)
  | int32 {values : List Int32} (h : numbers.Forall₂ (fun n v => n.StandsFor v.toInt) values) :
      Stores numbers .int32 (.int32 values)
  | int64 {values : List Int64} (h : numbers.Forall₂ (fun n v => n.StandsFor v.toInt) values) :
      Stores numbers .int64 (.int64 values)
  | int8 {bytes : List UInt8} (h : numbers.Forall₂ (fun n b => n.StandsFor b.toInt8.toInt) bytes) :
      Stores numbers .int8 (.raw .int8 bytes)
  | uint8 {bytes : List UInt8} (h : numbers.Forall₂ (fun n b => n.StandsFor b.toNat) bytes) :
      Stores numbers .uint8 (.raw .uint8 bytes)
  | bool {bytes : List UInt8}
      (h : numbers.Forall₂ (fun n b => b = if n.value? = some 0 then 0 else 1) bytes) :
      Stores numbers .bool (.raw .bool bytes)
  | float16 {words : List (BitVec 16)} {bytes : List UInt8}
      (h : numbers.Forall₂ (fun n word => ∃ y, n.NearestDouble y ∧
        NarrowedTo binary16 y.toModel.unpack (unpack binary16 word)) words)
      (hbytes : LowFirst words bytes) : Stores numbers .float16 (.raw .float16 bytes)

/-- There is one element a number. -/
theorem Stores.length {numbers : List Json.Number} {type : ElementType} {data : TensorData}
    (h : Stores numbers type data) : data.length = numbers.length := by
  cases h with
  | float h | double h | int32 h | int64 h => exact h.length_eq.symm
  | int8 h | uint8 h | bool h => exact (Nat.div_one _).trans h.length_eq.symm
  | float16 h hbytes =>
      rw [h.length_eq]
      show _ / 2 = _
      rw [hbytes.length]
      omega

theorem Stores.elementType {numbers : List Json.Number} {type : ElementType} {data : TensorData}
    (h : Stores numbers type data) : data.elementType = type := by
  cases h <;> rfl

theorem Stores.of_float {numbers : List Json.Number} {type : ElementType} {values : List Float32}
    (h : Stores numbers type (.float values)) : numbers.Forall₂ (fun n x => ∃ y, n.NearestDouble y ∧
      NarrowedTo .binary32 y.toModel.unpack x.toModel.unpack) values := by
  cases h with
  | float h => exact h

theorem Stores.exists_float {numbers : List Json.Number} {data : TensorData}
    (h : Stores numbers .float data) : ∃ values, data = .float values := by
  cases h with
  | float h => exact ⟨_, rfl⟩

theorem Stores.of_double {numbers : List Json.Number} {type : ElementType} {values : List Float}
    (h : Stores numbers type (.double values)) :
    numbers.Forall₂ Json.Number.NearestDouble values := by
  cases h with
  | double h => exact h

namespace ConstantDescription

variable {c : ConstantDescription}

theorem integerIn_eq_ok_iff {low high v : ℤ} {n : Json.Number} :
    c.integerIn low high n = .ok v ↔ n.StandsFor v ∧ low ≤ v ∧ v ≤ high := by
  rw [← Json.Number.wholeValue?_eq_some_iff]
  unfold integerIn
  cases n.wholeValue? with
  | none => simp
  | some w =>
      by_cases hrange : low ≤ w ∧ w ≤ high
      · simp only [if_pos hrange, Except.ok.injEq, Option.some.injEq]
        refine ⟨?_, And.left⟩
        intro hw
        exact ⟨hw, hw ▸ hrange⟩
      · simp only [if_neg hrange, Option.some.injEq, reduceCtorEq, false_iff]
        intro hw
        exact hrange (hw.1 ▸ hw.2)

/-- The conversion of an integer type is one walk, for all four of them. -/
theorem elements_of_isInteger (hinteger : c.type.isInteger = true) :
    ∃ (low high : ℤ) (encode : List ℤ → TensorData),
      c.elements = (do return encode (← c.data.mapM (c.integerIn low high))) ∧
      (∀ v, c.type.InRange v ↔ low ≤ v ∧ v ≤ high) ∧
      ∀ numbers values, List.Forall₂ (fun n v => n.StandsFor v ∧ low ≤ v ∧ v ≤ high) numbers values →
        Stores numbers c.type (encode values) := by
  unfold elements
  cases htype : c.type with
  | float | double | bool | float16 =>
      rw [htype] at hinteger
      cases hinteger
  | int32 =>
      refine ⟨_, _, fun values => .int32 (values.map Int32.ofInt), rfl, ?_, ?_⟩
      · intro v
        exact and_congr_right fun _ => Int.lt_add_one_iff (b := 2 ^ 31 - 1)
      · intro numbers values h
        refine .int32 (List.forall₂_map_right_iff.mpr (h.imp ?_))
        intro n v hv
        rw [Int32.toInt_ofInt_of_le hv.2.1 (Int.lt_add_one_iff.mpr hv.2.2)]
        exact hv.1
  | int64 =>
      refine ⟨_, _, fun values => .int64 (values.map Int64.ofInt), rfl, ?_, ?_⟩
      · intro v
        exact and_congr_right fun _ => Int.lt_add_one_iff (b := 2 ^ 63 - 1)
      · intro numbers values h
        refine .int64 (List.forall₂_map_right_iff.mpr (h.imp ?_))
        intro n v hv
        rw [Int64.toInt_ofInt_of_le hv.2.1 (Int.lt_add_one_iff.mpr hv.2.2)]
        exact hv.1
  | int8 =>
      refine ⟨_, _, fun values => .raw .int8 (values.map fun v => (Int8.ofInt v).toUInt8), rfl, ?_, ?_⟩
      · intro v
        exact and_congr_right fun _ => Int.lt_add_one_iff (b := 2 ^ 7 - 1)
      · intro numbers values h
        refine .int8 (List.forall₂_map_right_iff.mpr (h.imp ?_))
        intro n v hv
        show n.StandsFor (Int8.ofInt v).toInt
        rw [Int8.toInt_ofInt_of_le hv.2.1 (Int.lt_add_one_iff.mpr hv.2.2)]
        exact hv.1
  | uint8 =>
      refine ⟨_, _, fun values => .raw .uint8 (values.map fun v => UInt8.ofNat v.toNat), rfl, ?_, ?_⟩
      · intro v
        exact and_congr_right fun _ => Int.lt_add_one_iff (b := 255)
      · intro numbers values h
        refine .uint8 (List.forall₂_map_right_iff.mpr (h.imp ?_))
        intro n v hv
        obtain ⟨hn, hlow, hhigh⟩ := hv
        rw [UInt8.toNat_ofNat_of_lt' (by unfold UInt8.size; omega), Int.toNat_of_nonneg hlow]
        exact hn

/-- The other types take all numbers. -/
theorem exists_elements_of_not_isInteger (hinteger : c.type.isInteger = false) :
    ∃ data, c.elements = .ok data ∧ Stores c.data c.type data := by
  unfold elements
  cases htype : c.type with
  | int32 | int64 | int8 | uint8 =>
      rw [htype] at hinteger
      cases hinteger
  | float =>
      refine ⟨_, rfl, .float (List.forall₂_map_right_iff.mpr (List.forall₂_same.mpr ?_))⟩
      intro n _
      exact ⟨n.toFloat, n.nearestDouble_toFloat, narrowedTo_narrowToSingle _⟩
  | double =>
      refine ⟨_, rfl, .double (List.forall₂_map_right_iff.mpr (List.forall₂_same.mpr ?_))⟩
      intro n _
      exact n.nearestDouble_toFloat
  | bool =>
      refine ⟨_, rfl, .bool (List.forall₂_map_right_iff.mpr (List.forall₂_same.mpr ?_))⟩
      intro n _
      exact if_congr (beq_zero_iff.trans n.nearestDouble_toFloat.eq_zero_iff) rfl rfl
  | float16 =>
      refine ⟨_, rfl, ?_⟩
      rw [← List.flatMap_map (fun n : Json.Number => halfBits n.toFloat) lowFirst]
      refine .float16 (List.forall₂_map_right_iff.mpr (List.forall₂_same.mpr ?_)) (lowFirst_flatMap _)
      intro n _
      exact ⟨n.toFloat, n.nearestDouble_toFloat, narrowedTo_halfBits _⟩

/-- **The elements of a constant** are what its type stores for its numbers. -/
theorem stores_elements {data : TensorData} (h : c.elements = .ok data) :
    Stores c.data c.type data := by
  by_cases hinteger : c.type.isInteger = true
  · obtain ⟨low, high, encode, helements, -, hstores⟩ := elements_of_isInteger hinteger
    rw [helements] at h
    obtain ⟨values, hvalues, h⟩ := bind_eq_ok h
    cases h
    refine hstores _ _ ((forall₂_of_mapM hvalues).imp ?_)
    intro n v hv
    exact integerIn_eq_ok_iff.mp hv
  · rw [Bool.not_eq_true] at hinteger
    obtain ⟨stored, hstored, hstores⟩ := exists_elements_of_not_isInteger hinteger
    rw [hstored] at h
    cases h
    exact hstores

/-- A constant of the graph holds a described constant. -/
structure StoredIn (c : ConstantDescription) (k : Constant) : Prop where
  name : k.name = c.name
  type : k.type = c.type
  shape : k.shape = c.shape
  length : k.data.length = c.data.length
  data : Stores c.data c.type k.data

theorem storedIn_of_toConstant {k : Constant} (h : c.toConstant = .ok k) : c.StoredIn k := by
  obtain ⟨data, hdata, h⟩ := bind_eq_ok h
  cases h
  have hstores := stores_elements hdata
  exact ⟨rfl, hstores.elementType, rfl, hstores.length, hstores⟩

end ConstantDescription

/-! ## Descriptions -/

/-- A constant is the last one of its name. -/
def Description.LastOfName (d : Description) (c : ConstantDescription) : Prop :=
  ∃ before after, d.constants = before ++ c :: after ∧ ∀ later ∈ after, later.name ≠ c.name

/-- No constant behind the last one of a name has that name. -/
theorem eq_of_last {c k : ConstantDescription} {after between after' : List ConstantDescription}
    (h : c :: after = between ++ k :: after') (hlast : ∀ later ∈ after, later.name ≠ c.name)
    (hname : k.name = c.name) : c = k := by
  cases between with
  | nil => exact (List.cons.inj h).1
  | cons first between =>
      have hmem : k ∈ after := by
        rw [(List.cons.inj h).2]
        simp
      exact absurd hname (hlast k hmem)

/-- Two constants that are the last one of the same name are the same. -/
theorem Description.LastOfName.unique {d : Description} {c k : ConstantDescription}
    (hc : d.LastOfName c) (hk : d.LastOfName k) (hname : c.name = k.name) : c = k := by
  obtain ⟨before, after, hsplit, hlast⟩ := hc
  obtain ⟨before', after', hsplit', hlast'⟩ := hk
  rw [hsplit] at hsplit'
  cases List.append_eq_append_iff.mp hsplit' with
  | inl h =>
      obtain ⟨between, -, hafter⟩ := h
      exact eq_of_last hafter hlast hname.symm
  | inr h =>
      obtain ⟨between, -, hafter⟩ := h
      exact (eq_of_last hafter hlast' hname).symm

namespace Graph

variable {d : Description}

/-- Every constant of the graph holds the last described one of its name. -/
theorem exists_storedIn {g : Graph} (h : ofDescription d = .ok g) {k : Constant}
    (hk : k ∈ g.constants) : ∃ c, d.LastOfName c ∧ c.StoredIn k := by
  obtain ⟨constants, hconstants, htable⟩ := constants_ofDescription h
  rw [htable] at hk
  obtain ⟨before, after, rfl, hafter⟩ := last_of_mem_tableOf hk
  have hstored := (forall₂_of_mapM hconstants).imp fun c k hk =>
    ConstantDescription.storedIn_of_toConstant hk
  obtain ⟨before', c, after', hsplit, hck, hrest⟩ := split_of_forall₂ hstored
  refine ⟨c, ⟨before', after', hsplit, ?_⟩, hck⟩
  intro later hlater
  obtain ⟨k', hk', hlaterk⟩ := exists_of_forall₂ hrest hlater
  rw [← hlaterk.name, ← hck.name]
  exact hafter k' hk'

end Graph

end Chronograph
