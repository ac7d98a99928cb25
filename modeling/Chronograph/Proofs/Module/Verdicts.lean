import Chronograph.Module.Buffers
import Chronograph.Proofs.Graph.Sizes

/-!
# What becomes of each tensor

A tensor is refused for a reason of its own, which does not depend on the other
tensors: its shape has too many elements, or a constant has not as many as its
shape asks for.  Only tensors of a declared type are looked at
(`Constant.verdict_refused_iff`, `Tensor.verdict_refused_iff`).

The verdicts are walked up to the first refusal, which is the fault of the whole
list; without one, the buffers are those of the declared tensors
(`settle_eq_error_iff`, `settle_eq_ok_iff`).
-/

namespace Chronograph

/-- The element types that are declared. -/
def ElementType.Declared (t : ElementType) : Prop :=
  t = .float ∨ t = .double ∨ t = .int32 ∨ t = .int64

instance (t : ElementType) : Decidable t.Declared := by
  unfold ElementType.Declared
  infer_instance

/-- The declared types are those that have a type in the emitted code. -/
theorem codeType?_eq_none_iff (t : ElementType) : t.codeType? = none ↔ ¬ t.Declared := by
  cases t <;> simp [ElementType.codeType?, ElementType.Declared]

theorem declared_of_codeType? {t : ElementType} {codeType : String}
    (h : t.codeType? = some codeType) : t.Declared := by
  by_contra hnot
  rw [(codeType?_eq_none_iff t).mpr hnot] at h
  cases h

theorem ElementType.Declared.exists_codeType? {t : ElementType} (h : t.Declared) :
    ∃ codeType, t.codeType? = some codeType := by
  refine Option.ne_none_iff_exists'.mp ?_
  intro hnone
  exact (codeType?_eq_none_iff t).mp hnone h

/-! ## Sizes of tensors -/

theorem countElements_eq_ok_iff {name : String} {shape : Shape} {n : UInt64} :
    countElements name shape = .ok n ↔ shape.Fits ∧ n.toNat = shape.product := by
  rw [← elementCount_eq_some_iff, countElements]
  cases shape.elementCount <;> simp

theorem exists_countElements (name : String) {shape : Shape} (h : shape.Fits) :
    ∃ n, countElements name shape = .ok n := by
  cases hcount : shape.elementCount with
  | none => exact absurd h (elementCount_eq_none_iff.mp hcount)
  | some n => exact ⟨n, countElements_eq_ok_iff.mpr (elementCount_eq_some_iff.mp hcount)⟩

theorem countElements_eq_error_iff {name : String} {shape : Shape} {fault : GraphFault} :
    countElements name shape = .error fault ↔ ¬ shape.Fits ∧ fault = .shapeOverflow name := by
  rw [← elementCount_eq_none_iff, countElements]
  cases shape.elementCount <;> simp [eq_comm]

/-- A number of elements is zero in 64 bits exactly if it is zero. -/
theorem eq_zero_iff_toNat {n : UInt64} : n = 0 ↔ n.toNat = 0 := by
  rw [← UInt64.toNat_inj]
  rfl

/-! ## Declarations -/

/-- A constant is declared exactly if it has a declared type and as many elements
as its shape asks for, at least one; its buffer has its literals. -/
theorem Constant.verdict_declared_iff {c : Constant} {b : Buffer} :
    c.verdict = .declared b ↔ ∃ codeType length,
      c.type.codeType? = some codeType ∧ countElements c.name c.shape = .ok length ∧
      c.data.length = length.toNat ∧ length ≠ 0 ∧
      b = {
        tensor := c.name, type := c.type, codeType, length
        init := braced c.data.literals
        nonFinite := c.data.hasNonFinite } := by
  unfold Constant.verdict
  cases hcode : c.type.codeType? with
  | none => simp
  | some codeType =>
      cases hcount : countElements c.name c.shape with
      | error fault => simp
      | ok length =>
          by_cases hlength : c.data.length = length.toNat
          · by_cases hzero : length = 0
            · subst hzero
              have hempty : c.data.length = 0 := hlength
              simp [hempty]
            · simp [hlength, hzero, eq_comm]
          · simp [hlength]

/-- An intermediate tensor is declared exactly if it has a declared type and at
least one element; its buffer is all zero. -/
theorem Tensor.verdict_declared_iff {t : Tensor} {b : Buffer} :
    t.verdict = .declared b ↔ ∃ codeType length,
      t.type.codeType? = some codeType ∧ countElements t.name t.shape = .ok length ∧ length ≠ 0 ∧
      b = { tensor := t.name, type := t.type, codeType, length, init := "\x7b\x7d" } := by
  unfold Tensor.verdict
  cases hcode : t.type.codeType? with
  | none => simp
  | some codeType =>
      cases hcount : countElements t.name t.shape with
      | error fault => simp
      | ok length => by_cases hzero : length = 0 <;> simp [hzero, eq_comm]

/-! ## Refusals -/

/-- Why a constant is refused. -/
inductive Constant.Refused (c : Constant) : GraphFault → Prop
  | overflow (htype : c.type.Declared) (hshape : ¬ c.shape.Fits) : Refused c (.shapeOverflow c.name)
  | size (htype : c.type.Declared) (hshape : c.shape.Fits)
      (hlength : c.data.length ≠ c.shape.product)
      {expected : UInt64} (hexpected : expected.toNat = c.shape.product) :
      Refused c (.constantSize c.name expected c.data.length)

/-- Why an intermediate tensor is refused. -/
inductive Tensor.Refused (t : Tensor) : GraphFault → Prop
  | overflow (htype : t.type.Declared) (hshape : ¬ t.shape.Fits) : Refused t (.shapeOverflow t.name)

theorem Constant.verdict_refused_iff {c : Constant} {fault : GraphFault} :
    c.verdict = .refused fault ↔ c.Refused fault := by
  constructor
  · intro h
    unfold Constant.verdict at h
    split at h
    · cases h
    · next codeType hcode =>
        have htype := declared_of_codeType? hcode
        split at h
        · next hcount =>
            obtain ⟨hshape, rfl⟩ := countElements_eq_error_iff.mp hcount
            cases h
            exact .overflow htype hshape
        · next length hcount =>
            obtain ⟨hshape, hvalue⟩ := countElements_eq_ok_iff.mp hcount
            split at h
            · next hlength =>
                cases h
                exact .size htype hshape (hvalue ▸ hlength) hvalue
            · split at h <;> cases h
  · intro h
    cases h with
    | overflow htype hshape =>
        obtain ⟨codeType, hcode⟩ := htype.exists_codeType?
        have hcount : countElements c.name c.shape = .error (.shapeOverflow c.name) :=
          countElements_eq_error_iff.mpr ⟨hshape, rfl⟩
        simp [Constant.verdict, hcode, hcount]
    | size htype hshape hlength hexpected =>
        obtain ⟨codeType, hcode⟩ := htype.exists_codeType?
        have hcount : countElements c.name c.shape = .ok _ :=
          countElements_eq_ok_iff.mpr ⟨hshape, hexpected⟩
        simp [Constant.verdict, hcode, hcount, hexpected, hlength]

theorem Tensor.verdict_refused_iff {t : Tensor} {fault : GraphFault} :
    t.verdict = .refused fault ↔ t.Refused fault := by
  constructor
  · intro h
    unfold Tensor.verdict at h
    split at h
    · cases h
    · next codeType hcode =>
        split at h
        · next hcount =>
            obtain ⟨hshape, rfl⟩ := countElements_eq_error_iff.mp hcount
            cases h
            exact .overflow (declared_of_codeType? hcode) hshape
        · split at h <;> cases h
  · rintro ⟨htype, hshape⟩
    obtain ⟨codeType, hcode⟩ := htype.exists_codeType?
    have hcount : countElements t.name t.shape = .error (.shapeOverflow t.name) :=
      countElements_eq_error_iff.mpr ⟨hshape, rfl⟩
    simp [Tensor.verdict, hcode, hcount]

/-! ## The walk over the verdicts -/

/-- The buffer that a verdict declares. -/
def Verdict.buffer? : Verdict → Option Buffer
  | .declared b => some b
  | _ => none

/-- No verdict of a list is a refusal. -/
def NoneRefused (verdicts : List Verdict) : Prop := ∀ v ∈ verdicts, ∀ fault, v ≠ .refused fault

theorem noneRefused_cons {v : Verdict} {rest : List Verdict} :
    NoneRefused (v :: rest) ↔ (∀ fault, v ≠ .refused fault) ∧ NoneRefused rest := by
  simp [NoneRefused]

/-- Up to the first refusal, a verdict that is none leaves the fault to the rest. -/
theorem settle_cons_eq_error_iff {v : Verdict} (hv : ∀ fault, v ≠ .refused fault)
    {rest : List Verdict} {fault : GraphFault} :
    (settle (v :: rest)).outcome = .error fault ↔ (settle rest).outcome = .error fault := by
  cases v with
  | declared b =>
      rw [settle]
      cases (settle rest).outcome <;> simp [Except.map]
  | skipped e => rw [settle]
  | refused fault => exact absurd rfl (hv fault)

/-- **The fault of a list of verdicts** is its first refusal. -/
theorem settle_eq_error_iff {verdicts : List Verdict} {fault : GraphFault} :
    (settle verdicts).outcome = .error fault ↔
      ∃ before after, verdicts = before ++ .refused fault :: after ∧ NoneRefused before := by
  induction verdicts with
  | nil => simp [settle]
  | cons v rest ih =>
      by_cases hv : ∀ fault, v ≠ .refused fault
      · rw [settle_cons_eq_error_iff hv, ih]
        constructor
        · rintro ⟨before, after, rfl, hbefore⟩
          exact ⟨v :: before, after, rfl, noneRefused_cons.mpr ⟨hv, hbefore⟩⟩
        · rintro ⟨before, after, hsplit, hbefore⟩
          cases before with
          | nil =>
              cases hsplit
              exact absurd rfl (hv fault)
          | cons first before =>
              cases hsplit
              exact ⟨before, after, rfl, (noneRefused_cons.mp hbefore).2⟩
      · obtain ⟨first, rfl⟩ : ∃ first, v = .refused first := by simpa using hv
        rw [settle]
        constructor
        · intro h
          cases h
          exact ⟨[], rest, rfl, by simp [NoneRefused]⟩
        · rintro ⟨before, after, hsplit, hbefore⟩
          cases before with
          | nil => cases hsplit; rfl
          | cons other before =>
              cases hsplit
              exact absurd rfl ((noneRefused_cons.mp hbefore).1 first)

/-- The first refusal of two lists is in the second only if there is none in the
first. -/
theorem settle_append_eq_error_iff {xs ys : List Verdict} {fault : GraphFault} :
    (settle (xs ++ ys)).outcome = .error fault ↔
      (settle xs).outcome = .error fault ∨ NoneRefused xs ∧ (settle ys).outcome = .error fault := by
  induction xs with
  | nil => simp [settle, NoneRefused]
  | cons v xs ih =>
      by_cases hv : ∀ fault, v ≠ .refused fault
      · rw [List.cons_append, settle_cons_eq_error_iff hv, settle_cons_eq_error_iff hv, ih,
          noneRefused_cons]
        simp [hv]
      · obtain ⟨first, rfl⟩ : ∃ first, v = .refused first := by simpa using hv
        simp [settle, noneRefused_cons]

/-- **The buffers of a list of verdicts** are those of the declared tensors. -/
theorem settle_eq_ok_iff {verdicts : List Verdict} {buffers : List Buffer} :
    (settle verdicts).outcome = .ok buffers ↔
      NoneRefused verdicts ∧ buffers = verdicts.filterMap Verdict.buffer? := by
  induction verdicts generalizing buffers with
  | nil => simp [settle, NoneRefused, eq_comm]
  | cons v rest ih =>
      rw [noneRefused_cons]
      cases v with
      | declared b =>
          rw [settle]
          cases hrest : (settle rest).outcome with
          | error fault =>
              have hnot : ¬ NoneRefused rest := by
                intro hnone
                have := ih.mpr ⟨hnone, rfl⟩
                rw [hrest] at this
                cases this
              simp [Except.map, hnot]
          | ok others =>
              obtain ⟨hnone, rfl⟩ := ih.mp hrest
              simp [Except.map, hnone, Verdict.buffer?, eq_comm]
      | skipped e =>
          rw [settle, ih]
          simp [List.filterMap_cons, Verdict.buffer?]
      | refused fault =>
          rw [settle]
          simp

/-- A buffer comes from a constant or an intermediate tensor that is declared. -/
theorem mem_settled_iff {g : Graph} {buffers : List Buffer} {b : Buffer}
    (h : (settle g.verdicts).outcome = .ok buffers) :
    b ∈ buffers ↔ (∃ c ∈ g.constants, c.verdict = .declared b) ∨
      ∃ t ∈ g.intermediates, t.verdict = .declared b := by
  obtain ⟨-, rfl⟩ := settle_eq_ok_iff.mp h
  have hbuffer (v : Verdict) : v.buffer? = some b ↔ v = .declared b := by
    cases v <;> simp [Verdict.buffer?]
  simp [List.mem_filterMap, hbuffer, Graph.verdicts]

/-- A buffer has the type of its tensor in the emitted code. -/
theorem codeType?_of_mem_settled {g : Graph} {buffers : List Buffer} {b : Buffer}
    (h : (settle g.verdicts).outcome = .ok buffers) (hb : b ∈ buffers) :
    b.type.codeType? = some b.codeType := by
  rcases (mem_settled_iff h).mp hb with ⟨c, -, hc⟩ | ⟨t, -, ht⟩
  · obtain ⟨codeType, length, hcode, -, -, -, rfl⟩ := Constant.verdict_declared_iff.mp hc
    exact hcode
  · obtain ⟨codeType, length, hcode, -, -, rfl⟩ := Tensor.verdict_declared_iff.mp ht
    exact hcode

end Chronograph
