import Chronograph.Proofs.Code.Literal
import Chronograph.Proofs.Graph.Weights
import Chronograph.Proofs.Module.Arrays

/-!
# Macros in initializers

The literals of NaN and the infinities are the macros `NAN` and `INFINITY`.  Each has a
letter that stands in no number, and neither between numbers nor around them
(`isNumberChar`), and the other macro has not.  So a macro occurs in the initializer of
a constant exactly if the constant has such an element (`macro_infix_iff`).

For the graph of a description this leaves little: there are no NaNs, double-width
constants are finite, and the infinities are those of numbers that are too large for
single width (`finite_weights`).
-/

namespace Chronograph

open Float.Model (Format UnpackedFloat)

/-! ## Characters of numbers -/

/-- The characters of the literals of numbers, with those between and around them. -/
def isNumberChar (c : Char) : Bool :=
  c.isDigit || ['-', '.', 'f', 'L', '(', ')', ' ', ',', '{', '}'].contains c

theorem AllDigits.all_isNumberChar {text : List Char} (h : AllDigits text) :
    text.all isNumberChar = true := by
  rw [List.all_eq_true]
  intro c hc
  rw [isNumberChar, h c hc, Bool.true_or]

theorem DecimalShape.all_isNumberChar {suffix text : List Char} (h : DecimalShape suffix text)
    (hsuffix : suffix.all isNumberChar = true) : text.all isNumberChar = true := by
  obtain ⟨sign, whole, fraction, hsign, -, -, hdigits, rfl⟩ := h
  obtain ⟨hwhole, hfraction⟩ := allDigits_append.mp hdigits
  have hpoint : isNumberChar '.' = true := by decide
  have hsigned : sign.all isNumberChar = true := by
    cases hsign with
    | inl h => rw [h]; rfl
    | inr h => rw [h]; decide
  simp [hsigned, hwhole.all_isNumberChar, hfraction.all_isNumberChar, hpoint, hsuffix]

theorem all_isNumberChar_intText (v : ℤ) : (intText v).all isNumberChar = true := by
  have hdigits := (allDigits_digitsOf v.natAbs).all_isNumberChar
  have hminus : isNumberChar '-' = true := by decide
  unfold intText
  split
  · rw [List.all_cons, hminus, hdigits]
    rfl
  · exact hdigits

theorem all_isNumberChar_int32Literal (x : Int32) : (int32Literal x).all isNumberChar = true := by
  unfold int32Literal
  split
  · decide
  · exact all_isNumberChar_intText _

theorem all_isNumberChar_int64Literal (x : Int64) : (int64Literal x).all isNumberChar = true := by
  unfold int64Literal
  split
  · decide
  · rw [List.all_append, all_isNumberChar_intText]
    decide

/-- A character of no number stands in the literal of a float only if that is a macro. -/
theorem not_isFinite_of_mem_floatLiteral {c : Char} (hc : isNumberChar c = false) {F : Format}
    {suffix : List Char} (hsuffix : suffix.all isNumberChar = true) {u : UnpackedFloat}
    (h : c ∈ floatLiteral F suffix u) : u.isFinite = false := by
  rw [← Bool.not_eq_true]
  intro hfinite
  have hall := ((spellsFloat_floatLiteral F suffix u).decimal hfinite).all_isNumberChar hsuffix
  rw [List.all_eq_true.mp hall c h] at hc
  cases hc

/-! ## Texts in lists -/

theorem infix_intercalate {α : Type} {sep l : List α} {ls : List (List α)} (h : l ∈ ls) :
    l <:+: sep.intercalate ls := by
  induction ls with
  | nil => cases h
  | cons first ls ih =>
      cases ls with
      | nil =>
          rw [List.intercalate_singleton, List.mem_singleton.mp h]
      | cons second ls =>
          rw [List.intercalate_cons_cons]
          cases List.mem_cons.mp h with
          | inl h =>
              rw [h, List.append_assoc]
              exact (List.prefix_append _ _).isInfix
          | inr h => exact (ih h).trans (List.suffix_append _ _).isInfix

/-- What stands in a list and not in its separators stands in one of its elements. -/
theorem exists_mem_of_mem_intercalate {α : Type} {sep : List α} {ls : List (List α)} {x : α}
    (h : x ∈ sep.intercalate ls) (hsep : x ∉ sep) : ∃ l ∈ ls, x ∈ l := by
  induction ls with
  | nil => cases h
  | cons first ls ih =>
      cases ls with
      | nil =>
          rw [List.intercalate_singleton] at h
          exact ⟨first, List.mem_cons_self, h⟩
      | cons second ls =>
          rw [List.intercalate_cons_cons, List.mem_append, List.mem_append] at h
          cases h with
          | inl h => exact ⟨first, List.mem_cons_self, h.resolve_right hsep⟩
          | inr h =>
              obtain ⟨l, hl, hx⟩ := ih h
              exact ⟨l, List.mem_cons_of_mem _ hl, hx⟩

theorem infix_braced {l : List Char} {ls : List (List Char)} (h : l ∈ ls) :
    l <:+: (braced ls).toList := by
  unfold braced
  rw [String.toList_ofList]
  exact (infix_intercalate h).trans ⟨['{'], ['}'], rfl⟩

theorem exists_mem_of_mem_braced {c : Char} (hc : isNumberChar c = false) {ls : List (List Char)}
    (h : c ∈ (braced ls).toList) : ∃ l ∈ ls, c ∈ l := by
  have hother : ∀ x, isNumberChar x = true → c ≠ x := by
    intro x hx heq
    rw [heq, hx] at hc
    cases hc
  have hopen := hother '{' (by decide)
  have hclose := hother '}' (by decide)
  have hsep : c ∉ [',', ' '] := by simp [hother ',' (by decide), hother ' ' (by decide)]
  unfold braced at h
  rw [String.toList_ofList] at h
  have hinner : c ∈ [',', ' '].intercalate ls := by simpa [hopen, hclose] using h
  exact exists_mem_of_mem_intercalate hinner hsep

/-! ## Macros of constants -/

/-- A constant of floats has an element of a kind. -/
def TensorData.Holds (kind : UnpackedFloat → Bool) : TensorData → Prop
  | .float values => ∃ x ∈ values, kind x.toModel.unpack = true
  | .double values => ∃ x ∈ values, kind x.toModel.unpack = true
  | .int32 _ | .int64 _ | .raw .. => False

/-- **A macro stands in an initializer** for an element of the kind that it spells.  One
of its letters tells it from numbers and from other macros. -/
theorem macro_infix_iff {name : List Char} {letter : Char} {kind : UnpackedFloat → Bool}
    (hname : letter ∈ name) (hletter : isNumberChar letter = false)
    (htold : ∀ F suffix u, u.isFinite = false → letter ∈ floatLiteral F suffix u → kind u = true)
    (hspelled : ∀ F suffix u, kind u = true → name <:+: floatLiteral F suffix u)
    (data : TensorData) : name <:+: (braced data.literals).toList ↔ data.Holds kind := by
  constructor
  · intro h
    obtain ⟨l, hl, hmem⟩ := exists_mem_of_mem_braced hletter (h.subset hname)
    have hint : l.all isNumberChar ≠ true := by
      intro hall
      rw [List.all_eq_true.mp hall letter hmem] at hletter
      cases hletter
    cases data with
    | float values =>
        obtain ⟨x, hx, rfl⟩ := List.mem_map.mp hl
        exact ⟨x, hx, htold _ _ _ (not_isFinite_of_mem_floatLiteral hletter (by decide) hmem) hmem⟩
    | double values =>
        obtain ⟨x, hx, rfl⟩ := List.mem_map.mp hl
        exact ⟨x, hx, htold _ _ _ (not_isFinite_of_mem_floatLiteral hletter (by decide) hmem) hmem⟩
    | int32 values =>
        obtain ⟨x, -, rfl⟩ := List.mem_map.mp hl
        exact hint (all_isNumberChar_int32Literal x)
    | int64 values =>
        obtain ⟨x, -, rfl⟩ := List.mem_map.mp hl
        exact hint (all_isNumberChar_int64Literal x)
    | raw type bytes => cases hl
  · intro h
    cases data with
    | float values =>
        obtain ⟨x, hx, hkind⟩ := h
        exact (hspelled _ _ _ hkind).trans (infix_braced (List.mem_map_of_mem hx))
    | double values =>
        obtain ⟨x, hx, hkind⟩ := h
        exact (hspelled _ _ _ hkind).trans (infix_braced (List.mem_map_of_mem hx))
    | int32 values => exact h.elim
    | int64 values => exact h.elim
    | raw type bytes => exact h.elim

theorem nan_infix_iff (data : TensorData) :
    nanMacro <:+: (braced data.literals).toList ↔ data.Holds UnpackedFloat.isNaN := by
  have hletter : 'A' ∈ nanMacro := by decide
  refine macro_infix_iff hletter (by decide) ?_ ?_ data
  · intro F suffix u hfinite hmem
    cases u with
    | notANumber => rfl
    | infinity s =>
        cases s with
        | negative => exact absurd (show 'A' ∈ '-' :: infinityMacro from hmem) (by decide)
        | positive => exact absurd (show 'A' ∈ infinityMacro from hmem) (by decide)
    | zero s => cases hfinite
    | finite s m e h => cases hfinite
  · intro F suffix u hnan
    cases u with
    | notANumber => exact List.infix_rfl
    | _ => cases hnan

theorem infinity_infix_iff (data : TensorData) :
    infinityMacro <:+: (braced data.literals).toList ↔ data.Holds UnpackedFloat.isInf := by
  have hletter : 'I' ∈ infinityMacro := by decide
  refine macro_infix_iff hletter (by decide) ?_ ?_ data
  · intro F suffix u hfinite hmem
    cases u with
    | notANumber => exact absurd (show 'I' ∈ nanMacro from hmem) (by decide)
    | infinity s => rfl
    | zero s => cases hfinite
    | finite s m e h => cases hfinite
  · intro F suffix u hinf
    cases u with
    | infinity s => exact (List.suffix_append (signText s) _).isInfix
    | _ => cases hinf

/-! ## Described graphs -/

section Described

variable {d : Description} {g : Graph} {k : Constant}

/-- **No NaN** is an element of a described constant. -/
theorem not_holds_isNaN (hd : d.FiniteNumbers) (h : Graph.ofDescription d = .ok g)
    (hk : k ∈ g.constants) : ¬ k.data.Holds UnpackedFloat.isNaN := by
  intro hnan
  cases hdata : k.data with
  | float values =>
      rw [hdata] at hnan
      obtain ⟨x, hx, hxnan⟩ := hnan
      obtain ⟨c, hc, hstored⟩ := Graph.exists_storedIn h hk
      have hall := hstored.elements_of_float (Graph.finite_of_lastOfName hd hc) hdata
      obtain ⟨n, -, hnx⟩ := exists_of_forall₂ hall.flip hx
      exact Bool.false_ne_true (hnx.1.symm.trans hxnan)
  | double values =>
      rw [hdata] at hnan
      obtain ⟨x, hx, hxnan⟩ := hnan
      have hfinite := isNaN_and_isInf_of_isFinite (Graph.isFinite_of_double hd h hk hdata x hx)
      exact Bool.false_ne_true (hfinite.1.symm.trans hxnan)
  | _ =>
      rw [hdata] at hnan
      exact hnan

/-- **The infinite elements** of described constants are those of numbers that are too
large for single width. -/
theorem holds_isInf_iff (hd : d.FiniteNumbers) (h : Graph.ofDescription d = .ok g)
    (hk : k ∈ g.constants) :
    k.data.Holds UnpackedFloat.isInf ↔ ∃ c, d.LastOfName c ∧ c.StoredIn k ∧ c.type = .float ∧
      ∃ n ∈ c.data, n.TooLargeForSingle := by
  constructor
  · intro hinf
    obtain ⟨c, hc, hstored⟩ := Graph.exists_storedIn h hk
    cases hdata : k.data with
    | float values =>
        rw [hdata] at hinf
        have htype : c.type = .float :=
          hstored.type.symm.trans (congrArg TensorData.elementType hdata)
        exact ⟨c, hc, hstored, htype,
          (hstored.exists_isInf_iff (Graph.finite_of_lastOfName hd hc) hdata).mp hinf⟩
    | double values =>
        rw [hdata] at hinf
        obtain ⟨x, hx, hxinf⟩ := hinf
        have hfinite := isNaN_and_isInf_of_isFinite (Graph.isFinite_of_double hd h hk hdata x hx)
        exact absurd (hfinite.2.symm.trans hxinf) Bool.false_ne_true
    | _ =>
        rw [hdata] at hinf
        exact hinf.elim
  · intro hlarge
    obtain ⟨c, hc, hstored, htype, hlarge⟩ := hlarge
    have hstores := hstored.data
    rw [htype] at hstores
    obtain ⟨values, hdata⟩ := hstores.exists_float
    rw [hdata]
    exact (hstored.exists_isInf_iff (Graph.finite_of_lastOfName hd hc) hdata).mpr hlarge

end Described

/-- A buffer of a constant declares it. -/
theorem Constant.declaredBy_of_verdict {k : Constant} {b : Buffer} (h : k.verdict = .declared b) :
    k.DeclaredBy b.item := by
  obtain ⟨codeType, length, hcode, hcount, -, -, rfl⟩ := Constant.verdict_declared_iff.mp h
  exact ⟨codeType, length, hcode, (countElements_eq_ok_iff.mp hcount).2, rfl⟩

/-- The initializer of an array is that of a constant, or empty. -/
theorem array_cases {g : Graph} {o : Options} {output : Tensor} {buffers : List Buffer}
    (hbuffers : (settle g.verdicts).outcome = .ok buffers) {type name init : String}
    {length : UInt64}
    (h : Item.global type name (some length) (some init) ∈ moduleItems g o output buffers) :
    (∃ k ∈ g.constants, k.DeclaredBy (.global type name (some length) (some init)) ∧
      init = braced k.data.literals) ∨ init = "\x7b\x7d" := by
  obtain ⟨b, hb, hitem⟩ := mem_moduleItems_array_iff.mp h
  cases (mem_settled_iff hbuffers).mp hb with
  | inl hconstant =>
      obtain ⟨k, hk, hverdict⟩ := hconstant
      have hdeclared := Constant.declaredBy_of_verdict hverdict
      rw [hitem] at hdeclared
      refine .inl ⟨k, hk, hdeclared, ?_⟩
      obtain ⟨codeType, length, -, -, heq⟩ := hdeclared
      cases heq
      rfl
  | inr htensor =>
      obtain ⟨t, -, hverdict⟩ := htensor
      obtain ⟨codeType, length, -, -, -, rfl⟩ := Tensor.verdict_declared_iff.mp hverdict
      cases hitem
      exact .inr rfl

/-- **Which weights are finite.**  The numbers of a description that is read are finite.
In the graph of a description with finite numbers, the elements of double-width
constants are finite; those of single-width constants are never NaN, and finite unless
their number is too large.  In a module of that graph no initializer has the macro
`NAN`, and one that has `INFINITY` is that of a single-width constant with a number that
is too large. -/
theorem finite_weights (d : Description) :
    (∀ text, Description.ofJson text = .ok d → d.FiniteNumbers) ∧
    (d.FiniteNumbers → ∀ g, Graph.ofDescription d = .ok g →
      (∀ k ∈ g.constants, ∀ values, k.data = .double values → ∀ x ∈ values, x.isFinite = true) ∧
      (∀ k ∈ g.constants, ∀ values, k.data = .float values →
        ∃ c, d.LastOfName c ∧ c.StoredIn k ∧ c.data.Forall₂ (fun n x =>
          x.isNaN = false ∧ (x.isFinite = true ↔ ¬ n.TooLargeForSingle)) values) ∧
      ∀ o unit items, (assemble g o).outcome = .ok unit →
        unit.scope? = some (moduleName g o, items) →
        ∀ type name length init, Item.global type name (some length) (some init) ∈ items →
          ¬ nanMacro <:+: init.toList ∧
          (infinityMacro <:+: init.toList ↔
            ∃ k ∈ g.constants, k.DeclaredBy (.global type name (some length) (some init)) ∧
              ∃ c, d.LastOfName c ∧ c.StoredIn k ∧ c.type = .float ∧
                ∃ n ∈ c.data, n.TooLargeForSingle)) := by
  refine ⟨fun text h => Description.ofJson_finite h, fun hd g h => ⟨?_, ?_, ?_⟩⟩
  · intro k hk values hdata
    exact Graph.isFinite_of_double hd h hk hdata
  · intro k hk values hdata
    obtain ⟨c, hc, hstored⟩ := Graph.exists_storedIn h hk
    exact ⟨c, hc, hstored, hstored.elements_of_float (Graph.finite_of_lastOfName hd hc) hdata⟩
  · intro o unit items hunit hscope type name length init hitem
    obtain ⟨output, buffers, -, hbuffers, rfl⟩ := assemble_eq_ok_iff.mp hunit
    rw [scope?_moduleUnit, Option.some.injEq, Prod.mk.injEq] at hscope
    rw [← hscope.2, ← moduleItems_eq] at hitem
    have harray := array_cases hbuffers hitem
    constructor
    · intro hnan
      cases harray with
      | inl hconstant =>
          obtain ⟨k, hk, -, hinit⟩ := hconstant
          rw [hinit, nan_infix_iff] at hnan
          exact not_holds_isNaN hd h hk hnan
      | inr hempty =>
          rw [hempty] at hnan
          exact absurd hnan (by decide)
    · constructor
      · intro hinf
        cases harray with
        | inl hconstant =>
            obtain ⟨k, hk, hdeclared, hinit⟩ := hconstant
            rw [hinit, infinity_infix_iff, holds_isInf_iff hd h hk] at hinf
            exact ⟨k, hk, hdeclared, hinf⟩
        | inr hempty =>
            rw [hempty] at hinf
            exact absurd hinf (by decide)
      · intro hlarge
        obtain ⟨k, hk, hdeclared, hlarge⟩ := hlarge
        obtain ⟨codeType, size, -, -, heq⟩ := hdeclared
        cases heq
        rw [infinity_infix_iff, holds_isInf_iff hd h hk]
        exact hlarge

/-- A constant of `10 ^ 39`. -/
def largeText : String :=
  "\x7b\"name\":\"m\",\"initialized\":[\x7b\"name\":\"k\",\"dtype\":\"float\",\"shape\":[1],"
    ++ "\"data\":[1e39]\x7d],\"intermediates\":[\x7b\"name\":\"Y\",\"dtype\":\"float\","
    ++ "\"shape\":[1]\x7d],\"outputs\":[\"Y\"]\x7d"

/-- What that text describes. -/
def largeDescription : Description where
  name := "m"
  constants := [{ name := "k", type := .float, shape := [1], data := [.float 1e39] }]
  intermediates := [{ name := "Y", type := .float, shape := [1] }]
  outputs := ["Y"]

/-- The constant of its graph. -/
def largeConstant : Constant where
  name := "k"
  shape := [1]
  data := .float [Float32.ofBits 0x7F800000]

/-- The buffer of that constant. -/
def largeBuffer : Buffer where
  tensor := "k"
  type := .float
  codeType := "float"
  length := 1
  init := "\x7bINFINITY\x7d"
  nonFinite := true

/-- It is read, and its module has an infinite constant. -/
theorem finite_weights_large : Description.ofJson largeText = .ok largeDescription ∧
    ∃ g unit items, Graph.ofDescription largeDescription = .ok g ∧
      (assemble g {}).outcome = .ok unit ∧ unit.scope? = some (moduleName g {}, items) ∧
      Item.global "float" "tensor_k" (some 1) (some "\x7bINFINITY\x7d") ∈ items ∧
      ∃ k ∈ g.constants, ∃ c, largeDescription.LastOfName c ∧ c.StoredIn k ∧ c.type = .float ∧
        ∃ n ∈ c.data, n.TooLargeForSingle := by
  have hread : (Description.ofJson largeText).toOption = some largeDescription := by decide +kernel
  have hread : Description.ofJson largeText = .ok largeDescription := by
    cases h : Description.ofJson largeText with
    | error fault =>
        rw [h] at hread
        cases hread
    | ok d =>
        rw [h] at hread
        exact congrArg Except.ok (Option.some.inj hread)
  have hconstants : (Graph.ofDescription largeDescription).toOption.map Graph.constants
      = some [largeConstant] := by decide +kernel
  have hunit : (Graph.ofDescription largeDescription).toOption.map
      (fun g => (assemble g {}).outcome.isOk) = some true := by decide +kernel
  have hverdict : largeConstant.verdict = .declared largeBuffer := by decide +kernel
  obtain ⟨hfinite, hweights⟩ := finite_weights largeDescription
  cases hg : Graph.ofDescription largeDescription with
  | error fault =>
      rw [hg] at hconstants
      cases hconstants
  | ok g =>
      rw [hg] at hconstants hunit
      have hk : largeConstant ∈ g.constants := by
        rw [Option.some.inj hconstants]
        exact List.mem_singleton_self _
      obtain ⟨unit, hunit⟩ := exists_eq_ok_of_isOk (Option.some.inj hunit)
      obtain ⟨output, buffers, -, hbuffers, rfl⟩ := assemble_eq_ok_iff.mp hunit
      have hbuffer : largeBuffer ∈ buffers :=
        (mem_settled_iff hbuffers).mpr (.inl ⟨largeConstant, hk, hverdict⟩)
      have hitem : Item.global "float" "tensor_k" (some 1) (some "\x7bINFINITY\x7d")
          ∈ moduleItems g {} output buffers :=
        mem_moduleItems_array_iff.mpr ⟨largeBuffer, hbuffer, rfl⟩
      have hscope := scope?_moduleUnit g {} output buffers
      obtain ⟨-, -, hmodule⟩ := hweights (hfinite largeText hread) g hg
      obtain ⟨-, hinfinity⟩ := hmodule {} _ _ hunit hscope _ _ _ _ hitem
      obtain ⟨k, hk, -, hlarge⟩ := hinfinity.mp (by decide)
      exact ⟨hread, g, _, _, rfl, hunit, hscope, hitem, k, hk, hlarge⟩

end Chronograph
