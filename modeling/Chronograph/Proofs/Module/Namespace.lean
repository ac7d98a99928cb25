import Chronograph.Proofs.Code.Comment
import Chronograph.Proofs.Code.LineEnds
import Chronograph.Proofs.Module.Flush

/-!
# The namespace of a module

A module is one namespace, named after the graph.  A graph may have any name, so the name
of the namespace is made from it, and is always an identifier (`isIdentifier_toSymbol`).
What is an identifier already stays as it is (`toSymbol_eq_self_iff`), so the underscore that
is put before a digit is not put there again.

An identifier breaks no line, so the name is written whole where the namespace is opened and
where it is closed.  What stands before the namespace are lines of comments, includes and
blank lines (`Introduces`), so the first line that begins like a namespace opens the module's
own, and the last line of the module closes it (`namespace_named`).
-/

namespace Chronograph

/-! ## Identifiers -/

/-- An identifier: a letter or an underscore, and then letters, digits and underscores, all
of ASCII. -/
def IsIdentifier (s : String) : Prop :=
  ∃ first rest, s.toList = first :: rest ∧ (first.isAlpha ∨ first = '_') ∧
    ∀ c ∈ rest, c.isAlphanum ∨ c = '_'

theorem isSymbolChar_iff {c : Char} : isSymbolChar c = true ↔ c.isAlphanum ∨ c = '_' := by
  simp [isSymbolChar]

/-- The character that stands for another in an identifier. -/
def symbolChar (c : Char) : Char := if isSymbolChar c then c else '_'

theorem isSymbolChar_symbolChar (c : Char) : isSymbolChar (symbolChar c) = true := by
  unfold symbolChar
  split
  · assumption
  · rfl

theorem toList_toSymbol_cons {s : String} {c : Char} {cs : List Char} (h : s.toList = c :: cs) :
    (toSymbol s).toList = (if c.isDigit then ['_'] else []) ++ (c :: cs).map symbolChar := by
  rw [toSymbol, String.toList_ofList, h, toSymbolChars]
  split <;> rfl

/-- **What is made is an identifier.** -/
theorem isIdentifier_toSymbol (s : String) : IsIdentifier (toSymbol s) := by
  have hrest (cs : List Char) : ∀ d ∈ cs.map symbolChar, d.isAlphanum ∨ d = '_' := by
    intro d hd
    obtain ⟨c, -, rfl⟩ := List.mem_map.mp hd
    exact isSymbolChar_iff.mp (isSymbolChar_symbolChar c)
  cases hs : s.toList with
  | nil =>
      have hmodel : (toSymbol s).toList = "model".toList := by
        rw [toSymbol, String.toList_ofList, hs, toSymbolChars]
      have hall : "odel".toList.all isSymbolChar = true := by decide
      exact ⟨'m', "odel".toList, hmodel, .inl (by decide), fun c hc =>
        isSymbolChar_iff.mp (List.all_eq_true.mp hall c hc)⟩
  | cons c cs =>
      have hlist := toList_toSymbol_cons hs
      by_cases hdigit : c.isDigit = true
      · rw [if_pos hdigit] at hlist
        exact ⟨'_', (c :: cs).map symbolChar, hlist, .inr rfl, hrest (c :: cs)⟩
      · rw [if_neg hdigit] at hlist
        refine ⟨symbolChar c, cs.map symbolChar, hlist, ?_, hrest cs⟩
        unfold symbolChar
        split
        next hc =>
          rcases isSymbolChar_iff.mp hc with hc | hc
          · left
            simpa [Char.isAlphanum, hdigit] using hc
          · exact .inr hc
        next => exact .inr rfl

/-- No letter is a digit: the letters of both cases are behind the digits. -/
theorem not_isDigit_of_isAlpha {c : Char} (h : c.isAlpha = true) : c.isDigit = false := by
  have hletter : 'A'.toNat ≤ c.toNat := by
    rcases Bool.or_eq_true_iff.mp h with hupper | hlower
    · exact (of_decide_eq_true hupper).1
    · exact Nat.le_trans (by decide) (of_decide_eq_true (Bool.and_eq_true_iff.mp hlower).1)
  rw [Bool.eq_false_iff, Ne, Char.isDigit_iff_toNat]
  rintro ⟨-, hdigit⟩
  exact absurd (Nat.le_trans hletter hdigit) (by decide)

/-- **An identifier stays as it is**, and nothing else does. -/
theorem toSymbol_eq_self_iff {s : String} : toSymbol s = s ↔ IsIdentifier s := by
  constructor
  · intro h
    rw [← h]
    exact isIdentifier_toSymbol s
  · rintro ⟨c, cs, hs, hfirst, hrest⟩
    have hc : c.isAlphanum ∨ c = '_' :=
      hfirst.imp_left fun halpha => by rw [Char.isAlphanum, halpha]; rfl
    have hall : ∀ d ∈ c :: cs, d.isAlphanum ∨ d = '_' := List.forall_mem_cons.mpr ⟨hc, hrest⟩
    have hkept : (c :: cs).map symbolChar = (c :: cs).map id :=
      List.map_congr_left fun d hd => if_pos (isSymbolChar_iff.mpr (hall d hd))
    have hdigit : c.isDigit = false := by
      rcases hfirst with halpha | rfl
      · exact not_isDigit_of_isAlpha halpha
      · rfl
    rw [← String.toList_inj, toList_toSymbol_cons hs, hdigit, hkept, hs, List.map_id]
    rfl

/-- A character is kept or replaced by one, and one may be put before the first. -/
theorem length_toSymbol {s : String} (h : s ≠ "") :
    (toSymbol s).length = s.length + if s.toList.head?.any Char.isDigit then 1 else 0 := by
  cases hs : s.toList with
  | nil => exact absurd (String.toList_eq_nil_iff.mp hs) h
  | cons c cs =>
      have hlength := congrArg List.length (toList_toSymbol_cons hs)
      rw [← String.length_toList, hlength, ← String.length_toList, hs, List.length_append,
        List.length_map, Nat.add_comm, List.head?_cons, Option.any_some]
      split <;> rfl

/-- No identifier has a newline. -/
theorem IsIdentifier.newline_not_mem {s : String} (h : IsIdentifier s) : '\n' ∉ s.toList := by
  obtain ⟨first, rest, hs, hfirst, hrest⟩ := h
  rw [hs, List.mem_cons, not_or]
  exact ⟨by rintro rfl; simp at hfirst, fun hmem => by simpa using hrest _ hmem⟩

/-! ## What stands before a namespace -/

/-- A line that starts with a character of its own is written as it is. -/
theorem layOut_zero {line : List Char} {c : Char} (hhead : line.head? = some c)
    (hc : isBlank c = false) (hline : '\n' ∉ line) : layOut 0 line = .ok (line ++ ['\n']) := by
  obtain ⟨rest, rfl⟩ := List.head?_eq_some_iff.mp hhead
  exact layOut_line 0 hc hline

/-- A line that does not begin like one that opens a namespace. -/
def OpensNone (line : List Char) : Prop := ¬ "namespace".toList <+: line

theorem opensNone_of_head? {line : List Char} {c : Char} (hhead : line.head? = some c)
    (hc : c ≠ 'n') : OpensNone line := by
  obtain ⟨rest, rfl⟩ := List.head?_eq_some_iff.mp hhead
  exact fun h => hc (List.cons_prefix_cons.mp h).1.symm

/-- Items that are written as lines, none of which opens a namespace. -/
def Introduces (items : List Item) : Prop :=
  ∃ lines : List (List Char), (∀ line ∈ lines, '\n' ∉ line ∧ OpensNone line) ∧
    Item.renderAll items = .ok (lines.flatMap fun line => line ++ ['\n'])

theorem Introduces.append {xs ys : List Item} (hxs : Introduces xs) (hys : Introduces ys) :
    Introduces (xs ++ ys) := by
  obtain ⟨first, hfirst, hxs⟩ := hxs
  obtain ⟨last, hlast, hys⟩ := hys
  refine ⟨first ++ last, List.forall_mem_append.mpr ⟨hfirst, hlast⟩, ?_⟩
  rw [Item.renderAll_append, hxs, hys, List.flatMap_append]
  rfl

theorem introduces_comment (text : String) : Introduces [.comment text] := by
  refine ⟨(commentLines text.toList).map slashed, ?_, ?_⟩
  · intro line hline
    obtain ⟨inner, hinner, rfl⟩ := List.mem_map.mp hline
    obtain ⟨rest, hrest⟩ := prefix_slashed inner
    have hhead : (slashed inner).head? = some '/' := by rw [← hrest]; rfl
    exact ⟨newline_not_mem_slashed (newline_not_mem_commentLines hinner),
      opensNone_of_head? hhead (by decide)⟩
  · rw [Item.renderAll_singleton, Item.render, renderComment_eq, List.flatMap_map]
    rfl

theorem introduces_header {name : String} (h : '\n' ∉ name.toList) :
    Introduces [.header name] := by
  have hhead : ("#include <" ++ name ++ ">").toList.head? = some '#' := by
    rw [String.toList_append, String.toList_append]
    rfl
  have hline : '\n' ∉ ("#include <" ++ name ++ ">").toList := by simp [h]
  refine ⟨[("#include <" ++ name ++ ">").toList], ?_, ?_⟩
  · rw [List.forall_mem_singleton]
    exact ⟨hline, opensNone_of_head? hhead (by decide)⟩
  · rw [Item.renderAll_singleton, Item.render, layOut_zero hhead (by decide) hline,
      List.flatMap_singleton]

theorem introduces_headers {names : List String} (h : ∀ name ∈ names, '\n' ∉ name.toList) :
    Introduces (names.map .header) := by
  induction names with
  | nil => exact ⟨[], by simp, rfl⟩
  | cons name names ih =>
      obtain ⟨hname, hnames⟩ := List.forall_mem_cons.mp h
      exact (introduces_header hname).append (ih hnames)

theorem introduces_blank : Introduces [.blank] := by
  refine ⟨[[]], ?_, rfl⟩
  rw [List.forall_mem_singleton]
  exact ⟨List.not_mem_nil, by unfold OpensNone; decide⟩

/-- What a module begins with. -/
theorem introduces_moduleUnit (g : Graph) (o : Options) (output : Tensor)
    (buffers : List Buffer) :
    Introduces ([.comment (provenance g)] ++ (headers g o output buffers).map .header
      ++ [.blank]) := by
  have hall : ∀ name ∈ ["chrono", "cmath", "cstddef", "cstdint", "mutex", "string",
      "unordered_map", "utility", "vector"], '\n' ∉ name.toList := by decide
  have hheaders : ∀ name ∈ headers g o output buffers, '\n' ∉ name.toList := fun name hname =>
    hall name ((List.filter_sublist.map Prod.fst).subset hname)
  exact ((introduces_comment _).append (introduces_headers hheaders)).append introduces_blank

/-! ## The lines of a namespace -/

/-- The line that opens a namespace. -/
def namespaceOpening (name : String) : List Char := ("namespace " ++ name ++ " \x7b").toList

/-- The line that closes a namespace. -/
def namespaceClosing (name : String) : List Char := ("\x7d  // namespace " ++ name).toList

/-- A namespace whose name breaks no line is written between two lines with that name. -/
theorem splitLines_of_render_scope {name : String} {items : List Item} {text : List Char}
    (hname : '\n' ∉ name.toList) (h : Item.render (.scope name items) = .ok text) :
    ∃ inside, splitLines text =
      namespaceOpening name :: inside ++ [namespaceClosing name, []] := by
  have hopens : '\n' ∉ namespaceOpening name := by simp [namespaceOpening, hname]
  have hcloses : '\n' ∉ namespaceClosing name := by simp [namespaceClosing, hname]
  have hopening : layOut 0 (namespaceOpening name) = .ok (namespaceOpening name ++ ['\n']) := by
    refine layOut_zero (c := 'n') ?_ (by decide) hopens
    rw [namespaceOpening, String.toList_append, String.toList_append]
    rfl
  have hclosing : layOut 0 (namespaceClosing name) = .ok (namespaceClosing name ++ ['\n']) := by
    refine layOut_zero (c := '}') ?_ (by decide) hcloses
    rw [namespaceClosing, String.toList_append]
    rfl
  rw [Item.render, ← namespaceOpening, ← namespaceClosing, hopening, hclosing] at h
  obtain ⟨-, inside, -, ⟨⟩, hinside, ⟨⟩, rfl⟩ := enclose_eq_ok_iff.mp h
  refine ⟨(splitLines inside).dropLast, ?_⟩
  rw [List.append_assoc, List.append_assoc, List.singleton_append, splitLines_append hopens,
    splitLines_append_of_endsLine (Item.endsLine_of_renderAll hinside), splitLines_append hcloses]
  rfl

/-- **The name of a namespace is an identifier.**  What is made of any text is an identifier;
a text stays as it is exactly if it is one, so that nothing changes when a name is made of a
name.  A text that is not empty gets one character for each of its own, and one more exactly
if it begins with a digit.  The lines of a module that open and close its namespace have the
name that is made of the prefix and the graph's name: the first line that begins like a
namespace opens it, and the last line closes it. -/
theorem namespace_named :
    (∀ s, IsIdentifier (toSymbol s)) ∧
    (∀ s, toSymbol s = s ↔ IsIdentifier s) ∧
    (∀ s, toSymbol (toSymbol s) = toSymbol s) ∧
    (∀ s, s ≠ "" → (toSymbol s).length =
      s.length + if s.toList.head?.any Char.isDigit then 1 else 0) ∧
    ∀ (g : Graph) (o : Options) (text : String), (generate g o).outcome = .ok text →
      ∃ before inside : List (List Char), (∀ line ∈ before, ¬ "namespace".toList <+: line) ∧
        splitLines text.toList =
          before ++ ("namespace " ++ toSymbol (o.namespacePrefix ++ g.name) ++ " \x7b").toList
            :: inside
          ++ [("\x7d  // namespace " ++ toSymbol (o.namespacePrefix ++ g.name)).toList, []] := by
  refine ⟨isIdentifier_toSymbol, fun s => toSymbol_eq_self_iff,
    fun s => toSymbol_eq_self_iff.mpr (isIdentifier_toSymbol s), fun s => length_toSymbol, ?_⟩
  intro g o text htext
  obtain ⟨unit, hunit, hrender⟩ := generate_eq_ok_iff.mp htext
  obtain ⟨output, buffers, -, -, rfl⟩ := assemble_eq_ok_iff.mp hunit
  obtain ⟨chars, hchars, rfl⟩ := CodeUnit.render_eq_ok_iff.mp hrender
  rw [moduleUnit, Item.renderAll_append] at hchars
  obtain ⟨top, scope, htop, hscope, rfl⟩ := join_eq_ok_iff.mp hchars
  rw [Item.renderAll_singleton] at hscope
  obtain ⟨before, hbefore, hlines⟩ := introduces_moduleUnit g o output buffers
  obtain rfl := Except.ok.inj (htop.symm.trans hlines)
  obtain ⟨inside, hinside⟩ := splitLines_of_render_scope
    (isIdentifier_toSymbol (o.namespacePrefix ++ g.name)).newline_not_mem hscope
  refine ⟨before, inside, fun line hline => (hbefore line hline).2, ?_⟩
  rw [String.toList_ofList, splitLines_flatMap fun line hline => (hbefore line hline).1, hinside,
    List.append_assoc]
  rfl

/-- A graph whose name is no identifier, in a namespace without prefix. -/
def numberedGraph : Graph where
  name := "18-layer \x7b né\n"
  intermediates := [{ name := "Y", type := .float, shape := [2] }]
  outputs := ["Y"]

/-- The name gets an underscore in front, and one for each character that it cannot have. -/
theorem namespace_named_numbered :
    (toSymbol numberedGraph.name).length = numberedGraph.name.length + 1 ∧
    ∃ text before inside, (generate numberedGraph { namespacePrefix := "" }).outcome = .ok text ∧
      splitLines text.toList = before ++ "namespace _18_layer___n__ \x7b".toList :: inside
        ++ ["\x7d  // namespace _18_layer___n__".toList, []] := by
  have hunit : (assemble numberedGraph { namespacePrefix := "" }).outcome.isOk = true := by
    decide +kernel
  obtain ⟨text, htext⟩ := exists_generate_iff.mpr (exists_eq_ok_of_isOk hunit)
  obtain ⟨-, -, -, hlengths, hlines⟩ := namespace_named
  have hlength := hlengths numberedGraph.name (by decide)
  rw [if_pos (by decide +kernel)] at hlength
  obtain ⟨before, inside, -, hsplit⟩ := hlines _ _ text htext
  have hname : toSymbol ("" ++ numberedGraph.name) = "_18_layer___n__" := by decide +kernel
  rw [hname] at hsplit
  exact ⟨hlength, text, before, inside, htext, hsplit⟩

end Chronograph
