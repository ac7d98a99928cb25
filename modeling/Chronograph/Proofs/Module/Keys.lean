import Chronograph.Proofs.Code.LineEnds
import Chronograph.Proofs.Code.Quotation
import Chronograph.Proofs.Module.Flush
import Chronograph.Proofs.Module.Weaving

/-!
# The keys of times

The emitted code stores the time of an operator under the operator's name, as a string
literal.  A name may be any text: it may hold quotes, backslashes and newlines, or look as
if it were escaped already.

The key of a line of code is read off the line (`keyOf?`).  Of the three lines behind an
operator the first has a key, the operator's name, and what stands behind it is the same for
all operators (`map_keyOf?_storingLines`).  These lines stand by themselves in the text of a
module: what is written before them ends with a newline (`exists_timedText`), and there is
none in them.
-/

namespace Chronograph

/-- The start of a line that stores a time, with the opening quote of the key. -/
def keyOpening : List Char := "current_execution[\"".toList

/-- The end of such a line, behind the closing quote. -/
def keyClosing : List Char := "] = static_cast<double>(".toList

/-- The key under which a line of code stores a time, and the end of the line behind it. -/
def keyOf? (line : List Char) : Option (List Char × List Char) :=
  let code := line.dropWhile isIndent
  if keyOpening.isPrefixOf code then readLiteral? (code.drop keyOpening.length) else none

/-- The lines that store the time of an operator, at a column. -/
def storingLines (column : Nat) (operator : String) : List (List Char) :=
  (timerStopLines operator).map (List.replicate column ' ' ++ ·)

/-- Only the first of these lines has a key, and it is the operator's name. -/
theorem map_keyOf?_storingLines (column : Nat) (operator : String) :
    (storingLines column operator).map keyOf? =
      [some (operator.toList, keyClosing), none, none] := by
  have hindent (code : List Char) : keyOf? (List.replicate column ' ' ++ code) = keyOf? code := by
    unfold keyOf?
    rw [List.dropWhile_append_of_pos fun c hc => by rw [List.eq_of_mem_replicate hc]; rfl]
  have hkey : keyOf? (keyOpening ++ escapeLiteral operator.toList ++ '"' :: keyClosing) =
      some (operator.toList, keyClosing) :=
    readLiteral?_escapeLiteral operator.toList keyClosing
  simp only [storingLines, timerStopLines, List.map_cons, List.map_nil, hindent]
  exact congrArg (· :: _) hkey

theorem newline_not_mem_storingLines {column : Nat} {operator : String} {line : List Char}
    (h : line ∈ storingLines column operator) : '\n' ∉ line := by
  obtain ⟨code, hcode, rfl⟩ := List.mem_map.mp h
  rw [List.mem_append, not_or]
  exact ⟨fun hspace => absurd (List.eq_of_mem_replicate hspace) (by decide),
    newline_not_mem_timerStopLines hcode⟩

/-- The statement behind an operator is these three lines, at any depth. -/
theorem splitLines_of_timerStop (depth position : Nat) (operator : String) :
    ∃ text, Stmt.render depth (.timerStop position operator) = .ok text ∧
      splitLines text = storingLines (2 * depth) operator ++ [[]] := by
  refine ⟨_, render_timerStop depth position operator, ?_⟩
  have hnewline : ∀ line ∈ storingLines (2 * depth) operator, '\n' ∉ line := fun line =>
    newline_not_mem_storingLines
  have hlines := splitLines_flatMap hnewline []
  rw [storingLines, List.flatMap_map, List.append_nil] at hlines
  exact hlines

/-! ## In a module -/

/-- The text of an operator ends with the lines that store its time, and what stands before
them ends with a newline: code that does not end its line is ended. -/
theorem exists_timedText (position : Nat) (op : Operator) :
    ∃ start, start.getLast? = some '\n' ∧
      op.timedText position =
        start ++ (storingLines 2 op.name).flatMap fun line => line ++ ['\n'] := by
  let code := (op.body position.repr).toList
  refine ⟨lineAt 2 timerStartText.toList ++ renderVerbatim code, ?_, ?_⟩
  · rw [List.getLast?_append]
    rcases endsLine_renderVerbatim code with hnil | hlast
    · rw [hnil]
      rfl
    · rw [hlast]
      rfl
  · rw [timedText_eq, storingLines, List.flatMap_map]
    rfl

/-- The lines of each of a graph's operators are lines of a woven text. -/
theorem exists_splitLines_woven {operators : List Operator} {op : Operator}
    (h : op ∈ operators) (before : List Char) (synchronized : Bool) (after : List Char) :
    ∃ x y, splitLines (woven before operators synchronized after) =
      x ++ storingLines 2 op.name ++ y := by
  obtain ⟨position, hlt, hop⟩ := List.mem_iff_getElem.mp h
  have hmem : op.timedText position ∈ operators.mapIdx Operator.timedText :=
    List.mem_mapIdx.mpr ⟨position, hlt, by rw [hop]⟩
  obtain ⟨xs, ys, hoperators⟩ := List.append_of_mem hmem
  obtain ⟨start, hstart, htext⟩ := exists_timedText position op
  obtain ⟨first, last, hwoven⟩ : ∃ first last,
      woven before operators synchronized after = (first ++ start)
        ++ (((storingLines 2 op.name).flatMap fun line => line ++ ['\n']) ++ last) := by
    refine ⟨before ++ lineAt 2 "ProfilerResult current_execution;".toList ++ ['\n'] ++ xs.flatten,
      ys.flatten ++ ['\n'] ++ historyAppendText synchronized ++ after, ?_⟩
    rw [woven, timedTexts, hoperators, List.flatten_append, List.flatten_cons, htext]
    simp only [List.append_assoc]
  have hends : EndsLine (first ++ start) := .inr (by rw [List.getLast?_append, hstart]; rfl)
  refine ⟨(splitLines (first ++ start)).dropLast, splitLines last, ?_⟩
  rw [hwoven, splitLines_append_of_endsLine hends,
    splitLines_flatMap fun line => newline_not_mem_storingLines, List.append_assoc]

/-- **A name is read back from its literal.**  For every text, what is written for it inside
a literal is read as the text, up to the quote that is put behind it, and what follows that
quote is left; no line can break in it.  So literals that are written for different texts are
different, whatever stands behind them.  The statement behind an operator is three lines, and
only the first of them has a key, the operator's name; and so are the lines that a module has
for each of its operators. -/
theorem names_read_back :
    (∀ s rest : List Char, readLiteral? (escapeLiteral s ++ '"' :: rest) = some (s, rest)) ∧
    (∀ s : List Char, ∀ c ∈ escapeLiteral s, c ≠ '\n' ∧ c ≠ '\r' ∧ c ≠ '\t') ∧
    (∀ s t x y : List Char,
      escapeLiteral s ++ '"' :: x = escapeLiteral t ++ '"' :: y ↔ s = t ∧ x = y) ∧
    (∀ (column : Nat) (operator : String), (storingLines column operator).map keyOf? =
      [some (operator.toList, keyClosing), none, none]) ∧
    (∀ (depth position : Nat) (operator : String), ∃ text,
      Stmt.render depth (.timerStop position operator) = .ok text ∧
        splitLines text = storingLines (2 * depth) operator ++ [[]]) ∧
    ∀ (g : Graph) (o : Options) (text : String), (generate g o).outcome = .ok text →
      ∀ op ∈ g.operators, ∃ x y, splitLines text.toList = x ++ storingLines 2 op.name ++ y := by
  refine ⟨readLiteral?_escapeLiteral, fun s c => ne_break_of_mem_escapeLiteral,
    fun s t x y => escapeLiteral_append_inj, map_keyOf?_storingLines, splitLines_of_timerStop, ?_⟩
  intro g o text htext op hop
  obtain ⟨unit, hunit, hrender⟩ := generate_eq_ok_iff.mp htext
  obtain ⟨output, buffers, -, -, rfl⟩ := assemble_eq_ok_iff.mp hunit
  obtain ⟨before, after, hframe⟩ := render_moduleUnit hrender
  have hsame := hrender.symm.trans (hframe g.operators)
  rw [Except.ok.inj hsame, String.toList_ofList]
  exact exists_splitLines_woven hop before o.synchronized after

/-- Two names of which one looks like the other escaped, and one that breaks its line. -/
def oddOperators : List Operator :=
  [.ofTemplate "a\"" "f();", .ofTemplate "a\\\"" "", .ofTemplate "\r\n\\" "g();\n"]

/-- In the module of a graph with these operators the last name is the key of a line. -/
theorem names_read_back_odd :
    ∃ text, (generate { idleGraph with operators := oddOperators } {}).outcome = .ok text ∧
      .ofTemplate "\r\n\\" "g();\n" ∈ oddOperators ∧
      (∃ x y, splitLines text.toList = x ++ storingLines 2 "\r\n\\" ++ y) ∧
      (storingLines 2 "\r\n\\").map keyOf? = [some ("\r\n\\".toList, keyClosing), none, none] := by
  have hunit : (assemble { idleGraph with operators := oddOperators } {}).outcome.isOk = true := by
    decide +kernel
  obtain ⟨text, htext⟩ := exists_generate_iff.mpr (exists_eq_ok_of_isOk hunit)
  have hmem : .ofTemplate "\r\n\\" "g();\n" ∈ oddOperators := by simp [oddOperators]
  obtain ⟨-, -, -, hkeys, -, hlines⟩ := names_read_back
  have hmodule := hlines _ _ text htext (.ofTemplate "\r\n\\" "g();\n") hmem
  exact ⟨text, htext, hmem, hmodule, hkeys 2 "\r\n\\"⟩

end Chronograph
