import Chronograph.Proofs.Code.Dedent
import Chronograph.Proofs.Code.Flush

/-!
# Texts made of whole lines

Whatever is written for a statement or an item is empty or ends with a newline
(`EndsLine`): a block line by line, and code that is printed as it is with a newline
put at its end if it has none.  So each part of a text starts a line of its own, and
the lines of texts one after the other are the lines of the first and then those of
the second (`splitLines_append_of_endsLine`).

This is a fact about pieces (`Stmt.allLines_pieces`), and holds of a tree of any
depth because a tree is written piece by piece.
-/

namespace Chronograph

/-- A text that is empty or ends with a newline. -/
def EndsLine (text : List Char) : Prop := text = [] ∨ text.getLast? = some '\n'

theorem endsLine_nil : EndsLine [] := .inl rfl

theorem endsLine_append_newline (text : List Char) : EndsLine (text ++ ['\n']) :=
  .inr (by simp)

theorem endsLine_newline : EndsLine ['\n'] := endsLine_append_newline []

theorem EndsLine.append {x y : List Char} (hx : EndsLine x) (hy : EndsLine y) :
    EndsLine (x ++ y) := by
  cases hy with
  | inl hnil =>
      rw [hnil, List.append_nil]
      exact hx
  | inr hlast => exact .inr (by rw [List.getLast?_append, hlast]; rfl)

theorem endsLine_flatMap {α : Type} {f : α → List Char} {xs : List α}
    (h : ∀ x ∈ xs, EndsLine (f x)) : EndsLine (xs.flatMap f) := by
  induction xs with
  | nil => exact endsLine_nil
  | cons x xs ih =>
      rw [List.flatMap_cons]
      exact (h x List.mem_cons_self).append (ih fun y hy => h y (List.mem_cons_of_mem _ hy))

/-! ## Lines of texts one after the other -/

/-- A newline parts the lines before it from those behind it. -/
theorem splitLines_append_newline (x y : List Char) :
    splitLines (x ++ '\n' :: y) = splitLines x ++ splitLines y := by
  induction x with
  | nil => rfl
  | cons c x ih =>
      rw [List.cons_append, splitLines, splitLines, ih]
      by_cases hc : c = '\n'
      · rw [if_pos hc, if_pos hc, List.cons_append]
      · rw [if_neg hc, if_neg hc]
        cases hx : splitLines x with
        | nil => exact absurd hx (splitLines_ne_nil x)
        | cons line rest => rfl

/-- **Whole lines keep to themselves**: what follows them starts a line of its own. -/
theorem splitLines_append_of_endsLine {x : List Char} (hx : EndsLine x) (y : List Char) :
    splitLines (x ++ y) = (splitLines x).dropLast ++ splitLines y := by
  cases hx with
  | inl hnil =>
      subst hnil
      rfl
  | inr hlast =>
      obtain ⟨init, rfl⟩ := List.getLast?_eq_some_iff.mp hlast
      have hinit : (splitLines (init ++ ['\n'])).dropLast = splitLines init := by
        rw [splitLines_append_newline]
        exact List.dropLast_concat
      rw [hinit, List.append_assoc]
      exact splitLines_append_newline init y

/-- Lines that are written one after the other are the first of the text. -/
theorem splitLines_flatMap {lines : List (List Char)} (h : ∀ line ∈ lines, '\n' ∉ line)
    (rest : List Char) :
    splitLines ((lines.flatMap fun line => line ++ ['\n']) ++ rest) =
      lines ++ splitLines rest := by
  induction lines with
  | nil => rfl
  | cons line lines ih =>
      have hrest := ih fun other hother => h other (List.mem_cons_of_mem _ hother)
      rw [List.flatMap_cons, List.append_assoc, List.append_assoc, List.singleton_append,
        splitLines_append (h line List.mem_cons_self), hrest]
      rfl

/-! ## Lines that are read -/

/-- What is read as it was written, if a newline follows: no return ends it. -/
def PlainLine (line : List Char) : Prop := '\n' ∉ line ∧ line.getLast? ≠ some '\r'

theorem plainLine_append {x y : List Char} {c : Char} (hx : '\n' ∉ x) (hy : '\n' ∉ y)
    (hlast : y.getLast? = some c) (hc : c ≠ '\r') : PlainLine (x ++ y) := by
  refine ⟨by simp [hx, hy], ?_⟩
  rw [List.getLast?_append, hlast, Option.some_or]
  exact fun h => hc (Option.some.inj h)

theorem commentLines_append {line : List Char} (h : PlainLine line) (rest : List Char) :
    commentLines (line ++ '\n' :: rest) = line :: commentLines rest := by
  have hdrop : dropReturn line = line := if_neg h.2
  rw [commentLines, splitLines_append h.1, commentLines]
  cases hrest : splitLines rest with
  | nil => exact absurd hrest (splitLines_ne_nil rest)
  | cons next more =>
      rw [endedLines, hdrop]
      exact List.cons_ne_nil next more

/-- Lines that are written one after the other are the first that are read. -/
theorem commentLines_flatMap {lines : List (List Char)} (h : ∀ line ∈ lines, PlainLine line)
    (rest : List Char) :
    commentLines ((lines.flatMap fun line => line ++ ['\n']) ++ rest) =
      lines ++ commentLines rest := by
  induction lines with
  | nil => rfl
  | cons line lines ih =>
      have hrest := ih fun other hother => h other (List.mem_cons_of_mem _ hother)
      rw [List.flatMap_cons, List.append_assoc, List.append_assoc, List.singleton_append,
        commentLines_append (h line List.mem_cons_self), hrest]
      rfl

theorem length_splitLines (s : List Char) : (splitLines s).length = s.count '\n' + 1 := by
  induction s with
  | nil => rfl
  | cons c s ih =>
      rw [splitLines]
      by_cases hc : c = '\n'
      · rw [if_pos hc, List.length_cons, ih, hc, List.count_cons_self]
      · rw [if_neg hc, List.count_cons_of_ne hc]
        cases hs : splitLines s with
        | nil => exact absurd hs (splitLines_ne_nil s)
        | cons line rest =>
            rw [hs] at ih
            exact ih

/-- What follows the last newline, if nothing does, is no line. -/
theorem length_endedLines_append_nil (pieces : List (List Char)) :
    (endedLines (pieces ++ [[]])).length = pieces.length := by
  induction pieces with
  | nil => rfl
  | cons piece pieces ih =>
      cases pieces with
      | nil => rfl
      | cons next rest => exact congrArg (· + 1) ih

/-- **A text of whole lines** has as many lines as newlines. -/
theorem length_commentLines {text : List Char} (h : EndsLine text) :
    (commentLines text).length = text.count '\n' := by
  rcases h with rfl | hlast
  · rfl
  · obtain ⟨init, rfl⟩ := List.getLast?_eq_some_iff.mp hlast
    rw [commentLines, splitLines_append_newline, splitLines, length_endedLines_append_nil,
      length_splitLines, List.count_append]
    rfl

/-! ## Pieces -/

theorem endsLine_dedented (depth margin : Nat) (line : List Char) :
    EndsLine (dedented depth margin line) := by
  unfold dedented
  split
  · exact endsLine_newline
  · exact endsLine_append_newline _

theorem endsLine_of_layOut {depth : Nat} {block text : List Char}
    (h : layOut depth block = .ok text) : EndsLine text := by
  obtain ⟨-, rfl⟩ := layOut_eq_ok_iff.mp h
  exact endsLine_flatMap fun line _ => endsLine_dedented depth _ line

theorem endsLine_renderVerbatim (text : List Char) : EndsLine (renderVerbatim text) := by
  unfold renderVerbatim
  split
  · assumption
  · exact endsLine_append_newline text

/-- A piece that is written as whole lines. -/
def Piece.IsLines (piece : Piece) : Prop := ∀ text, piece.write = .ok text → EndsLine text

@[simp] theorem Piece.isLines_laid (depth : Nat) (block : List Char) :
    (laid depth block).IsLines := fun _ h => endsLine_of_layOut h

@[simp] theorem Piece.isLines_printed_iff {text : List Char} :
    (printed text).IsLines ↔ EndsLine text := by
  simp [IsLines, write]

/-- Pieces all of which are whole lines. -/
def AllLines (pieces : List Piece) : Prop := ∀ piece ∈ pieces, piece.IsLines

@[simp] theorem allLines_nil : AllLines [] := by simp [AllLines]

@[simp] theorem allLines_cons {piece : Piece} {rest : List Piece} :
    AllLines (piece :: rest) ↔ piece.IsLines ∧ AllLines rest := List.forall_mem_cons

@[simp] theorem allLines_append {xs ys : List Piece} :
    AllLines (xs ++ ys) ↔ AllLines xs ∧ AllLines ys := List.forall_mem_append

theorem allLines_commentPieces (depth : Nat) (text : String) :
    AllLines (commentPieces depth text) := by
  intro piece h
  obtain ⟨line, -, rfl⟩ := List.mem_map.mp h
  exact Piece.isLines_laid depth _

mutual

/-- **The pieces of a statement are whole lines.** -/
theorem Stmt.allLines_pieces (depth : Nat) (s : Stmt) : AllLines (Stmt.pieces depth s) := by
  cases s with
  | line text => simp [Stmt.pieces]
  | comment text =>
      rw [Stmt.pieces]
      exact allLines_commentPieces depth text
  | blank => simp [Stmt.pieces, endsLine_newline]
  | verbatim text => simp [Stmt.pieces, endsLine_renderVerbatim]
  | block header body => simp [Stmt.pieces, Stmt.allLines_piecesAll (depth + 1) body]
  | timerStart position => simp [Stmt.pieces]
  | timerStop position operator => simp [Stmt.pieces]

theorem Stmt.allLines_piecesAll (depth : Nat) (body : List Stmt) :
    AllLines (Stmt.piecesAll depth body) := by
  cases body with
  | nil => simp [Stmt.piecesAll]
  | cons s rest =>
      rw [Stmt.piecesAll, allLines_append]
      exact ⟨Stmt.allLines_pieces depth s, Stmt.allLines_piecesAll depth rest⟩

end

mutual

/-- **The pieces of an item are whole lines.** -/
theorem Item.allLines_pieces (item : Item) : AllLines item.pieces := by
  cases item with
  | comment text =>
      rw [Item.pieces]
      exact allLines_commentPieces 0 text
  | header name => simp [Item.pieces]
  | blank => simp [Item.pieces, endsLine_newline]
  | scope name items => simp [Item.pieces, Item.allLines_piecesAll items]
  | foreign signature => simp [Item.pieces]
  | typeAlias name target => simp [Item.pieces]
  | global type name length init => simp [Item.pieces]
  | function f => simp [Item.pieces, Stmt.allLines_piecesAll 1 f.body]

theorem Item.allLines_piecesAll (items : List Item) : AllLines (Item.piecesAll items) := by
  cases items with
  | nil => simp [Item.piecesAll]
  | cons item rest =>
      rw [Item.piecesAll, allLines_append]
      exact ⟨Item.allLines_pieces item, Item.allLines_piecesAll rest⟩

end

/-! ## Texts of statements and items -/

theorem AllLines.endsLine_of_writeAll {pieces : List Piece} (hpieces : AllLines pieces)
    {text : List Char} (h : writeAll pieces = .ok text) : EndsLine text := by
  induction pieces generalizing text with
  | nil =>
      cases h
      exact endsLine_nil
  | cons piece rest ih =>
      obtain ⟨hpiece, hrest⟩ := allLines_cons.mp hpieces
      rw [writeAll] at h
      obtain ⟨first, others, hfirst, hothers, rfl⟩ := join_eq_ok_iff.mp h
      exact (hpiece first hfirst).append (ih hrest hothers)

theorem Stmt.endsLine_of_render {depth : Nat} {s : Stmt} {text : List Char}
    (h : Stmt.render depth s = .ok text) : EndsLine text := by
  rw [Stmt.render_eq_writeAll] at h
  exact (Stmt.allLines_pieces depth s).endsLine_of_writeAll h

theorem Item.endsLine_of_render {item : Item} {text : List Char} (h : item.render = .ok text) :
    EndsLine text := by
  rw [Item.render_eq_writeAll] at h
  exact item.allLines_pieces.endsLine_of_writeAll h

theorem Item.endsLine_of_renderAll {items : List Item} {text : List Char}
    (h : Item.renderAll items = .ok text) : EndsLine text := by
  rw [Item.renderAll_eq_writeAll] at h
  exact (Item.allLines_piecesAll items).endsLine_of_writeAll h

/-- A unit in two parts has a text exactly if both have one. -/
theorem CodeUnit.render_append_eq_ok_iff {a b : List Item} {text : String} :
    CodeUnit.render ⟨a ++ b⟩ = .ok text ↔
      ∃ x y, CodeUnit.render ⟨a⟩ = .ok x ∧ CodeUnit.render ⟨b⟩ = .ok y ∧ text = x ++ y := by
  simp only [CodeUnit.render_eq_ok_iff, Item.renderAll_append, join_eq_ok_iff]
  constructor
  · rintro ⟨chars, ⟨x, y, hx, hy, rfl⟩, rfl⟩
    exact ⟨_, _, ⟨x, hx, rfl⟩, ⟨y, hy, rfl⟩, String.ofList_append⟩
  · rintro ⟨-, -, ⟨x, hx, rfl⟩, ⟨y, hy, rfl⟩, rfl⟩
    exact ⟨x ++ y, ⟨x, y, hx, hy, rfl⟩, String.ofList_append.symm⟩

/-- **Texts are appended line by line.**  The text of items one after the other is the
texts of the items one after the other, and so it is with statements at any depth.  Each
of these texts is empty or ends with a newline.  So wherever in a tree a piece of text
stands, whole lines stand before it, and the lines of the unit are those before the piece,
then its own, then those behind it: no line is put at the end of another. -/
theorem rendered_line_by_line :
    (∀ (a b : List Item) (text : String), CodeUnit.render ⟨a ++ b⟩ = .ok text ↔
      ∃ x y, CodeUnit.render ⟨a⟩ = .ok x ∧ CodeUnit.render ⟨b⟩ = .ok y ∧ text = x ++ y) ∧
    (∀ (depth : Nat) (a b : List Stmt) (text : List Char),
      Stmt.renderAll depth (a ++ b) = .ok text ↔
        ∃ x y, Stmt.renderAll depth a = .ok x ∧ Stmt.renderAll depth b = .ok y ∧ text = x ++ y) ∧
    (∀ (item : Item) (text : List Char), item.render = .ok text → EndsLine text) ∧
    (∀ (depth : Nat) (s : Stmt) (text : List Char), Stmt.render depth s = .ok text →
      EndsLine text) ∧
    ∀ (u : CodeUnit) (text : String), u.render = .ok text →
      ∀ before piece after, u.pieces = before ++ piece :: after →
        ∃ x y z, text.toList = x ++ y ++ z ∧ writeAll before = .ok x ∧ piece.write = .ok y ∧
          writeAll after = .ok z ∧ EndsLine x ∧ EndsLine y ∧
          splitLines text.toList =
            (splitLines x).dropLast ++ (splitLines y).dropLast ++ splitLines z := by
  refine ⟨fun a b text => CodeUnit.render_append_eq_ok_iff, ?_,
    fun item text => Item.endsLine_of_render, fun depth s text => Stmt.endsLine_of_render, ?_⟩
  · intro depth a b text
    rw [Stmt.renderAll_append, join_eq_ok_iff]
  · intro u text htext before piece after hpieces
    have hlines : AllLines (before ++ piece :: after) := by
      rw [← hpieces]
      exact Item.allLines_piecesAll u.items
    obtain ⟨hbefore, hrest⟩ := allLines_append.mp hlines
    obtain ⟨hpiece, -⟩ := allLines_cons.mp hrest
    obtain ⟨chars, hchars, rfl⟩ := CodeUnit.render_eq_ok_iff.mp htext
    have hwrite : writeAll (before ++ piece :: after) = .ok chars := by
      rw [← hpieces, ← hchars]
      exact (Item.renderAll_eq_writeAll u.items).symm
    rw [writeAll_append, join_eq_ok_iff] at hwrite
    obtain ⟨x, rest, hx, hwrite, rfl⟩ := hwrite
    rw [writeAll, join_eq_ok_iff] at hwrite
    obtain ⟨y, z, hy, hz, rfl⟩ := hwrite
    have hxlines : EndsLine x := hbefore.endsLine_of_writeAll hx
    have hylines : EndsLine y := hpiece y hy
    refine ⟨x, y, z, ?_, hx, hy, hz, hxlines, hylines, ?_⟩
    · rw [String.toList_ofList, List.append_assoc]
    · rw [String.toList_ofList, splitLines_append_of_endsLine hxlines,
        splitLines_append_of_endsLine hylines, List.append_assoc]

/-- Code that does not end its line, in a block in a function in a namespace, before the
statement that stores a time. -/
def nestedUnit : CodeUnit where
  items := [.scope "n" [.function {
    returns := "void", name := "f", params := []
    body := [.block "" [.verbatim "\ta();", .timerStop 0 "a"]] }]]

/-- The lines of that statement stand by themselves. -/
theorem rendered_line_by_line_nested :
    ∃ text x y z, nestedUnit.render = .ok text ∧ text.toList = x ++ y ++ z ∧
      layOut 2 (timerStopText "a").toList = .ok y ∧
      splitLines text.toList =
        (splitLines x).dropLast ++ (splitLines y).dropLast ++ splitLines z ∧
      "\ta();".toList ∈ (splitLines x).dropLast := by
  have hflush : Item.AllFlush nestedUnit.items := by
    refine Item.allFlush_cons.mpr ⟨Item.flush_scope_iff.mpr ?_, Item.allFlush_nil⟩
    refine Item.allFlush_cons.mpr ⟨.function ?_ ?_, Item.allFlush_nil⟩
    · exact (by decide : FlushText "void")
    · simp
  obtain ⟨text, htext⟩ := CodeUnit.exists_render hflush
  obtain ⟨-, -, -, -, hpieces⟩ := rendered_line_by_line
  obtain ⟨x, y, z, hsplit, hx, hy, -, -, -, hlines⟩ :=
    hpieces nestedUnit text htext
      [.laid 0 "namespace n \x7b".toList, .laid 0 "void f() \x7b".toList, .laid 1 ['\x7b'],
        .printed "\ta();\n".toList] (.laid 2 (timerStopText "a").toList)
      [.laid 1 ['\x7d'], .laid 0 ['\x7d'], .laid 0 "\x7d  // namespace n".toList] rfl
  refine ⟨text, x, y, z, htext, hsplit, hy, hlines, ?_⟩
  have hbefore : writeAll [.laid 0 "namespace n \x7b".toList, .laid 0 "void f() \x7b".toList,
      .laid 1 ['\x7b'], .printed "\ta();\n".toList] =
        .ok "namespace n \x7b\nvoid f() \x7b\n  \x7b\n\ta();\n".toList := by rfl
  rw [hbefore] at hx
  cases hx
  decide

end Chronograph
