import Chronograph.Proofs.Code.Rendering

/-!
# The pieces of a text

The text of a unit is made of pieces, one behind the other: blocks, each laid
out at a depth, and code that is printed as it is.  `Item.pieces` lists them in
the order in which they are written, and writing them one by one gives the text
of the unit, with the same fault if there is one (`CodeUnit.render_eq_writeAll`).

Only a block can be at fault, and only by a line that the margin does not cut
between two characters.  So a unit has a text exactly if every cut in every one
of its blocks falls between characters (`CodeUnit.exists_render_iff`).
-/

namespace Chronograph

/-- A part of a text that is written in one go. -/
inductive Piece where
  /-- A block, laid out at a depth. -/
  | laid (depth : Nat) (block : List Char)
  /-- Code that is printed as it is. -/
  | printed (text : List Char)

/-- The text of a piece. -/
def Piece.write : Piece → Except MarginFault (List Char)
  | .laid depth block => layOut depth block
  | .printed text => .ok text

/-- The text of pieces, one after the other. -/
def writeAll : List Piece → Except MarginFault (List Char)
  | [] => .ok []
  | piece :: rest => do
    let first ← piece.write
    let others ← writeAll rest
    return first ++ others

/-! ## Cuts in a block -/

/-- Every cut that laying out a block makes falls between two characters: a
line with at least as many bytes as the margin can be cut there. -/
def CutsBetween (block : List Char) : Prop :=
  ∀ line ∈ keptLines block, marginOf (keptLines block) ≤ byteLength line →
    (dropBytes (marginOf (keptLines block)) line).isSome = true

instance (block : List Char) : Decidable (CutsBetween block) := by
  unfold CutsBetween
  infer_instance

theorem exists_cutMargin_iff {margin : Nat} {line : List Char} :
    (∃ out, cutMargin margin line = .ok out) ↔
      (margin ≤ byteLength line → (dropBytes margin line).isSome = true) := by
  unfold cutMargin
  by_cases hlength : margin ≤ byteLength line
  · cases hcut : dropBytes margin line with
    | none => simp [hlength]
    | some rest => simp [hlength]
  · simp [hlength]

theorem exists_mapM_cutMargin_iff {margin : Nat} {lines : List (List Char)} :
    (∃ out, lines.mapM (cutMargin margin) = .ok out) ↔
      ∀ line ∈ lines, ∃ out, cutMargin margin line = .ok out := by
  induction lines with
  | nil => simp [pure, Except.pure]
  | cons line lines ih =>
      rw [List.forall_mem_cons, ← ih, List.mapM_cons]
      cases cutMargin margin line with
      | error fault => simp [bind, Except.bind]
      | ok first =>
          cases lines.mapM (cutMargin margin) with
          | error fault => simp [bind, Except.bind]
          | ok others => simp [bind, Except.bind, pure, Except.pure]

/-- **A block is laid out exactly if every cut falls between characters**, at
whatever depth. -/
theorem exists_layOut_iff {depth : Nat} {block : List Char} :
    (∃ out, layOut depth block = .ok out) ↔ CutsBetween block := by
  cases block with
  | nil =>
      have hcuts : CutsBetween [] := by decide
      simp [layOut, hcuts]
  | cons c block =>
      have hcuts : CutsBetween (c :: block) ↔
          ∃ out, (keptLines (c :: block)).mapM (cutMargin (marginOf (keptLines (c :: block))))
            = .ok out := by
        rw [exists_mapM_cutMargin_iff, CutsBetween]
        exact forall₂_congr fun line _ => exists_cutMargin_iff.symm
      rw [hcuts, layOut, if_neg (by simp)]
      dsimp only
      cases (keptLines (c :: block)).mapM (cutMargin (marginOf (keptLines (c :: block)))) with
      | error fault => simp [bind, Except.bind]
      | ok cut => simp [bind, Except.bind, pure, Except.pure]

/-- A blank line of one wide blank between two indented ones is not cut between
characters. -/
example : ¬ CutsBetween " a\n\u3000\n b".toList := by decide

/-! ## Pieces of statements and items -/

/-- The pieces of a comment: one for each line. -/
def commentPieces (depth : Nat) (text : String) : List Piece :=
  (commentLines text.toList).map fun line =>
    .laid depth (if line.isEmpty then "//".toList else "// ".toList ++ line)

mutual

/-- The pieces of a statement at a depth. -/
def Stmt.pieces (depth : Nat) : Stmt → List Piece
  | .line text => [.laid depth text.toList]
  | .comment text => commentPieces depth text
  | .blank => [.printed ['\n']]
  | .verbatim text => [.printed (renderVerbatim text.toList)]
  | .block header body =>
    .laid depth (openingLine header).toList ::
      (Stmt.piecesAll (depth + 1) body ++ [.laid depth ['}']])
  | .timerStart _ => [.laid depth timerStartText.toList]
  | .timerStop _ operator => [.laid depth (timerStopText operator).toList]

/-- The pieces of statements at a depth. -/
def Stmt.piecesAll (depth : Nat) : List Stmt → List Piece
  | [] => []
  | s :: rest => Stmt.pieces depth s ++ Stmt.piecesAll depth rest

end

mutual

/-- The pieces of an item. -/
def Item.pieces : Item → List Piece
  | .comment text => commentPieces 0 text
  | .header name => [.laid 0 ("#include <" ++ name ++ ">").toList]
  | .blank => [.printed ['\n']]
  | .scope name items =>
    .laid 0 ("namespace " ++ name ++ " \x7b").toList ::
      (Item.piecesAll items ++ [.laid 0 ("\x7d  // namespace " ++ name).toList])
  | .foreign signature => [.laid 0 ("extern \"C\" " ++ signature ++ ";").toList]
  | .typeAlias name target => [.laid 0 ("using " ++ name ++ " = " ++ target ++ ";").toList]
  | .global type name length init => [.laid 0 (globalLine type name length init).toList]
  | .function f => .laid 0 f.opening.toList :: (Stmt.piecesAll 1 f.body ++ [.laid 0 ['}']])

/-- The pieces of items. -/
def Item.piecesAll : List Item → List Piece
  | [] => []
  | item :: rest => Item.pieces item ++ Item.piecesAll rest

end

/-- The pieces of a unit. -/
def CodeUnit.pieces (u : CodeUnit) : List Piece := Item.piecesAll u.items

/-! ## Writing the pieces -/

theorem writeAll_append (xs ys : List Piece) :
    writeAll (xs ++ ys) = (do let a ← writeAll xs; let b ← writeAll ys; return a ++ b) := by
  induction xs with
  | nil =>
      rw [List.nil_append, writeAll]
      cases writeAll ys <;> rfl
  | cons piece xs ih => rw [List.cons_append, writeAll, writeAll, ih, join_assoc]

theorem writeAll_singleton (piece : Piece) : writeAll [piece] = piece.write := by
  rw [writeAll, writeAll]
  cases piece.write with
  | error fault => rfl
  | ok text => exact congrArg Except.ok (List.append_nil text)

/-- Pieces between two others. -/
theorem writeAll_enclose (first last : Piece) (inner : List Piece) :
    writeAll (first :: (inner ++ [last])) =
      (do let a ← first.write; let b ← writeAll inner; let c ← last.write; return a ++ b ++ c) := by
  rw [writeAll, writeAll_append, writeAll_singleton]
  cases first.write with
  | error fault => rfl
  | ok a =>
      cases writeAll inner with
      | error fault => rfl
      | ok b =>
          cases last.write with
          | error fault => rfl
          | ok c => exact congrArg Except.ok (List.append_assoc a b c).symm

theorem renderComment_eq_writeAll (depth : Nat) (text : String) :
    renderComment depth text = writeAll (commentPieces depth text) := by
  unfold renderComment commentPieces
  induction commentLines text.toList with
  | nil => rfl
  | cons line lines ih =>
      rw [List.map_cons, writeAll, ← ih, List.mapM_cons]
      show _ = (layOut depth _ >>= _)
      cases layOut depth (if line.isEmpty then "//".toList else "// ".toList ++ line) with
      | error fault => rfl
      | ok first =>
          cases lines.mapM fun line =>
              layOut depth (if line.isEmpty then "//".toList else "// ".toList ++ line) with
          | error fault => rfl
          | ok others => rfl

mutual

/-- The text of a statement is that of its pieces. -/
theorem Stmt.render_eq_writeAll (depth : Nat) (s : Stmt) :
    Stmt.render depth s = writeAll (Stmt.pieces depth s) := by
  cases s with
  | line text => rw [Stmt.render, Stmt.pieces, writeAll_singleton, Piece.write]
  | comment text => rw [Stmt.render, Stmt.pieces, renderComment_eq_writeAll]
  | blank => rw [Stmt.render, Stmt.pieces, writeAll_singleton, Piece.write]
  | verbatim text => rw [Stmt.render, Stmt.pieces, writeAll_singleton, Piece.write]
  | block header body =>
      rw [Stmt.render, Stmt.pieces, writeAll_enclose, Stmt.renderAll_eq_writeAll (depth + 1) body]
      rfl
  | timerStart position => rw [Stmt.render, Stmt.pieces, writeAll_singleton, Piece.write]
  | timerStop position operator =>
      rw [Stmt.render, Stmt.pieces, writeAll_singleton, Piece.write]

theorem Stmt.renderAll_eq_writeAll (depth : Nat) (body : List Stmt) :
    Stmt.renderAll depth body = writeAll (Stmt.piecesAll depth body) := by
  cases body with
  | nil => rw [Stmt.renderAll, Stmt.piecesAll, writeAll]
  | cons s rest =>
      rw [Stmt.renderAll, Stmt.piecesAll, writeAll_append, Stmt.render_eq_writeAll depth s,
        Stmt.renderAll_eq_writeAll depth rest]

end

theorem Function.render_eq_writeAll (f : Function) :
    f.render = writeAll (Item.function f).pieces := by
  rw [Function.render, Item.pieces, writeAll_enclose, Stmt.renderAll_eq_writeAll]
  rfl

mutual

/-- The text of an item is that of its pieces. -/
theorem Item.render_eq_writeAll (item : Item) : item.render = writeAll item.pieces := by
  cases item with
  | comment text => rw [Item.render, Item.pieces, renderComment_eq_writeAll]
  | header name => rw [Item.render, Item.pieces, writeAll_singleton, Piece.write]
  | blank => rw [Item.render, Item.pieces, writeAll_singleton, Piece.write]
  | scope name items =>
      rw [Item.render, Item.pieces, writeAll_enclose, Item.renderAll_eq_writeAll items]
      rfl
  | foreign signature => rw [Item.render, Item.pieces, writeAll_singleton, Piece.write]
  | typeAlias name target => rw [Item.render, Item.pieces, writeAll_singleton, Piece.write]
  | global type name length init => rw [Item.render, Item.pieces, writeAll_singleton, Piece.write]
  | function f => rw [Item.render, Function.render_eq_writeAll]

theorem Item.renderAll_eq_writeAll (items : List Item) :
    Item.renderAll items = writeAll (Item.piecesAll items) := by
  cases items with
  | nil => rw [Item.renderAll, Item.piecesAll, writeAll]
  | cons item rest =>
      rw [Item.renderAll, Item.piecesAll, writeAll_append, Item.render_eq_writeAll item,
        Item.renderAll_eq_writeAll rest]

end

/-- **The text of a unit is that of its pieces**, and it has the same fault. -/
theorem CodeUnit.render_eq_writeAll (u : CodeUnit) :
    u.render = String.ofList <$> writeAll u.pieces := by
  rw [CodeUnit.render, CodeUnit.pieces, Item.renderAll_eq_writeAll]

/-- Pieces have a text exactly if each block among them is cut between
characters. -/
theorem exists_writeAll_iff {pieces : List Piece} :
    (∃ out, writeAll pieces = .ok out) ↔
      ∀ depth block, Piece.laid depth block ∈ pieces → CutsBetween block := by
  induction pieces with
  | nil => simp [writeAll]
  | cons piece rest ih =>
      have hsplit : (∃ out, writeAll (piece :: rest) = .ok out) ↔
          (∃ out, piece.write = .ok out) ∧ ∃ out, writeAll rest = .ok out := by
        rw [writeAll]
        constructor
        · intro h
          obtain ⟨out, hout⟩ := h
          obtain ⟨first, others, hfirst, hothers, -⟩ := join_eq_ok_iff.mp hout
          exact ⟨⟨first, hfirst⟩, others, hothers⟩
        · intro h
          obtain ⟨⟨first, hfirst⟩, others, hothers⟩ := h
          exact ⟨_, join_eq_ok_iff.mpr ⟨first, others, hfirst, hothers, rfl⟩⟩
      rw [hsplit, ih]
      cases piece with
      | printed text => simp [Piece.write]
      | laid depth block =>
          simp only [Piece.write, exists_layOut_iff, List.mem_cons, Piece.laid.injEq]
          constructor
          · intro h other text hmem
            cases hmem with
            | inl heq => rw [heq.2]; exact h.1
            | inr hrest => exact h.2 other text hrest
          · intro h
            exact ⟨h depth block (.inl ⟨rfl, rfl⟩), fun other text hmem => h other text (.inr hmem)⟩

/-- **A unit has a text exactly if every cut in its blocks falls between
characters.** -/
theorem CodeUnit.exists_render_iff {u : CodeUnit} :
    (∃ text, u.render = .ok text) ↔
      ∀ depth block, Piece.laid depth block ∈ u.pieces → CutsBetween block := by
  rw [← exists_writeAll_iff, CodeUnit.render_eq_writeAll]
  cases writeAll u.pieces with
  | error fault => simp [Functor.map, Except.map]
  | ok chars => simp [Functor.map, Except.map]

end Chronograph
