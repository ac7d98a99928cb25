import Chronograph.Code.Rendering
import Chronograph.Proofs.Code.Layout

/-!
# Texts one after the other

The text of a list of statements or items is the texts of its members in order,
so it can be cut wherever the list can (`Stmt.renderAll_append`,
`Item.renderAll_append`).  A text is there only if all of its parts are, and
`join_eq_ok_iff` takes such a text apart again.

The two statements round an operator have texts that do not depend on anything
but the depth and the operator's name.  The one behind it is laid out from a
block into which the name has been put (`render_timerStop`): its margin is that
of the first line whatever the name is, because an escaped name breaks no line.
-/

namespace Chronograph

/-! ## Joining texts -/

/-- Two texts one after the other are there exactly if both are. -/
theorem join_eq_ok_iff {x y : Except MarginFault (List Char)} {text : List Char} :
    (do let a ← x; let b ← y; return a ++ b) = .ok text ↔
      ∃ a b, x = .ok a ∧ y = .ok b ∧ text = a ++ b := by
  constructor
  · intro h
    cases x with
    | error fault => cases h
    | ok a =>
        cases y with
        | error fault => cases h
        | ok b => cases h; exact ⟨a, b, rfl, rfl, rfl⟩
  · rintro ⟨a, b, rfl, rfl, rfl⟩
    rfl

/-- A text between two others is there exactly if all three are. -/
theorem enclose_eq_ok_iff {x y z : Except MarginFault (List Char)} {text : List Char} :
    (do let a ← x; let b ← y; let c ← z; return a ++ b ++ c) = .ok text ↔
      ∃ a b c, x = .ok a ∧ y = .ok b ∧ z = .ok c ∧ text = a ++ b ++ c := by
  constructor
  · intro h
    cases x with
    | error fault => cases h
    | ok a =>
        cases y with
        | error fault => cases h
        | ok b =>
            cases z with
            | error fault => cases h
            | ok c => cases h; exact ⟨a, b, c, rfl, rfl, rfl, rfl⟩
  · rintro ⟨a, b, c, rfl, rfl, rfl, rfl⟩
    rfl

/-- A unit has a text exactly if its items have one. -/
theorem CodeUnit.render_eq_ok_iff {u : CodeUnit} {text : String} :
    u.render = .ok text ↔ ∃ chars, Item.renderAll u.items = .ok chars ∧ text = String.ofList chars := by
  unfold CodeUnit.render
  cases Item.renderAll u.items with
  | error fault => simp [Functor.map, Except.map]
  | ok chars => simp [Functor.map, Except.map, eq_comm]

/-- Joining texts is associative, faults included. -/
theorem join_assoc (x y z : Except MarginFault (List Char)) :
    (do let a ← (do let a ← x; let b ← y; return a ++ b); let c ← z; return a ++ c) =
      (do let a ← x; let b ← (do let b ← y; let c ← z; return b ++ c); return a ++ b) := by
  cases x with
  | error fault => rfl
  | ok a =>
      cases y with
      | error fault => rfl
      | ok b =>
          cases z with
          | error fault => rfl
          | ok c => exact congrArg Except.ok (List.append_assoc a b c)

/-- The text of statements in two parts is the texts of the parts. -/
theorem Stmt.renderAll_append (depth : Nat) (xs ys : List Stmt) :
    Stmt.renderAll depth (xs ++ ys) =
      (do let a ← Stmt.renderAll depth xs; let b ← Stmt.renderAll depth ys; return a ++ b) := by
  induction xs with
  | nil =>
      rw [List.nil_append, Stmt.renderAll]
      cases Stmt.renderAll depth ys <;> rfl
  | cons s xs ih => rw [List.cons_append, Stmt.renderAll, Stmt.renderAll, ih, join_assoc]

/-- The text of items in two parts is the texts of the parts. -/
theorem Item.renderAll_append (xs ys : List Item) :
    Item.renderAll (xs ++ ys) =
      (do let a ← Item.renderAll xs; let b ← Item.renderAll ys; return a ++ b) := by
  induction xs with
  | nil =>
      rw [List.nil_append, Item.renderAll]
      cases Item.renderAll ys <;> rfl
  | cons item xs ih => rw [List.cons_append, Item.renderAll, Item.renderAll, ih, join_assoc]

theorem Stmt.renderAll_singleton (depth : Nat) (s : Stmt) :
    Stmt.renderAll depth [s] = Stmt.render depth s := by
  rw [Stmt.renderAll, Stmt.renderAll]
  cases Stmt.render depth s with
  | error fault => rfl
  | ok text => exact congrArg Except.ok (List.append_nil text)

theorem Item.renderAll_singleton (item : Item) : Item.renderAll [item] = item.render := by
  rw [Item.renderAll, Item.renderAll]
  cases item.render with
  | error fault => rfl
  | ok text => exact congrArg Except.ok (List.append_nil text)

/-! ## The statements round an operator -/

/-- Escaping leaves no newline, return or tab in a text. -/
theorem ne_break_of_mem_escapeLiteral {s : List Char} {c : Char} (h : c ∈ escapeLiteral s) :
    c ≠ '\n' ∧ c ≠ '\r' ∧ c ≠ '\t' := by
  obtain ⟨d, -, hc⟩ := List.mem_flatMap.mp h
  grind [escapeLiteralChar]

theorem newline_not_mem_escapeLiteral (s : List Char) : '\n' ∉ escapeLiteral s :=
  fun h => (ne_break_of_mem_escapeLiteral h).1 rfl

/-- The statement before an operator is one line. -/
theorem render_timerStart (depth position : Nat) :
    Stmt.render depth (.timerStart position) =
      .ok (List.replicate (2 * depth) ' ' ++ timerStartText.toList ++ ['\n']) := by
  have htext : timerStartText.toList =
      't' :: "p_start = std::chrono::steady_clock::now();".toList := rfl
  rw [Stmt.render, htext, layOut_line depth (by decide) (by decide)]

theorem newline_not_mem_timerStopLines {operator : String} {line : List Char}
    (h : line ∈ timerStopLines operator) : '\n' ∉ line := by
  simp only [timerStopLines, List.mem_cons, List.not_mem_nil, or_false] at h
  rcases h with rfl | rfl | rfl
  · rw [List.mem_append, List.mem_append, not_or, not_or]
    exact ⟨⟨by decide, newline_not_mem_escapeLiteral operator.toList⟩, by decide⟩
  · decide
  · decide

/-- A line of the statement behind an operator is not blank: it ends in an
opening parenthesis or a semicolon. -/
theorem isBlankText_timerStopLines {operator : String} {line : List Char}
    (h : line ∈ timerStopLines operator) : isBlankText line = false := by
  simp only [timerStopLines, List.mem_cons, List.not_mem_nil, or_false] at h
  rcases h with rfl | rfl | rfl
  · simp only [isBlankText_append, Bool.and_eq_false_iff]
    exact .inr (by decide)
  · decide
  · decide

/-- The kept lines of the block behind an operator. -/
theorem keptLines_timerStopText (operator : String) :
    keptLines (timerStopText operator).toList =
      (timerStopLines operator).map (List.replicate 12 ' ' ++ ·) := by
  have hlines : ∀ line ∈ [] :: (timerStopLines operator).map (List.replicate 12 ' ' ++ ·) ++
      [List.replicate 8 ' '], '\n' ∉ line := by
    intro line h
    simp only [List.cons_append, List.mem_cons, List.mem_append, List.mem_map, List.not_mem_nil,
      or_false] at h
    rcases h with rfl | ⟨inner, hinner, rfl⟩ | rfl
    · simp
    · rw [List.mem_append, not_or]
      exact ⟨by decide, newline_not_mem_timerStopLines hinner⟩
    · decide
  rw [timerStopText, String.toList_ofList, keptLines, splitLines_joinLines (by simp) hlines]
  simp [isBlankText, List.getLast?_append, isBlank]

theorem marginOf_keptLines_timerStopText (operator : String) :
    marginOf (keptLines (timerStopText operator).toList) = 12 := by
  rw [keptLines_timerStopText]
  -- the first line has no indent besides the margin, because a name cannot get before its start
  obtain ⟨first, rest, hlines, hfirst⟩ :
      ∃ first rest, timerStopLines operator = first :: rest ∧ indentOf first = 0 :=
    ⟨_, _, rfl, rfl⟩
  have hmem : first ∈ timerStopLines operator := by rw [hlines]; exact List.mem_cons_self
  have hblank : isBlankText (List.replicate 12 ' ' ++ first) = false := by
    rw [isBlankText_append, isBlankText_timerStopLines hmem, Bool.and_false]
  refine (marginOf_eq (List.mem_map_of_mem hmem) hblank ?_).trans ?_
  · intro other hother _
    obtain ⟨line, -, rfl⟩ := List.mem_map.mp hother
    rw [indentOf_replicate_append, indentOf_replicate_append, hfirst]
    omega
  · rw [indentOf_replicate_append, hfirst]

/-- **The statement behind an operator.**  Whatever the operator's name, its
block becomes three lines, of which the second and third stand four and eight
columns behind the first. -/
theorem render_timerStop (depth position : Nat) (operator : String) :
    Stmt.render depth (.timerStop position operator) =
      .ok ((timerStopLines operator).flatMap fun line =>
        List.replicate (2 * depth) ' ' ++ line ++ ['\n']) := by
  have hblank : ∀ line ∈ keptLines (timerStopText operator).toList, isBlankText line = false := by
    intro line h
    rw [keptLines_timerStopText] at h
    obtain ⟨inner, hinner, rfl⟩ := List.mem_map.mp h
    rw [isBlankText_append, isBlankText_timerStopLines hinner, Bool.and_false]
  have hne : (timerStopText operator).toList ≠ [] := by
    rw [timerStopText, String.toList_ofList]
    exact List.cons_ne_nil _ _
  rw [Stmt.render, layOut_of_not_blank depth hne hblank, marginOf_keptLines_timerStopText,
    keptLines_timerStopText, List.flatMap_map]
  simp only [List.drop_left' List.length_replicate]

end Chronograph
