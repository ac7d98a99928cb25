import Chronograph.Proofs.Code.Rendering

/-!
# Comments

A comment is written line by line, each line behind two slashes, so whatever its text
is, nothing of it can stand outside of the comment (`renderComment_eq`).  A line is
taken from between two newlines of the text and has none itself; the return before a
newline is dropped.  The end of a text that does not end a line is the end of the last
line (`exists_commentLines_append`).
-/

namespace Chronograph

/-! ## The lines of a comment's text -/

/-- A line is a part of a piece of the text. -/
theorem exists_subset_of_mem_endedLines {pieces : List (List Char)} {line : List Char}
    (h : line ∈ endedLines pieces) : ∃ piece ∈ pieces, line ⊆ piece := by
  induction pieces with
  | nil => cases h
  | cons piece pieces ih =>
      cases pieces with
      | nil =>
          rw [endedLines] at h
          split at h
          · cases h
          · rw [List.mem_singleton.mp h]
            exact ⟨piece, List.mem_cons_self, List.Subset.refl piece⟩
      | cons next pieces =>
          rcases List.mem_cons.mp h with rfl | h
          · refine ⟨piece, List.mem_cons_self, ?_⟩
            unfold dropReturn
            split
            · exact List.dropLast_subset piece
            · exact List.Subset.refl piece
          · obtain ⟨other, hother, hline⟩ := ih h
            exact ⟨other, List.mem_cons_of_mem _ hother, hline⟩

theorem newline_not_mem_commentLines {text line : List Char} (h : line ∈ commentLines text) :
    '\n' ∉ line := by
  obtain ⟨piece, hpiece, hline⟩ := exists_subset_of_mem_endedLines h
  exact fun hmem => not_mem_of_mem_splitLines hpiece (hline hmem)

/-- The last character of a text, if it ends no line, ends the last piece. -/
theorem exists_splitLines_append (text : List Char) {c : Char} (hc : c ≠ '\n') :
    ∃ pieces last, splitLines (text ++ [c]) = pieces ++ [last ++ [c]] := by
  induction text with
  | nil => exact ⟨[], [], by simp [splitLines, hc]⟩
  | cons d text ih =>
      obtain ⟨pieces, last, hsplit⟩ := ih
      rw [List.cons_append, splitLines, hsplit]
      by_cases hd : d = '\n'
      · exact ⟨[] :: pieces, last, by simp [hd]⟩
      · cases pieces with
        | nil => exact ⟨[], d :: last, by simp [hd]⟩
        | cons piece pieces => exact ⟨(d :: piece) :: pieces, last, by simp [hd]⟩

theorem endedLines_append {last : List Char} (h : last ≠ []) (pieces : List (List Char)) :
    endedLines (pieces ++ [last]) = pieces.map dropReturn ++ [last] := by
  induction pieces with
  | nil => simp [endedLines, h]
  | cons piece pieces ih =>
      rw [List.map_cons, List.cons_append, List.cons_append, ← ih]
      cases pieces <;> rfl

/-- The last character of a text, if it ends no line, ends the last line. -/
theorem exists_commentLines_append (text : List Char) {c : Char} (hc : c ≠ '\n') :
    ∃ lines last, commentLines (text ++ [c]) = lines ++ [last ++ [c]] := by
  obtain ⟨pieces, last, hsplit⟩ := exists_splitLines_append text hc
  exact ⟨pieces.map dropReturn, last, by rw [commentLines, hsplit, endedLines_append (by simp)]⟩

/-! ## The text of a comment -/

/-- A line of a comment, behind its slashes. -/
def slashed (line : List Char) : List Char :=
  if line.isEmpty then "//".toList else "// ".toList ++ line

theorem prefix_slashed (line : List Char) : "//".toList <+: slashed line := by
  unfold slashed
  split
  · exact List.prefix_refl _
  · exact ⟨' ' :: line, rfl⟩

theorem newline_not_mem_slashed {line : List Char} (h : '\n' ∉ line) : '\n' ∉ slashed line := by
  unfold slashed
  split
  · decide
  · rw [List.mem_append, not_or]
    exact ⟨by decide, h⟩

theorem layOut_slashed (depth : Nat) {line : List Char} (h : '\n' ∉ line) :
    layOut depth (slashed line) =
      .ok (List.replicate (2 * depth) ' ' ++ slashed line ++ ['\n']) := by
  obtain ⟨rest, hslashed⟩ := prefix_slashed line
  have hnewline := newline_not_mem_slashed h
  rw [← hslashed] at hnewline ⊢
  exact layOut_line depth (by decide) hnewline

/-- **The text of a comment** is its lines, each behind its slashes. -/
theorem renderComment_eq (depth : Nat) (text : String) :
    renderComment depth text = .ok ((commentLines text.toList).flatMap fun line =>
      List.replicate (2 * depth) ' ' ++ slashed line ++ ['\n']) := by
  have hlines := mapM_eq_ok fun line (hline : line ∈ commentLines text.toList) =>
    layOut_slashed depth (newline_not_mem_commentLines hline)
  rw [renderComment]
  show (do let lines ← (commentLines text.toList).mapM fun line => layOut depth (slashed line)
           return lines.flatten) = _
  rw [hlines, List.flatMap_def]
  rfl

end Chronograph
