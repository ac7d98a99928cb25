/-!
# Lines

Two ways to see a text as lines.  `splitLines` cuts at every newline and keeps
what stands between, so a text with `n` newlines has `n + 1` pieces and the
pieces, joined by newlines, are the text again (`joinLines_splitLines`).
`commentLines` is the reader's view: a newline ends a line, a carriage return
before it belongs to the line's end, and nothing follows the last newline.
-/

namespace Chronograph

/-- The pieces of a text between its newlines; never an empty list. -/
def splitLines : List Char → List (List Char)
  | [] => [[]]
  | c :: cs =>
    if c = '\n' then [] :: splitLines cs
    else match splitLines cs with
      | [] => [[c]]
      | line :: rest => (c :: line) :: rest

/-- Lines with a newline between each two. -/
def joinLines : List (List Char) → List Char
  | [] => []
  | [line] => line
  | line :: rest => line ++ '\n' :: joinLines rest

/-- A line without the carriage return that ends it, if one does. -/
def dropReturn (line : List Char) : List Char :=
  if line.getLast? = some '\r' then line.dropLast else line

/-- Pieces seen as lines: each piece but the last was ended by a newline, and
an empty last piece is no line. -/
def endedLines : List (List Char) → List (List Char)
  | [] => []
  | [last] => if last.isEmpty then [] else [last]
  | line :: rest => dropReturn line :: endedLines rest

/-- The lines of a text; the newline, or carriage return and newline, that ends
a line is not part of it. -/
def commentLines (s : List Char) : List (List Char) := endedLines (splitLines s)

theorem splitLines_ne_nil (s : List Char) : splitLines s ≠ [] := by
  cases s with
  | nil => simp [splitLines]
  | cons c cs =>
      simp only [splitLines]
      split
      · simp
      · split <;> simp

/-- Nothing is lost by cutting at newlines. -/
theorem joinLines_splitLines (s : List Char) : joinLines (splitLines s) = s := by
  induction s with
  | nil => rfl
  | cons c cs ih =>
      simp only [splitLines]
      split
      next h =>
        subst h
        cases hs : splitLines cs with
        | nil => exact absurd hs (splitLines_ne_nil cs)
        | cons line rest => rw [hs] at ih; simp [joinLines, ih]
      next h =>
        cases hs : splitLines cs with
        | nil => exact absurd hs (splitLines_ne_nil cs)
        | cons line rest =>
            rw [hs] at ih
            cases rest with
            | nil => simpa [joinLines] using ih
            | cons next more => simpa [joinLines] using ih

/-- No piece holds a newline. -/
theorem not_mem_of_mem_splitLines {s line : List Char} (h : line ∈ splitLines s) :
    '\n' ∉ line := by
  induction s generalizing line with
  | nil => simp [splitLines] at h; simp [h]
  | cons c cs ih =>
      simp only [splitLines] at h
      split at h
      · rcases List.mem_cons.mp h with rfl | h
        · simp
        · exact ih h
      next hc =>
        cases hs : splitLines cs with
        | nil => exact absurd hs (splitLines_ne_nil cs)
        | cons first rest =>
            rw [hs] at h ih
            rcases List.mem_cons.mp h with rfl | h
            · have := ih List.mem_cons_self
              simp [this, Ne.symm hc]
            · exact ih (List.mem_cons_of_mem _ h)

end Chronograph
