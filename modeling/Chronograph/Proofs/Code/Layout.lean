import Chronograph.Code.Layout

/-!
# Blocks that are laid out

What laying out does to the lines of a block, for blocks in which every kept
line has something on it.  The margin is then at most the indent of each line,
so cutting it takes spaces and tabs only: a number of bytes that is also a
number of characters, and no cut can fall inside a character.

* `cutMargin_of_le_indentOf` — a cut inside the indent of a line is a `drop`;
* `marginOf_eq` — the margin is the indent of the least indented line;
* `layOut_of_not_blank` — such a block is laid out line by line;
* `layOut_line` — one line without an indent of its own.
-/

namespace Chronograph

/-! ## Blank and indented lines -/

theorem isBlank_of_isIndent {c : Char} (h : isIndent c = true) : isBlank c = true := by
  simp only [isIndent, Bool.or_eq_true, beq_iff_eq] at h
  rcases h with rfl | rfl <;> decide

/-- A space or a tab takes one byte. -/
theorem utf8Size_of_isIndent {c : Char} (h : isIndent c = true) : c.utf8Size = 1 := by
  simp only [isIndent, Bool.or_eq_true, beq_iff_eq] at h
  rcases h with rfl | rfl <;> decide

theorem isBlankText_append (s t : List Char) :
    isBlankText (s ++ t) = (isBlankText s && isBlankText t) := by
  simp [isBlankText]

/-- A line with a character that is not blank is not blank. -/
theorem isBlankText_eq_false_of_mem {line : List Char} {c : Char} (hc : c ∈ line)
    (hblank : isBlank c = false) : isBlankText line = false := by
  rw [isBlankText, List.all_eq_false]
  exact ⟨c, hc, by simp [hblank]⟩

@[simp] theorem indentOf_cons (c : Char) (line : List Char) :
    indentOf (c :: line) = if isIndent c then indentOf line + 1 else 0 := by
  by_cases h : isIndent c = true <;> simp [indentOf, h]

theorem indentOf_replicate_append (n : Nat) (line : List Char) :
    indentOf (List.replicate n ' ' ++ line) = n + indentOf line := by
  induction n with
  | zero => simp
  | succ n ih =>
      have hspace : isIndent ' ' = true := by decide
      rw [List.replicate_succ, List.cons_append, indentOf_cons, ih, if_pos hspace]
      omega

/-! ## Cutting the margin -/

/-- What is dropped inside the indent of a line is blank, and so the rest of
the line is blank only if the line is. -/
theorem isBlankText_drop {n : Nat} {line : List Char} (h : n ≤ indentOf line) :
    isBlankText (line.drop n) = isBlankText line := by
  induction line generalizing n with
  | nil => simp
  | cons c line ih =>
      cases n with
      | zero => rfl
      | succ n =>
          rw [indentOf_cons] at h
          split at h
          next hc =>
            rw [List.drop_succ_cons, ih (by omega)]
            simp [isBlankText, isBlank_of_isIndent hc]
          next => omega

/-- A number of bytes inside the indent of a line is a number of characters. -/
theorem dropBytes_of_le_indentOf {n : Nat} {line : List Char} (h : n ≤ indentOf line) :
    dropBytes n line = some (line.drop n) := by
  induction line generalizing n with
  | nil =>
      have : n = 0 := by simpa [indentOf] using h
      subst this
      rfl
  | cons c line ih =>
      cases n with
      | zero => rfl
      | succ n =>
          rw [indentOf_cons] at h
          split at h
          next hc =>
            have hsize := utf8Size_of_isIndent hc
            simp only [dropBytes, hsize, List.drop_succ_cons]
            rw [if_pos (by omega)]
            exact ih (by omega)
          next => omega

/-- A margin inside the indent of a line is cut off character by character. -/
theorem cutMargin_of_le_indentOf {margin : Nat} {line : List Char}
    (h : margin ≤ indentOf line) : cutMargin margin line = .ok (line.drop margin) := by
  have hdrop := dropBytes_of_le_indentOf h
  have hbytes := byteLength_dropBytes hdrop
  rw [cutMargin, if_pos (by omega), hdrop]

/-- A walk in which no step fails gives the results of the steps. -/
theorem mapM_eq_ok {ε α β : Type} {f : α → Except ε β} {g : α → β} {xs : List α}
    (h : ∀ x ∈ xs, f x = .ok (g x)) : xs.mapM f = .ok (xs.map g) := by
  induction xs with
  | nil => rfl
  | cons x xs ih =>
      rw [List.mapM_cons, h x List.mem_cons_self,
        ih fun other hother => h other (List.mem_cons_of_mem _ hother)]
      rfl

/-- A margin inside the indent of every line is cut off everywhere. -/
theorem mapM_cutMargin {margin : Nat} {lines : List (List Char)}
    (h : ∀ line ∈ lines, margin ≤ indentOf line) :
    lines.mapM (cutMargin margin) = .ok (lines.map fun line => line.drop margin) :=
  mapM_eq_ok fun line hline => cutMargin_of_le_indentOf (h line hline)

/-- The margin is at most the indent of a line that is not blank. -/
theorem marginOf_le {lines : List (List Char)} {line : List Char} (hmem : line ∈ lines)
    (hblank : isBlankText line = false) : marginOf lines ≤ indentOf line := by
  have hin : indentOf line ∈ (lines.filter fun line => !isBlankText line).map indentOf :=
    List.mem_map_of_mem (List.mem_filter.mpr ⟨hmem, by simp [hblank]⟩)
  rw [marginOf]
  cases hmin : ((lines.filter fun line => !isBlankText line).map indentOf).min? with
  | none => rw [List.min?_eq_none_iff.mp hmin] at hin; simp at hin
  | some m => exact (List.min?_eq_some_iff.mp hmin).2 _ hin

/-- The margin is the indent of a line that no other line is less indented than. -/
theorem marginOf_eq {lines : List (List Char)} {line : List Char} (hmem : line ∈ lines)
    (hblank : isBlankText line = false)
    (hleast : ∀ other ∈ lines, isBlankText other = false → indentOf line ≤ indentOf other) :
    marginOf lines = indentOf line := by
  refine Nat.le_antisymm (marginOf_le hmem hblank) ?_
  have hin : indentOf line ∈ (lines.filter fun line => !isBlankText line).map indentOf :=
    List.mem_map_of_mem (List.mem_filter.mpr ⟨hmem, by simp [hblank]⟩)
  rw [marginOf]
  cases hmin : ((lines.filter fun line => !isBlankText line).map indentOf).min? with
  | none => rw [List.min?_eq_none_iff.mp hmin] at hin; simp at hin
  | some m =>
      obtain ⟨other, hother, rfl⟩ := List.mem_map.mp (List.min?_eq_some_iff.mp hmin).1
      obtain ⟨hin, hnot⟩ := List.mem_filter.mp hother
      exact hleast other hin (by simpa using hnot)

/-! ## Lines of a text -/

theorem splitLines_of_not_mem {line : List Char} (h : '\n' ∉ line) :
    splitLines line = [line] := by
  induction line with
  | nil => rfl
  | cons c line ih =>
      simp only [List.mem_cons, not_or] at h
      rw [splitLines, if_neg (Ne.symm h.1), ih h.2]

/-- A newline ends the line before it. -/
theorem splitLines_append {line : List Char} (h : '\n' ∉ line) (rest : List Char) :
    splitLines (line ++ '\n' :: rest) = line :: splitLines rest := by
  induction line with
  | nil => simp [splitLines]
  | cons c line ih =>
      simp only [List.mem_cons, not_or] at h
      rw [List.cons_append, splitLines, if_neg (Ne.symm h.1), ih h.2]

/-- Lines without newlines are the lines of the text they are joined to. -/
theorem splitLines_joinLines {lines : List (List Char)} (hne : lines ≠ [])
    (h : ∀ line ∈ lines, '\n' ∉ line) : splitLines (joinLines lines) = lines := by
  induction lines with
  | nil => exact absurd rfl hne
  | cons line rest ih =>
      have hline := h line List.mem_cons_self
      cases rest with
      | nil => exact splitLines_of_not_mem hline
      | cons next rest =>
          show splitLines (line ++ '\n' :: joinLines (next :: rest)) = _
          rw [splitLines_append hline,
            ih (List.cons_ne_nil _ _) fun other hother => h other (List.mem_cons_of_mem _ hother)]

/-! ## Laying out -/

/-- **A block without blank lines.**  If no kept line of a block is blank, each
loses the margin and is written behind the spaces of its depth. -/
theorem layOut_of_not_blank (depth : Nat) {block : List Char} (hblock : block ≠ [])
    (hkept : ∀ line ∈ keptLines block, isBlankText line = false) :
    layOut depth block = .ok ((keptLines block).flatMap fun line =>
      List.replicate (2 * depth) ' ' ++ line.drop (marginOf (keptLines block)) ++ ['\n']) := by
  have hcut := mapM_cutMargin fun line hline => marginOf_le hline (hkept line hline)
  rw [layOut, if_neg (by simpa using hblock)]
  dsimp only
  rw [hcut]
  show Except.ok _ = _
  rw [List.flatMap_map, List.flatMap_def, List.flatMap_def]
  congr 2
  refine List.map_congr_left fun line hline => ?_
  have hnot : isBlankText (line.drop (marginOf (keptLines block))) = false := by
    rw [isBlankText_drop (marginOf_le hline (hkept line hline)), hkept line hline]
  simp [indentLine, hnot]

theorem keptLines_of_not_mem {line : List Char} (hline : '\n' ∉ line)
    (hblank : isBlankText line = false) : keptLines line = [line] := by
  simp [keptLines, splitLines_of_not_mem hline, hblank]

/-- A line that starts with a character of its own is written behind the spaces
of its depth. -/
theorem layOut_line (depth : Nat) {c : Char} {line : List Char} (hc : isBlank c = false)
    (hline : '\n' ∉ c :: line) :
    layOut depth (c :: line) = .ok (List.replicate (2 * depth) ' ' ++ c :: line ++ ['\n']) := by
  have hblank : isBlankText (c :: line) = false :=
    isBlankText_eq_false_of_mem List.mem_cons_self hc
  have hkept := keptLines_of_not_mem hline hblank
  have hindent : isIndent c = false := by
    cases h : isIndent c with
    | false => rfl
    | true => rw [isBlank_of_isIndent h] at hc; exact hc
  have hmargin : marginOf [c :: line] = 0 := by
    have h : marginOf [c :: line] ≤ indentOf (c :: line) := marginOf_le List.mem_cons_self hblank
    rw [indentOf_cons, hindent] at h
    exact Nat.le_zero.mp h
  rw [layOut_of_not_blank depth (List.cons_ne_nil _ _) (by simp [hkept, hblank]), hkept, hmargin]
  simp

end Chronograph
