import Chronograph.Proofs.Code.Pieces

/-!
# Blocks are dedented exactly

A block that is laid out keeps the lines between its newlines (`Keeps`), less a
margin that is the least indent of those that are not blank (`IsMargin`).  Both are
told here without the functions that compute them.

The margin is a number of characters, but it is cut off in bytes, and off blank
lines too.  Inside the indent of a line the two are the same, so a line that is
not blank loses characters of its indent only.  A blank line is not looked at
before it is cut; the cut is a fault exactly if it falls inside one of the line's
characters (`dropBytes_eq_none_iff`), and otherwise leaves a blank line behind.
From both, what is written for each line depends on that line and the margin
alone (`layOut_eq_ok_iff`).
-/

namespace Chronograph

/-! ## Cuts inside a character -/

/-- The first `n` bytes of a text end inside one of its characters. -/
def EndsInside (n : Nat) (s : List Char) : Prop :=
  ∃ before c after, s = before ++ c :: after ∧ byteLength before < n ∧
    n < byteLength before + c.utf8Size

@[simp] theorem byteLength_append (s t : List Char) :
    byteLength (s ++ t) = byteLength s + byteLength t := by
  induction s with
  | nil => simp [byteLength]
  | cons c s ih => rw [List.cons_append, byteLength, byteLength, ih, Nat.add_assoc]

/-- A cut inside a character is a cut inside the text. -/
theorem EndsInside.lt_byteLength {n : Nat} {s : List Char} (h : EndsInside n s) :
    n < byteLength s := by
  obtain ⟨before, c, after, rfl, -, hc⟩ := h
  rw [byteLength_append, byteLength]
  omega

/-- Behind a character that the cut does not reach into, it is a cut of the rest. -/
theorem endsInside_cons_iff {n : Nat} {c : Char} {s : List Char} (h : c.utf8Size ≤ n) :
    EndsInside n (c :: s) ↔ EndsInside (n - c.utf8Size) s := by
  constructor
  · intro hin
    obtain ⟨before, d, after, hsplit, hbefore, hd⟩ := hin
    cases before with
    | nil =>
        cases hsplit
        simp only [byteLength] at hd
        omega
    | cons first before =>
        cases hsplit
        simp only [byteLength] at hbefore hd
        exact ⟨before, d, after, rfl, by omega, by omega⟩
  · intro hin
    obtain ⟨before, d, after, rfl, hbefore, hd⟩ := hin
    exact ⟨c :: before, d, after, rfl, by rw [byteLength]; omega, by rw [byteLength]; omega⟩

/-- **A number of bytes cannot be dropped** exactly if the text has fewer, or if they
end inside a character. -/
theorem dropBytes_eq_none_iff {n : Nat} {s : List Char} :
    dropBytes n s = none ↔ byteLength s < n ∨ EndsInside n s := by
  fun_induction dropBytes n s with
  | case1 s =>
      have hnot : ¬ EndsInside 0 s := by
        intro hin
        obtain ⟨before, c, after, -, hbefore, -⟩ := hin
        omega
      simp [hnot]
  | case2 n => simp [byteLength]
  | case3 n c s hc ih =>
      rw [ih, endsInside_cons_iff hc, byteLength]
      refine or_congr_left ?_
      omega
  | case4 n c s hc =>
      have hin : EndsInside (n + 1) (c :: s) :=
        ⟨[], c, s, rfl, by rw [byteLength]; omega, by rw [byteLength]; omega⟩
      simp [hin]

/-- Inside the indent of a line, every cut falls between characters. -/
theorem not_endsInside_of_le_indentOf {n : Nat} {line : List Char} (h : n ≤ indentOf line) :
    ¬ EndsInside n line := by
  intro hin
  have hdrop := dropBytes_of_le_indentOf h
  rw [dropBytes_eq_none_iff.mpr (.inr hin)] at hdrop
  cases hdrop

/-- What is dropped is the start of the text. -/
theorem exists_append_of_dropBytes {n : Nat} {s rest : List Char}
    (h : dropBytes n s = some rest) : ∃ start, s = start ++ rest := by
  fun_induction dropBytes n s with
  | case1 s =>
      cases h
      exact ⟨[], rfl⟩
  | case2 => cases h
  | case3 n c s hc ih =>
      obtain ⟨start, rfl⟩ := ih h
      exact ⟨c :: start, rfl⟩
  | case4 => cases h

/-! ## Lines that are kept -/

/-- Lines without the first, if that is blank. -/
inductive WithoutBlankFirst : List (List Char) → List (List Char) → Prop
  | dropped {first : List Char} {rest : List (List Char)} (h : isBlankText first = true) :
      WithoutBlankFirst (first :: rest) rest
  | kept {lines : List (List Char)} (h : ∀ first ∈ lines.head?, isBlankText first = false) :
      WithoutBlankFirst lines lines

/-- Lines without the last, if that is blank. -/
inductive WithoutBlankLast : List (List Char) → List (List Char) → Prop
  | dropped {last : List Char} {rest : List (List Char)} (h : isBlankText last = true) :
      WithoutBlankLast (rest ++ [last]) rest
  | kept {lines : List (List Char)} (h : ∀ last ∈ lines.getLast?, isBlankText last = false) :
      WithoutBlankLast lines lines

/-- The lines of a block that are written: those between its newlines, without the
first if that is blank, and then without the last that remains if that is blank. -/
def Keeps (block : List Char) (kept : List (List Char)) : Prop :=
  ∃ lines rest, lines ≠ [] ∧ (∀ line ∈ lines, '\n' ∉ line) ∧ joinLines lines = block ∧
    WithoutBlankFirst lines rest ∧ WithoutBlankLast rest kept

theorem withoutBlankFirst_iff {lines rest : List (List Char)} :
    WithoutBlankFirst lines rest ↔ rest = match lines with
      | first :: others => if isBlankText first then others else lines
      | [] => [] := by
  constructor
  · intro h
    cases h with
    | dropped hblank => simp [hblank]
    | kept hnot =>
        cases lines with
        | nil => rfl
        | cons first others => simp [hnot first rfl]
  · rintro rfl
    cases lines with
    | nil => exact .kept (by simp)
    | cons first others =>
        dsimp only
        split
        · next hblank => exact .dropped hblank
        · next hblank => exact .kept (by simpa using hblank)

theorem withoutBlankLast_iff {lines rest : List (List Char)} :
    WithoutBlankLast lines rest ↔ rest = match lines.getLast? with
      | some last => if isBlankText last then lines.dropLast else lines
      | none => [] := by
  constructor
  · intro h
    cases h with
    | dropped hblank => simp [hblank]
    | kept hnot =>
        cases hlast : lines.getLast? with
        | none => exact List.getLast?_eq_none_iff.mp hlast
        | some last => simp [hnot last hlast]
  · rintro rfl
    cases hlast : lines.getLast? with
    | none =>
        rw [List.getLast?_eq_none_iff.mp hlast]
        exact .kept (by simp)
    | some last =>
        obtain ⟨init, rfl⟩ := List.getLast?_eq_some_iff.mp hlast
        dsimp only
        rw [List.dropLast_concat]
        split
        · next hblank => exact .dropped hblank
        · next hblank => exact .kept (by simpa using hblank)

/-- **The lines that a block keeps** are these and no others. -/
theorem keeps_iff {block : List Char} {kept : List (List Char)} :
    Keeps block kept ↔ kept = keptLines block := by
  simp only [Keeps, withoutBlankFirst_iff, withoutBlankLast_iff]
  constructor
  · rintro ⟨lines, rest, hne, hmem, hjoin, rfl, rfl⟩
    have hlines : splitLines block = lines := hjoin ▸ splitLines_joinLines hne hmem
    subst hlines
    rfl
  · rintro rfl
    exact ⟨splitLines block, _, splitLines_ne_nil block, fun line => not_mem_of_mem_splitLines,
      joinLines_splitLines block, rfl, rfl⟩

/-! ## The margin -/

/-- The least indent of the lines that are not blank, and zero if there is none. -/
structure IsMargin (margin : Nat) (lines : List (List Char)) : Prop where
  le_indentOf : ∀ line ∈ lines, isBlankText line = false → margin ≤ indentOf line
  attained : (∃ line ∈ lines, isBlankText line = false ∧ indentOf line = margin) ∨
    margin = 0 ∧ ∀ line ∈ lines, isBlankText line = true

theorem isMargin_marginOf (lines : List (List Char)) : IsMargin (marginOf lines) lines := by
  refine ⟨fun line hline hblank => marginOf_le hline hblank, ?_⟩
  rw [marginOf]
  cases hmin : ((lines.filter fun line => !isBlankText line).map indentOf).min? with
  | none =>
      rw [List.min?_eq_none_iff, List.map_eq_nil_iff, List.filter_eq_nil_iff] at hmin
      exact .inr ⟨rfl, by simpa using hmin⟩
  | some margin =>
      obtain ⟨line, hline, hindent⟩ := List.mem_map.mp (List.min?_eq_some_iff.mp hmin).1
      obtain ⟨hmem, hblank⟩ := List.mem_filter.mp hline
      exact .inl ⟨line, hmem, by simpa using hblank, hindent⟩

/-- **The margin of some lines** is this number and no other. -/
theorem isMargin_iff {lines : List (List Char)} {margin : Nat} :
    IsMargin margin lines ↔ margin = marginOf lines := by
  have hleast := isMargin_marginOf lines
  constructor
  · intro h
    rcases h.attained with ⟨line, hline, hblank, rfl⟩ | ⟨rfl, hall⟩
    · exact (marginOf_eq hline hblank h.le_indentOf).symm
    · rcases hleast.attained with ⟨line, hline, hblank, -⟩ | ⟨hzero, -⟩
      · rw [hall line hline] at hblank
        cases hblank
      · exact hzero.symm
  · rintro rfl
    exact hleast

/-! ## What is written for a line -/

/-- A line of a block at a depth, without the margin; a blank line is written empty. -/
def dedented (depth margin : Nat) (line : List Char) : List Char :=
  if isBlankText line then ['\n']
  else List.replicate (2 * depth) ' ' ++ line.drop margin ++ ['\n']

/-- What a cut leaves of a line that is not less indented than the margin, or blank,
is written as the line without its margin. -/
theorem indentLine_of_cutMargin {depth margin : Nat} {line cut : List Char}
    (hmargin : isBlankText line = false → margin ≤ indentOf line)
    (h : cutMargin margin line = .ok cut) : indentLine depth cut = dedented depth margin line := by
  unfold indentLine dedented
  cases hblank : isBlankText line with
  | false =>
      rw [cutMargin_of_le_indentOf (hmargin hblank)] at h
      cases h
      rw [isBlankText_drop (hmargin hblank), hblank]
  | true =>
      -- the margin may end anywhere in a blank line, but the rest of it is blank
      have hcut : isBlankText cut = true := by
        rw [cutMargin] at h
        split at h
        · cases hdrop : dropBytes margin line with
          | none => rw [hdrop] at h; cases h
          | some rest =>
              rw [hdrop] at h
              cases h
              obtain ⟨start, rfl⟩ := exists_append_of_dropBytes hdrop
              rw [isBlankText_append, Bool.and_eq_true] at hblank
              exact hblank.2
        · cases h
          exact hblank
      rw [hcut, if_pos rfl, if_pos rfl]

/-- What is written for the lines of a block, each without its margin. -/
theorem flatMap_indentLine_of_mapM {depth margin : Nat} {lines cut : List (List Char)}
    (hmargin : ∀ line ∈ lines, isBlankText line = false → margin ≤ indentOf line)
    (h : lines.mapM (cutMargin margin) = .ok cut) :
    cut.flatMap (indentLine depth) = lines.flatMap (dedented depth margin) := by
  induction lines generalizing cut with
  | nil => cases h; rfl
  | cons line lines ih =>
      rw [List.mapM_cons] at h
      cases hfirst : cutMargin margin line with
      | error fault => rw [hfirst] at h; cases h
      | ok first =>
          cases hothers : lines.mapM (cutMargin margin) with
          | error fault => rw [hfirst, hothers] at h; cases h
          | ok others =>
              rw [hfirst, hothers] at h
              cases h
              rw [List.flatMap_cons, List.flatMap_cons,
                indentLine_of_cutMargin (hmargin line List.mem_cons_self) hfirst,
                ih (fun other hother => hmargin other (List.mem_cons_of_mem _ hother)) hothers]

/-- **The text of a block**: its kept lines, each without the margin, if every cut falls
between characters. -/
theorem layOut_eq_ok_iff {depth : Nat} {block text : List Char} :
    layOut depth block = .ok text ↔ CutsBetween block ∧
      text = (keptLines block).flatMap (dedented depth (marginOf (keptLines block))) := by
  have htext {out : List Char} (h : layOut depth block = .ok out) :
      out = (keptLines block).flatMap (dedented depth (marginOf (keptLines block))) := by
    by_cases hnil : block = []
    · subst hnil
      cases h
      rfl
    · rw [layOut, if_neg (by simpa using hnil)] at h
      dsimp only at h
      cases hcut : (keptLines block).mapM (cutMargin (marginOf (keptLines block))) with
      | error fault => rw [hcut] at h; cases h
      | ok cut =>
          rw [hcut] at h
          cases h
          exact flatMap_indentLine_of_mapM (isMargin_marginOf _).le_indentOf hcut
  constructor
  · intro h
    exact ⟨exists_layOut_iff.mp ⟨text, h⟩, htext h⟩
  · rintro ⟨hcuts, rfl⟩
    obtain ⟨out, hout⟩ := (@exists_layOut_iff depth block).mpr hcuts
    rw [hout, htext hout]

/-- The cuts fall between characters exactly if none ends inside one. -/
theorem cutsBetween_iff {block : List Char} :
    CutsBetween block ↔
      ∀ line ∈ keptLines block, ¬ EndsInside (marginOf (keptLines block)) line := by
  refine forall₂_congr fun line _ => ?_
  rw [Option.isSome_iff_ne_none, Ne, dropBytes_eq_none_iff]
  constructor
  · intro h hin
    exact h (Nat.le_of_lt hin.lt_byteLength) (.inr hin)
  · intro h hle hnone
    cases hnone with
    | inl hlt => omega
    | inr hin => exact h hin

/-- **A block is at fault** exactly if its margin ends inside a character of a blank line. -/
theorem not_cutsBetween_iff {block : List Char} :
    ¬ CutsBetween block ↔ 0 < marginOf (keptLines block) ∧ ∃ line ∈ keptLines block,
      isBlankText line = true ∧ marginOf (keptLines block) < byteLength line ∧
        EndsInside (marginOf (keptLines block)) line := by
  rw [cutsBetween_iff]
  constructor
  · intro h
    simp only [Classical.not_forall, Classical.not_not] at h
    obtain ⟨line, hline, hin⟩ := h
    have hpos : 0 < marginOf (keptLines block) := by
      obtain ⟨before, c, after, -, hbefore, -⟩ := hin
      omega
    refine ⟨hpos, line, hline, ?_, hin.lt_byteLength, hin⟩
    cases hblank : isBlankText line with
    | true => rfl
    | false => exact absurd hin (not_endsInside_of_le_indentOf (marginOf_le hline hblank))
  · intro h hnone
    obtain ⟨-, line, hline, -, -, hin⟩ := h
    exact hnone line hline hin

/-! ## Blocks in a text -/

/-- A line that is not less indented than the margin loses that much of its indent, and
nothing else. -/
theorem indentOf_drop {margin : Nat} {line : List Char} (h : margin ≤ indentOf line) :
    (line.take margin).length = margin ∧ (∀ c ∈ line.take margin, isIndent c = true) ∧
      indentOf line = margin + indentOf (line.drop margin) := by
  induction line generalizing margin with
  | nil =>
      have hzero : margin = 0 := by simpa [indentOf] using h
      subst hzero
      simp
  | cons c line ih =>
      cases margin with
      | zero => simp
      | succ margin =>
          rw [indentOf_cons] at h ⊢
          by_cases hc : isIndent c = true
          · rw [if_pos hc] at h ⊢
            obtain ⟨hlength, hindent, hrest⟩ := ih (Nat.le_of_succ_le_succ h)
            rw [List.take_succ_cons, List.drop_succ_cons]
            refine ⟨by rw [List.length_cons, hlength], ?_, by omega⟩
            exact List.forall_mem_cons.mpr ⟨hc, hindent⟩
          · rw [if_neg hc] at h
            omega

/-- What is left of a line that is not blank and has no indent starts with a character
of its own. -/
theorem exists_cons_of_indentOf_eq_zero {line : List Char} (hblank : isBlankText line = false)
    (h : indentOf line = 0) : ∃ c rest, line = c :: rest ∧ isIndent c = false := by
  cases line with
  | nil => cases hblank
  | cons c rest =>
      rw [indentOf_cons] at h
      cases hc : isIndent c with
      | false => exact ⟨c, rest, rfl, hc⟩
      | true => rw [hc, if_pos rfl] at h; omega

/-- What is written behind a text for a block is put at its end. -/
theorem writeAll_printed_laid (before : List Char) (depth : Nat) (block : List Char) :
    writeAll [.printed before, .laid depth block] =
      (do let text ← layOut depth block; return before ++ text) := by
  rw [writeAll, writeAll_singleton]
  rfl

/-- A block of at most two lines, all of them blank, keeps none. -/
theorem keptLines_of_blank {block : List Char}
    (hblank : ∀ line ∈ splitLines block, isBlankText line = true)
    (hlength : (splitLines block).length ≤ 2) : keptLines block = [] := by
  unfold keptLines
  cases hlines : splitLines block with
  | nil => rfl
  | cons first rest =>
      rw [hlines] at hblank hlength
      simp only [hblank first List.mem_cons_self, if_true]
      cases rest with
      | nil => rfl
      | cons last rest =>
          have hnil : rest = [] := by simpa using hlength
          subst hnil
          have hlast : isBlankText last = true := hblank last (by simp)
          simp [hlast]

/-- **A block is dedented.**  Behind any text, a block at any depth adds its kept lines
and changes nothing else: a blank line is written empty, and any other line without as
many of its first characters as the margin counts, all of them spaces or tabs, behind
the spaces of its depth.  The lines keep their places relative to each other, and one
of them has no indent left.  There is a fault exactly if the margin ends inside a
character of a blank line; a line that is not blank is never the cause. -/
theorem block_dedented (before : List Char) (depth : Nat) (block : List Char) :
    ∃ kept margin, (∀ lines, Keeps block lines ↔ lines = kept) ∧
      (∀ n, IsMargin n kept ↔ n = margin) ∧
      ((∃ fault, writeAll [.printed before, .laid depth block] = .error fault) ↔
        0 < margin ∧ ∃ line ∈ kept, isBlankText line = true ∧ margin < byteLength line ∧
          EndsInside margin line) ∧
      (∀ text, writeAll [.printed before, .laid depth block] = .ok text →
        text = before ++ kept.flatMap (dedented depth margin)) ∧
      (∀ line ∈ kept, isBlankText line = false →
        ¬ EndsInside margin line ∧ (line.take margin).length = margin ∧
          (∀ c ∈ line.take margin, isIndent c = true) ∧
          indentOf line = margin + indentOf (line.drop margin)) ∧
      ((∃ line ∈ kept, isBlankText line = false) →
        ∃ line ∈ kept, isBlankText line = false ∧
          ∃ c rest, line.drop margin = c :: rest ∧ isIndent c = false) ∧
      ((∀ line ∈ splitLines block, isBlankText line = true) → (splitLines block).length ≤ 2 →
        writeAll [.printed before, .laid depth block] = .ok before) := by
  have hmargin := isMargin_marginOf (keptLines block)
  have hwrite := writeAll_printed_laid before depth block
  refine ⟨keptLines block, marginOf (keptLines block), fun _ => keeps_iff, fun _ => isMargin_iff,
    ?_, ?_, ?_, ?_, ?_⟩
  · rw [← not_cutsBetween_iff, ← @exists_layOut_iff depth block, hwrite]
    cases layOut depth block with
    | error fault => simp [bind, Except.bind]
    | ok text => simp [bind, Except.bind, pure, Except.pure]
  · intro text htext
    rw [hwrite] at htext
    cases hout : layOut depth block with
    | error fault => rw [hout] at htext; cases htext
    | ok out =>
        rw [hout] at htext
        cases htext
        rw [(layOut_eq_ok_iff.mp hout).2]
  · intro line hline hblank
    have hle := hmargin.le_indentOf line hline hblank
    exact ⟨not_endsInside_of_le_indentOf hle, indentOf_drop hle⟩
  · intro hsome
    obtain ⟨line, hline, hblank⟩ := hsome
    rcases hmargin.attained with ⟨least, hleast, hnot, hindent⟩ | ⟨-, hall⟩
    · have hrest : indentOf (least.drop (marginOf (keptLines block))) = 0 := by
        have := (indentOf_drop (Nat.le_of_eq hindent.symm)).2.2
        omega
      refine ⟨least, hleast, hnot, exists_cons_of_indentOf_eq_zero ?_ hrest⟩
      rw [isBlankText_drop (Nat.le_of_eq hindent.symm), hnot]
    · rw [hall line hline] at hblank
      cases hblank
  · intro hblank hlength
    have hnone := keptLines_of_blank hblank hlength
    have hcuts : CutsBetween block := by simp [CutsBetween, hnone]
    obtain ⟨out, hout⟩ := (@exists_layOut_iff depth block).mpr hcuts
    obtain ⟨-, hnil⟩ := layOut_eq_ok_iff.mp hout
    rw [hnone] at hnil
    subst hnil
    rw [hwrite, hout]
    exact congrArg Except.ok (List.append_nil before)

/-- A block of a wide blank between two indented lines is at fault behind any text; the
same lines with two blanks in its place are written, and a block of two blank lines
writes nothing. -/
theorem block_dedented_wide :
    (∃ fault, writeAll [.printed ['x'], .laid 1 " a\n\u3000\n  b".toList] = .error fault) ∧
      writeAll [.printed ['x'], .laid 1 " a\n  \n  b".toList] = .ok "x  a\n\n   b\n".toList ∧
      "x  a\n\n   b\n".toList =
        ['x'] ++ [" a".toList, "  ".toList, "  b".toList].flatMap (dedented 1 1) ∧
      writeAll [.printed ['x'], .laid 1 " \n\u3000".toList] = .ok ['x'] := by
  obtain ⟨kept, margin, hkept, hmargin, hfault, -⟩ :=
    block_dedented ['x'] 1 " a\n\u3000\n  b".toList
  obtain rfl := (hkept [" a".toList, "\u3000".toList, "  b".toList]).mp
    (keeps_iff.mpr (by decide))
  obtain rfl := (hmargin 1).mp (isMargin_iff.mpr (by decide))
  obtain ⟨kept, margin, hkept, hmargin, -, htext, -⟩ := block_dedented ['x'] 1 " a\n  \n  b".toList
  obtain rfl := (hkept [" a".toList, "  ".toList, "  b".toList]).mp (keeps_iff.mpr (by decide))
  obtain rfl := (hmargin 1).mp (isMargin_iff.mpr (by decide))
  have hwritten : writeAll [.printed ['x'], .laid 1 " a\n  \n  b".toList] =
      .ok "x  a\n\n   b\n".toList := by rfl
  obtain ⟨-, -, -, -, -, -, -, -, hnothing⟩ := block_dedented ['x'] 1 " \n\u3000".toList
  refine ⟨hfault.mpr ⟨by decide, "\u3000".toList, by decide, by decide, by decide, ?_⟩,
    hwritten, htext _ hwritten, hnothing (by decide) (by decide)⟩
  exact ⟨[], '\u3000', [], rfl, by decide, by decide⟩

end Chronograph
