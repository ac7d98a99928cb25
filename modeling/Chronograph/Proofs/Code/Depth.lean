import Chronograph.Proofs.Code.LineEnds

/-!
# Depth is padding

A statement that is written one level deeper has the same lines, and each of its own
that is not empty starts two columns further right (`pushedIn`); the code of a verbatim
statement stands as it is at every depth.  Which lines are whose is told along the tree
(`Deepens`), because a verbatim statement may stand in any block.

Two facts about blocks carry this.  The text of a block one level deeper is its text
pushed in (`layOut_succ`), since the lines that are kept, and what is cut off them, do
not depend on the depth.  For the same reason a block has the same fault at all depths
or at none (`fault?_layOut`), and so has a tree (`Stmt.fault?_render`).
-/

namespace Chronograph

/-! ## Pushing lines in -/

/-- A line two columns further right; an empty line stays. -/
def pushedInLine (line : List Char) : List Char := if line = [] then [] else ' ' :: ' ' :: line

/-- A text with two spaces at the start of every line that is not empty. -/
def pushedIn (text : List Char) : List Char := joinLines ((splitLines text).map pushedInLine)

example : pushedIn "a \x7b\n\n  b;\n\x7d\n".toList = "  a \x7b\n\n    b;\n  \x7d\n".toList := by decide

theorem pushedIn_line {line : List Char} (h : '\n' ∉ line) (rest : List Char) :
    pushedIn (line ++ '\n' :: rest) = pushedInLine line ++ '\n' :: pushedIn rest := by
  unfold pushedIn
  rw [splitLines_append h, List.map_cons]
  cases hrest : splitLines rest with
  | nil => exact absurd hrest (splitLines_ne_nil rest)
  | cons next more => rfl

/-- Lines that are pushed in one by one. -/
theorem pushedIn_flatMap {α : Type} {f g : α → List Char} {xs : List α}
    (h : ∀ x ∈ xs, ∃ line, '\n' ∉ line ∧ f x = line ++ ['\n'] ∧ g x = pushedInLine line ++ ['\n']) :
    pushedIn (xs.flatMap f) = xs.flatMap g := by
  induction xs with
  | nil => rfl
  | cons x xs ih =>
      obtain ⟨line, hline, hf, hg⟩ := h x List.mem_cons_self
      have hrest := ih fun y hy => h y (List.mem_cons_of_mem _ hy)
      rw [List.flatMap_cons, List.flatMap_cons, hf, hg, List.append_assoc, List.append_assoc,
        List.singleton_append, List.singleton_append, pushedIn_line hline, hrest]

theorem pushedInLine_replicate (depth : Nat) {line : List Char} (h : line ≠ []) :
    pushedInLine (List.replicate (2 * depth) ' ' ++ line) =
      List.replicate (2 * (depth + 1)) ' ' ++ line := by
  rw [pushedInLine, if_neg (by simp [h])]
  rfl

/-! ## Blocks -/

theorem newline_not_mem_keptLines {block line : List Char} (h : line ∈ keptLines block) :
    '\n' ∉ line := by
  obtain ⟨lines, rest, -, hmem, -, hfirst, hlast⟩ := keeps_iff.mpr (rfl : keptLines block = _)
  have hrest : line ∈ rest := by
    cases hlast with
    | dropped => exact List.mem_append_left _ h
    | kept => exact h
  cases hfirst with
  | dropped => exact hmem line (List.mem_cons_of_mem _ hrest)
  | kept => exact hmem line hrest

/-- **A block one level deeper** is the block pushed in. -/
theorem layOut_succ {depth : Nat} {block text : List Char} (h : layOut depth block = .ok text) :
    layOut (depth + 1) block = .ok (pushedIn text) := by
  obtain ⟨hcuts, rfl⟩ := layOut_eq_ok_iff.mp h
  refine layOut_eq_ok_iff.mpr ⟨hcuts, pushedIn_flatMap ?_⟩
  intro line hline
  have hnewline := newline_not_mem_keptLines hline
  unfold dedented
  cases hblank : isBlankText line with
  | true => exact ⟨[], by simp, rfl, rfl⟩
  | false =>
      have hmargin := marginOf_le hline hblank
      have hne : line.drop (marginOf (keptLines block)) ≠ [] := by
        intro hnil
        rw [← isBlankText_drop hmargin, hnil] at hblank
        cases hblank
      refine ⟨List.replicate (2 * depth) ' ' ++ line.drop (marginOf (keptLines block)), ?_, rfl, ?_⟩
      · rw [List.mem_append, not_or]
        exact ⟨by simp, fun hmem => hnewline (List.mem_of_mem_drop hmem)⟩
      · rw [pushedInLine_replicate depth hne]
        rfl

/-- A comment one level deeper is the comment pushed in. -/
theorem renderComment_succ {depth : Nat} {comment : String} {text : List Char}
    (h : renderComment depth comment = .ok text) :
    renderComment (depth + 1) comment = .ok (pushedIn text) := by
  rw [renderComment_eq] at h ⊢
  cases h
  refine congrArg Except.ok (pushedIn_flatMap ?_).symm
  intro line hline
  obtain ⟨rest, hslashed⟩ := prefix_slashed line
  have hne : slashed line ≠ [] := by
    rw [← hslashed]
    exact List.cons_ne_nil _ _
  refine ⟨List.replicate (2 * depth) ' ' ++ slashed line, ?_, rfl, ?_⟩
  · rw [List.mem_append, not_or]
    exact ⟨by simp, newline_not_mem_slashed (newline_not_mem_commentLines hline)⟩
  · rw [pushedInLine_replicate depth hne]

/-! ## Faults -/

/-- The fault of an outcome, if it is one. -/
def fault? {α : Type} : Except MarginFault α → Option MarginFault
  | .error fault => some fault
  | .ok _ => none

theorem fault?_eq_some_iff {α : Type} {x : Except MarginFault α} {fault : MarginFault} :
    fault? x = some fault ↔ x = .error fault := by
  cases x <;> simp [fault?]

/-- The fault of two texts is that of the first, or else that of the second. -/
theorem fault?_join (x y : Except MarginFault (List Char)) :
    fault? (do let a ← x; let b ← y; return a ++ b) = (fault? x).or (fault? y) := by
  cases x with
  | error fault => rfl
  | ok a => cases y <;> rfl

theorem fault?_enclose (x y z : Except MarginFault (List Char)) :
    fault? (do let a ← x; let b ← y; let c ← z; return a ++ b ++ c) =
      ((fault? x).or (fault? y)).or (fault? z) := by
  cases x with
  | error fault => rfl
  | ok a =>
      cases y with
      | error fault => rfl
      | ok b => cases z <;> rfl

/-- **A block has its fault at every depth.** -/
theorem fault?_layOut (depth other : Nat) (block : List Char) :
    fault? (layOut depth block) = fault? (layOut other block) := by
  unfold layOut
  split
  · rfl
  · dsimp only
    cases (keptLines block).mapM (cutMargin (marginOf (keptLines block))) <;> rfl

theorem fault?_renderComment (depth other : Nat) (text : String) :
    fault? (renderComment depth text) = fault? (renderComment other text) := by
  rw [renderComment_eq, renderComment_eq]
  rfl

mutual

/-- **A statement has its fault at every depth.** -/
theorem Stmt.fault?_render (depth other : Nat) (s : Stmt) :
    fault? (Stmt.render depth s) = fault? (Stmt.render other s) := by
  cases s with
  | line text =>
      rw [Stmt.render, Stmt.render]
      exact fault?_layOut depth other _
  | comment text =>
      rw [Stmt.render, Stmt.render]
      exact fault?_renderComment depth other text
  | blank => rw [Stmt.render, Stmt.render]
  | verbatim text => rw [Stmt.render, Stmt.render]
  | block header body =>
      rw [Stmt.render, Stmt.render, fault?_enclose, fault?_enclose,
        fault?_layOut depth other (openingLine header).toList, fault?_layOut depth other ['}'],
        Stmt.fault?_renderAll (depth + 1) (other + 1) body]
  | timerStart position =>
      rw [Stmt.render, Stmt.render]
      exact fault?_layOut depth other _
  | timerStop position operator =>
      rw [Stmt.render, Stmt.render]
      exact fault?_layOut depth other _

theorem Stmt.fault?_renderAll (depth other : Nat) (body : List Stmt) :
    fault? (Stmt.renderAll depth body) = fault? (Stmt.renderAll other body) := by
  cases body with
  | nil => rfl
  | cons s rest =>
      rw [Stmt.renderAll, Stmt.renderAll, fault?_join, fault?_join, Stmt.fault?_render depth other s,
        Stmt.fault?_renderAll depth other rest]

end

/-! ## Statements -/

/-- A statement all of whose lines are the printer's own: neither code that is printed as
it is nor a block, which may have such code in it. -/
def Stmt.IsOwn : Stmt → Prop
  | .verbatim _ | .block .. => False
  | _ => True

/-- **A statement of the printer's own** one level deeper is the statement pushed in. -/
theorem Stmt.IsOwn.render_succ {s : Stmt} (hs : s.IsOwn) {depth : Nat} {text : List Char}
    (h : Stmt.render depth s = .ok text) : Stmt.render (depth + 1) s = .ok (pushedIn text) := by
  cases s with
  | line code =>
      rw [Stmt.render] at h ⊢
      exact layOut_succ h
  | comment code =>
      rw [Stmt.render] at h ⊢
      exact renderComment_succ h
  | blank =>
      rw [Stmt.render] at h ⊢
      cases h
      rfl
  | verbatim code => exact hs.elim
  | block header body => exact hs.elim
  | timerStart position =>
      rw [Stmt.render] at h ⊢
      exact layOut_succ h
  | timerStop position operator =>
      rw [Stmt.render] at h ⊢
      exact layOut_succ h

/-- The first text is that of some statements at a depth, and the second is the first with
two spaces at the start of every line that is not empty and not of a verbatim statement. -/
inductive Deepens : Nat → List Stmt → List Char → List Char → Prop
  | nil (depth : Nat) : Deepens depth [] [] []
  | own {depth : Nat} {s : Stmt} {rest : List Stmt} {text x y : List Char} (hs : s.IsOwn)
      (htext : Stmt.render depth s = .ok text) (hrest : Deepens depth rest x y) :
      Deepens depth (s :: rest) (text ++ x) (pushedIn text ++ y)
  | verbatim {depth : Nat} {code : String} {rest : List Stmt} {x y : List Char}
      (hrest : Deepens depth rest x y) :
      Deepens depth (.verbatim code :: rest) (renderVerbatim code.toList ++ x)
        (renderVerbatim code.toList ++ y)
  | block {depth : Nat} {header : String} {body rest : List Stmt}
      {opening inner deeper closing x y : List Char}
      (hopening : layOut depth (openingLine header).toList = .ok opening)
      (hbody : Deepens (depth + 1) body inner deeper)
      (hclosing : layOut depth ['}'] = .ok closing) (hrest : Deepens depth rest x y) :
      Deepens depth (.block header body :: rest) (opening ++ inner ++ closing ++ x)
        (pushedIn opening ++ deeper ++ pushedIn closing ++ y)

/-- A statement of the printer's own before others. -/
theorem Stmt.exists_deepens_own (s : Stmt) (hs : s.IsOwn) {depth : Nat} {text : List Char}
    (h : Stmt.render depth s = .ok text) :
    ∃ deeper, Stmt.render (depth + 1) s = .ok deeper ∧
      ∀ rest x y, Deepens depth rest x y → Deepens depth (s :: rest) (text ++ x) (deeper ++ y) :=
  ⟨pushedIn text, hs.render_succ h, fun _ _ _ hrest => .own hs h hrest⟩

mutual

/-- A statement that has a text has one a level deeper, which only pushes in its own lines,
whatever statements follow. -/
theorem Stmt.exists_deepens {depth : Nat} (s : Stmt) {text : List Char}
    (h : Stmt.render depth s = .ok text) :
    ∃ deeper, Stmt.render (depth + 1) s = .ok deeper ∧
      ∀ rest x y, Deepens depth rest x y → Deepens depth (s :: rest) (text ++ x) (deeper ++ y) := by
  cases s with
  | verbatim code =>
      rw [Stmt.render] at h
      cases h
      exact ⟨_, by rw [Stmt.render], fun _ _ _ hrest => .verbatim hrest⟩
  | block header body =>
      rw [Stmt.render, enclose_eq_ok_iff] at h
      obtain ⟨opening, inner, closing, hopening, hinner, hclosing, rfl⟩ := h
      obtain ⟨deeper, hdeeper, hbody⟩ := Stmt.exists_deepens_all body hinner
      refine ⟨pushedIn opening ++ deeper ++ pushedIn closing, ?_, ?_⟩
      · rw [Stmt.render, enclose_eq_ok_iff]
        exact ⟨_, _, _, layOut_succ hopening, hdeeper, layOut_succ hclosing, rfl⟩
      · intro rest x y hrest
        exact .block hopening hbody hclosing hrest
  | line code => exact Stmt.exists_deepens_own (.line code) trivial h
  | comment code => exact Stmt.exists_deepens_own (.comment code) trivial h
  | blank => exact Stmt.exists_deepens_own .blank trivial h
  | timerStart position => exact Stmt.exists_deepens_own (.timerStart position) trivial h
  | timerStop position operator =>
      exact Stmt.exists_deepens_own (.timerStop position operator) trivial h

theorem Stmt.exists_deepens_all {depth : Nat} (body : List Stmt) {text : List Char}
    (h : Stmt.renderAll depth body = .ok text) :
    ∃ deeper, Stmt.renderAll (depth + 1) body = .ok deeper ∧ Deepens depth body text deeper := by
  cases body with
  | nil =>
      rw [Stmt.renderAll] at h
      cases h
      exact ⟨[], by rw [Stmt.renderAll], .nil depth⟩
  | cons s rest =>
      rw [Stmt.renderAll, join_eq_ok_iff] at h
      obtain ⟨first, others, hfirst, hothers, rfl⟩ := h
      obtain ⟨deeper, hdeeper, hcons⟩ := Stmt.exists_deepens s hfirst
      obtain ⟨deepers, hdeepers, hrest⟩ := Stmt.exists_deepens_all rest hothers
      refine ⟨deeper ++ deepers, ?_, hcons rest others deepers hrest⟩
      rw [Stmt.renderAll, join_eq_ok_iff]
      exact ⟨deeper, deepers, hdeeper, hdeepers, rfl⟩

end

/-- **Depth is padding.**  A statement that has a text at a depth has one a level deeper: the
same with two spaces at the start of every line that is not empty, but for the code of
verbatim statements, which stays.  A statement that has a fault at one depth has it at
every depth. -/
theorem depth_pads_only (depth : Nat) (s : Stmt) :
    ((∃ text deeper, Stmt.render depth s = .ok text ∧ Stmt.render (depth + 1) s = .ok deeper ∧
        Deepens depth [s] text deeper) ∨ ∃ fault, Stmt.render depth s = .error fault) ∧
      ∀ other fault, Stmt.render depth s = .error fault ↔ Stmt.render other s = .error fault := by
  constructor
  · cases h : Stmt.render depth s with
    | error fault => exact .inr ⟨fault, rfl⟩
    | ok text =>
        obtain ⟨deeper, hdeeper, hcons⟩ := Stmt.exists_deepens s h
        have hdeepens := hcons [] [] [] (.nil depth)
        rw [List.append_nil, List.append_nil] at hdeepens
        exact .inl ⟨text, deeper, rfl, hdeeper, hdeepens⟩
  · intro other fault
    rw [← fault?_eq_some_iff, ← fault?_eq_some_iff, Stmt.fault?_render depth other s]

end Chronograph
