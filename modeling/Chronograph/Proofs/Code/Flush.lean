import Chronograph.Proofs.Code.Comment

/-!
# Code that always has a text

A text is laid out without a fault if it starts with a character that is not
blank: its first line then has no indent, the margin is zero, and cutting
nothing off a line cannot fall inside a character, whatever the other lines
are.  Code all of whose texts start so is **flush**, and flush code always has a
text (`Item.Flush.exists_renderAll`).  The texts behind the first character may
be anything: names with newlines in them, blank lines, wide blanks.
-/

namespace Chronograph

/-- A text that starts with a character that is not blank. -/
def FlushText (text : String) : Prop := ∃ c rest, text.toList = c :: rest ∧ isBlank c = false

theorem FlushText.append {text : String} (h : FlushText text) (more : String) :
    FlushText (text ++ more) := by
  obtain ⟨c, rest, htext, hc⟩ := h
  exact ⟨c, rest ++ more.toList, by rw [String.toList_append, htext]; rfl, hc⟩

instance (text : String) : Decidable (FlushText text) :=
  match h : text.toList with
  | [] => isFalse (by rintro ⟨c, rest, htext, -⟩; rw [h] at htext; cases htext)
  | c :: rest => decidable_of_iff (isBlank c = false)
      ⟨fun hc => ⟨c, rest, h, hc⟩, by
        rintro ⟨d, others, htext, hd⟩
        rw [h] at htext
        cases htext
        exact hd⟩

/-! ## Laying out -/

/-- The line that a text starts with is kept, if it is not blank. -/
theorem exists_mem_keptLines {c : Char} (hc : isBlank c = false) (text : List Char) :
    ∃ line, c :: line ∈ keptLines (c :: text) := by
  have hnewline : c ≠ '\n' := by
    rintro rfl
    exact absurd hc (by decide)
  obtain ⟨line, rest, hlines⟩ : ∃ line rest, splitLines (c :: text) = (c :: line) :: rest := by
    rw [splitLines, if_neg hnewline]
    cases splitLines text with
    | nil => exact ⟨[], [], rfl⟩
    | cons line rest => exact ⟨line, rest, rfl⟩
  have hblank : isBlankText (c :: line) = false := isBlankText_eq_false_of_mem List.mem_cons_self hc
  refine ⟨line, ?_⟩
  simp only [keptLines, hlines, hblank, Bool.false_eq_true, if_false]
  cases rest with
  | nil => simp [hblank]
  | cons next more =>
      rw [List.getLast?_eq_some_getLast (List.cons_ne_nil _ _), List.dropLast_cons_cons]
      dsimp only
      split
      · exact List.mem_cons_self
      · exact List.mem_cons_self

/-- **A text that starts with a character of its own is laid out** at every
depth. -/
theorem FlushText.exists_layOut {text : String} (h : FlushText text) (depth : Nat) :
    ∃ out, layOut depth text.toList = .ok out := by
  obtain ⟨c, rest, htext, hc⟩ := h
  obtain ⟨line, hline⟩ := exists_mem_keptLines hc rest
  have hindent : isIndent c = false := by
    cases h : isIndent c with
    | false => rfl
    | true => rw [isBlank_of_isIndent h] at hc; exact hc
  have hmargin : marginOf (keptLines (c :: rest)) = 0 := by
    have hle := marginOf_le hline (isBlankText_eq_false_of_mem List.mem_cons_self hc)
    rw [indentOf_cons, hindent] at hle
    exact Nat.le_zero.mp hle
  have hcut : (keptLines (c :: rest)).mapM (cutMargin 0) = .ok _ :=
    mapM_cutMargin fun line _ => Nat.zero_le _
  rw [htext, layOut, if_neg (by simp)]
  dsimp only
  rw [hmargin, hcut]
  exact ⟨_, rfl⟩

/-- A comment has a text, whatever it says. -/
theorem exists_renderComment (depth : Nat) (text : String) :
    ∃ out, renderComment depth text = .ok out := ⟨_, renderComment_eq depth text⟩

/-! ## Statements -/

/-- A statement all of whose lines of code are flush. -/
inductive Stmt.Flush : Stmt → Prop
  | line {text : String} (h : FlushText text) : Flush (.line text)
  | comment (text : String) : Flush (.comment text)
  | blank : Flush .blank
  | verbatim (text : String) : Flush (.verbatim text)
  | block {header : String} {body : List Stmt} (hheader : header = "" ∨ FlushText header)
      (hbody : ∀ s ∈ body, Flush s) : Flush (.block header body)
  | timerStart (position : Nat) : Flush (.timerStart position)
  | timerStop (position : Nat) (operator : String) : Flush (.timerStop position operator)

theorem Stmt.exists_renderAll {depth : Nat} {body : List Stmt}
    (h : ∀ s ∈ body, ∃ out, Stmt.render depth s = .ok out) :
    ∃ out, Stmt.renderAll depth body = .ok out := by
  induction body with
  | nil => exact ⟨[], rfl⟩
  | cons s body ih =>
      obtain ⟨first, hfirst⟩ := h s List.mem_cons_self
      obtain ⟨others, hothers⟩ := ih fun s hs => h s (List.mem_cons_of_mem _ hs)
      rw [Stmt.renderAll]
      exact ⟨_, join_eq_ok_iff.mpr ⟨first, others, hfirst, hothers, rfl⟩⟩

theorem flushText_brace : FlushText "\x7d" := by decide

theorem flushText_openingLine {header : String} (h : header = "" ∨ FlushText header) :
    FlushText (openingLine header) := by
  unfold openingLine
  split
  · decide
  · next hne =>
      rcases h with rfl | h
      · exact absurd rfl hne
      · exact h.append _

/-- **Flush statements have a text** at every depth. -/
theorem Stmt.Flush.exists_render {s : Stmt} (h : s.Flush) (depth : Nat) :
    ∃ out, Stmt.render depth s = .ok out := by
  induction h generalizing depth with
  | line h => rw [Stmt.render]; exact h.exists_layOut depth
  | comment text => rw [Stmt.render]; exact exists_renderComment depth text
  | blank => exact ⟨['\n'], by rw [Stmt.render]⟩
  | verbatim text => exact ⟨renderVerbatim text.toList, by rw [Stmt.render]⟩
  | block hheader hbody ih =>
      obtain ⟨opening, hopening⟩ := (flushText_openingLine hheader).exists_layOut depth
      obtain ⟨inner, hinner⟩ := Stmt.exists_renderAll fun s hs => ih s hs (depth + 1)
      obtain ⟨closing, hclosing⟩ := flushText_brace.exists_layOut depth
      rw [Stmt.render]
      exact ⟨_, enclose_eq_ok_iff.mpr ⟨opening, inner, closing, hopening, hinner, hclosing, rfl⟩⟩
  | timerStart position => exact ⟨_, render_timerStart depth position⟩
  | timerStop position operator => exact ⟨_, render_timerStop depth position operator⟩

/-- Statements all of which are flush. -/
def Stmt.AllFlush (body : List Stmt) : Prop := ∀ s ∈ body, s.Flush

namespace Stmt

@[simp] theorem allFlush_nil : AllFlush [] := by simp [AllFlush]

@[simp] theorem allFlush_cons {s : Stmt} {body : List Stmt} :
    AllFlush (s :: body) ↔ s.Flush ∧ AllFlush body := List.forall_mem_cons

@[simp] theorem allFlush_append {xs ys : List Stmt} :
    AllFlush (xs ++ ys) ↔ AllFlush xs ∧ AllFlush ys := List.forall_mem_append

@[simp] theorem flush_line_iff {text : String} : (line text).Flush ↔ FlushText text :=
  ⟨fun h => by cases h; assumption, Flush.line⟩

@[simp] theorem flush_block_iff {header : String} {body : List Stmt} :
    (block header body).Flush ↔ (header = "" ∨ FlushText header) ∧ AllFlush body :=
  ⟨fun h => by cases h; exact ⟨‹_›, ‹_›⟩, fun h => .block h.1 h.2⟩

@[simp] theorem flush_comment (text : String) : (comment text).Flush := .comment text

@[simp] theorem flush_blank : blank.Flush := .blank

@[simp] theorem flush_verbatim (text : String) : (verbatim text).Flush := .verbatim text

@[simp] theorem flush_timerStart (position : Nat) : (timerStart position).Flush :=
  .timerStart position

@[simp] theorem flush_timerStop (position : Nat) (operator : String) :
    (timerStop position operator).Flush := .timerStop position operator

end Stmt

/-! ## Items -/

/-- An item all of whose lines of code are flush. -/
inductive Item.Flush : Item → Prop
  | comment (text : String) : Flush (.comment text)
  | header (name : String) : Flush (.header name)
  | blank : Flush .blank
  | scope (name : String) {items : List Item} (h : ∀ item ∈ items, Flush item) :
      Flush (.scope name items)
  | foreign (signature : String) : Flush (.foreign signature)
  | typeAlias (name target : String) : Flush (.typeAlias name target)
  | global {type : String} (htype : FlushText type) (name : String) (length : Option UInt64)
      (init : Option String) : Flush (.global type name length init)
  | function {f : Function} (hreturns : FlushText f.returns) (hbody : Stmt.AllFlush f.body) :
      Flush (.function f)

theorem Item.exists_renderAll {items : List Item}
    (h : ∀ item ∈ items, ∃ out, item.render = .ok out) :
    ∃ out, Item.renderAll items = .ok out := by
  induction items with
  | nil => exact ⟨[], rfl⟩
  | cons item items ih =>
      obtain ⟨first, hfirst⟩ := h item List.mem_cons_self
      obtain ⟨others, hothers⟩ := ih fun item hitem => h item (List.mem_cons_of_mem _ hitem)
      rw [Item.renderAll]
      exact ⟨_, join_eq_ok_iff.mpr ⟨first, others, hfirst, hothers, rfl⟩⟩

/-- **Flush items have a text.** -/
theorem Item.Flush.exists_render {item : Item} (h : item.Flush) : ∃ out, item.render = .ok out := by
  induction h with
  | comment text => rw [Item.render]; exact exists_renderComment 0 text
  | header name =>
      have htext : FlushText ("#include <" ++ name ++ ">") :=
        (FlushText.append (by decide) name).append _
      rw [Item.render]
      exact htext.exists_layOut 0
  | blank => exact ⟨['\n'], by rw [Item.render]⟩
  | scope name h ih =>
      have hopen : FlushText ("namespace " ++ name ++ " \x7b") :=
        (FlushText.append (by decide) name).append _
      have hclose : FlushText ("\x7d  // namespace " ++ name) :=
        FlushText.append (by decide) name
      obtain ⟨opening, hopening⟩ := hopen.exists_layOut 0
      obtain ⟨inner, hinner⟩ := Item.exists_renderAll ih
      obtain ⟨closing, hclosing⟩ := hclose.exists_layOut 0
      rw [Item.render]
      exact ⟨_, enclose_eq_ok_iff.mpr ⟨opening, inner, closing, hopening, hinner, hclosing, rfl⟩⟩
  | foreign signature =>
      have htext : FlushText ("extern \"C\" " ++ signature ++ ";") :=
        (FlushText.append (by decide) signature).append _
      rw [Item.render]
      exact htext.exists_layOut 0
  | typeAlias name target =>
      have htext : FlushText ("using " ++ name ++ " = " ++ target ++ ";") :=
        (((FlushText.append (by decide) name).append _).append target).append _
      rw [Item.render]
      exact htext.exists_layOut 0
  | @global type htype name length init =>
      have htext : FlushText (globalLine type name length init) :=
        ((((htype.append " ").append name).append _).append _).append ";"
      rw [Item.render]
      exact htext.exists_layOut 0
  | function hreturns hbody =>
      rename_i f
      have hopen : FlushText f.opening :=
        ((((hreturns.append " ").append f.name).append "(").append _).append _
      obtain ⟨opening, hopening⟩ := hopen.exists_layOut 0
      obtain ⟨inner, hinner⟩ := Stmt.exists_renderAll fun s hs => (hbody s hs).exists_render 1
      obtain ⟨closing, hclosing⟩ := flushText_brace.exists_layOut 0
      rw [Item.render]
      exact ⟨_, enclose_eq_ok_iff.mpr ⟨opening, inner, closing, hopening, hinner, hclosing, rfl⟩⟩

/-- Items all of which are flush. -/
def Item.AllFlush (items : List Item) : Prop := ∀ item ∈ items, item.Flush

namespace Item

@[simp] theorem allFlush_nil : AllFlush [] := by simp [AllFlush]

@[simp] theorem allFlush_cons {item : Item} {items : List Item} :
    AllFlush (item :: items) ↔ item.Flush ∧ AllFlush items := List.forall_mem_cons

@[simp] theorem allFlush_append {xs ys : List Item} :
    AllFlush (xs ++ ys) ↔ AllFlush xs ∧ AllFlush ys := List.forall_mem_append

theorem allFlush_map {α : Type} {f : α → Item} {xs : List α} (h : ∀ x ∈ xs, (f x).Flush) :
    AllFlush (xs.map f) := by
  intro item hitem
  obtain ⟨x, hx, rfl⟩ := List.mem_map.mp hitem
  exact h x hx

@[simp] theorem flush_comment (text : String) : (comment text).Flush := .comment text

@[simp] theorem flush_blank : blank.Flush := .blank

@[simp] theorem flush_typeAlias (name target : String) : (typeAlias name target).Flush :=
  .typeAlias name target

@[simp] theorem flush_scope_iff {name : String} {items : List Item} :
    (scope name items).Flush ↔ AllFlush items :=
  ⟨fun h => by cases h; assumption, fun h => .scope name h⟩

@[simp] theorem flush_global_iff {type name : String} {length : Option UInt64}
    {init : Option String} : (global type name length init).Flush ↔ FlushText type :=
  ⟨fun h => by cases h; assumption, fun h => .global h name length init⟩

end Item

/-- A unit of flush items has a text. -/
theorem CodeUnit.exists_render {u : CodeUnit} (h : Item.AllFlush u.items) :
    ∃ text, u.render = .ok text := by
  obtain ⟨chars, hchars⟩ := Item.exists_renderAll fun item hitem => (h item hitem).exists_render
  exact ⟨_, CodeUnit.render_eq_ok_iff.mpr ⟨chars, hchars, rfl⟩⟩

end Chronograph
