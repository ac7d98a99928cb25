import Chronograph.Graph.Basic
import Chronograph.Module.TimedBody

/-!
# Templates that are filled

The placeholders of a template cut it into pieces (`ArePieces`).  Each template has pieces
(`exists_arePieces`), and it has them in one way only (`ArePieces.eq`), because no placeholder
begins inside of another (`prefix_of_prefix_append`).

To fill a template is to join its pieces with the text of a position (`ArePieces.fill`).
That text has no character of a placeholder, so none arises where the text meets a piece
(`ArePieces.not_infix_intercalate`).  If there is a placeholder at all, the texts for two
positions differ: what is put between the first two pieces starts at the same place in both,
and is of the same length if all that is written is (`intercalate_inj`).
-/

namespace Chronograph

/-- What stands in a template for the text of a position. -/
def placeholder : List Char := ['{', 'i', 'd', '}']

/-- The pieces of a template, from its start to its end: in none of them is a placeholder,
and between each two there is one. -/
inductive ArePieces : List (List Char) → List Char → Prop where
  | last {piece : List Char} (clean : ¬ placeholder <:+: piece) : ArePieces [piece] piece
  | cons {piece : List Char} {pieces : List (List Char)} {template : List Char}
      (clean : ¬ placeholder <:+: piece) (others : ArePieces pieces template) :
      ArePieces (piece :: pieces) (piece ++ (placeholder ++ template))

/-! ## Placeholders do not overlap -/

/-- A placeholder that is read from somewhere before another ends before that one begins. -/
theorem prefix_of_prefix_append {x y : List Char} (hx : x ≠ [])
    (h : placeholder <+: x ++ (placeholder ++ y)) : placeholder <+: x := by
  match x, hx with
  | [a], _ => simp [placeholder] at h
  | [a, b], _ => simp [placeholder] at h
  | [a, b, c], _ => simp [placeholder] at h
  | a :: b :: c :: d :: x, _ => simpa [placeholder] using h

theorem placeholder_occurs (x rest : List Char) : placeholder <:+: x ++ (placeholder ++ rest) :=
  (List.prefix_append _ _).isInfix.trans (List.suffix_append _ _).isInfix

/-- A text that is read both as a first piece and as more than that is not more. -/
theorem eq_nil_of_append {x z r s : List Char} (hclean : ¬ placeholder <:+: x ++ z)
    (h : placeholder ++ r = z ++ (placeholder ++ s)) : z = [] := by
  cases z with
  | nil => rfl
  | cons c z =>
      have hstart : placeholder <+: c :: z :=
        prefix_of_prefix_append (List.cons_ne_nil c z) ⟨r, h⟩
      exact absurd (hstart.isInfix.trans (List.suffix_append x (c :: z)).isInfix) hclean

/-- The first piece of a template and what follows it are given by the template. -/
theorem first_piece_inj {x y r s : List Char} (hx : ¬ placeholder <:+: x)
    (hy : ¬ placeholder <:+: y) (h : x ++ (placeholder ++ r) = y ++ (placeholder ++ s)) :
    x = y ∧ r = s := by
  have hsame : x = y := by
    rcases List.append_eq_append_iff.mp h with ⟨z, rfl, hrest⟩ | ⟨z, rfl, hrest⟩
    · rw [eq_nil_of_append hy hrest, List.append_nil]
    · rw [eq_nil_of_append hx hrest, List.append_nil]
  subst hsame
  exact ⟨rfl, List.append_cancel_left (List.append_cancel_left h)⟩

namespace ArePieces

variable {pieces others : List (List Char)} {template rest : List Char}

/-- **A template has its pieces in one way only.** -/
theorem eq (h : ArePieces pieces template) (hothers : ArePieces others template) :
    others = pieces := by
  induction h generalizing others with
  | last clean =>
      cases hothers with
      | last => rfl
      | cons => exact absurd (placeholder_occurs _ _) clean
  | @cons piece pieces template clean _ ih =>
      generalize hwhole : piece ++ (placeholder ++ template) = whole at hothers
      cases hothers with
      | last hclean =>
          subst hwhole
          exact absurd (placeholder_occurs _ _) hclean
      | cons hclean hrest =>
          obtain ⟨rfl, rfl⟩ := first_piece_inj clean hclean hwhole
          rw [ih hrest]

/-- Templates with a placeholder between them. -/
theorem append (h : ArePieces pieces template) (hothers : ArePieces others rest) :
    ArePieces (pieces ++ others) (template ++ (placeholder ++ rest)) := by
  induction h with
  | last clean => exact cons clean hothers
  | cons clean _ ih =>
      rw [List.append_assoc, List.append_assoc]
      exact cons clean ih

/-- Pieces are joined one by one, because there is another behind each but the last. -/
theorem intercalate_cons (h : ArePieces pieces template) (value piece : List Char) :
    value.intercalate (piece :: pieces) = piece ++ (value ++ value.intercalate pieces) := by
  cases h <;> rw [List.intercalate_cons_cons, List.append_assoc]

/-- The pieces with the placeholders between them are the template. -/
theorem joined (h : ArePieces pieces template) : placeholder.intercalate pieces = template := by
  induction h with
  | last => exact List.intercalate_singleton
  | cons _ others ih => rw [others.intercalate_cons, ih]

end ArePieces

/-! ## Filling -/

theorem fillTemplate_cons (value : List Char) {c : Char} {rest : List Char}
    (h : ¬ placeholder <+: c :: rest) :
    fillTemplate value (c :: rest) = c :: fillTemplate value rest := by
  rw [fillTemplate]
  rintro tail rfl rfl
  exact h ⟨tail, rfl⟩

theorem fillTemplate_of_clean (value : List Char) {piece : List Char}
    (h : ¬ placeholder <:+: piece) : fillTemplate value piece = piece := by
  induction piece with
  | nil => rfl
  | cons c rest ih =>
      rw [List.infix_cons_iff, not_or] at h
      rw [fillTemplate_cons value h.1, ih h.2]

/-- The first placeholder is filled, and then the rest. -/
theorem fillTemplate_append (value : List Char) {piece : List Char}
    (h : ¬ placeholder <:+: piece) (rest : List Char) :
    fillTemplate value (piece ++ (placeholder ++ rest)) =
      piece ++ (value ++ fillTemplate value rest) := by
  induction piece with
  | nil => rfl
  | cons c piece ih =>
      -- a placeholder that begins here would overlap with the one that is there
      have hnot : ¬ placeholder <+: c :: (piece ++ (placeholder ++ rest)) := fun hstart =>
        h (prefix_of_prefix_append (List.cons_ne_nil c piece) hstart).isInfix
      rw [List.infix_cons_iff, not_or] at h
      rw [List.cons_append, fillTemplate_cons value hnot, ih h.2]
      rfl

/-- **Filling joins the pieces.** -/
theorem ArePieces.fill {pieces : List (List Char)} {template : List Char}
    (h : ArePieces pieces template) (value : List Char) :
    fillTemplate value template = value.intercalate pieces := by
  induction h with
  | last clean => rw [fillTemplate_of_clean value clean, List.intercalate_singleton]
  | cons clean others ih => rw [fillTemplate_append value clean, ih, others.intercalate_cons]

/-- A character before a template belongs to its first piece, if no placeholder begins with
it. -/
theorem ArePieces.exists_cons {pieces : List (List Char)} {template : List Char}
    (h : ArePieces pieces template) {c : Char} (hc : ¬ placeholder <+: c :: template) :
    ∃ pieces, ArePieces pieces (c :: template) := by
  cases h with
  | last clean =>
      have hclean : ¬ placeholder <:+: c :: template := by
        rw [List.infix_cons_iff, not_or]
        exact ⟨hc, clean⟩
      exact ⟨_, .last hclean⟩
  | @cons piece pieces template clean others =>
      have hclean : ¬ placeholder <:+: c :: piece := by
        rw [List.infix_cons_iff, not_or]
        exact ⟨fun h => hc (h.trans (List.prefix_append (c :: piece) _)), clean⟩
      exact ⟨_, .cons hclean others⟩

/-- **Every template has pieces.** -/
theorem exists_arePieces (template : List Char) : ∃ pieces, ArePieces pieces template := by
  fun_induction fillTemplate [] template with
  | case1 rest ih =>
      obtain ⟨pieces, hpieces⟩ := ih
      exact ⟨[] :: pieces, .cons (by decide) hpieces⟩
  | case2 c rest hnot ih =>
      obtain ⟨pieces, hpieces⟩ := ih
      refine hpieces.exists_cons ?_
      rintro ⟨tail, htail⟩
      cases htail
      exact hnot tail rfl rfl
  | case3 => exact ⟨[[]], .last (by decide)⟩

/-! ## What is filled -/

/-- A placeholder ends before a character that it does not have. -/
theorem prefix_of_prefix_append_cons {x rest : List Char} {c : Char} (hc : c ∉ placeholder)
    (h : placeholder <+: x ++ c :: rest) : placeholder <+: x := by
  obtain ⟨tail, htail⟩ := h
  rcases List.append_eq_append_iff.mp htail with ⟨more, rfl, -⟩ | ⟨more, hwhole, hmore⟩
  · exact List.prefix_append placeholder more
  · cases more with
    | nil => exact ⟨[], by rw [List.append_nil, hwhole, List.append_nil]⟩
    | cons d more =>
        obtain ⟨rfl, -⟩ := List.cons.inj hmore
        exact absurd (by rw [hwhole]; simp) hc

/-- No placeholder arises where two texts meet at a character that no placeholder has. -/
theorem not_infix_append_cons {x rest : List Char} {c : Char} (hc : c ∉ placeholder)
    (hx : ¬ placeholder <:+: x) (hrest : ¬ placeholder <:+: rest) :
    ¬ placeholder <:+: x ++ c :: rest := by
  induction x with
  | nil =>
      rw [List.nil_append, List.infix_cons_iff, not_or]
      refine ⟨fun h => ?_, hrest⟩
      have hnil : placeholder <+: [] := prefix_of_prefix_append_cons hc h
      exact absurd hnil (by decide)
  | cons d x ih =>
      rw [List.infix_cons_iff, not_or] at hx
      rw [List.cons_append, List.infix_cons_iff, not_or]
      exact ⟨fun h => hx.1 (prefix_of_prefix_append_cons (x := d :: x) hc h), ih hx.2⟩

/-- Texts that are put in: of characters that no placeholder has, and at least one. -/
structure IsFilling (value : List Char) : Prop where
  ne_nil : value ≠ []
  not_mem : ∀ c ∈ value, c ∉ placeholder

theorem IsFilling.not_infix {value x rest : List Char} (h : IsFilling value)
    (hx : ¬ placeholder <:+: x) (hrest : ¬ placeholder <:+: rest) :
    ¬ placeholder <:+: x ++ (value ++ rest) := by
  obtain ⟨hne, hmem⟩ := h
  induction value generalizing x with
  | nil => exact absurd rfl hne
  | cons c value ih =>
      obtain ⟨hc, hvalue⟩ := List.forall_mem_cons.mp hmem
      refine not_infix_append_cons hc hx ?_
      cases value with
      | nil => exact hrest
      | cons d value => exact ih (x := []) (by decide) (List.cons_ne_nil d value) hvalue

/-- **No placeholder is left**, and none arises. -/
theorem ArePieces.not_infix_intercalate {pieces : List (List Char)} {template : List Char}
    (h : ArePieces pieces template) {value : List Char} (hvalue : IsFilling value) :
    ¬ placeholder <:+: value.intercalate pieces := by
  induction h with
  | last clean => rwa [List.intercalate_singleton]
  | cons clean others ih =>
      rw [others.intercalate_cons]
      exact hvalue.not_infix clean ih

/-- The braces round a filled placeholder make no new one. -/
example : fillTemplate "7".toList "\x7bi\x7bid\x7dd\x7d".toList = "\x7bi7d\x7d".toList := rfl

/-- The text of a position can be put in: it is made of digits. -/
theorem isFilling_repr (position : Nat) : IsFilling position.repr.toList := by
  rw [Nat.toList_repr]
  refine ⟨Nat.toDigits_ne_nil, fun c hc hmem => ?_⟩
  have hdigit : c.isDigit = true := Nat.isDigit_of_mem_toDigits (by omega) (by omega) hc
  have hnone : placeholder.any Char.isDigit = false := by decide
  exact absurd hdigit (List.any_eq_false.mp hnone c hmem)

/-! ## Positions are told apart -/

/-- A number is read off its decimal text. -/
theorem toList_repr_inj {i j : Nat} (h : i.repr.toList = j.repr.toList) : i = j := by
  have hvalue := congrArg (fun digits => Nat.ofDigitChars 10 digits 0) h
  simpa [Nat.toList_repr] using hvalue

theorem length_intercalate_le {v w : List Char} (h : v.length ≤ w.length)
    (pieces : List (List Char)) :
    (v.intercalate pieces).length ≤ (w.intercalate pieces).length := by
  induction pieces with
  | nil => simp
  | cons piece pieces ih =>
      cases pieces with
      | nil => simp
      | cons next pieces =>
          simp only [List.intercalate_cons_cons, List.length_append]
          omega

/-- **What is put in between two pieces can be read off**: it starts where the first piece
ends, and of a longer text more would be put in everywhere. -/
theorem intercalate_inj {v w x y : List Char} {pieces : List (List Char)}
    (h : v.intercalate (x :: y :: pieces) = w.intercalate (x :: y :: pieces)) : v = w := by
  rw [List.intercalate_cons_cons, List.intercalate_cons_cons, List.append_assoc,
    List.append_assoc] at h
  have hbehind := List.append_cancel_left h
  have hlength := congrArg List.length hbehind
  rw [List.length_append, List.length_append] at hlength
  have hsame : v.length = w.length := by
    rcases Nat.le_total v.length w.length with hle | hle
    · have hrest := length_intercalate_le hle (y :: pieces)
      omega
    · have hrest := length_intercalate_le hle (y :: pieces)
      omega
  exact (List.append_inj hbehind hsame).1

/-- A template with a placeholder has two pieces at least. -/
theorem ArePieces.exists_two {pieces : List (List Char)} {template : List Char}
    (h : ArePieces pieces template) (hplaceholder : placeholder <:+: template) :
    ∃ first second rest, pieces = first :: second :: rest := by
  cases h with
  | last clean => exact absurd hplaceholder clean
  | cons _ others => cases others <;> exact ⟨_, _, _, rfl⟩

/-- A placeholder is read in a template only between two of its pieces. -/
theorem ArePieces.eq_append_iff {pieces : List (List Char)} {template : List Char}
    (h : ArePieces pieces template) {before after : List Char} :
    template = before ++ (placeholder ++ after) ↔
      ∃ xs ys, pieces = xs ++ ys ∧ ArePieces xs before ∧ ArePieces ys after := by
  constructor
  · rintro rfl
    obtain ⟨xs, hxs⟩ := exists_arePieces before
    obtain ⟨ys, hys⟩ := exists_arePieces after
    exact ⟨xs, ys, (hxs.append hys).eq h, hxs, hys⟩
  · rintro ⟨xs, ys, rfl, hxs, hys⟩
    rw [← h.joined, (hxs.append hys).joined]

/-- Of the three statements of an operator the second is its code, for its position. -/
theorem getElem?_weaveFrom (position : Nat) (operators : List Operator) (i : Nat) :
    (weaveFrom position operators)[3 * i + 1]? =
      operators[i]?.map fun op => .verbatim (op.body (position + i).repr) := by
  induction operators generalizing position i with
  | nil => rfl
  | cons op rest ih =>
      cases i with
      | zero => rfl
      | succ i =>
          have hposition : position + 1 + i = position + (i + 1) := by omega
          rw [List.getElem?_cons_succ, ← hposition, ← ih (position + 1) i]
          rfl

/-- **Templates are filled completely and tell positions apart.**  The pieces of a template
between its placeholders are given by it, and a placeholder is read in it only between two
of them.  The code of an operator is the pieces with the text of its position between them;
no placeholder is left in it, and none arises.  If the template has a placeholder, the codes
for two positions are different texts.  The code that stands in the emitted routine is that
for the position at which the operator stands in the graph. -/
theorem template_filled (name body : String) :
    ∃ pieces : List (List Char),
      (∀ others, ArePieces others body.toList ↔ others = pieces) ∧
      (∀ before after, body.toList = before ++ (placeholder ++ after) ↔
        ∃ xs ys, pieces = xs ++ ys ∧ ArePieces xs before ∧ ArePieces ys after) ∧
      (∀ position : Nat,
        ((Operator.ofTemplate name body).body position.repr).toList =
          position.repr.toList.intercalate pieces ∧
        ¬ placeholder <:+: ((Operator.ofTemplate name body).body position.repr).toList) ∧
      (placeholder <:+: body.toList → ∀ i j : Nat, i ≠ j →
        (Operator.ofTemplate name body).body i.repr ≠
          (Operator.ofTemplate name body).body j.repr) ∧
      ∀ (operators : List Operator) (i : Nat),
        operators[i]? = some (Operator.ofTemplate name body) →
          (weave operators)[3 * i + 1]? =
            some (.verbatim (String.ofList (i.repr.toList.intercalate pieces))) := by
  obtain ⟨pieces, hpieces⟩ := exists_arePieces body.toList
  have hbody (position : Nat) : (Operator.ofTemplate name body).body position.repr =
      String.ofList (position.repr.toList.intercalate pieces) :=
    congrArg String.ofList (hpieces.fill position.repr.toList)
  refine ⟨pieces, ?_, fun before after => hpieces.eq_append_iff, ?_, ?_, ?_⟩
  · intro others
    constructor
    · exact hpieces.eq
    · rintro rfl
      exact hpieces
  · intro position
    rw [hbody, String.toList_ofList]
    exact ⟨rfl, hpieces.not_infix_intercalate (isFilling_repr position)⟩
  · intro hplaceholder i j hne hsame
    rw [hbody, hbody, String.ofList_inj] at hsame
    obtain ⟨first, second, rest, rfl⟩ := hpieces.exists_two hplaceholder
    exact hne (toList_repr_inj (intercalate_inj hsame))
  · intro operators i hoperator
    rw [weave, getElem?_weaveFrom, hoperator, Option.map_some, Nat.zero_add, hbody]

/-- A template with a placeholder in braces of its own. -/
theorem template_filled_braced :
    placeholder <:+: "a\x7b\x7bid\x7d\x7d;b\x7bid\x7d;".toList ∧
      (Operator.ofTemplate "op" "a\x7b\x7bid\x7d\x7d;b\x7bid\x7d;").body (1).repr ≠
        (Operator.ofTemplate "op" "a\x7b\x7bid\x7d\x7d;b\x7bid\x7d;").body (11).repr := by
  have hplaceholder : placeholder <:+: "a\x7b\x7bid\x7d\x7d;b\x7bid\x7d;".toList :=
    ⟨['a', '{'], "\x7d;b\x7bid\x7d;".toList, by decide⟩
  obtain ⟨-, -, -, -, hapart, -⟩ :=
    template_filled "op" "a\x7b\x7bid\x7d\x7d;b\x7bid\x7d;"
  exact ⟨hplaceholder, hapart hplaceholder 1 11 (by decide)⟩

end Chronograph
