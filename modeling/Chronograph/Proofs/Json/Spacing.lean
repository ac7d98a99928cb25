import Chronograph.Json.Reader
import Chronograph.Json.Value

/-!
# Texts with spaces

The compact and the pretty text of a value differ in white space only, and only
in three places: before an element or a member, before the bracket that ends
them, and behind a colon.  `Value.spaced` writes a value with any white space
there, and both texts are cases of it (`compact_eq_spaced`, `pretty_eq_spaced`);
what is proved of it once holds of both.

A reader meets such a text from the front, and so does `Value.spaced`: what
follows the first element is a list of commas, each with an element behind it.
-/

namespace Chronograph.Json

/-- White space of JSON. -/
def IsSpaces (s : List Char) : Prop := ∀ c ∈ s, isSpace c = true

theorem isSpaces_nil : IsSpaces [] := by simp [IsSpaces]

/-- A reader finds what stands behind white space. -/
theorem skipSpace_append {spaces : List Char} (h : IsSpaces spaces) {c : Char}
    (hc : isSpace c = false) (s : List Char) : skipSpace (spaces ++ c :: s) = c :: s := by
  unfold skipSpace
  rw [List.dropWhile_append_of_pos h, List.dropWhile_cons_of_neg (by simp [hc])]

theorem skipSpace_cons {c : Char} (hc : isSpace c = false) (s : List Char) :
    skipSpace (c :: s) = c :: s :=
  List.dropWhile_cons_of_neg (by simp [hc])

/-- The white space of a text: before each element and each closing bracket at a
depth, and behind each colon. -/
structure Spacing where
  line : Nat → List Char
  colon : List Char
  line_spaces : ∀ depth, IsSpaces (line depth)
  colon_spaces : IsSpaces colon

namespace Spacing

/-- No white space at all. -/
def none : Spacing where
  line _ := []
  colon := []
  line_spaces _ := by simp [IsSpaces]
  colon_spaces := by simp [IsSpaces]

/-- A line for every element. -/
def lines : Spacing where
  line := Value.lineBreak
  colon := [' ']
  line_spaces depth := by
    intro c hc
    cases List.mem_cons.mp hc with
    | inl hnewline => rw [hnewline]; rfl
    | inr hspace => rw [(List.mem_replicate.mp hspace).2]; rfl
  colon_spaces := by
    intro c hc
    rw [List.mem_singleton.mp hc]
    rfl

end Spacing

namespace Value

mutual

/-- The text of a value with some white space, at a depth. -/
def spaced (sp : Spacing) (depth : Nat) : Value → List Char
  | boolean b => writtenBool b
  | number n => n.text
  | text s => writtenText s
  | list [] => ['[', ']']
  | list (v :: rest) =>
    '[' :: (sp.line (depth + 1) ++ (spaced sp (depth + 1) v
      ++ (spacedItems sp (depth + 1) rest ++ (sp.line depth ++ [']']))))
  | object [] => ['{', '}']
  | object ((key, v) :: rest) =>
    '{' :: (sp.line (depth + 1) ++ (writtenText key ++ ':' :: (sp.colon
      ++ (spaced sp (depth + 1) v
        ++ (spacedMembers sp (depth + 1) rest ++ (sp.line depth ++ ['}']))))))

/-- The texts of further elements, each behind a comma. -/
def spacedItems (sp : Spacing) (depth : Nat) : List Value → List Char
  | [] => []
  | v :: rest => ',' :: (sp.line depth ++ (spaced sp depth v ++ spacedItems sp depth rest))

/-- The texts of further members, each behind a comma. -/
def spacedMembers (sp : Spacing) (depth : Nat) : List (String × Value) → List Char
  | [] => []
  | (key, v) :: rest =>
    ',' :: (sp.line depth ++ (writtenText key ++ ':' :: (sp.colon
      ++ (spaced sp depth v ++ spacedMembers sp depth rest))))

end

mutual

/-- **The compact text** has no white space, whatever the depth. -/
theorem compact_eq_spaced (depth : Nat) (v : Value) : v.compact = v.spaced .none depth := by
  cases v with
  | boolean b => rw [compact, spaced]
  | number n => rw [compact, spaced]
  | text s => rw [compact, spaced]
  | list items =>
      cases items with
      | nil => rw [compact, spaced, compactItems]; rfl
      | cons v rest =>
          have hitems := compactItems_eq_spaced (depth + 1) (v :: rest)
          rw [compact, spaced, hitems]
          simp [Spacing.none]
  | object members =>
      cases members with
      | nil => rw [compact, spaced, compactMembers]; rfl
      | cons m rest =>
          obtain ⟨key, v⟩ := m
          have hmembers := compactMembers_eq_spaced (depth + 1) ((key, v) :: rest)
          rw [compact, spaced, hmembers]
          simp [Spacing.none]

theorem compactItems_eq_spaced (depth : Nat) (items : List Value) :
    compactItems items = match items with
      | [] => []
      | v :: rest => v.spaced .none depth ++ spacedItems .none depth rest := by
  cases items with
  | nil => rw [compactItems]
  | cons v rest =>
      have hrest := compactItems_eq_spaced depth rest
      cases rest with
      | nil => simp only [compactItems, spacedItems, compact_eq_spaced depth v, List.append_nil]
      | cons next rest =>
          rw [compactItems, compact_eq_spaced depth v, hrest]
          · simp [Spacing.none, spacedItems]
          · simp

theorem compactMembers_eq_spaced (depth : Nat) (members : List (String × Value)) :
    compactMembers members = match members with
      | [] => []
      | (key, v) :: rest =>
        writtenText key ++ ':' :: (v.spaced .none depth ++ spacedMembers .none depth rest) := by
  cases members with
  | nil => rw [compactMembers]
  | cons m rest =>
      obtain ⟨key, v⟩ := m
      have hrest := compactMembers_eq_spaced depth rest
      cases rest with
      | nil => simp only [compactMembers, spacedMembers, compact_eq_spaced depth v, List.append_nil]
      | cons next rest =>
          rw [compactMembers, compact_eq_spaced depth v, hrest]
          · simp [Spacing.none, spacedMembers]
          · simp

end

mutual

/-- **The pretty text** has a line for every element. -/
theorem pretty_eq_spaced (depth : Nat) (v : Value) : v.pretty depth = v.spaced .lines depth := by
  cases v with
  | boolean b => rw [pretty, spaced]
  | number n => rw [pretty, spaced]
  | text s => rw [pretty, spaced]
  | list items =>
      cases items with
      | nil => rw [pretty, spaced]
      | cons v rest =>
          have hitems := prettyItems_eq_spaced (depth + 1) (v :: rest)
          rw [pretty, spaced, hitems]
          · simp [Spacing.lines]
          · simp
  | object members =>
      cases members with
      | nil => rw [pretty, spaced]
      | cons m rest =>
          obtain ⟨key, v⟩ := m
          have hmembers := prettyMembers_eq_spaced (depth + 1) ((key, v) :: rest)
          rw [pretty, spaced, hmembers]
          · simp [Spacing.lines]
          · simp

theorem prettyItems_eq_spaced (depth : Nat) (items : List Value) :
    prettyItems depth items = match items with
      | [] => []
      | v :: rest => lineBreak depth ++ (v.spaced .lines depth ++ spacedItems .lines depth rest) := by
  cases items with
  | nil => rw [prettyItems]
  | cons v rest =>
      have hrest := prettyItems_eq_spaced depth rest
      cases rest with
      | nil => simp only [prettyItems, spacedItems, pretty_eq_spaced depth v, List.append_nil]
      | cons next rest =>
          rw [prettyItems, pretty_eq_spaced depth v, hrest]
          · simp [Spacing.lines, spacedItems]
          · simp

theorem prettyMembers_eq_spaced (depth : Nat) (members : List (String × Value)) :
    prettyMembers depth members = match members with
      | [] => []
      | (key, v) :: rest =>
        lineBreak depth ++ (writtenText key ++ ':' :: ' ' ::
          (v.spaced .lines depth ++ spacedMembers .lines depth rest)) := by
  cases members with
  | nil => rw [prettyMembers]
  | cons m rest =>
      obtain ⟨key, v⟩ := m
      have hrest := prettyMembers_eq_spaced depth rest
      cases rest with
      | nil =>
          rw [prettyMembers, pretty_eq_spaced depth v]
          simp [spacedMembers]
      | cons next rest =>
          rw [prettyMembers, pretty_eq_spaced depth v, hrest]
          · simp [Spacing.lines, spacedMembers]
          · simp

end

/-- Every element behind a comma takes a character. -/
theorem length_le_spacedItems (sp : Spacing) (depth : Nat) (items : List Value) :
    items.length ≤ (spacedItems sp depth items).length := by
  induction items with
  | nil => exact Nat.zero_le _
  | cons v rest ih =>
      rw [spacedItems]
      simp only [List.length_cons, List.length_append]
      omega

/-- Every member behind a comma takes a character. -/
theorem length_le_spacedMembers (sp : Spacing) (depth : Nat) (members : List (String × Value)) :
    members.length ≤ (spacedMembers sp depth members).length := by
  induction members with
  | nil => exact Nat.zero_le _
  | cons m rest ih =>
      obtain ⟨key, v⟩ := m
      rw [spacedMembers]
      simp only [List.length_cons, List.length_append]
      omega

end Value

end Chronograph.Json
