import Chronograph.Proofs.Json.Reading

/-!
# Readers of written collections

The rules for values with parts.  Each asks of the parts what it gives of the
whole: a list is read if its elements are (`Reads.list`), a map if its values are
(`Reads.map`), and a record that is written with all its fields in order if each
field takes its value (`Puts.reads`).  So the reader of a type is taken apart as
the type is.

The loops read one part and go on behind it (`listElements_step`,
`mapEntries_step`, `objectFields_step`).  How far a loop has come makes a
difference only to what stands before the next part: white space at first, then
a comma and white space.  Every part takes at least its comma, which keeps the
number of steps below the length of the text.
-/

namespace Chronograph.Json

variable {α : Type}

/-! ## Lists -/

theorem nextElement_first {spaces : List Char} (hspaces : IsSpaces spaces) (sp : Spacing)
    (depth : Nat) (v : Value) (rest : List Char) :
    nextElement true (spaces ++ (v.spaced sp depth ++ rest)) =
      .ok (.go (v.spaced sp depth ++ rest)) := by
  obtain ⟨c, s, hcons, hc, hclose⟩ := v.exists_spaced_cons sp depth
  rw [hcons, List.cons_append, nextElement, skipSpace_append hspaces hc]
  dsimp only
  rw [if_neg hclose, if_pos rfl]

theorem nextElement_comma {spaces : List Char} (hspaces : IsSpaces spaces) (sp : Spacing)
    (depth : Nat) (v : Value) (rest : List Char) :
    nextElement false (',' :: (spaces ++ (v.spaced sp depth ++ rest))) =
      .ok (.go (v.spaced sp depth ++ rest)) := by
  obtain ⟨c, s, hcons, hc, hclose⟩ := v.exists_spaced_cons sp depth
  rw [hcons, List.cons_append, nextElement, skipSpace_cons (by decide)]
  dsimp only
  rw [if_neg (by decide), if_neg (by decide), if_pos rfl, skipSpace_append hspaces hc]
  split
  · next heq => cases heq
  · next heq => exact absurd (List.head_eq_of_cons_eq heq) hclose
  · rfl

theorem nextElement_stop {spaces : List Char} (hspaces : IsSpaces spaces) (first : Bool)
    (rest : List Char) : nextElement first (spaces ++ ']' :: rest) = .ok (.stop rest) := by
  rw [nextElement, skipSpace_append hspaces (by decide)]
  rfl

/-- One element of a list. -/
theorem listElements_step {item : Reader α} {bound : Nat} {first : Bool} {s r more rest : List Char}
    {x : α} {xs : List α} (hnext : nextElement first s = .ok (.go r))
    (hitem : item r = .ok (x, more))
    (hmore : listElements item bound false more = .ok (xs, rest)) :
    listElements item (bound + 1) first s = .ok (x :: xs, rest) := by
  simp only [listElements, hnext, hitem, hmore, ok_bind]
  rfl

/-- The end of a list. -/
theorem listElements_stop {item : Reader α} {bound : Nat} {first : Bool} {s rest : List Char}
    (hnext : nextElement first s = .ok (.stop rest)) :
    listElements item (bound + 1) first s = .ok ([], rest) := by
  rw [listElements, hnext]
  rfl

/-- What stands behind an element ends it. -/
theorem ends_spacedItems (sp : Spacing) (depth : Nat) (vs : List Value) {spaces : List Char}
    (hspaces : IsSpaces spaces) (rest : List Char) :
    Ends (Value.spacedItems sp depth vs ++ (spaces ++ ']' :: rest)) := by
  cases vs with
  | nil =>
      rw [Value.spacedItems, List.nil_append]
      exact ends_append hspaces (.inr (.inl rfl)) rest
  | cons v vs =>
      rw [Value.spacedItems, List.cons_append]
      exact ends_append isSpaces_nil (.inl rfl) _

/-- **The further elements of a list** are read one by one. -/
theorem listElements_spaced {item : Reader α} {vs : List Value} {xs : List α}
    (h : List.Forall₂ (Reads item) vs xs) (sp : Spacing) (depth : Nat) {spaces : List Char}
    (hspaces : IsSpaces spaces) (rest : List Char) {bound : Nat} (hbound : vs.length < bound) :
    listElements item bound false (Value.spacedItems sp depth vs ++ (spaces ++ ']' :: rest)) =
      .ok (xs, rest) := by
  obtain ⟨bound, rfl⟩ : ∃ k, bound = k + 1 := ⟨bound - 1, by omega⟩
  induction h generalizing bound with
  | nil =>
      rw [Value.spacedItems, List.nil_append]
      exact listElements_stop (nextElement_stop hspaces false rest)
  | @cons v x vs xs hv _ ih =>
      rw [List.length_cons] at hbound
      obtain ⟨bound, rfl⟩ : ∃ k, bound = k + 1 := ⟨bound - 1, by omega⟩
      have hends := ends_spacedItems sp depth vs hspaces rest
      rw [Value.spacedItems, List.cons_append, List.append_assoc, List.append_assoc]
      exact listElements_step (nextElement_comma (sp.line_spaces depth) sp depth v _)
        (hv.here sp depth hends) (ih bound (by omega))

/-- **A list is read** if its elements are. -/
theorem Reads.list {item : Reader α} {vs : List Value} {xs : List α}
    (h : List.Forall₂ (Reads item) vs xs) : Reads (readList item) (.list vs) xs := by
  intro sp depth spaces rest hspaces _
  cases h with
  | nil =>
      rw [Value.spaced, readList, List.cons_append, skipSpace_append hspaces (by decide)]
      exact listElements_stop (nextElement_stop isSpaces_nil true rest)
  | @cons v x vs xs hv hvs =>
      have hlength := Value.length_le_spacedItems sp (depth + 1) vs
      have hends := ends_spacedItems sp (depth + 1) vs (sp.line_spaces depth) rest
      have htext : (Value.list (v :: vs)).spaced sp depth ++ rest = '[' :: (sp.line (depth + 1)
          ++ (v.spaced sp (depth + 1) ++ (Value.spacedItems sp (depth + 1) vs
            ++ (sp.line depth ++ ']' :: rest)))) := by
        rw [Value.spaced]
        simp
      rw [htext, readList, skipSpace_append hspaces (by decide)]
      refine listElements_step (nextElement_first (sp.line_spaces _) sp _ v _)
        (hv.here sp _ hends) ?_
      refine listElements_spaced hvs sp _ (sp.line_spaces depth) rest ?_
      simp only [List.length_append, List.length_cons]
      omega

/-- A list is read that is written element by element, if each element is read. -/
theorem Reads.list_map {item : Reader α} {write : α → Value} {xs : List α}
    (h : ∀ x ∈ xs, Reads item (write x) x) : Reads (readList item) (.list (xs.map write)) xs := by
  refine Reads.list ?_
  rw [List.forall₂_map_left_iff, List.forall₂_same]
  exact h

/-! ## Keys -/

theorem nextKey_first {spaces : List Char} (hspaces : IsSpaces spaces) (key : String)
    (rest : List Char) :
    nextKey true (spaces ++ (writtenText key ++ rest)) = .ok (.go (writtenText key ++ rest)) := by
  obtain ⟨s, hcons⟩ : ∃ s, writtenText key ++ rest = '"' :: s := ⟨_, rfl⟩
  rw [hcons, nextKey, skipSpace_append hspaces (by decide)]
  rfl

theorem nextKey_comma {spaces : List Char} (hspaces : IsSpaces spaces) (key : String)
    (rest : List Char) :
    nextKey false (',' :: (spaces ++ (writtenText key ++ rest))) =
      .ok (.go (writtenText key ++ rest)) := by
  obtain ⟨s, hcons⟩ : ∃ s, writtenText key ++ rest = '"' :: s := ⟨_, rfl⟩
  rw [hcons, nextKey, skipSpace_cons (by decide)]
  dsimp only
  rw [if_neg (by decide), if_neg (by decide), if_pos rfl, skipSpace_append hspaces (by decide)]
  rfl

theorem nextKey_stop {spaces : List Char} (hspaces : IsSpaces spaces) (first : Bool)
    (rest : List Char) : nextKey first (spaces ++ '\x7d' :: rest) = .ok (.stop rest) := by
  rw [nextKey, skipSpace_append hspaces (by decide)]
  rfl

theorem readText_key (key : String) (rest : List Char) :
    readText (writtenText key ++ rest) = .ok (key, rest) :=
  readText_written [] isSpaces_nil key rest

theorem expectColon_cons (rest : List Char) : expectColon (':' :: rest) = .ok rest := by
  rw [expectColon, skipSpace_cons (by decide)]
  rfl

/-- What stands behind a member ends its value. -/
theorem ends_spacedMembers (sp : Spacing) (depth : Nat) (members : List (String × Value))
    {spaces : List Char} (hspaces : IsSpaces spaces) (rest : List Char) :
    Ends (Value.spacedMembers sp depth members ++ (spaces ++ '\x7d' :: rest)) := by
  cases members with
  | nil =>
      rw [Value.spacedMembers, List.nil_append]
      exact ends_append hspaces (.inr (.inr rfl)) rest
  | cons m members =>
      rw [Value.spacedMembers.eq_def, List.cons_append]
      exact ends_append isSpaces_nil (.inl rfl) _

/-- The text of an object with members, up to what follows it. -/
theorem spaced_object_cons (sp : Spacing) (depth : Nat) (key : String) (v : Value)
    (members : List (String × Value)) (rest : List Char) :
    (Value.object ((key, v) :: members)).spaced sp depth ++ rest =
      '\x7b' :: (sp.line (depth + 1) ++ (writtenText key ++ ':' :: (sp.colon
        ++ (v.spaced sp (depth + 1) ++ (Value.spacedMembers sp (depth + 1) members
          ++ (sp.line depth ++ '\x7d' :: rest)))))) := by
  rw [Value.spaced]
  simp

/-! ## Maps -/

/-- One entry of a map. -/
theorem mapEntries_step {item : Reader α} {bound : Nat} {first : Bool} {m : NameMap α}
    {s value more : List Char} {key : String} {x : α}
    (hnext : nextKey first s = .ok (.go (writtenText key ++ ':' :: value)))
    (hitem : item value = .ok (x, more)) :
    mapEntries item (bound + 1) first m s = mapEntries item bound false (m.insert key x) more := by
  simp only [mapEntries, hnext, readText_key, expectColon_cons, hitem, ok_bind]

/-- The end of a map. -/
theorem mapEntries_stop {item : Reader α} {bound : Nat} {first : Bool} {m : NameMap α}
    {s rest : List Char} (hnext : nextKey first s = .ok (.stop rest)) :
    mapEntries item (bound + 1) first m s = .ok (m, rest) := by
  rw [mapEntries, hnext]
  rfl

/-- A member of an object and the entry of a map that it is read as. -/
def ReadsEntry (item : Reader α) (member : String × Value) (entry : String × α) : Prop :=
  member.1 = entry.1 ∧ Reads item member.2 entry.2

/-- **The further entries of a map** are put into it one by one. -/
theorem mapEntries_spaced {item : Reader α} {members : List (String × Value)}
    {entries : List (String × α)} (h : List.Forall₂ (ReadsEntry item) members entries)
    (sp : Spacing) (depth : Nat) {spaces : List Char} (hspaces : IsSpaces spaces)
    (rest : List Char) {bound : Nat} (hbound : members.length < bound) (m : NameMap α) :
    mapEntries item bound false m
        (Value.spacedMembers sp depth members ++ (spaces ++ '\x7d' :: rest)) =
      .ok (entries.foldl (fun m e => m.insert e.1 e.2) m, rest) := by
  obtain ⟨bound, rfl⟩ : ∃ k, bound = k + 1 := ⟨bound - 1, by omega⟩
  induction h generalizing bound m with
  | nil =>
      rw [Value.spacedMembers, List.nil_append]
      exact mapEntries_stop (nextKey_stop hspaces false rest)
  | @cons member entry members entries hentry _ ih =>
      obtain ⟨key, v⟩ := member
      obtain ⟨name, x⟩ := entry
      obtain ⟨rfl, hv⟩ := hentry
      rw [List.length_cons] at hbound
      obtain ⟨bound, rfl⟩ : ∃ k, bound = k + 1 := ⟨bound - 1, by omega⟩
      have hends := ends_spacedMembers sp depth members hspaces rest
      rw [Value.spacedMembers]
      simp only [List.cons_append, List.append_assoc]
      rw [mapEntries_step (nextKey_comma (sp.line_spaces depth) key _)
        (hv sp depth sp.colon _ sp.colon_spaces hends)]
      exact ih (m.insert key x) bound (by omega)

/-- **A map is read** if its values are; of members of one name the last counts. -/
theorem Reads.map {item : Reader α} {members : List (String × Value)}
    {entries : List (String × α)} (h : List.Forall₂ (ReadsEntry item) members entries) :
    Reads (readMap item) (.object members) (NameMap.ofList entries) := by
  intro sp depth spaces rest hspaces _
  cases h with
  | nil =>
      rw [Value.spaced, readMap, List.cons_append, skipSpace_append hspaces (by decide)]
      exact mapEntries_stop (nextKey_stop isSpaces_nil true rest)
  | @cons member entry members entries hentry hmembers =>
      obtain ⟨key, v⟩ := member
      obtain ⟨name, x⟩ := entry
      obtain ⟨rfl, hv⟩ := hentry
      have hlength := Value.length_le_spacedMembers sp (depth + 1) members
      have hends := ends_spacedMembers sp (depth + 1) members (sp.line_spaces depth) rest
      rw [spaced_object_cons, readMap, skipSpace_append hspaces (by decide)]
      refine (mapEntries_step (nextKey_first (sp.line_spaces _) key _)
        (hv sp _ sp.colon _ sp.colon_spaces hends)).trans ?_
      refine mapEntries_spaced hmembers sp _ (sp.line_spaces depth) rest ?_ _
      simp only [List.length_append, List.length_cons]
      omega

/-! ## Records -/

/-- A field takes the value of a reader of its own. -/
theorem Reads.field {β : Type} {name : String} {required : Bool} {value : Reader β}
    {put : α → β → α} {v : Value} {x : β} (h : Reads value v x) (record : α) :
    Reads ((Field.of name required value put).read record) v (put record x) :=
  h.make (put record)

/-- Fields take the values of members of their names, in order, and make a record
of what was there before. -/
inductive Puts : List (Field α) → α → List (String × Value) → α → Prop
  | nil (record : α) : Puts [] record [] record
  | cons {f : Field α} {fields : List (Field α)} {record next final : α} {v : Value}
      {members : List (String × Value)} (hread : Reads (f.read record) v next)
      (hrest : Puts fields next members final) :
      Puts (f :: fields) record ((f.name, v) :: members) final

/-- One field of a record. -/
theorem objectFields_step {format : RecordFormat α} {bound : Nat} {first : Bool}
    {seen : List String} {record next : α} {f : Field α} {s value more : List Char}
    (hnext : nextKey first s = .ok (.go (writtenText f.name ++ ':' :: value)))
    (hfind : format.fields.find? (fun g : Field α => g.name == f.name) = some f) (hseen : f.name ∉ seen)
    (hread : f.read record value = .ok (next, more)) :
    format.objectFields (bound + 1) first seen record s =
      format.objectFields bound false (f.name :: seen) next more := by
  have hnew : seen.contains f.name = false := by simpa using hseen
  simp only [RecordFormat.objectFields, hnext, readText_key, hfind, hnew, expectColon_cons, hread,
    ok_bind, Bool.false_eq_true, if_false]

/-- The end of a record that has all its fields. -/
theorem objectFields_stop {format : RecordFormat α} {bound : Nat} {first : Bool}
    {seen : List String} {record : α} {s rest : List Char}
    (hnext : nextKey first s = .ok (.stop rest)) (hseen : ∀ f ∈ format.fields, f.name ∈ seen) :
    format.objectFields (bound + 1) first seen record s = .ok (record, rest) := by
  have hmissing : format.missing seen = none := by
    rw [RecordFormat.missing, Option.map_eq_none_iff, List.find?_eq_none]
    intro f hf
    simp [hseen f hf]
  simp only [RecordFormat.objectFields, hnext, hmissing, ok_bind]
  rfl

/-- A field is found by its name, if no other has the name. -/
theorem find?_field (before : List (Field α)) {fields : List (Field α)} {f : Field α}
    (h : ((before ++ f :: fields).map Field.name).Nodup) :
    (before ++ f :: fields).find? (fun g : Field α => g.name == f.name) = some f := by
  rw [List.map_append, List.map_cons] at h
  have hbefore : before.find? (fun g : Field α => g.name == f.name) = none := by
    rw [List.find?_eq_none]
    intro g hg heq
    have hdisjoint := (List.nodup_append.mp h).2.2
    exact hdisjoint g.name (List.mem_map_of_mem hg) f.name List.mem_cons_self (by simpa using heq)
  rw [List.find?_append, hbefore, List.find?_cons_of_pos (by simp)]
  rfl

/-- **The fields of a record** take their values one by one. -/
theorem Puts.objectFields {format : RecordFormat α} {before fields : List (Field α)}
    {record final : α} {members : List (String × Value)} (h : Puts fields record members final)
    (hformat : format.fields = before ++ fields)
    (hnames : (format.fields.map Field.name).Nodup) {seen : List String}
    (hseen : ∀ name, name ∈ seen ↔ name ∈ before.map Field.name) (sp : Spacing) (depth : Nat)
    {spaces : List Char} (hspaces : IsSpaces spaces) (rest : List Char) {bound : Nat}
    (hbound : members.length < bound) :
    format.objectFields bound false seen record
        (Value.spacedMembers sp depth members ++ (spaces ++ '\x7d' :: rest)) =
      .ok (final, rest) := by
  obtain ⟨bound, rfl⟩ : ∃ k, bound = k + 1 := ⟨bound - 1, by omega⟩
  induction h generalizing before seen bound with
  | nil record =>
      rw [List.append_nil] at hformat
      rw [Value.spacedMembers, List.nil_append]
      refine objectFields_stop (nextKey_stop hspaces false rest) ?_
      intro f hf
      rw [hseen, ← hformat]
      exact List.mem_map_of_mem hf
  | @cons f fields record next final v members hread _ ih =>
      rw [List.length_cons] at hbound
      obtain ⟨bound, rfl⟩ : ∃ k, bound = k + 1 := ⟨bound - 1, by omega⟩
      have hends := ends_spacedMembers sp depth members hspaces rest
      have hnew : f.name ∉ seen := by
        rw [hseen]
        intro hmem
        rw [hformat, List.map_append, List.map_cons] at hnames
        have hdisjoint := (List.nodup_append.mp hnames).2.2
        exact hdisjoint f.name hmem f.name List.mem_cons_self rfl
      have hfind : format.fields.find? (fun g : Field α => g.name == f.name) = some f := by
        rw [hformat] at hnames ⊢
        exact find?_field before hnames
      rw [Value.spacedMembers]
      simp only [List.cons_append, List.append_assoc]
      rw [objectFields_step (nextKey_comma (sp.line_spaces depth) f.name _) hfind hnew
        (hread sp depth sp.colon _ sp.colon_spaces hends)]
      have hformat' : format.fields = (before ++ [f]) ++ fields := by rw [hformat, List.append_cons]
      refine ih hformat' ?_ bound (by omega)
      intro name
      simp only [List.mem_cons, hseen, List.map_append, List.map_cons, List.map_nil,
        List.mem_append, List.not_mem_nil, or_false]
      exact or_comm

/-- **A record is read** that is written with all its fields in order. -/
theorem Puts.reads {format : RecordFormat α} {members : List (String × Value)} {final : α}
    (h : Puts format.fields format.start members final)
    (hnames : (format.fields.map Field.name).Nodup) :
    Reads format.read (.object members) final := by
  intro sp depth spaces rest hspaces _
  cases hfields : format.fields with
  | nil =>
      rw [hfields] at h
      cases h
      rw [Value.spaced, RecordFormat.read, List.cons_append, skipSpace_append hspaces (by decide)]
      exact objectFields_stop (nextKey_stop isSpaces_nil true rest) (by simp [hfields])
  | cons f fields =>
      rw [hfields] at h
      cases h with
      | @cons _ _ _ next _ v members hread hmembers =>
          have hlength := Value.length_le_spacedMembers sp (depth + 1) members
          have hends := ends_spacedMembers sp (depth + 1) members (sp.line_spaces depth) rest
          have hfind : format.fields.find? (fun g : Field α => g.name == f.name) = some f := by
            rw [hfields] at hnames ⊢
            exact find?_field [] hnames
          rw [spaced_object_cons, RecordFormat.read, skipSpace_append hspaces (by decide)]
          refine (objectFields_step (nextKey_first (sp.line_spaces _) f.name _) hfind
            List.not_mem_nil (hread sp _ sp.colon _ sp.colon_spaces hends)).trans ?_
          have hfields' : format.fields = [f] ++ fields := hfields
          refine hmembers.objectFields hfields' hnames ?_ sp _ (sp.line_spaces depth) rest ?_
          · intro name
            simp
          · simp only [List.length_append, List.length_cons]
            omega

/-! ## Whole texts -/

theorem Reads.whole {read : Reader α} {v : Value} {x : α} (h : Reads read v x) (sp : Spacing)
    (depth : Nat) : readWhole read (String.ofList (v.spaced sp depth)) = .ok x := by
  have hread := h.here sp depth ends_nil
  rw [List.append_nil] at hread
  rw [readWhole, String.toList_ofList, hread]
  rfl

/-- **A value is read from its compact text.** -/
theorem Reads.compact {read : Reader α} {v : Value} {x : α} (h : Reads read v x) :
    readWhole read v.toCompact = .ok x := by
  rw [Value.toCompact, Value.compact_eq_spaced 0]
  exact h.whole .none 0

/-- **A value is read from its pretty text.** -/
theorem Reads.pretty {read : Reader α} {v : Value} {x : α} (h : Reads read v x) :
    readWhole read v.toPretty = .ok x := by
  rw [Value.toPretty, Value.pretty_eq_spaced]
  exact h.whole .lines 0

end Chronograph.Json
