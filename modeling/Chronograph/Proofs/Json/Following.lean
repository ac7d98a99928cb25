import Chronograph.Json.Reader
import Mathlib.Data.List.Forall2

/-!
# Readers that follow one another

Two readers may read the same texts into different types, such as numbers as
they are stored and numbers as they are written.  The second follows the first if
it reads all that the first reads, up to the same place and with related values.

Lists (`Follows.list`) and records (`RecordFormat.follows`) are read with one
loop each, so a loop over readers that follow one another follows the other loop.
-/

namespace Chronograph.Json

variable {α β : Type} {R : α → β → Prop}

/-- What the first reader reads, the second reads too, with a related value. -/
def Follows (R : α → β → Prop) (first : Reader α) (second : Reader β) : Prop :=
  ∀ s a rest, first s = .ok (a, rest) → ∃ b, second s = .ok (b, rest) ∧ R a b

theorem Follows.refl (r : Reader α) : Follows Eq r r := fun _ a _ h => ⟨a, h, rfl⟩

/-- A value that comes out of two steps comes out of each of them. -/
theorem bind_eq_ok {ε : Type} {x : Except ε α} {f : α → Except ε β} {b : β}
    (h : x >>= f = .ok b) : ∃ a, x = .ok a ∧ f a = .ok b := by
  cases x with
  | error fault => cases h
  | ok a => exact ⟨a, rfl, h⟩

/-! ## Lists -/

theorem Follows.listElements {item : Reader α} {item' : Reader β} (h : Follows R item item')
    (bound : ℕ) (first : Bool) :
    Follows (List.Forall₂ R) (listElements item bound first) (listElements item' bound first) := by
  induction bound generalizing first with
  | zero =>
      intro s xs rest hread
      cases hread
  | succ bound ih =>
      intro s xs rest hread
      obtain ⟨next, hnext, hread⟩ := bind_eq_ok hread
      unfold Json.listElements
      rw [hnext]
      cases next with
      | stop r =>
          cases hread
          exact ⟨[], rfl, .nil⟩
      | go r =>
          obtain ⟨⟨x, r'⟩, hitem, hread⟩ := bind_eq_ok hread
          obtain ⟨⟨xs', r''⟩, hitems, hread⟩ := bind_eq_ok hread
          cases hread
          obtain ⟨y, hy, hxy⟩ := h r x r' hitem
          obtain ⟨ys, hys, hxsys⟩ := ih false r' xs' rest hitems
          refine ⟨y :: ys, ?_, .cons hxy hxsys⟩
          dsimp only [bind, Except.bind]
          rw [hy]
          dsimp only
          rw [hys]
          rfl

/-- **Lists** of what is read alike are read alike. -/
theorem Follows.list {item : Reader α} {item' : Reader β} (h : Follows R item item') :
    Follows (List.Forall₂ R) (readList item) (readList item') := by
  intro s xs rest hread
  unfold readList at hread ⊢
  split at hread
  · cases hread
  · exact h.listElements _ _ _ _ _ hread
  · cases hread

/-! ## Records -/

/-- Two fields of one name, of which the second follows the first as long as the
records are related. -/
structure Field.Follows (R : α → β → Prop) (f : Field α) (f' : Field β) : Prop where
  name : f.name = f'.name
  required : f.required = f'.required
  read : ∀ a b, R a b → Json.Follows R (f.read a) (f'.read b)

/-- A field follows another one if its values do and are put in alike. -/
theorem Field.follows_of {γ δ : Type} {Q : γ → δ → Prop} {value : Reader γ} {value' : Reader δ}
    (hvalue : Json.Follows Q value value') {put : α → γ → α} {put' : β → δ → β}
    (hput : ∀ a b v v', R a b → Q v v' → R (put a v) (put' b v')) (name : String)
    (required : Bool) :
    Field.Follows R (.of name required value put) (.of name required value' put') := by
  refine ⟨rfl, rfl, ?_⟩
  intro a b hab s a' rest hread
  obtain ⟨⟨v, rest'⟩, hv, hread⟩ := bind_eq_ok hread
  cases hread
  obtain ⟨v', hv', hrel⟩ := hvalue s v rest hv
  refine ⟨put' b v', ?_, hput a b v v' hab hrel⟩
  show (value' s >>= fun p => _) = _
  rw [hv']
  rfl

namespace RecordFormat

/-- Fields are found under the same names. -/
theorem find?_rel {fields : List (Field α)} {fields' : List (Field β)}
    (h : List.Forall₂ (Field.Follows R) fields fields') (p : Field α → Bool) (p' : Field β → Bool)
    (hp : ∀ f f', Field.Follows R f f' → p f = p' f') :
    Option.Rel (Field.Follows R) (fields.find? p) (fields'.find? p') := by
  induction h with
  | nil => exact .none
  | @cons f f' fields fields' hf _ ih =>
      rw [List.find?_cons, List.find?_cons, hp f f' hf]
      cases p' f' with
      | true => exact .some hf
      | false => exact ih

theorem firstRequired?_eq {fields : List (Field α)} {fields' : List (Field β)}
    (h : List.Forall₂ (Field.Follows R) fields fields') (index : ℕ) :
    firstRequired? fields index = firstRequired? fields' index := by
  induction h generalizing index with
  | nil => rfl
  | cons hf _ ih =>
      unfold firstRequired?
      rw [hf.required, ih]

variable {format : RecordFormat α} {format' : RecordFormat β}

theorem missing_eq (h : List.Forall₂ (Field.Follows R) format.fields format'.fields)
    (seen : List String) : format.missing seen = format'.missing seen := by
  have hfind := find?_rel h (fun f => f.required && !seen.contains f.name)
    (fun f => f.required && !seen.contains f.name)
    (fun f f' hf => by rw [hf.name, hf.required])
  unfold missing
  revert hfind
  generalize format.fields.find? _ = found
  generalize format'.fields.find? _ = found'
  rintro (hf | _)
  · rw [Option.map_some, Option.map_some, hf.name]
  · rfl

/-- The fields of a record that is written as an object. -/
theorem objectFields_follows (h : List.Forall₂ (Field.Follows R) format.fields format'.fields)
    (bound : ℕ) (first : Bool) (seen : List String) {a : α} {b : β} (hab : R a b) :
    Json.Follows R (format.objectFields bound first seen a)
      (format'.objectFields bound first seen b) := by
  induction bound generalizing first seen a b with
  | zero =>
      intro s a' rest hread
      cases hread
  | succ bound ih =>
      intro s a' rest hread
      obtain ⟨next, hnext, hread⟩ := bind_eq_ok hread
      unfold objectFields
      rw [hnext]
      cases next with
      | stop r =>
          dsimp only [bind, Except.bind] at hread ⊢
          rw [← missing_eq h]
          cases hmissing : format.missing seen with
          | some fault =>
              rw [hmissing] at hread
              cases hread
          | none =>
              rw [hmissing] at hread
              cases hread
              exact ⟨b, rfl, hab⟩
      | go r =>
          obtain ⟨⟨key, r'⟩, hkey, hread⟩ := bind_eq_ok hread
          have hfind := find?_rel h (·.name == key) (·.name == key)
            (fun f f' hf => by rw [hf.name])
          dsimp only [bind, Except.bind]
          rw [hkey]
          dsimp only at hread ⊢
          revert hread hfind
          generalize format.fields.find? _ = found
          generalize format'.fields.find? _ = found'
          rintro hread (hf | _)
          · dsimp only at hread ⊢
            by_cases hseen : seen.contains key = true
            · rw [if_pos hseen] at hread
              cases hread
            · rw [if_neg hseen] at hread ⊢
              obtain ⟨r'', hcolon, hread⟩ := bind_eq_ok hread
              obtain ⟨⟨a'', rest'⟩, hvalue, hread⟩ := bind_eq_ok hread
              obtain ⟨b', hb, hab'⟩ := hf.read a b hab r'' a'' rest' hvalue
              rw [hcolon]
              dsimp only
              rw [hb]
              exact ih false (key :: seen) hab' rest' a' rest hread
          · dsimp only at hread ⊢
            obtain ⟨r'', hcolon, hread⟩ := bind_eq_ok hread
            obtain ⟨rest', hskip, hread⟩ := bind_eq_ok hread
            rw [hcolon]
            dsimp only
            rw [hskip]
            exact ih false seen hab rest' a' rest hread

/-- The fields of a record that is written as a list. -/
theorem listFields_follows {fields : List (Field α)} {fields' : List (Field β)}
    (h : List.Forall₂ (Field.Follows R) fields fields') (index : ℕ) {a : α} {b : β} (hab : R a b) :
    Json.Follows R (format.listFields fields index a) (format'.listFields fields' index b) := by
  induction h generalizing index a b with
  | nil =>
      intro s a' rest hread
      obtain ⟨r, hend, hread⟩ := bind_eq_ok hread
      cases hread
      refine ⟨b, ?_, hab⟩
      show (endOfList s >>= fun r => _) = _
      rw [hend]
      rfl
  | @cons f f' fields fields' hf htail ih =>
      intro s a' rest hread
      obtain ⟨next, hnext, hread⟩ := bind_eq_ok hread
      unfold listFields
      rw [hnext]
      cases next with
      | stop r =>
          dsimp only [bind, Except.bind] at hread ⊢
          rw [← firstRequired?_eq (.cons hf htail)]
          cases hrequired : firstRequired? (f :: fields) index with
          | some i =>
              rw [hrequired] at hread
              cases hread
          | none =>
              rw [hrequired] at hread
              cases hread
              exact ⟨b, rfl, hab⟩
      | go r =>
          obtain ⟨⟨a'', r'⟩, hvalue, hread⟩ := bind_eq_ok hread
          obtain ⟨b', hb, hab'⟩ := hf.read a b hab r a'' r' hvalue
          dsimp only [bind, Except.bind]
          rw [hb]
          exact ih (index + 1) hab' r' a' rest hread

/-- **Records** of fields that are read alike are read alike. -/
theorem follows (hstart : R format.start format'.start)
    (h : List.Forall₂ (Field.Follows R) format.fields format'.fields) :
    Json.Follows R format.read format'.read := by
  intro s a rest hread
  unfold read at hread ⊢
  split at hread
  · cases hread
  · exact objectFields_follows h _ _ _ hstart _ _ _ hread
  · exact listFields_follows h _ hstart _ _ _ hread
  · cases hread

end RecordFormat

/-- Whole texts are read alike. -/
theorem Follows.readWhole {first : Reader α} {second : Reader β} (h : Follows R first second)
    {text : String} {a : α} (hread : readWhole first text = .ok a) :
    ∃ b, readWhole second text = .ok b ∧ R a b := by
  obtain ⟨⟨a', rest⟩, hfirst, hread⟩ := bind_eq_ok hread
  obtain ⟨b, hsecond, hab⟩ := h _ a' rest hfirst
  dsimp only at hread
  by_cases hend : (skipSpace rest).isEmpty = true
  · rw [if_pos hend] at hread
    cases hread
    refine ⟨b, ?_, hab⟩
    unfold Json.readWhole
    rw [hsecond]
    dsimp only [bind, Except.bind]
    rw [if_pos hend]
    rfl
  · rw [if_neg hend] at hread
    cases hread

end Chronograph.Json
