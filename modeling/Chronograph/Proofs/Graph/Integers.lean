import Chronograph.Proofs.Graph.Building
import Chronograph.Proofs.Json.Exactness
import Chronograph.Proofs.Json.Following

/-!
# Integer constants of a description

The constants of a description as they are written, with the exact value of
every number, beside those that the graph holds.  `writtenConstants` reads the
same texts as `Graph.ofJson` does, but keeps the numbers as they stand there.

Of several constants of one name a graph holds the last one, and its elements
are the numbers that are written, except for those that are misread: what the
reader makes of a number is settled by `unsignedNumber_reads`, that both read the
same places by `Description.ofJson_reads`, and which constants are left by the
lemmas on tables.
-/

namespace Chronograph

open Json (Reader RecordFormat Numeral Follows bind_eq_ok)

/-! ## Constants as they are written -/

/-- A constant as a text describes it. -/
structure WrittenConstant where
  name : String
  type : ElementType
  shape : Shape
  data : List Numeral

/-- The fields of a constant, with its numbers as they are written. -/
def WrittenConstant.format : RecordFormat WrittenConstant where
  name := "ConstantDescription"
  start := { name := "", type := .float, shape := [], data := [] }
  fields := [
    .of "name" true Json.readText fun w v => { w with name := v },
    .of "dtype" true ElementType.read fun w v => { w with type := v },
    .of "shape" true Shape.read fun w v => { w with shape := v },
    .of "data" true (Json.readList Json.readNumeral) fun w v => { w with data := v }]

/-- The fields of a description, of which only the constants are kept. -/
def writtenFormat : RecordFormat (List WrittenConstant) where
  name := "GraphDescription"
  start := []
  fields := [
    .of "name" true Json.readText fun w _ => w,
    .of "source_file" false Json.readText fun w _ => w,
    .of "parse_time" false Json.readText fun w _ => w,
    .of "operators" false (Json.readList OperatorDescription.format.read) fun w _ => w,
    .of "initialized" false (Json.readList WrittenConstant.format.read) fun _ v => v,
    .of "intermediates" false (Json.readList Tensor.format.read) fun w _ => w,
    .of "inputs" false (Json.readList Tensor.format.read) fun w _ => w,
    .of "outputs" false (Json.readList Json.readText) fun w _ => w,
    .of "blas_routines" false (Json.readList Json.readText) fun w _ => w]

/-- The constants that a JSON text describes, as they are written. -/
def writtenConstants (text : String) : Except Json.Fault (List WrittenConstant) :=
  Json.readWhole writtenFormat.read text

/-! ## The same constants with their numbers read -/

/-- A number is read from a numeral. -/
def Json.Number.ReadFrom (n : Json.Number) (written : Numeral) : Prop :=
  ∀ w, n.wholeValue? = some w → written.ReadAs w

theorem Json.readNumber_follows :
    Follows Json.Number.ReadFrom Json.readNumber Json.readNumeral := by
  intro s n rest h
  unfold Json.readNumber Json.readNumberAs at h
  unfold Json.readNumeral
  split at h
  · cases h
  · next heq =>
      rw [heq]
      exact Json.unsignedNumber_reads h
  · next hminus =>
      by_cases hdigit : Json.startsWithDigit (Json.skipSpace s) = true
      · rw [if_pos hdigit] at h
        split
        · next heq => exact absurd heq (hminus _)
        · exact Json.unsignedNumber_reads h
      · rw [if_neg hdigit] at h
        cases h

/-- A constant is read from what is written. -/
structure ConstantDescription.ReadFrom (c : ConstantDescription) (w : WrittenConstant) : Prop where
  name : c.name = w.name
  type : c.type = w.type
  shape : c.shape = w.shape
  data : List.Forall₂ Json.Number.ReadFrom c.data w.data

theorem ConstantDescription.format_follows :
    Follows ConstantDescription.ReadFrom ConstantDescription.format.read
      WrittenConstant.format.read := by
  apply RecordFormat.follows
  · exact ⟨rfl, rfl, rfl, .nil⟩
  · refine .cons ?_ (.cons ?_ (.cons ?_ (.cons ?_ .nil)))
    · refine Json.Field.follows_of (Follows.refl _) ?_ _ _
      rintro c w v _ h rfl
      exact ⟨rfl, h.type, h.shape, h.data⟩
    · refine Json.Field.follows_of (Follows.refl _) ?_ _ _
      rintro c w v _ h rfl
      exact ⟨h.name, rfl, h.shape, h.data⟩
    · refine Json.Field.follows_of (Follows.refl _) ?_ _ _
      rintro c w v _ h rfl
      exact ⟨h.name, h.type, rfl, h.data⟩
    · refine Json.Field.follows_of Json.readNumber_follows.list ?_ _ _
      intro c w v v' h hdata
      exact ⟨h.name, h.type, h.shape, hdata⟩

/-- **The constants of a description** are read from those that are written. -/
theorem Description.ofJson_reads {text : String} {d : Description}
    (h : Description.ofJson text = .ok d) :
    ∃ written, writtenConstants text = .ok written ∧
      List.Forall₂ ConstantDescription.ReadFrom d.constants written := by
  refine Follows.readWhole (R := fun d w => List.Forall₂ _ d.constants w) ?_ h
  apply RecordFormat.follows
  · exact .nil
  · refine .cons ?_ (.cons ?_ (.cons ?_ (.cons ?_ (.cons ?_ (.cons ?_ (.cons ?_ (.cons ?_
      (.cons ?_ .nil))))))))
    case refine_5 =>
      refine Json.Field.follows_of ConstantDescription.format_follows.list ?_ _ _
      intro d w v v' _ hv
      exact hv
    all_goals
      refine Json.Field.follows_of (Follows.refl _) ?_ _ _
      intro d w v v' h _
      exact h

/-! ## Related lists -/

/-- What a loop over a list yields is yielded element by element. -/
theorem forall₂_of_mapM {ε α β : Type} {f : α → Except ε β} {xs : List α} {ys : List β}
    (h : xs.mapM f = .ok ys) : List.Forall₂ (fun x y => f x = .ok y) xs ys := by
  induction xs generalizing ys with
  | nil =>
      cases h
      exact .nil
  | cons x xs ih =>
      rw [List.mapM_cons] at h
      obtain ⟨y, hy, h⟩ := bind_eq_ok h
      obtain ⟨ys', hys, h⟩ := bind_eq_ok h
      cases h
      exact .cons hy (ih hys)

theorem forall₂_compose {α β γ : Type} {P : α → β → Prop} {Q : α → γ → Prop} {S : β → γ → Prop}
    (h : ∀ a b c, P a b → Q a c → S b c) {as : List α} {bs : List β} {cs : List γ}
    (hP : List.Forall₂ P as bs) (hQ : List.Forall₂ Q as cs) : List.Forall₂ S bs cs := by
  induction hP generalizing cs with
  | nil =>
      cases hQ
      exact .nil
  | cons hab _ ih =>
      cases hQ with
      | cons hac htail => exact .cons (h _ _ _ hab hac) (ih htail)

/-- Related lists are split at related places. -/
theorem split_of_forall₂ {α β : Type} {R : α → β → Prop} {as : List α} {before after : List β} {b : β}
    (h : List.Forall₂ R as (before ++ b :: after)) :
    ∃ before' a after', as = before' ++ a :: after' ∧ R a b ∧ List.Forall₂ R after' after := by
  induction before generalizing as with
  | nil =>
      obtain ⟨a, after', hab, hafter, rfl⟩ := List.forall₂_cons_right_iff.mp h
      exact ⟨[], a, after', rfl, hab, hafter⟩
  | cons first before ih =>
      obtain ⟨a', as', -, htail, rfl⟩ := List.forall₂_cons_right_iff.mp h
      obtain ⟨before', a, after', rfl, hab, hafter⟩ := ih htail
      exact ⟨a' :: before', a, after', rfl, hab, hafter⟩

theorem exists_of_forall₂ {α β : Type} {R : α → β → Prop} {as : List α} {bs : List β} {a : α}
    (h : List.Forall₂ R as bs) (ha : a ∈ as) : ∃ b ∈ bs, R a b := by
  induction h with
  | nil => cases ha
  | cons hab _ ih =>
      rcases List.mem_cons.mp ha with rfl | ha
      · exact ⟨_, List.mem_cons_self, hab⟩
      · obtain ⟨b, hb, hab⟩ := ih ha
        exact ⟨b, List.mem_cons_of_mem _ hb, hab⟩

/-! ## Elements of integer types -/

/-- The element types whose elements are whole numbers. -/
def ElementType.isInteger : ElementType → Bool
  | int32 | int64 | int8 | uint8 => true
  | float | double | bool | float16 => false

/-- The elements of a constant of an integer type. -/
def TensorData.integers? : TensorData → Option (List ℤ)
  | int32 values => some (values.map Int32.toInt)
  | int64 values => some (values.map Int64.toInt)
  | raw .int8 bytes => some (bytes.map fun b => b.toInt8.toInt)
  | raw .uint8 bytes => some (bytes.map fun b => (b.toNat : ℤ))
  | _ => none

/-- Numbers of a constant that all lie between two bounds. -/
theorem mapM_integerIn {c : ConstantDescription} {low high : ℤ} {values : List ℤ}
    (h : c.data.mapM (c.integerIn low high) = .ok values) :
    List.Forall₂ (fun n v => n.wholeValue? = some v) c.data values ∧
      ∀ v ∈ values, low ≤ v ∧ v ≤ high := by
  have hspec : ∀ n v, c.integerIn low high n = .ok v →
      n.wholeValue? = some v ∧ low ≤ v ∧ v ≤ high := by
    intro n v hn
    unfold ConstantDescription.integerIn at hn
    split at hn
    · next heq =>
        split at hn
        · next hrange =>
            cases hn
            exact ⟨heq, hrange⟩
        · cases hn
    · cases hn
  have hall := (forall₂_of_mapM h).imp hspec
  generalize c.data = numbers at hall
  clear h hspec
  induction hall with
  | nil => exact ⟨.nil, fun v hv => absurd hv List.not_mem_nil⟩
  | cons hn _ ih =>
      refine ⟨.cons hn.1 ih.1, ?_⟩
      intro v hv
      rcases List.mem_cons.mp hv with rfl | hv
      · exact hn.2
      · exact ih.2 v hv

/-- The elements of a constant are of its element type. -/
theorem ConstantDescription.elements_type {c : ConstantDescription} {data : TensorData}
    (h : c.elements = .ok data) : data.elementType = c.type := by
  unfold elements at h
  cases htype : c.type with
  | float | double | bool | float16 =>
      rw [htype] at h
      cases h
      rfl
  | int32 | int64 | int8 | uint8 =>
      rw [htype] at h
      dsimp only at h
      obtain ⟨values, -, h⟩ := bind_eq_ok h
      cases h
      rfl

/-- Elements that keep the whole numbers between two bounds. -/
theorem integers_of_mapM {β : Type} (make : List β → TensorData) (encode : ℤ → β) (decode : β → ℤ)
    {c : ConstantDescription} {low high : ℤ} {data : TensorData}
    (hmake : ∀ elements, (make elements).integers? = some (elements.map decode))
    (hdecode : ∀ v, low ≤ v → v ≤ high → decode (encode v) = v)
    (h : (do return make ((← c.data.mapM (c.integerIn low high)).map encode)) = .ok data) :
    ∃ values, data.integers? = some values ∧
      List.Forall₂ (fun n v => n.wholeValue? = some v) c.data values := by
  obtain ⟨values, hvalues, h⟩ := bind_eq_ok h
  cases h
  obtain ⟨hall, hrange⟩ := mapM_integerIn hvalues
  refine ⟨values, ?_, hall⟩
  have hkeep : ∀ v ∈ values, (decode ∘ encode) v = id v := by
    intro v hv
    exact hdecode v (hrange v hv).1 (hrange v hv).2
  rw [hmake, List.map_map, List.map_congr_left hkeep, List.map_id]

/-- **The elements of an integer type** are the whole numbers that are meant. -/
theorem ConstantDescription.elements_integers {c : ConstantDescription} {data : TensorData}
    (h : c.elements = .ok data) (hinteger : c.type.isInteger = true) :
    ∃ values, data.integers? = some values ∧
      List.Forall₂ (fun n v => n.wholeValue? = some v) c.data values := by
  unfold elements at h
  cases htype : c.type with
  | float | double | bool | float16 =>
      rw [htype] at hinteger
      cases hinteger
  | int32 =>
      rw [htype] at h
      refine integers_of_mapM .int32 Int32.ofInt Int32.toInt (fun _ => rfl) ?_ h
      intro v hlow hhigh
      exact Int32.toInt_ofInt_of_le hlow (Int.lt_add_one_iff.mpr hhigh)
  | int64 =>
      rw [htype] at h
      refine integers_of_mapM .int64 Int64.ofInt Int64.toInt (fun _ => rfl) ?_ h
      intro v hlow hhigh
      exact Int64.toInt_ofInt_of_le hlow (Int.lt_add_one_iff.mpr hhigh)
  | int8 =>
      rw [htype] at h
      refine integers_of_mapM (.raw .int8) (fun v => (Int8.ofInt v).toUInt8) (fun b => b.toInt8.toInt)
        (fun _ => rfl) ?_ h
      intro v hlow hhigh
      exact Int8.toInt_ofInt_of_le hlow (Int.lt_add_one_iff.mpr hhigh)
  | uint8 =>
      rw [htype] at h
      refine integers_of_mapM (.raw .uint8) (fun v => UInt8.ofNat v.toNat) (fun b => (b.toNat : ℤ))
        (fun _ => rfl) ?_ h
      intro v hlow hhigh
      have hword : (UInt8.ofNat v.toNat).toNat = v.toNat :=
        UInt8.toNat_ofNat_of_lt (by unfold UInt8.size; omega)
      show ((UInt8.ofNat v.toNat).toNat : ℤ) = v
      rw [hword]
      exact Int.toNat_of_nonneg hlow

/-! ## The constants of the graph -/

/-- A constant holds what is written: its elements are the numbers that stand
there, if they are whole and not misread. -/
structure WrittenConstant.StoredAs (w : WrittenConstant) (k : Constant) : Prop where
  name : k.name = w.name
  type : k.type = w.type
  shape : k.shape = w.shape
  integers : w.type.isInteger = true →
    ∃ values, k.data.integers? = some values ∧ List.Forall₂ Numeral.ReadAs w.data values

theorem storedAs_of_readFrom {c : ConstantDescription} {w : WrittenConstant} {k : Constant}
    (hread : c.ReadFrom w) (hk : c.toConstant = .ok k) : w.StoredAs k := by
  obtain ⟨data, hdata, hk⟩ := bind_eq_ok hk
  cases hk
  refine ⟨hread.name, (c.elements_type hdata).trans hread.type, hread.shape, ?_⟩
  intro hinteger
  rw [← hread.type] at hinteger
  obtain ⟨values, hvalues, hall⟩ := c.elements_integers hdata hinteger
  refine ⟨values, hvalues, forall₂_compose ?_ hread.data hall⟩
  intro n written v hn hv
  exact hn v hv

/-- **Integer constants are the numbers that are written**, whatever the text.  Of
several constants of one name the graph holds the last one.  An element of an
integer type whose written value is a whole number is that value, unless
`Numeral.MisreadAs` lists it, and then it is another one. -/
theorem ofJson_integers {text : String} {g : Graph} (h : Graph.ofJson text = .ok g) :
    ∃ written, writtenConstants text = .ok written ∧
      (∀ w ∈ written, ∃ k ∈ g.constants, k.name = w.name) ∧
      ∀ k ∈ g.constants, ∃ before w after, written = before ++ w :: after ∧
        (∀ later ∈ after, later.name ≠ w.name) ∧ w.StoredAs k := by
  unfold Graph.ofJson at h
  cases hdescription : Description.ofJson text with
  | error fault =>
      rw [hdescription] at h
      cases h
  | ok d =>
      rw [hdescription] at h
      obtain ⟨written, hwritten, hread⟩ := Description.ofJson_reads hdescription
      obtain ⟨constants, hconstants, htable⟩ := constants_ofDescription h
      have hconverted := forall₂_of_mapM hconstants
      have hstored : List.Forall₂ WrittenConstant.StoredAs written constants := by
        refine forall₂_compose ?_ hread hconverted
        intro c w k hread hk
        exact storedAs_of_readFrom hread hk
      refine ⟨written, hwritten, ?_, ?_⟩
      · intro w hw
        obtain ⟨k, hk, hwk⟩ := exists_of_forall₂ hstored hw
        obtain ⟨k', hk', hname⟩ : ∃ k' ∈ tableOf Constant.name constants, k'.name = k.name :=
          exists_mem_tableOf hk
        rw [htable]
        exact ⟨k', hk', hname.trans hwk.name⟩
      · intro k hk
        rw [htable] at hk
        obtain ⟨before, after, rfl, hafter⟩ := last_of_mem_tableOf hk
        obtain ⟨before', w, after', rfl, hwk, hrest⟩ := split_of_forall₂ hstored
        refine ⟨before', w, after', rfl, ?_, hwk⟩
        intro later hlater
        obtain ⟨k', hk', hlaterk⟩ := exists_of_forall₂ hrest hlater
        rw [← hlaterk.name, ← hwk.name]
        exact hafter k' hk'

/-- A constant of `2 ^ 53 + 1`, with an exponent. -/
def misreadText : String :=
  "\x7b\"name\":\"m\",\"initialized\":[\x7b\"name\":\"k\",\"dtype\":\"int64\",\"shape\":[1],"
    ++ "\"data\":[9007199254740993e0]\x7d]\x7d"

/-- It is read, and stored as `2 ^ 53`. -/
theorem ofJson_integers_misread : ∃ g, Graph.ofJson misreadText = .ok g ∧
    g.constants = [{ name := "k", shape := [1], data := .int64 [9007199254740992] }] ∧
    ∃ written, writtenConstants misreadText = .ok written ∧
      (∀ w ∈ written, ∃ k ∈ g.constants, k.name = w.name) ∧
      ∀ k ∈ g.constants, ∃ before w after, written = before ++ w :: after ∧
        (∀ later ∈ after, later.name ≠ w.name) ∧ w.StoredAs k := by
  have hread : (Graph.ofJson misreadText).toOption.map Graph.constants
      = some [{ name := "k", shape := [1], data := .int64 [9007199254740992] }] := by
    decide +kernel
  cases h : Graph.ofJson misreadText with
  | error fault =>
      rw [h] at hread
      cases hread
  | ok g =>
      rw [h] at hread
      exact ⟨g, rfl, Option.some.inj hread, ofJson_integers h⟩

end Chronograph
