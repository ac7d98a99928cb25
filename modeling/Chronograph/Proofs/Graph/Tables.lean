import Chronograph.Graph.Basic
import Mathlib.Data.List.Nodup
import Mathlib.Data.List.Induction

/-!
# Tables of named items

The tables of a graph are filled item by item, each in the place of the one of its
name.  What a table holds in the end is the last item of each name
(`last_of_mem_tableOf`), no name is lost (`exists_mem_tableOf`), and the names stand
in the order in which they were first added (`isTableOf_tableOf`).
-/

namespace Chronograph

variable {α : Type} (name : α → String)

/-- A table to which items are added, each in the place of the one of its name. -/
def tableOf (items : List α) : List α :=
  items.foldl (fun table item => replaceOrAppend name item table) []

theorem tableOf_append (items : List α) (item : α) :
    tableOf name (items ++ [item]) = replaceOrAppend name item (tableOf name items) := by
  unfold tableOf
  rw [List.foldl_append]
  rfl

variable {name}

theorem mem_replaceOrAppend_self (item : α) (table : List α) :
    item ∈ replaceOrAppend name item table := by
  induction table with
  | nil => exact List.mem_cons_self
  | cons old rest ih =>
      unfold replaceOrAppend
      by_cases h : name old = name item
      · rw [if_pos h]
        exact List.mem_cons_self
      · rw [if_neg h]
        exact List.mem_cons_of_mem _ ih

/-- In the place of an old item stands one of the same name. -/
theorem exists_mem_replaceOrAppend {item old : α} {table : List α} (h : old ∈ table) :
    ∃ k ∈ replaceOrAppend name item table, name k = name old := by
  induction table with
  | nil => cases h
  | cons first rest ih =>
      unfold replaceOrAppend
      by_cases hname : name first = name item
      · rw [if_pos hname]
        rcases List.mem_cons.mp h with rfl | h
        · exact ⟨item, List.mem_cons_self, hname.symm⟩
        · exact ⟨old, List.mem_cons_of_mem _ h, rfl⟩
      · rw [if_neg hname]
        rcases List.mem_cons.mp h with rfl | h
        · exact ⟨old, List.mem_cons_self, rfl⟩
        · obtain ⟨k, hk, hkname⟩ := ih h
          exact ⟨k, List.mem_cons_of_mem _ hk, hkname⟩

/-- The names of a table stay apart, and what is left of it has other names than
the new item. -/
theorem mem_replaceOrAppend {item k : α} {table : List α} (htable : (table.map name).Nodup)
    (h : k ∈ replaceOrAppend name item table) : k = item ∨ k ∈ table ∧ name k ≠ name item := by
  induction table with
  | nil => exact .inl (List.mem_singleton.mp h)
  | cons old rest ih =>
      obtain ⟨hold, hrest⟩ := List.nodup_cons.mp htable
      unfold replaceOrAppend at h
      by_cases hname : name old = name item
      · rw [if_pos hname] at h
        rcases List.mem_cons.mp h with rfl | h
        · exact .inl rfl
        · refine .inr ⟨List.mem_cons_of_mem _ h, ?_⟩
          intro heq
          exact hold (List.mem_map.mpr ⟨k, h, heq.trans hname.symm⟩)
      · rw [if_neg hname] at h
        rcases List.mem_cons.mp h with rfl | h
        · exact .inr ⟨List.mem_cons_self, hname⟩
        · rcases ih hrest h with rfl | ⟨hmem, hne⟩
          · exact .inl rfl
          · exact .inr ⟨List.mem_cons_of_mem _ hmem, hne⟩

theorem nodup_replaceOrAppend (item : α) {table : List α} (htable : (table.map name).Nodup) :
    ((replaceOrAppend name item table).map name).Nodup := by
  induction table with
  | nil => exact List.nodup_singleton _
  | cons old rest ih =>
      obtain ⟨hold, hrest⟩ := List.nodup_cons.mp htable
      unfold replaceOrAppend
      by_cases hname : name old = name item
      · rw [if_pos hname, List.map_cons, ← hname]
        exact htable
      · rw [if_neg hname, List.map_cons]
        refine List.nodup_cons.mpr ⟨?_, ih hrest⟩
        intro hmem
        obtain ⟨k, hk, hkname⟩ := List.mem_map.mp hmem
        rcases mem_replaceOrAppend hrest hk with rfl | ⟨hk, -⟩
        · exact hname hkname.symm
        · exact hold (List.mem_map.mpr ⟨k, hk, hkname⟩)

theorem nodup_tableOf (items : List α) : ((tableOf name items).map name).Nodup := by
  induction items using List.reverseRecOn with
  | nil => exact List.nodup_nil
  | append_singleton items item ih =>
      rw [tableOf_append]
      exact nodup_replaceOrAppend item ih

/-- **A table holds the last item of each name.** -/
theorem last_of_mem_tableOf {items : List α} {k : α} (h : k ∈ tableOf name items) :
    ∃ before after, items = before ++ k :: after ∧ ∀ later ∈ after, name later ≠ name k := by
  induction items using List.reverseRecOn with
  | nil => cases h
  | append_singleton items item ih =>
      rw [tableOf_append] at h
      rcases mem_replaceOrAppend (nodup_tableOf items) h with rfl | ⟨hmem, hne⟩
      · exact ⟨items, [], rfl, fun later hlater => absurd hlater List.not_mem_nil⟩
      · obtain ⟨before, after, rfl, hafter⟩ := ih hmem
        refine ⟨before, after ++ [item], ?_, ?_⟩
        · rw [List.append_assoc, List.cons_append]
        · intro later hlater
          rcases List.mem_append.mp hlater with hlater | hlater
          · exact hafter later hlater
          · rw [List.mem_singleton.mp hlater]
            exact hne.symm

/-- No name is lost. -/
theorem exists_mem_tableOf {items : List α} {item : α} (h : item ∈ items) :
    ∃ k ∈ tableOf name items, name k = name item := by
  induction items using List.reverseRecOn with
  | nil => cases h
  | append_singleton items new ih =>
      rw [tableOf_append]
      rcases List.mem_append.mp h with h | h
      · obtain ⟨old, hold, hname⟩ := ih h
        obtain ⟨k, hk, hkname⟩ : ∃ k ∈ replaceOrAppend name new (tableOf name items),
          name k = name old := exists_mem_replaceOrAppend hold
        exact ⟨k, hk, hkname.trans hname⟩
      · rw [List.mem_singleton.mp h]
        exact ⟨new, mem_replaceOrAppend_self new _, rfl⟩

/-- A table that items were added to: no name occurs twice, the names stand in the
order in which they were first added, and under each name stands what was added
last. -/
structure IsTableOf (name : α → String) (added table : List α) : Prop where
  distinct : (table.map name).Nodup
  firstOrder : table.map name = (added.map name).eraseDups
  lastValue : ∀ n, table.find? (name · == n) = (added.filter (name · == n)).getLast?

theorem eraseDups_concat (names : List String) (n : String) :
    (names ++ [n]).eraseDups =
      if n ∈ names then names.eraseDups else names.eraseDups ++ [n] := by
  rw [List.eraseDups_append]
  by_cases h : n ∈ names <;> simp [List.removeAll, h, List.eraseDups_cons]

/-- Adding an item keeps the names where they are; a new name comes last. -/
theorem names_replaceOrAppend (item : α) (table : List α) :
    (replaceOrAppend name item table).map name =
      if name item ∈ table.map name then table.map name else table.map name ++ [name item] := by
  induction table with
  | nil => simp [replaceOrAppend]
  | cons old rest ih =>
      unfold replaceOrAppend
      by_cases h : name old = name item
      · simp [h]
      · rw [if_neg h, List.map_cons, ih, List.map_cons]
        by_cases hrest : name item ∈ rest.map name
        · rw [if_pos hrest, if_pos (List.mem_cons_of_mem _ hrest)]
        · rw [if_neg hrest, if_neg (by simp [Ne.symm h, hrest]), List.cons_append]

/-- Under the name of an added item stands the item, under all others what stood
there. -/
theorem find?_replaceOrAppend (item : α) (table : List α) (n : String) :
    (replaceOrAppend name item table).find? (name · == n) =
      if name item = n then some item else table.find? (name · == n) := by
  induction table with
  | nil => by_cases hn : name item = n <;> simp [replaceOrAppend, hn]
  | cons old rest ih =>
      unfold replaceOrAppend
      by_cases h : name old = name item
      · by_cases hn : name item = n <;> simp [h, hn]
      · rw [if_neg h, List.find?_cons, ih, List.find?_cons]
        by_cases hold : name old = n
        · have hn : name item ≠ n := fun hn => h (hold.trans hn.symm)
          simp [hold, hn]
        · simp [beq_false_of_ne hold]

/-- **What a table holds** after any items were added to it. -/
theorem isTableOf_tableOf (name : α → String) (items : List α) :
    IsTableOf name items (tableOf name items) := by
  refine ⟨nodup_tableOf items, ?_, fun n => ?_⟩
  · induction items using List.reverseRecOn with
    | nil => rfl
    | append_singleton items item ih =>
        rw [tableOf_append, names_replaceOrAppend, ih, List.map_append, List.map_singleton,
          eraseDups_concat]
        simp only [List.mem_eraseDups]
  · induction items using List.reverseRecOn with
    | nil => rfl
    | append_singleton items item ih =>
        rw [tableOf_append, find?_replaceOrAppend, ih, List.filter_append]
        by_cases hn : name item = n <;> simp [hn]

end Chronograph
