import Mathlib.Data.List.Induction
import Chronograph.Timing.History
import Chronograph.Proofs.Json.Collections

/-!
# Histories and their texts

A history is written as a list with an object for each run, and read again run by
run.  Every finite time has a text that is read, so reading never fails and keeps
the runs, their order and the names in them (`ofJson_toJson_exchanged`).  Times need
not stay: they are written with the fewest digits that a correct reader tells apart,
and read by one that rounds twice.  What becomes of a time is a function of that
time alone (`Micros.exchanged`), and a history comes back exactly if each of its
times does.  The whole microseconds that recorders take do (`ofJson_toJson_whole`).
-/

namespace Chronograph

open Json (Reads reread reads_float exists_reread IsShort isShort_nearestFloat)

/-- A function leaves a list alone that leaves its elements alone. -/
theorem map_eq_self_iff {α : Type} {f : α → α} {xs : List α} :
    xs.map f = xs ↔ ∀ x ∈ xs, f x = x := by
  have h : xs.map f = xs.map id ↔ ∀ x ∈ xs, f x = id x := List.map_inj_left
  rwa [List.map_id] at h

/-! ## Maps of their own entries -/

namespace NameMap

variable {α : Type}

/-- A name behind all others is entered at the end. -/
theorem alterEntries_of_lt {name : String} (f : Option α → α) {entries : List (String × α)}
    (h : ∀ e ∈ entries, e.1 < name) :
    alterEntries name f entries = entries ++ [(name, f none)] := by
  induction entries with
  | nil => rfl
  | cons first rest ih =>
      have hrest := ih fun e he => h e (List.mem_cons_of_mem _ he)
      rw [alterEntries, if_pos (h first List.mem_cons_self), hrest, List.cons_append]

/-- Entries in order are those of their map. -/
theorem entries_ofList {entries : List (String × α)} (h : SortedByName entries) :
    (ofList entries).entries = entries := by
  induction entries using List.reverseRecOn with
  | nil => rfl
  | append_singleton entries e ih =>
      obtain ⟨hsorted, -, hlast⟩ := List.pairwise_append.mp h
      have hlt : ∀ first ∈ entries, first.1 < e.1 := fun first hfirst =>
        hlast first hfirst e (List.mem_singleton_self e)
      rw [ofList, List.foldl_append]
      show alterEntries e.1 _ (ofList entries).entries = _
      rw [ih hsorted, alterEntries_of_lt _ hlt]

theorem ext_entries {m n : NameMap α} (h : m.entries = n.entries) : m = n := by
  cases m
  cases n
  cases h
  rfl

/-- A map is the map of its entries. -/
theorem ofList_entries (m : NameMap α) : ofList m.entries = m :=
  ext_entries (entries_ofList m.sorted)

end NameMap

/-! ## Times -/

namespace Micros

/-- Whether a time is a number and has a text. -/
def isFinite : Micros → Bool
  | number x => x.isFinite
  | undefined => false

/-- The time that the text of a time is read as; a time without a text stays. -/
def exchanged (t : Micros) : Micros :=
  match reread t.toFloat with
  | .ok x => number x
  | .error _ => t

/-- A finite time is read, since its text is. -/
theorem reads {t : Micros} (h : t.isFinite = true) :
    Reads (fun s => do let (x, rest) ← Json.readFloat s; return (number x, rest))
      (.float t.toFloat) t.exchanged := by
  cases t with
  | undefined => cases h
  | number x =>
      obtain ⟨y, hy⟩ := exists_reread (x := x) h
      have hexchanged : (number x).exchanged = number y := by
        unfold exchanged toFloat
        rw [hy]
      rw [hexchanged]
      exact (reads_float hy).make number

/-- **A time with few digits comes back.** -/
theorem exchanged_of_isShort {x : Float} (h : IsShort x) : (number x).exchanged = number x := by
  have hread : reread (number x).toFloat = .ok x := h.reread_eq_self
  rw [exchanged, hread]

end Micros

/-! ## Runs -/

namespace Run

/-- The run that the text of a run is read as. -/
def exchanged (run : Run) : Run := run.mapValues fun _ t => t.exchanged

theorem reads {run : Run} (h : ∀ t ∈ run.values, t.isFinite = true) :
    Reads Run.read run.toJson run.exchanged := by
  rw [← NameMap.ofList_entries run.exchanged]
  refine Reads.map ?_
  show List.Forall₂ _ (run.entries.map _) (run.entries.map _)
  rw [List.forall₂_map_left_iff, List.forall₂_map_right_iff, List.forall₂_same]
  intro e he
  exact ⟨rfl, Micros.reads (h e.2 (List.mem_map_of_mem he))⟩

/-- A run comes back exactly if its times do. -/
theorem exchanged_eq_iff (run : Run) :
    run.exchanged = run ↔ ∀ t ∈ run.values, t.exchanged = t := by
  have hentries : run.exchanged = run ↔
      run.entries.map (fun e => (e.1, e.2.exchanged)) = run.entries :=
    ⟨fun h => congrArg NameMap.entries h, fun h => NameMap.ext_entries h⟩
  rw [hentries, map_eq_self_iff]
  constructor
  · intro h t ht
    obtain ⟨e, he, rfl⟩ := List.mem_map.mp ht
    exact congrArg Prod.snd (h e he)
  · intro h e he
    exact Prod.ext rfl (h e.2 (List.mem_map_of_mem he))

end Run

/-! ## Histories -/

theorem ofJson_toJson_exchanged {h : History}
    (hfinite : ∀ run ∈ h.runs, ∀ t ∈ run.values, t.isFinite = true) (policy : Policy) :
    History.ofJson h.toJson policy = .ok { runs := h.runs.map Run.exchanged, policy } := by
  have hreads : Reads (Json.readList Run.read) (.list (h.runs.map Run.toJson))
      (h.runs.map Run.exchanged) := by
    refine Reads.list ?_
    rw [List.forall₂_map_left_iff, List.forall₂_map_right_iff, List.forall₂_same]
    intro run hrun
    exact Run.reads (hfinite run hrun)
  rw [History.ofJson, History.toJson, hreads.pretty]
  rfl

theorem map_exchanged_eq_iff (runs : List Run) :
    runs.map Run.exchanged = runs ↔ ∀ run ∈ runs, ∀ t ∈ run.values, t.exchanged = t := by
  rw [map_eq_self_iff]
  constructor
  · intro h run hrun
    exact run.exchanged_eq_iff.mp (h run hrun)
  · intro h run hrun
    exact run.exchanged_eq_iff.mpr (h run hrun)

/-- **Recorded histories come back**: those of whole microseconds, up to a tenth of
`2 ^ 53` each. -/
theorem ofJson_toJson_whole {h : History}
    (hwhole : ∀ run ∈ h.runs, ∀ t ∈ run.values, ∃ n, 10 * n ≤ 2 ^ 53 ∧ t = .ofNat n)
    (policy : Policy) : History.ofJson h.toJson policy = .ok { h with policy } := by
  have hshort : ∀ run ∈ h.runs, ∀ t ∈ run.values, t.isFinite = true ∧ t.exchanged = t := by
    intro run hrun t ht
    obtain ⟨n, hn, rfl⟩ := hwhole run hrun t ht
    have hx := isShort_nearestFloat hn
    exact ⟨hx.isFinite, Micros.exchanged_of_isShort hx⟩
  have hsame := (map_exchanged_eq_iff h.runs).mpr fun run hrun t ht => (hshort run hrun t ht).2
  rw [ofJson_toJson_exchanged (fun run hrun t ht => (hshort run hrun t ht).1), hsame]

/-- **What becomes of a history** that is written and read again.  If its times are
finite it is read under every policy, with the same runs and names in the same order.
Each time is what its own text is read as, so the runs are the same exactly if every
time comes back; those with few digits do. -/
theorem history_exchange {h : History}
    (hfinite : ∀ run ∈ h.runs, ∀ t ∈ run.values, t.isFinite = true) (policy : Policy) :
    ∃ runs, History.ofJson h.toJson policy = .ok { runs, policy } ∧
      runs = h.runs.map Run.exchanged ∧
      runs.map NameMap.names = h.runs.map NameMap.names ∧
      (runs = h.runs ↔ ∀ run ∈ h.runs, ∀ t ∈ run.values, t.exchanged = t) ∧
      ((∀ run ∈ h.runs, ∀ t ∈ run.values, ∃ x, t = .number x ∧ IsShort x) →
        runs = h.runs) := by
  have hsame := map_exchanged_eq_iff h.runs
  refine ⟨_, ofJson_toJson_exchanged hfinite policy, rfl, ?_, hsame, ?_⟩
  · rw [List.map_map]
    exact List.map_congr_left fun run _ => NameMap.names_mapValues run _
  · intro hshort
    refine hsame.mpr ?_
    intro run hrun t ht
    obtain ⟨x, rfl, hx⟩ := hshort run hrun t ht
    exact Micros.exchanged_of_isShort hx

/-- A history with one time, ten elevenths of a microsecond. -/
def eleventhsHistory : History where
  runs := [.ofList [("Conv_0", .number (Float.ofBits 0x3FED1745D1745D17))]]

/-- It is read, but with the next float. -/
theorem history_exchange_eleventhsHistory :
    ∃ runs, History.ofJson eleventhsHistory.toJson .union = .ok { runs, policy := .union } ∧
      runs = [.ofList [("Conv_0", .number (Float.ofBits 0x3FED1745D1745D18))]] ∧
      runs ≠ eleventhsHistory.runs := by
  have hfinite : ∀ run ∈ eleventhsHistory.runs, ∀ t ∈ run.values, t.isFinite = true := by
    decide +kernel
  obtain ⟨runs, hread, hruns, -, hsame, -⟩ := history_exchange hfinite .union
  refine ⟨runs, hread, ?_, ?_⟩
  · rw [hruns]
    decide +kernel
  · rw [Ne, hsame]
    decide +kernel

end Chronograph
