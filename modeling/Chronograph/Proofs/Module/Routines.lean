import Mathlib.Data.List.Count
import Chronograph.Proofs.Module.Accounting
import Chronograph.Proofs.Module.Declarations

/-!
# Declared routines

A graph asks for external routines by name, in any order and as often as it likes.
What is declared depends only on which of the known names are among them: two lists
have the same declarations exactly if they have the same known names, and each known
name that is there is declared once, in the order of all routines
(`routines_declared`).

A name that is not known declares nothing, but it is not lost: each time it is met it
is reported.  An assembly reports other things as well, but nothing in the same words
(`routineReports_assemble`), so the reports of a unit can be counted.
-/

namespace Chronograph

/-! ## Known names -/

namespace Routine

/-- The names that are known, in this spelling only. -/
def names : List String := ["Gemm", "Gemv", "Axpy"]

theorem mem_names_iff {id : String} : id ∈ names ↔ ∃ r : Routine, r.name = id := by
  constructor
  · intro h
    rcases List.mem_cons.mp h with rfl | h
    · exact ⟨gemm, rfl⟩
    rcases List.mem_cons.mp h with rfl | h
    · exact ⟨gemv, rfl⟩
    · exact ⟨axpy, (List.mem_singleton.mp h).symm⟩
  · rintro ⟨r, rfl⟩
    cases r <;> decide

theorem ofName?_isNone_iff {id : String} : (ofName? id).isNone ↔ id ∉ names := by
  rw [Option.isNone_iff_eq_none, Option.eq_none_iff_forall_ne_some, mem_names_iff, not_exists]
  exact forall_congr' fun r => not_congr ofName?_eq_some_iff

theorem signature_injective : Function.Injective signature := by
  intro r s h
  cases r <;> cases s <;> first | rfl | exact absurd h (by decide)

end Routine

/-! ## Declarations -/

/-- The routines found among two lists of names are the same if the known names are. -/
theorem knownRoutines_eq_iff {names other : List String} :
    knownRoutines other = knownRoutines names ↔
      ∀ id ∈ Routine.names, (id ∈ other ↔ id ∈ names) := by
  constructor
  · intro h id hid
    obtain ⟨r, rfl⟩ := Routine.mem_names_iff.mp hid
    rw [← mem_knownRoutines_iff, h, mem_knownRoutines_iff]
  · intro h
    refine List.filter_congr ?_
    intro r _
    rw [Bool.eq_iff_iff, List.contains_iff_mem, List.contains_iff_mem]
    exact h r.name (Routine.mem_names_iff.mpr ⟨r, rfl⟩)

/-- Spelling counts, order and repetition do not. -/
example : knownRoutines ["Axpy", "gemm", "Gemv", "Axpy"] = [.gemv, .axpy] ∧
    knownRoutines ["Gemv", "GEMM", "Axpy"] = [.gemv, .axpy] := by
  decide

theorem routineScope?_eq_some_iff {names : List String} {scope : Item} :
    routineScope? names = some scope ↔ knownRoutines names ≠ [] ∧
      scope = .scope "BLAS" (((knownRoutines names).map Routine.signature).map .foreign) := by
  unfold routineScope?
  cases knownRoutines names with
  | nil => simp
  | cons r rest =>
      rw [List.map_map, Option.some.injEq, eq_comm]
      exact (and_iff_right (List.cons_ne_nil r rest)).symm

theorem routineScope?_eq_none_iff {names : List String} :
    routineScope? names = none ↔ knownRoutines names = [] := by
  unfold routineScope?
  cases knownRoutines names <;> simp

/-- The declarations tell which routines are declared. -/
theorem routineScope?_inj {names other : List String} :
    routineScope? other = routineScope? names ↔ knownRoutines other = knownRoutines names := by
  constructor
  · intro h
    cases hscope : routineScope? names with
    | none =>
        rw [hscope] at h
        rw [routineScope?_eq_none_iff.mp h, routineScope?_eq_none_iff.mp hscope]
    | some scope =>
        rw [hscope] at h
        obtain ⟨-, hother⟩ := routineScope?_eq_some_iff.mp h
        obtain ⟨-, hnames⟩ := routineScope?_eq_some_iff.mp hscope
        rw [hnames, Item.scope.injEq] at hother
        have hsignatures := List.map_injective_iff.mpr (fun _ _ => Item.foreign.inj) hother.2
        exact (List.map_injective_iff.mpr Routine.signature_injective hsignatures).symm
  · intro h
    unfold routineScope?
    rw [h]

/-- A routine is found once among the names if it is found at all. -/
theorem count_signature_knownRoutines (names : List String) (r : Routine) :
    ((knownRoutines names).map Routine.signature).count r.signature =
      if r.name ∈ names then 1 else 0 := by
  have hnodup : (knownRoutines names).Nodup := List.Nodup.filter _ (by decide)
  rw [List.count_map_of_injective _ _ Routine.signature_injective, hnodup.count]
  exact if_congr mem_knownRoutines_iff rfl rfl

/-! ## Reports -/

namespace Event

/-- Whether an event is the report of a name that is not known. -/
def IsRoutineReport (e : Event) : Prop :=
  e.level = .trace ∧ e.message = "ignoring unknown external routine"

instance : DecidablePred IsRoutineReport := fun e =>
  inferInstanceAs (Decidable (e.level = .trace ∧ e.message = "ignoring unknown external routine"))

end Event

theorem TensorEntry.not_isRoutineReport_skipReport (e : TensorEntry) :
    ¬ e.skipReport.IsRoutineReport := by
  rintro ⟨-, hmessage⟩
  cases e with
  | constant c => by_cases htype : c.type.Declared <;> simp [skipReport, htype, Event.message]
      at hmessage
  | intermediate t => by_cases htype : t.type.Declared <;> simp [skipReport, htype, Event.message]
      at hmessage

/-- A walk over the tensors reports tensors only, whether it comes to its end or not. -/
theorem exists_skipReport_of_mem_settle {entries : List TensorEntry} {event : Event}
    (h : event ∈ (settle (entries.map TensorEntry.verdict)).events) :
    ∃ e ∈ entries, event = e.skipReport := by
  induction entries with
  | nil => cases h
  | cons e entries ih =>
      rw [List.map_cons] at h
      cases hverdict : e.verdict with
      | declared b =>
          rw [hverdict] at h
          obtain ⟨other, hother, rfl⟩ := ih h
          exact ⟨other, List.mem_cons_of_mem _ hother, rfl⟩
      | skipped skip =>
          rw [hverdict] at h
          rcases List.mem_cons.mp h with rfl | h
          · exact ⟨e, List.mem_cons_self, TensorEntry.eq_skipReport hverdict⟩
          · obtain ⟨other, hother, rfl⟩ := ih h
            exact ⟨other, List.mem_cons_of_mem _ hother, rfl⟩
      | refused fault =>
          rw [hverdict] at h
          cases h

theorem filter_isRoutineReport_settle (g : Graph) :
    (settle g.verdicts).events.filter (fun e => decide e.IsRoutineReport) = [] := by
  rw [List.filter_eq_nil_iff]
  intro event hevent
  rw [verdicts_eq_map] at hevent
  obtain ⟨e, -, rfl⟩ := exists_skipReport_of_mem_settle hevent
  simpa using e.not_isRoutineReport_skipReport

theorem filter_isRoutineReport_routineEvents (names : List String) :
    (routineEvents names).filter (fun e => decide e.IsRoutineReport) = routineEvents names := by
  rw [List.filter_eq_self]
  intro event hevent
  obtain ⟨id, -, rfl⟩ := List.mem_map.mp hevent
  exact decide_eq_true ⟨rfl, rfl⟩

theorem fields_routineEvents (names : List String) :
    (routineEvents names).map Event.fields =
      (names.filter fun id => id ∉ Routine.names).map fun id => [("routine", id)] := by
  rw [routineEvents, List.map_map]
  refine congrArg₂ List.map rfl (List.filter_congr ?_)
  intro id _
  rw [Bool.eq_iff_iff, Routine.ofName?_isNone_iff, decide_eq_true_iff]

/-- **The reports of unknown names in an assembly** are the names that are not known, each
as often as it is met and in their order, if the tensors of the graph are settled; otherwise
the names are never looked at. -/
theorem routineReports_assemble (g : Graph) (o : Options) :
    ((assemble g o).events.filter fun e => e.IsRoutineReport).map Event.fields =
      if (assemble g o).outcome.isOk then
        (g.routines.filter fun id => id ∉ Routine.names).map fun id => [("routine", id)]
      else [] := by
  have hassembling : ¬ (assemblingEvent g o).IsRoutineReport := fun h => nomatch h.1
  cases houtput : g.output with
  | error fault =>
      have hassemble : assemble g o = ⟨[], .error fault⟩ := by rw [assemble, houtput]
      rw [hassemble]
      rfl
  | ok output =>
      cases houtcome : (settle g.verdicts).outcome with
      | error fault =>
          have hassemble : assemble g o =
              ⟨assemblingEvent g o :: (settle g.verdicts).events, .error fault⟩ := by
            rw [assemble, houtput]
            dsimp only
            rw [houtcome]
          rw [hassemble, List.filter_cons_of_neg (by simpa using hassembling),
            filter_isRoutineReport_settle]
          rfl
      | ok buffers =>
          have hassemble : assemble g o =
              ⟨assemblingEvent g o :: (settle g.verdicts).events ++ routineEvents g.routines,
                .ok (moduleUnit g o output buffers)⟩ := by
            rw [assemble, houtput]
            dsimp only
            rw [houtcome]
          rw [hassemble, List.cons_append, List.filter_cons_of_neg (by simpa using hassembling),
            List.filter_append, filter_isRoutineReport_settle, List.nil_append,
            filter_isRoutineReport_routineEvents, fields_routineEvents]
          rfl

/-! ## All together -/

/-- **Declarations depend on the set of known names, reports on the list.**  Lists of names
with the same known names have the same declarations, and no others do.  There are none if
no name is known, and otherwise they are one namespace, in which each routine that is asked
for is declared once, in a fixed order.  A unit that asks for the names reports each name
that is not known as often as it occurs and in the order of the list. -/
theorem routines_declared (names : List String) :
    (∀ other, routineScope? other = routineScope? names ↔
      ∀ id ∈ Routine.names, (id ∈ other ↔ id ∈ names)) ∧
    (routineScope? names = none ↔ ∀ id ∈ Routine.names, id ∉ names) ∧
    (∀ scope, routineScope? names = some scope → ∃ signatures : List String,
      scope = .scope "BLAS" (signatures.map .foreign) ∧
      signatures.Sublist [Routine.gemm.signature, Routine.gemv.signature,
        Routine.axpy.signature] ∧
      ∀ r : Routine, signatures.count r.signature = if r.name ∈ names then 1 else 0) ∧
    ∀ (g : Graph) (o : Options),
      ((assemble { g with routines := names } o).events.filter
          fun e => e.IsRoutineReport).map Event.fields =
        if (assemble { g with routines := names } o).outcome.isOk then
          (names.filter fun id => id ∉ Routine.names).map fun id => [("routine", id)]
        else [] := by
  refine ⟨?_, ?_, ?_, ?_⟩
  · intro other
    rw [routineScope?_inj, knownRoutines_eq_iff]
  · have hempty : knownRoutines [] = [] := rfl
    rw [routineScope?_eq_none_iff, ← hempty, eq_comm, knownRoutines_eq_iff]
    simp
  · intro scope hscope
    obtain ⟨-, rfl⟩ := routineScope?_eq_some_iff.mp hscope
    refine ⟨_, rfl, ?_, count_signature_knownRoutines names⟩
    exact (List.filter_sublist (l := Routine.all)).map Routine.signature
  · intro g o
    exact routineReports_assemble { g with routines := names } o

end Chronograph
