import Chronograph.Timing.Average

/-!
# Averages, name by name

The average walks the runs one after the other and keeps a map of totals, so
the value of one operator is spread over the whole walk.  Here it is told for a
single name: the times of an operator, in the order of the runs that timed it
(`timesOf`), are all that its average depends on.

The invariant of both walks is the same: after some runs the map holds under
each name the sum of that name's times so far.  Under `union` a name enters the
map with its first time and is counted from there; under `firstCall` only the
names of the first run are in the map, and no later run adds one.

* `get?_addRun`, `get?_addKnown` — what one more run does to one name;
* `get?_totalsOf`, `get?_foldl_addKnown` — what all runs have done to it;
* `get?_average_union`, `get?_average_firstCall` — the averages of both policies.
-/

namespace Chronograph

/-- The times of an operator, in the order of the runs that timed it. -/
def timesOf (name : String) (runs : List Run) : List Micros :=
  runs.filterMap fun run => run.get? name

/-- The runs that timed an operator are as many as its times. -/
theorem length_timesOf (name : String) (runs : List Run) :
    (timesOf name runs).length = runs.countP fun run => name ∈ run.names := by
  induction runs with
  | nil => rfl
  | cons run runs ih =>
      have hmem := run.mem_names_iff name
      cases h : run.get? name with
      | none =>
          have hnot : name ∉ run.names := by simp [hmem, h]
          rw [List.countP_cons_of_neg (by simpa using hnot), ← ih]
          simp [timesOf, h]
      | some time =>
          have hin : name ∈ run.names := by simp [hmem, h]
          rw [List.countP_cons_of_pos (by simpa using hin), ← ih]
          simp [timesOf, h]

/-- An operator has a time exactly if a run names it. -/
theorem timesOf_ne_nil_iff (name : String) (runs : List Run) :
    timesOf name runs ≠ [] ↔ ∃ run ∈ runs, name ∈ run.names := by
  rw [← List.length_pos_iff, length_timesOf, List.countP_pos_iff]
  simp

/-! ## Totals -/

/-- Totals are added up in the arithmetic of times, and counted. -/
theorem foldl_add (times : List Micros) (t : Total) :
    times.foldl Total.add t =
      { sum := times.foldl Micros.add t.sum, count := t.count + times.length } := by
  induction times generalizing t with
  | nil => rfl
  | cons time times ih =>
      simp only [List.foldl_cons, ih, Total.add, List.length_cons, Total.mk.injEq, true_and]
      omega

/-- One run, of which each name is met once, adds its time under a name to the
total there and leaves every other name alone. -/
theorem get?_addRun (totals : NameMap Total) (run : Run) (name : String) :
    (addRun totals run).get? name =
      match run.get? name with
      | some time => some (((totals.get? name).getD {}).add time)
      | none => totals.get? name := by
  obtain ⟨entries, sorted⟩ := run
  simp only [addRun, NameMap.get?]
  -- the totals change along the walk, and only the entries ahead are known to be sorted
  induction entries generalizing totals with
  | nil => rfl
  | cons first rest ih =>
      obtain ⟨hfirst, hrest⟩ := List.pairwise_cons.mp sorted
      simp only [List.foldl_cons]
      refine (ih _ hrest).trans ?_
      have hstep := totals.get?_alter first.1 name fun old => (old.getD {}).add first.2
      simp only [NameMap.get?] at hstep
      by_cases h : first.1 = name
      · subst h
        have hnone : NameMap.lookup first.1 rest = none := NameMap.lookup_eq_none hfirst
        simp only [hnone, hstep, NameMap.lookup, if_true]
      · simp only [hstep, NameMap.lookup, if_neg h]

/-- **Totals of all runs.**  After a walk over some runs the total under a name
is the one it started with and the name's times on top; a name without times is
still as it was. -/
theorem get?_foldl_addRun (runs : List Run) (totals : NameMap Total) (name : String) :
    (runs.foldl addRun totals).get? name =
      if timesOf name runs = [] then totals.get? name
      else some ((timesOf name runs).foldl Total.add ((totals.get? name).getD {})) := by
  induction runs generalizing totals with
  | nil => simp [timesOf]
  | cons run runs ih =>
      rw [List.foldl_cons, ih, get?_addRun]
      cases h : run.get? name with
      | none => simp [timesOf, h]
      | some time =>
          have htimes : timesOf name (run :: runs) = time :: timesOf name runs := by
            simp [timesOf, h]
          by_cases hnil : timesOf name runs = []
          · simp [htimes, hnil]
          · simp [htimes, hnil]

/-- The total of an operator: the sum of its times from zero, and their number. -/
theorem get?_totalsOf (runs : List Run) (name : String) :
    (totalsOf runs).get? name =
      if timesOf name runs = [] then none
      else some
        { sum := (timesOf name runs).foldl Micros.add .zero
          count := (timesOf name runs).length } := by
  rw [totalsOf, get?_foldl_addRun]
  split
  · rfl
  · simp [foldl_add]

/-! ## Sums over the operators of the first run -/

/-- One run adds its time under a name, if it has one, to a sum that is there. -/
theorem get?_addKnown (sums run : Run) (name : String) :
    (addKnown sums run).get? name =
      (sums.get? name).map fun sum => (timesOf name [run]).foldl Micros.add sum := by
  rw [addKnown, NameMap.get?_mapValues]
  cases h : run.get? name <;> simp [timesOf, h]

/-- No run adds a name to the sums or takes one away. -/
theorem names_foldl_addKnown (runs : List Run) (sums : Run) :
    (runs.foldl addKnown sums).names = sums.names := by
  induction runs generalizing sums with
  | nil => rfl
  | cons run runs ih => rw [List.foldl_cons, ih, addKnown, NameMap.names_mapValues]

/-- **Sums of all runs.**  After a walk over some runs each sum has the name's
times on top, and there are no other sums. -/
theorem get?_foldl_addKnown (runs : List Run) (sums : Run) (name : String) :
    (runs.foldl addKnown sums).get? name =
      (sums.get? name).map fun sum => (timesOf name runs).foldl Micros.add sum := by
  induction runs generalizing sums with
  | nil => simp [timesOf]
  | cons run runs ih =>
      have htimes : timesOf name (run :: runs) = timesOf name [run] ++ timesOf name runs := by
        cases h : run.get? name <;> simp [timesOf, h]
      rw [List.foldl_cons, ih, get?_addKnown, Option.map_map, htimes]
      simp only [List.foldl_append, Function.comp_def]

/-! ## Averages -/

theorem get?_average_union (runs : List Run) (name : String) :
    (average .union runs).get? name =
      if timesOf name runs = [] then none
      else some (((timesOf name runs).foldl Micros.add .zero).dividedBy
        (timesOf name runs).length) := by
  cases runs with
  | nil => rfl
  | cons run runs =>
      show ((totalsOf (run :: runs)).mapValues fun _ t => t.sum.dividedBy t.count).get? name = _
      rw [NameMap.get?_mapValues, get?_totalsOf]
      split <;> rfl

theorem get?_average_firstCall (first : Run) (rest : List Run) (name : String) :
    (average .firstCall (first :: rest)).get? name =
      (first.get? name).map fun time =>
        ((timesOf name rest).foldl Micros.add time).dividedBy (rest.length + 1) := by
  rw [average, NameMap.get?_mapValues, get?_foldl_addKnown, Option.map_map]
  rfl

/-- **Averages, name by name.**  Under `union` the names are those of all runs;
the average of a name is the sum of its times from zero, in the order of the
runs, over the number of runs that have the name.  Under `firstCall` the names
are those of the first run; the average of a name is its first time and its
later times added up in order, over the number of all runs.  Without runs no
policy has any name. -/
theorem average_by_name (runs : List Run) (first : Run) (rest : List Run) (name : String)
    (policy : Policy) :
    (name ∈ (average .union runs).names ↔ ∃ run ∈ runs, name ∈ run.names) ∧
    (average .union runs).get? name =
      (if ∃ run ∈ runs, name ∈ run.names then
        some (((timesOf name runs).foldl Micros.add .zero).dividedBy
          (runs.countP fun run => name ∈ run.names))
      else none) ∧
    (average .firstCall (first :: rest)).names = first.names ∧
    (average .firstCall (first :: rest)).get? name =
      ((first.get? name).map fun time =>
        ((timesOf name rest).foldl Micros.add time).dividedBy (first :: rest).length) ∧
    average policy [] = .empty := by
  have hunion : (average .union runs).get? name =
      if ∃ run ∈ runs, name ∈ run.names then
        some (((timesOf name runs).foldl Micros.add .zero).dividedBy
          (runs.countP fun run => name ∈ run.names))
      else none := by
    rw [get?_average_union, length_timesOf]
    by_cases h : timesOf name runs = []
    · rw [if_pos h, if_neg (fun hex => (timesOf_ne_nil_iff name runs).mpr hex h)]
    · rw [if_neg h, if_pos ((timesOf_ne_nil_iff name runs).mp h)]
  refine ⟨?_, hunion, ?_, get?_average_firstCall first rest name, ?_⟩
  · rw [NameMap.mem_names_iff, hunion]
    split <;> simp_all
  · rw [average, NameMap.names_mapValues, names_foldl_addKnown]
  · cases policy <;> rfl

end Chronograph
