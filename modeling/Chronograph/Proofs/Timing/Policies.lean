import Chronograph.Proofs.Binary.Order
import Chronograph.Proofs.Timing.Orders
import Chronograph.Proofs.Timing.Sums

/-!
# The totals of both policies

Under `union` an operator's total is added up from zero, under `firstCall` from
its time in the first run.  That is the same sum with a zero in front, and zero
adds nothing to a float other than minus zero (`Micros.zero_add_eq_self_iff`).
So both policies divide one total (`summedTimes`), by the number of runs that
have the operator or by the number of all runs, and they differ only for
operators that some run leaves out (`policies_share_totals`).
-/

namespace Chronograph

/-- The times of an operator added up from zero, in the order of the runs. -/
def summedTimes (name : String) (runs : List Run) : Micros :=
  (timesOf name runs).foldl Micros.add .zero

/-- Zero adds nothing to a time other than minus zero. -/
theorem Micros.zero_add_eq_self_iff {t : Micros} : zero.add t = t ↔ t ≠ number (-0.0) := by
  cases t with
  | undefined => exact iff_of_true rfl (fun h => by cases h)
  | number x =>
      by_cases hx : x = -0.0
      · subst hx
        refine iff_of_false ?_ (fun h => h rfl)
        decide +kernel
      · refine iff_of_true ?_ (fun h => hx (number.inj h))
        simp only [zero, add, Chronograph.zero_add_eq_self_iff.mpr hx]
        cases x.isNaN <;> rfl

/-- The later times are added up from the first one, or from zero with the first one
in front. -/
theorem summedTimes_cons {first : Run} {time : Micros} {name : String} (rest : List Run)
    (htime : first.get? name = some time) (hzero : time ≠ .number (-0.0)) :
    summedTimes name (first :: rest) = (timesOf name rest).foldl Micros.add time := by
  have htimes : timesOf name (first :: rest) = time :: timesOf name rest :=
    List.filterMap_cons_some htime
  rw [summedTimes, htimes, List.foldl_cons, Micros.zero_add_eq_self_iff.mpr hzero]

theorem names_average_firstCall (first : Run) (rest : List Run) :
    (average .firstCall (first :: rest)).names = first.names := by
  rw [average, NameMap.names_mapValues, names_foldl_addKnown]

/-- What both policies make of an operator of the first run. -/
theorem get?_average_of_mem_first {first : Run} (rest : List Run) {name : String}
    (hzero : ∀ time ∈ first.values, time ≠ .number (-0.0)) (hname : name ∈ first.names) :
    (average .union (first :: rest)).get? name =
      some ((summedTimes name (first :: rest)).dividedBy
        ((first :: rest).countP fun run => name ∈ run.names)) ∧
    (average .firstCall (first :: rest)).get? name =
      some ((summedTimes name (first :: rest)).dividedBy (first :: rest).length) := by
  obtain ⟨time, htime⟩ := NameMap.exists_of_mem_names hname
  have htimes : timesOf name (first :: rest) ≠ [] :=
    (timesOf_ne_nil_iff name (first :: rest)).mpr ⟨first, List.mem_cons_self, hname⟩
  constructor
  · rw [get?_average_union, if_neg htimes, length_timesOf]
    rfl
  · rw [get?_average_firstCall, htime,
      summedTimes_cons rest htime (hzero time (first.mem_values_of_get? htime))]
    rfl

/-- An operator that all runs have is divided by the same number under both policies. -/
theorem get?_average_of_mem_all {first : Run} {rest : List Run} {name : String}
    (hzero : ∀ time ∈ first.values, time ≠ .number (-0.0))
    (hname : ∀ run ∈ first :: rest, name ∈ run.names) :
    (average .union (first :: rest)).get? name =
      (average .firstCall (first :: rest)).get? name := by
  obtain ⟨hunion, hfirst⟩ :=
    get?_average_of_mem_first rest hzero (hname first List.mem_cons_self)
  have hcount : ((first :: rest).countP fun run => name ∈ run.names) = (first :: rest).length :=
    List.countP_eq_length.mpr fun run hrun => decide_eq_true (hname run hrun)
  rw [hunion, hfirst, hcount]

/-- **Both policies divide the same totals.**  If no time of the first run is minus zero,
then an operator of the average under `firstCall` is one of the average under `union`, and
both averages have the sum of its times: divided by the number of the runs that have
the operator under `union`, and by the number of all runs under `firstCall`.  So for an
operator of all runs the averages are the same, and if all runs have the same operators
the averages are. -/
theorem policies_share_totals {first : Run} (rest : List Run)
    (hzero : ∀ time ∈ first.values, time ≠ .number (-0.0)) :
    let runs := first :: rest
    (∀ name ∈ (average .firstCall runs).names, name ∈ (average .union runs).names ∧
      (average .union runs).get? name =
        some ((summedTimes name runs).dividedBy (runs.countP fun run => name ∈ run.names)) ∧
      (average .firstCall runs).get? name =
        some ((summedTimes name runs).dividedBy runs.length)) ∧
    (∀ name, (∀ run ∈ runs, name ∈ run.names) →
      (average .union runs).get? name = (average .firstCall runs).get? name) ∧
    ((∀ run ∈ runs, run.names = first.names) →
      average .union runs = average .firstCall runs) := by
  refine ⟨?_, fun name hname => get?_average_of_mem_all hzero hname, ?_⟩
  · intro name hname
    rw [names_average_firstCall] at hname
    have hvalues := get?_average_of_mem_first rest hzero hname
    refine ⟨?_, hvalues⟩
    rw [NameMap.mem_names_iff, hvalues.1]
    rfl
  · intro hsame
    refine NameMap.ext_get? ?_
    intro name
    by_cases hname : name ∈ first.names
    · refine get?_average_of_mem_all hzero ?_
      intro run hrun
      rw [hsame run hrun]
      exact hname
    · have hnowhere : timesOf name (first :: rest) = [] := by
        by_contra hne
        obtain ⟨run, hrun, hmem⟩ := (timesOf_ne_nil_iff name (first :: rest)).mp hne
        rw [hsame run hrun] at hmem
        exact hname hmem
      rw [NameMap.mem_names_iff, Option.not_isSome_iff_eq_none] at hname
      rw [get?_average_union, if_pos hnowhere, get?_average_firstCall, hname]
      rfl

/-- A first run and two later ones, each without an operator of another one; a later
time is minus zero. -/
def patchyFirst : Run := .ofList [("conv", .ofNat 10), ("relu", .ofNat 4)]

def patchyRest : List Run :=
  [.ofList [("add", .ofNat 7), ("conv", .number (-0.0))], .ofList [("conv", .ofNat 5)]]

/-- The operator of all these runs has one average; that of the first run alone has one
total, which is divided by one and by three. -/
theorem policies_share_totals_patchy :
    (∀ time ∈ patchyFirst.values, time ≠ .number (-0.0)) ∧
      (average .union (patchyFirst :: patchyRest)).get? "conv" =
        (average .firstCall (patchyFirst :: patchyRest)).get? "conv" ∧
      (average .union (patchyFirst :: patchyRest)).get? "relu" =
        some ((Micros.ofNat 4).dividedBy 1) ∧
      (average .firstCall (patchyFirst :: patchyRest)).get? "relu" =
        some ((Micros.ofNat 4).dividedBy 3) := by
  have hzero : ∀ time ∈ patchyFirst.values, time ≠ .number (-0.0) := by decide +kernel
  obtain ⟨hvalues, hall, -⟩ := policies_share_totals patchyRest hzero
  obtain ⟨-, hunion, hfirst⟩ := hvalues "relu" (by decide +kernel)
  have htotal : summedTimes "relu" (patchyFirst :: patchyRest) = .ofNat 4 := by decide +kernel
  have hcount : ((patchyFirst :: patchyRest).countP fun run => "relu" ∈ run.names) = 1 := by
    decide +kernel
  rw [htotal, hcount] at hunion
  rw [htotal] at hfirst
  exact ⟨hzero, hall "conv" (by decide +kernel), hunion, hfirst⟩

/-- A time of minus zero in the only run is a sum of zero under one policy. -/
example :
    let runs : List Run := [.ofList [("conv", .number (-0.0))]]
    average .union runs ≠ average .firstCall runs := by decide +kernel

end Chronograph
