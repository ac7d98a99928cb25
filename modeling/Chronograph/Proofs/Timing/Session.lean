import Mathlib.Data.List.Induction
import Chronograph.Timing.Session

/-!
# Sessions, event by event

A session mixes the steps of any number of recorders, and each step changes one
list of recorders and one history.  Here both are told from the events alone.
The **life** of a recorder is the part of the events behind its beginning: in it
stand the recorder's own timings, in order, and its end, if it has ended.  What
other recorders do stands there too, and is passed over.

The invariant of a session is one equation: the recorders after some events are
made from the lives, each from its own (`recorders_run`).  The history follows
from it, because only a recorded run and the end of a recorder that is at work
add to a history (`runs_run`).

* `recorders_step` — an event changes each recorder on its own;
* `get?_runOf` — a recorder holds under each name the last time it took;
* `session_follows_events` — a history holds the runs recorded and finished so
  far, and nothing else has a part in it.
-/

namespace Chronograph

/-! ## Lives of recorders -/

/-- For each recorder, in the order in which they were begun, the events behind
its beginning. -/
def lives : List SessionEvent → List (List SessionEvent)
  | [] => []
  | .begin :: rest => rest :: lives rest
  | _ :: rest => lives rest

namespace SessionEvent

/-- Whether an event ends the recorder at a position. -/
def ends (i : Nat) : SessionEvent → Bool
  | finish j => j == i
  | drop j => j == i
  | _ => false

/-- The time that an event gives to the recorder at a position, with its name. -/
def timing? (i : Nat) : SessionEvent → Option (String × Nat)
  | time j name elapsed => if j = i then some (name, elapsed) else none
  | _ => none

/-- The recorders that an event begins. -/
def begun : SessionEvent → List Recorder
  | begin => [{}]
  | _ => []

/-- What an event makes of the recorder at a position. -/
def applyTo (e : SessionEvent) (i : Nat) (r : Option Recorder) : Option Recorder :=
  if e.ends i then none
  else match e.timing? i with
    | some t => r.map (·.time t.1 t.2)
    | none => r

end SessionEvent

/-- The times that a recorder took under a name, in order. -/
def timesTaken (i : Nat) (name : String) (life : List SessionEvent) : List Nat :=
  ((life.filterMap (·.timing? i)).filter (·.1 = name)).map Prod.snd

/-- The run of a recorder: its times, of which the last of each name counts. -/
def runOf (i : Nat) (life : List SessionEvent) : Run :=
  .ofList ((life.filterMap (·.timing? i)).map fun t => (t.1, .ofNat t.2))

/-- The recorder of a life, if it is still at work. -/
def recorderOf (i : Nat) (life : List SessionEvent) : Option Recorder :=
  if life.any (·.ends i) then none else some { current := runOf i life }

theorem lives_append (events : List SessionEvent) (e : SessionEvent) :
    lives (events ++ [e]) = (lives events).map (· ++ [e]) ++ e.begun.map fun _ => [] := by
  induction events with
  | nil => cases e <;> rfl
  | cons first rest ih => cases first <;> simp [lives, ih]

/-! ## The run of a recorder -/

/-- Of the entries of one name the last stands in the map. -/
theorem get?_ofList {α : Type} (entries : List (String × α)) (name : String) :
    (NameMap.ofList entries).get? name = ((entries.filter (·.1 = name)).getLast?).map Prod.snd := by
  induction entries using List.reverseRecOn with
  | nil => rfl
  | append_singleton entries e ih =>
      have hinsert : NameMap.ofList (entries ++ [e]) = (NameMap.ofList entries).insert e.1 e.2 := by
        simp [NameMap.ofList]
      rw [hinsert, NameMap.get?_insert, List.filter_append]
      by_cases h : e.1 = name
      · simp [h]
      · simp [h, ih]

/-- **A run has under each name the last time that its recorder took there.** -/
theorem get?_runOf (i : Nat) (life : List SessionEvent) (name : String) :
    (runOf i life).get? name = (timesTaken i name life).getLast?.map Micros.ofNat := by
  rw [runOf, get?_ofList, List.filter_map, List.getLast?_map, timesTaken, List.getLast?_map,
    Option.map_map, Option.map_map]
  rfl

theorem runOf_append (i : Nat) (life : List SessionEvent) (e : SessionEvent) :
    runOf i (life ++ [e]) = match e.timing? i with
      | some t => (runOf i life).insert t.1 (.ofNat t.2)
      | none => runOf i life := by
  cases h : e.timing? i with
  | none => simp [runOf, h]
  | some t => simp [runOf, h, NameMap.ofList]

/-- A recorder meets one more event on its own. -/
theorem recorderOf_append (i : Nat) (life : List SessionEvent) (e : SessionEvent) :
    recorderOf i (life ++ [e]) = e.applyTo i (recorderOf i life) := by
  unfold recorderOf SessionEvent.applyTo
  rw [runOf_append, List.any_append]
  by_cases hends : e.ends i = true
  · simp [hends]
  · by_cases hlife : life.any (·.ends i) = true
    · cases e.timing? i <;> simp [hends, hlife]
    · cases e.timing? i <;> simp [hends, hlife, Recorder.time]

/-! ## Steps -/

/-- What is done at one position only is done by a walk over all of them. -/
theorem set_eq_mapIdx {α : Type} {f : Nat → α → α} {xs : List α} {i : Nat} {x : α}
    (hself : ∀ y, xs[i]? = some y → f i y = x) (hother : ∀ j y, j ≠ i → f j y = y) :
    xs.set i x = xs.mapIdx f := by
  refine List.ext_getElem? fun j => ?_
  rw [List.getElem?_set, List.getElem?_mapIdx]
  by_cases h : i = j
  · subst h
    cases hxs : xs[i]? with
    | none => simp [List.getElem?_eq_none_iff.mp hxs]
    | some y => simp [(List.getElem?_eq_some_iff.mp hxs).1, hself y hxs]
  · cases hxs : xs[j]? with
    | none => simp [h]
    | some y => simp [h, hother j y (Ne.symm h)]

/-- A walk that changes nothing anywhere. -/
theorem mapIdx_eq_self {α : Type} {f : Nat → α → α} {xs : List α}
    (h : ∀ i y, xs[i]? = some y → f i y = y) : xs.mapIdx f = xs := by
  refine List.ext_getElem? fun j => ?_
  rw [List.getElem?_mapIdx]
  cases hxs : xs[j]? with
  | none => rfl
  | some y => simp [h j y hxs]

namespace SessionEvent

variable {i j : Nat} {name : String} {elapsed : Nat} {r : Option Recorder}

theorem applyTo_of_ne {e : SessionEvent} (hends : e.ends i = false) (htiming : e.timing? i = none) :
    e.applyTo i r = r := by
  simp [applyTo, hends, htiming]

theorem applyTo_time_self : (time i name elapsed).applyTo i r = r.map (·.time name elapsed) := by
  simp [applyTo, ends, timing?]

theorem applyTo_time_ne (h : j ≠ i) : (time i name elapsed).applyTo j r = r :=
  applyTo_of_ne rfl (if_neg (Ne.symm h))

theorem applyTo_finish_self : (finish i).applyTo i r = none := by simp [applyTo, ends]

theorem applyTo_finish_ne (h : j ≠ i) : (finish i).applyTo j r = r :=
  applyTo_of_ne (by simp [ends, Ne.symm h]) rfl

theorem applyTo_drop_self : (drop i).applyTo i r = none := by simp [applyTo, ends]

theorem applyTo_drop_ne (h : j ≠ i) : (drop i).applyTo j r = r :=
  applyTo_of_ne (by simp [ends, Ne.symm h]) rfl

end SessionEvent

/-- What stands at a position without a recorder at work. -/
theorem eq_none_of_recorder? {s : Session} {i : Nat} {r : Option Recorder}
    (h : s.recorder? i = none) (hr : s.recorders[i]? = some r) : r = none := by
  rw [Session.recorder?, hr] at h
  exact h

theorem eq_some_of_recorder? {s : Session} {i : Nat} {x : Recorder} {r : Option Recorder}
    (h : s.recorder? i = some x) (hr : s.recorders[i]? = some r) : r = some x := by
  rw [Session.recorder?, hr] at h
  exact h

open SessionEvent in
/-- **An event changes each recorder on its own.** -/
theorem recorders_step (s : Session) (e : SessionEvent) :
    (s.step e).recorders = s.recorders.mapIdx (fun i r => e.applyTo i r) ++ e.begun.map some := by
  cases e with
  | begin => rw [mapIdx_eq_self fun _ _ _ => applyTo_of_ne rfl rfl]; rfl
  | record run => rw [mapIdx_eq_self fun _ _ _ => applyTo_of_ne rfl rfl]; simp [Session.step, begun]
  | look => rw [mapIdx_eq_self fun _ _ _ => applyTo_of_ne rfl rfl]; simp [Session.step, begun]
  | drop i =>
      rw [← set_eq_mapIdx (fun _ _ => applyTo_drop_self) fun _ _ => applyTo_drop_ne]
      simp [Session.step, Session.release, begun]
  | time i name elapsed =>
      cases hr : s.recorder? i with
      | none =>
          rw [mapIdx_eq_self fun j r hj => ?_]
          · simp [Session.step, hr, begun]
          · by_cases hji : j = i
            · subst hji
              rw [eq_none_of_recorder? hr hj, applyTo_time_self]
              rfl
            · exact applyTo_time_ne hji
      | some x =>
          rw [← set_eq_mapIdx (x := some (x.time name elapsed)) (fun r hi => ?_)
            fun _ _ => applyTo_time_ne]
          · simp [Session.step, hr, begun]
          · rw [eq_some_of_recorder? hr hi, applyTo_time_self]
            rfl
  | finish i =>
      cases hr : s.recorder? i with
      | none =>
          rw [mapIdx_eq_self fun j r hj => ?_]
          · simp [Session.step, hr, begun]
          · by_cases hji : j = i
            · subst hji
              rw [eq_none_of_recorder? hr hj, applyTo_finish_self]
            · exact applyTo_finish_ne hji
      | some x =>
          rw [← set_eq_mapIdx (fun _ _ => applyTo_finish_self) fun _ _ => applyTo_finish_ne]
          simp [Session.step, hr, Session.release, begun]

theorem run_append (s : Session) (events more : List SessionEvent) :
    s.run (events ++ more) = (s.run events).run more :=
  List.foldl_append

theorem run_singleton (s : Session) (e : SessionEvent) : s.run [e] = s.step e := rfl

/-- **The recorders of a session** are made from their lives. -/
theorem recorders_run (h : History) (events : List SessionEvent) :
    (Session.run { history := h } events).recorders = (lives events).mapIdx recorderOf := by
  induction events using List.reverseRecOn with
  | nil => rfl
  | append_singleton events e ih =>
      rw [run_append, run_singleton, recorders_step, ih, lives_append, List.mapIdx_append]
      refine congrArg₂ (· ++ ·) ?_ ?_
      · refine List.ext_getElem? fun i => ?_
        simp only [List.getElem?_mapIdx, List.getElem?_map, Option.map_map]
        exact congrArg (Option.map · _) (funext fun life => (recorderOf_append i life e).symm)
      · cases e <;> rfl

theorem recorder?_run (h : History) (events : List SessionEvent) (i : Nat) :
    (Session.run { history := h } events).recorder? i = (lives events)[i]?.bind (recorderOf i) := by
  rw [Session.recorder?, recorders_run, List.getElem?_mapIdx]
  cases (lives events)[i]? <;> rfl

/-! ## The history -/

/-- The runs that an event adds to the history, when some events came before. -/
def addedRuns (before : List SessionEvent) : SessionEvent → List Run
  | .record run => [run]
  | .finish i => ((lives before)[i]?.bind (recorderOf i)).toList.map (·.current)
  | _ => []

/-- The runs that events add to the history, when some events came before. -/
def addedRunsFrom (before : List SessionEvent) : List SessionEvent → List Run
  | [] => []
  | e :: rest => addedRuns before e ++ addedRunsFrom (before ++ [e]) rest

/-- The runs that were recorded and finished, in the order in which they were. -/
def recordedRuns (events : List SessionEvent) : List Run := addedRunsFrom [] events

theorem addedRunsFrom_append (before events : List SessionEvent) (e : SessionEvent) :
    addedRunsFrom before (events ++ [e]) =
      addedRunsFrom before events ++ addedRuns (before ++ events) e := by
  induction events generalizing before with
  | nil => simp [addedRunsFrom]
  | cons first rest ih => simp [addedRunsFrom, ih]

theorem recordedRuns_append (events : List SessionEvent) (e : SessionEvent) :
    recordedRuns (events ++ [e]) = recordedRuns events ++ addedRuns events e :=
  addedRunsFrom_append [] events e

/-- What one event does to the history of a session. -/
theorem history_step (s : Session) (e : SessionEvent) :
    (s.step e).history = match e with
      | .record run => s.history.record run
      | .finish i => match s.recorder? i with
        | some r => s.history.record r.current
        | none => s.history
      | _ => s.history := by
  cases e with
  | time i name elapsed => cases h : s.recorder? i <;> simp [Session.step, h]
  | finish i => cases h : s.recorder? i <;> simp [Session.step, h]
  | _ => rfl

/-- **The history of a session**: the runs that were there, and the runs that the
events add. -/
theorem history_run (h : History) (events : List SessionEvent) :
    (Session.run { history := h } events).history =
      { runs := h.runs ++ recordedRuns events, policy := h.policy } := by
  induction events using List.reverseRecOn with
  | nil => simp [Session.run, recordedRuns, addedRunsFrom]
  | append_singleton events e ih =>
      rw [run_append, run_singleton, history_step, recordedRuns_append]
      cases e with
      | finish i =>
          dsimp only
          rw [recorder?_run, ih]
          cases hr : (lives events)[i]?.bind (recorderOf i) <;>
            simp [addedRuns, hr, History.record]
      | record run => simp [ih, addedRuns, History.record]
      | _ => simp [ih, addedRuns]

theorem recordedRuns_grow (events later : List SessionEvent) :
    recordedRuns events <+: recordedRuns (events ++ later) := by
  induction later using List.reverseRecOn with
  | nil => simp
  | append_singleton later e ih =>
      rw [← List.append_assoc, recordedRuns_append]
      exact ih.trans (List.prefix_append _ _)

/-- **A session follows its events.**  After any events on a history, by any
number of recorders in any interleaving, the history holds its first runs and
then the runs recorded and finished, in order; its length and its average are
those of this list, under the policy it was made with.  Runs only come behind
those that are there.  Of the events, recording a run adds it, and finishing a
recorder at work adds a run that has under each name the last time that this
recorder took there, and no other name; all others leave the history alone. -/
theorem session_follows_events (h : History) (events : List SessionEvent) :
    let s := Session.run { history := h } events
    s.history.runs = h.runs ++ recordedRuns events ∧
    s.history.length = (h.runs ++ recordedRuns events).length ∧
    s.history.average = average h.policy (h.runs ++ recordedRuns events) ∧
    (∀ later, s.history.runs <+: (s.run later).history.runs) ∧
    (∀ e, (∀ run, e ≠ .record run) → (∀ i, e ≠ .finish i) → (s.step e).history = s.history) ∧
    (∀ run, (s.step (.record run)).history.runs = s.history.runs ++ [run]) ∧
    (∀ i life, (lives events)[i]? = some life → (∀ e ∈ life, e.ends i = false) →
      ∃ run, (s.step (.finish i)).history.runs = s.history.runs ++ [run] ∧
        ∀ name, run.get? name = (timesTaken i name life).getLast?.map Micros.ofNat) := by
  intro s
  have hs : s.history = { runs := h.runs ++ recordedRuns events, policy := h.policy } :=
    history_run h events
  refine ⟨?_, ?_, ?_, fun later => ?_, fun e hrecord hfinish => ?_, fun run => ?_,
    fun i life hlife hwork => ⟨runOf i life, ?_, get?_runOf i life⟩⟩
  · rw [hs]
  · rw [hs, History.length]
  · rw [hs, History.average]
  · rw [← run_append, history_run h (events ++ later), hs]
    exact (List.prefix_append_right_inj _).mpr (recordedRuns_grow events later)
  · rw [history_step]
    cases e with
    | record run => exact absurd rfl (hrecord run)
    | finish i => exact absurd rfl (hfinish i)
    | _ => rfl
  · rw [history_step]
    rfl
  · have hends : life.any (·.ends i) = false := by simpa using hwork
    have hr : s.recorder? i = some { current := runOf i life } := by
      rw [recorder?_run, hlife, Option.bind_some, recorderOf, if_neg (by simp [hends])]
    rw [history_step]
    simp only [hr, History.record]

/-- Two recorders at work at once, of which the second is given up. -/
def crossedEvents : List SessionEvent :=
  [.begin, .begin, .time 0 "a" 3, .time 1 "b" 5, .time 0 "a" 7, .drop 1, .time 0 "c" 2]

/-- When the first recorder is finished, its run has the second time under its
first name, and nothing of the other recorder. -/
theorem session_follows_events_crossed :
    (lives crossedEvents)[0]? = some crossedEvents.tail ∧
    (∀ e ∈ crossedEvents.tail, e.ends 0 = false) ∧
    ∃ run, ((Session.run { history := {} } crossedEvents).step (.finish 0)).history.runs =
        (Session.run { history := {} } crossedEvents).history.runs ++ [run] ∧
      run.get? "a" = some (.ofNat 7) ∧ run.get? "b" = none := by
  have hlife : (lives crossedEvents)[0]? = some crossedEvents.tail := rfl
  have hwork : ∀ e ∈ crossedEvents.tail, e.ends 0 = false := by
    simp [crossedEvents, SessionEvent.ends]
  obtain ⟨-, -, -, -, -, -, hfinish⟩ := session_follows_events {} crossedEvents
  obtain ⟨run, hruns, htimes⟩ := hfinish 0 crossedEvents.tail hlife hwork
  exact ⟨hlife, hwork, run, hruns, (htimes "a").trans (by decide), (htimes "b").trans (by decide)⟩

end Chronograph
