import Chronograph.Timing.History

/-!
# Sessions

While operators run, their times are gathered by recorders: a recorder belongs
to one run, keeps the last time of each name, and adds the run to the history
when it is finished.  Any number of recorders may be at work on one history, in
any interleaving; a session is that history with the recorders begun so far.
-/

namespace Chronograph

/-- The times of a run that is not finished. -/
structure Recorder where
  current : Run := .empty

/-- The recorder with the time of an operator; a second time under one name
takes the place of the first. -/
def Recorder.time (r : Recorder) (name : String) (elapsed : Nat) : Recorder :=
  { current := r.current.insert name (.ofNat elapsed) }

/-- A history and its recorders in the order in which they were begun; a
recorder that was finished or dropped leaves its place empty. -/
structure Session where
  history : History
  recorders : List (Option Recorder) := []

/-- What may happen to a session.  Recorders are named by their position. -/
inductive SessionEvent where
  | begin
  | time (recorder : Nat) (name : String) (elapsed : Nat)
  | finish (recorder : Nat)
  | drop (recorder : Nat)
  | record (run : Run)
  | look

namespace Session

/-- The recorder at a position, if it is still at work. -/
def recorder? (s : Session) (i : Nat) : Option Recorder := (s.recorders[i]?).join

/-- The session without the recorder at a position. -/
def release (s : Session) (i : Nat) : Session := { s with recorders := s.recorders.set i none }

/-- The session after an event.  Nothing happens to a recorder that is no longer
at work. -/
def step (s : Session) : SessionEvent → Session
  | .begin => { s with recorders := s.recorders ++ [some {}] }
  | .time i name elapsed =>
    match s.recorder? i with
    | some r => { s with recorders := s.recorders.set i (some (r.time name elapsed)) }
    | none => s
  | .finish i =>
    match s.recorder? i with
    | some r => { s.release i with history := s.history.record r.current }
    | none => s
  | .drop i => s.release i
  | .record run => { s with history := s.history.record run }
  | .look => s

/-- The session after some events. -/
def run (s : Session) (events : List SessionEvent) : Session := events.foldl step s

end Session

end Chronograph
