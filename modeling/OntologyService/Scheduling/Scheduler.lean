import OntologyService.Failure.Service
import OntologyService.Order.SortedSet

/-!
# Recurring jobs

A scheduled job has a loop of its own, which starts a run when its period has passed and does not
start the next before that one is over. Cancelling a job, or letting go of its handle, is a wish
that the loop sees in its own time: a run that is then in progress is given up, and its outcome is
not counted. A loop that has seen the wish exits, and only then is the identity of the job free
again.

A `Scheduler` holds the identities that are taken, and every loop that was ever started, by number.
Each step of a loop is a function on it, so any interleaving is a list of steps.
-/

namespace OntologyService

/-- Where a loop is. -/
inductive LoopPhase where
  /-- Between two runs. -/
  | waiting
  /-- A run is in progress. -/
  | running
  /-- The wish to stop was seen; whatever ran was given up. -/
  | stopping
  | exited
deriving DecidableEq

/-- The loop of a scheduled job. -/
structure JobLoop where
  job : String
  phase : LoopPhase := .waiting
  /-- Whether the job was cancelled. -/
  cancelled : Bool := false
  /-- Whether the handle of the job was let go of. -/
  abandoned : Bool := false
  /-- How many runs were completed, whether they succeeded or not. -/
  runs : Nat := 0
deriving DecidableEq

/-- The identities that are taken, and the loops, by number. -/
structure Scheduler where
  active : SortedSet String := ∅
  loops : List JobLoop := []

namespace JobLoop

/-- Whether the loop has a wish to stop to see. -/
def shouldStop (l : JobLoop) : Bool := l.cancelled || l.abandoned

/-- The period has passed. The wish to stop is looked at first. -/
def tick (l : JobLoop) : JobLoop :=
  match l.phase with
  | .waiting => if l.shouldStop then { l with phase := .stopping } else { l with phase := .running }
  | _ => l

/-- The run in progress is over. The wish to stop is looked at first. -/
def complete (l : JobLoop) : JobLoop :=
  match l.phase with
  | .running =>
    if l.shouldStop then { l with phase := .stopping }
    else { l with phase := .waiting, runs := l.runs + 1 }
  | _ => l

/-- The loop sees the wish to stop, if there is one. -/
def notice (l : JobLoop) : JobLoop :=
  match l.phase with
  | .waiting | .running => if l.shouldStop then { l with phase := .stopping } else l
  | _ => l

end JobLoop

namespace Scheduler

/-- Schedules a job. A job has to have a period and a place to run, and no other of its identity
may have a loop. -/
def schedule (s : Scheduler) (job : String) (zeroPeriod hasRuntime : Bool) :
    Except SchedulingError Nat × Scheduler :=
  if zeroPeriod then (.error (.zeroPeriod job), s)
  else if !hasRuntime then (.error (.noRuntime job), s)
  else if job ∈ s.active then (.error (.duplicateJob job), s)
  else
    (.ok s.loops.length, { active := s.active.insert job, loops := s.loops ++ [{ job }] })

/-- The loop of a number. -/
def loop? (s : Scheduler) (n : Nat) : Option JobLoop := s.loops[n]?

/-- Changes the loop of a number. -/
def change (s : Scheduler) (n : Nat) (f : JobLoop → JobLoop) : Scheduler :=
  { s with loops := s.loops.modify n f }

/-- Whether a loop has exited. -/
def finished (s : Scheduler) (n : Nat) : Bool :=
  match s.loop? n with
  | some l => l.phase = .exited
  | none => true

/-- How many runs a loop has completed. -/
def runs (s : Scheduler) (n : Nat) : Nat := ((s.loop? n).map JobLoop.runs).getD 0

/-- Cancels a job. It succeeds once at most, and not on a loop that has exited. -/
def cancel (s : Scheduler) (n : Nat) : Except ShutdownError Unit × Scheduler :=
  match s.loop? n with
  | none => (.ok (), s)
  | some l =>
    let refused := l.cancelled || l.phase = .exited
    (if refused then .error (.jobAlreadyStopped l.job) else .ok (),
      s.change n fun l => { l with cancelled := true })

/-- Lets go of the handle of a job. -/
def abandon (s : Scheduler) (n : Nat) : Scheduler :=
  s.change n fun l => { l with abandoned := true }

/-- The period of a job has passed. -/
def tick (s : Scheduler) (n : Nat) : Scheduler := s.change n JobLoop.tick

/-- The run of a job that is in progress is over. -/
def complete (s : Scheduler) (n : Nat) : Scheduler := s.change n JobLoop.complete

/-- A loop sees the wish to stop, if there is one. -/
def notice (s : Scheduler) (n : Nat) : Scheduler := s.change n JobLoop.notice

/-- A loop that is about to exits, and frees the identity of its job. -/
def exit (s : Scheduler) (n : Nat) : Scheduler :=
  match s.loop? n with
  | some { job, phase := .stopping, .. } =>
    { s with active := s.active.erase job }.change n fun l => { l with phase := .exited }
  | _ => s

/-- A loop goes on as far as it gets before another period has passed. The first period is over at
once, and a run that is not held up ends. -/
def settle (s : Scheduler) (n : Nat) (heldUp : Bool) : Scheduler :=
  let s := (s.notice n).exit n
  let s := if s.runs n = 0 then s.tick n else s
  if heldUp then s else s.complete n

/-- A number of periods pass, each with a run that ends. -/
def elapse (s : Scheduler) (n : Nat) : Nat → Scheduler
  | 0 => s
  | k + 1 => ((s.tick n).complete n).elapse n k

end Scheduler

end OntologyService
