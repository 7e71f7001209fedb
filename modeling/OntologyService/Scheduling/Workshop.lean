import OntologyService.Scheduling.Scheduler

/-!
# Jobs at work

A run of a job is carried out by a worker, apart from the loop that started it. The loop learns that
the run has returned only when it looks, and if it sees the wish to stop then, it takes no result.
A run that its loop has given up goes on until it returns.

A `Workshop` is a scheduler with the runs that are being carried out. Those who hold the handles of
jobs, the loops and the workers take their steps in any order: `Event` lists the steps, `serve`
takes one, and a list of events is a history. A `trace` tells what each step came to.
-/

namespace OntologyService

/-- What a loop goes through. -/
inductive Turn where
  /-- A run is started. -/
  | started
  /-- The result of a run is taken. -/
  | completed
  /-- The wish to stop is seen. -/
  | stopped
  | exited
deriving DecidableEq

/-- What a loop has gone through that was in one phase and is in another. -/
def LoopPhase.turn? : LoopPhase → LoopPhase → Option Turn
  | .waiting, .running => some .started
  | .running, .waiting => some .completed
  | .waiting, .stopping | .running, .stopping => some .stopped
  | .stopping, .exited => some .exited
  | _, _ => none

/-- A scheduler, and the runs that are being carried out. -/
structure Workshop where
  scheduler : Scheduler := {}
  /-- The runs, each by the number of the loop that started it. -/
  busy : List Nat := []

namespace Workshop

/-- A step of somebody in the workshop. -/
inductive Event where
  | schedule (job : String) (zeroPeriod hasRuntime : Bool)
  /-- A job is cancelled through its handle. -/
  | cancel (n : Nat)
  /-- The handle of a job is let go of. -/
  | letGo (n : Nat)
  /-- The period of a job has passed. -/
  | tick (n : Nat)
  /-- A worker is done with a run. -/
  | finish (n : Nat)
  /-- A loop looks at the run that it has started. -/
  | complete (n : Nat)
  /-- A loop looks for the wish to stop. -/
  | notice (n : Nat)
  | exit (n : Nat)

/-- What a step comes to. -/
inductive Effect where
  /-- A job has a loop of that number now. -/
  | scheduled (job : String) (n : Nat)
  | refused (e : SchedulingError)
  | cancelled (n : Nat)
  | notCancelled (e : ShutdownError)
  /-- There is no handle any more. -/
  | abandoned (n : Nat)
  /-- A run has returned. -/
  | returned (n : Nat)
  | turned (n : Nat) (t : Turn)
  | nothing
deriving DecidableEq

/-- Whether somebody holds the handle of a job. -/
def isHeld (w : Workshop) (n : Nat) : Bool :=
  match w.scheduler.loop? n with
  | some l => !l.abandoned
  | none => false

/-- What a loop has gone through on the way to another state of the scheduler. -/
def turn? (w : Workshop) (n : Nat) (s : Scheduler) : Option Turn :=
  match w.scheduler.loop? n, s.loop? n with
  | some l, some l' => l.phase.turn? l'.phase
  | _, _ => none

/-- Takes the step of a loop. A run that is started goes to a worker. -/
def advance (w : Workshop) (n : Nat) (s : Scheduler) : Effect × Workshop :=
  match w.turn? n s with
  | none => (.nothing, { w with scheduler := s })
  | some t =>
    (.turned n t, { scheduler := s, busy := if t = .started then n :: w.busy else w.busy })

/-- Takes a step. -/
def serve (w : Workshop) : Event → Effect × Workshop
  | .schedule job zeroPeriod hasRuntime =>
    match w.scheduler.schedule job zeroPeriod hasRuntime with
    | (.ok n, s) => (.scheduled job n, { w with scheduler := s })
    | (.error e, s) => (.refused e, { w with scheduler := s })
  | .cancel n =>
    if w.isHeld n then
      match w.scheduler.cancel n with
      | (.ok (), s) => (.cancelled n, { w with scheduler := s })
      | (.error e, s) => (.notCancelled e, { w with scheduler := s })
    else (.nothing, w)
  | .letGo n =>
    if w.isHeld n then (.abandoned n, { w with scheduler := w.scheduler.abandon n })
    else (.nothing, w)
  | .tick n => w.advance n (w.scheduler.tick n)
  | .finish n =>
    if n ∈ w.busy then (.returned n, { w with busy := w.busy.erase n }) else (.nothing, w)
  | .complete n =>
    -- there is nothing to look at before the run has returned
    if n ∈ w.busy then (.nothing, w) else w.advance n (w.scheduler.complete n)
  | .notice n => w.advance n (w.scheduler.notice n)
  | .exit n => w.advance n (w.scheduler.exit n)

/-- The workshop that a history leads to. -/
def after (w : Workshop) (history : List Event) : Workshop :=
  history.foldl (fun w e => (w.serve e).2) w

/-- What each step of a history came to. -/
def trace (w : Workshop) : List Event → List Effect
  | [] => []
  | e :: history => (w.serve e).1 :: (w.serve e).2.trace history

end Workshop

end OntologyService
