import OntologyService.Admission.Front
import OntologyService.Configuration.Basic
import OntologyService.Scheduling.Scheduler

/-!
# The life of a server

A server is stopped or running, and between the two it is starting or shutting down. It starts by
loading the state, building the router, binding its address and scheduling the refresh job, in that
order. If one of the first three fails, the server is stopped again and what was loaded is closed.
If the job cannot be scheduled, the server runs without it, and the failure is reported all the
same: stopping the server is what releases the address.

Stopping turns new requests away, waits for those under way, cancels the job, closes the state and
stops the listener, in that order. None of these can keep the server from being stopped in the end;
what went wrong with the listener is reported.

What the world contributes to a start and to a stop is given by `StartConditions` and
`StopConditions`.

A state outlives the run it was loaded for: its refresh job holds on to it until the job's loop has
exited. So a server keeps every state it ever loaded, by number, and the number of the one in use.
-/

namespace OntologyService

/-- The phases of a server. -/
inductive LifecyclePhase where
  | stopped
  | starting
  | running
  | shuttingDown
deriving DecidableEq

namespace LifecyclePhase

/-- The name of a phase. -/
def name : LifecyclePhase → String
  | stopped => "Stopped"
  | starting => "Starting"
  | running => "Running"
  | shuttingDown => "ShuttingDown"

end LifecyclePhase

/-- What a running server owns. -/
structure ServerResources where
  /-- The address that the listener is bound to. -/
  address : String
  front : Front
  /-- The number of the refresh job, if it was scheduled. -/
  job : Option Nat := none

/-- A server. -/
structure Server where
  config : Configuration
  routes : List Route
  phase : LifecyclePhase := .stopped
  /-- Every state that was loaded, by number. -/
  holders : List Holder := []
  /-- The number of the state in use, while the server is running. -/
  holder : Option Nat := none
  resources : Option ServerResources := none
  registry : Registry := {}
  scheduler : Scheduler := {}

/-- What the world contributes to a start. -/
structure StartConditions where
  now : Nat
  /-- What the source publishes. -/
  loaded : Except SourceError Catalog
  /-- The address that the listener got, or the operating system's text for why it got none. -/
  bound : Except String String
  /-- Whether there is a place for jobs to run. -/
  hasRuntime : Bool := true

/-- What the world contributes to a stop. -/
structure StopConditions where
  /-- Whether the refresh job's loop has seen that it is to stop, and exited. -/
  jobExits : Bool := true
  listener : Except ShutdownError Unit := .ok ()

namespace Server

/-- The state in use. -/
def inUse? (s : Server) : Option Holder := s.holder.bind fun n => s.holders[n]?

/-- The state, while the server is running. -/
def openHolder (s : Server) : Except StateError Holder :=
  match s.inUse? with
  | some h => .ok h
  | none => .error .closed

/-- The current generation, while the server is running. -/
def generation (s : Server) : Except StateError Generation := s.openHolder.bind Holder.generation

/-- Takes in a state that was loaded, under the next number. -/
def adopt (s : Server) (h : Holder) (registry : Registry) : Nat × Server :=
  (s.holders.length, { s with holders := s.holders ++ [h], registry })

/-- Closes the state of a number. -/
def closeHolder (s : Server) (n : Nat) : Server :=
  match s.holders[n]? with
  | none => s
  | some h =>
    let (h, registry) := h.close s.registry
    { s with holders := s.holders.set n h, registry }

/-- Gives up a start, and closes what was loaded. -/
def giveUp (s : Server) (n : Nat) : Server := { s.closeHolder n with phase := .stopped }

/-- Schedules the refresh job of a server that has just come up. -/
def scheduleRefresh (s : Server) (up : ServerResources) (hasRuntime : Bool) :
    Except ServiceError String × Server :=
  let zeroPeriod := decide (s.config.updateIntervalSecs = 0)
  let (scheduled, scheduler) := s.scheduler.schedule refreshJobId zeroPeriod hasRuntime
  match scheduled with
  | .ok job => (.ok up.address, { s with scheduler, resources := some { up with job := some job } })
  | .error e => (.error (.ofStart (.scheduling e)), { s with scheduler })

/-- Brings a server up over a state that was loaded. -/
def bringUp (s : Server) (c : StartConditions) (n : Nat) : Except ServiceError String × Server :=
  match Router.build s.routes with
  | .error e => (.error (.server e), s.giveUp n)
  | .ok router =>
    match c.bound with
    | .error io => (.error (.server (.bind s.config.bindAddress io)), s.giveUp n)
    | .ok address =>
      let up := { address, front := { router := router.withShutdown } : ServerResources }
      { s with phase := .running, holder := some n, resources := some up }.scheduleRefresh
        up c.hasRuntime

/-- Starts a server. The answer is the address that it listens on. -/
def start (s : Server) (c : StartConditions) : Except ServiceError String × Server :=
  if s.phase ≠ .stopped then (.error (.server .alreadyRunning), s)
  else
    let s := { s with phase := .starting }
    match Holder.load s.registry s.config.explainLimit c.now c.loaded with
    | .error e => (.error e, { s with phase := .stopped })
    | .ok (h, registry) =>
      let (n, s) := s.adopt h registry
      s.bringUp c n

/-- Cancels the refresh job, if there is one. That it had stopped already is no matter. -/
def cancelJob (s : Server) (job : Option Nat) (exits : Bool) : Server :=
  match job with
  | none => s
  | some n =>
    let scheduler := (s.scheduler.cancel n).2
    { s with scheduler := if exits then (scheduler.notice n).exit n else scheduler }

/-- Closes the state in use. -/
def release (s : Server) : Server :=
  match s.holder with
  | none => s
  | some n => { s.closeHolder n with holder := none }

/-- Stops a server. A server that is not running is left as it is. -/
def stop (s : Server) (c : StopConditions) : Except ServiceError Unit × Server :=
  if s.phase ≠ .running then (.ok (), s)
  else
    match s.resources with
    | none => (.ok (), { s with phase := .stopped })
    | some up =>
      let s := { s with phase := .shuttingDown, resources := none }
      let s := (s.cancelJob up.job c.jobExits).release
      (c.listener.mapError .shutdown, { s with phase := .stopped })

/-- Runs once the refresh job that was scheduled over the state of a number. -/
def runJob (s : Server) (n now : Nat) (loaded : Except SourceError Catalog) :
    Except ServiceError RefreshOutcome × Server :=
  match s.holders[n]? with
  | none => (.ok .closed, s)
  | some h =>
    let (outcome, h, registry) := h.refresh s.registry now loaded
    (outcome, { s with holders := s.holders.set n h, registry })

/-- Runs the refresh job once. On a server that is not running there is nothing left to refresh. -/
def refresh (s : Server) (now : Nat) (loaded : Except SourceError Catalog) :
    Except ServiceError RefreshOutcome × Server :=
  match s.holder with
  | none => (.ok .closed, s)
  | some n => s.runJob n now loaded

/-- Takes in a request, while the server is running. -/
def serve (s : Server) (q : HttpRequest) : Option HttpResponse × Server :=
  match s.resources with
  | none => (none, s)
  | some up =>
    let (r, front, registry) := up.front.serve (s.inUse?.bind Holder.current) s.registry q
    (some r, { s with resources := some { up with front }, registry })

end Server

end OntologyService
