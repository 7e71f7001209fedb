import OntologyService.Proofs.Scheduling.Registry
import OntologyService.Server.Lifecycle

/-!
# Cycles of a server

A server can be started and stopped any number of times. Between two calls it is down or up, and
nothing in between (`Down`, `Up`). Down, it has no state and no resources, and every state it ever
loaded is closed. Up, it has both, its state is open, and every other state is closed.

What a start and a stop do is stated by the outcomes of their stages (`StartLaw`, `StopLaw`), for
whatever the world contributes to them. A start that fails before the server is up closes what it
loaded; one that fails after that leaves the server up, and the next stop takes all of it down. No
outcome keeps a stop from taking the server down, and from cancelling the refresh job of the run
that it ends.

Between the calls other things happen to a server: requests come in, jobs run, and the loops of the
scheduler go on in their own time. None of it brings a server up or down, and the job of a state
that was closed changes nothing any more (`Settled.step`). So all of this holds after any history
(`settled_after`).
-/

namespace OntologyService

/-! ## Closed and open states -/

namespace Holder

/-- The holder was closed, and lets nobody look at a generation any more. -/
structure Ended (h : Holder) : Prop where
  closed : h.closed = true
  emptied : h.current = none

/-- The holder was not closed, and has a generation to look at. -/
structure Live (h : Holder) : Prop where
  closed : h.closed = false
  current : ∃ g, h.current = some g

variable {h : Holder}

/-- A holder that is closed has ended. -/
theorem ended_close (h : Holder) (registry : Registry) : (h.close registry).1.Ended := ⟨rfl, rfl⟩

/-- A holder that was loaded lives. -/
theorem live_load {r registry : Registry} {policy : LimitPolicy} {now : Nat}
    {loaded : Except SourceError Catalog}
    (made : Holder.load r policy now loaded = .ok (h, registry)) : h.Live := by
  unfold Holder.load at made
  split at made
  · cases made
  · split at made
    · cases made
    · split at made
      · cases made
      · cases made
        exact ⟨rfl, _, rfl⟩

/-- Refreshing a holder that has ended changes nothing. -/
theorem Ended.refresh (ended : h.Ended) (registry : Registry) (now : Nat)
    (loaded : Except SourceError Catalog) :
    (h.refresh registry now loaded).2 = (h, registry) := by
  rw [Holder.refresh, ended.emptied]

/-- A refresh leaves a holder alive, also if the source failed. -/
theorem Live.refresh (live : h.Live) (registry : Registry) (now : Nat)
    (loaded : Except SourceError Catalog) : (h.refresh registry now loaded).2.1.Live := by
  obtain ⟨g, current⟩ := live.current
  cases loaded with
  | error e =>
    rw [Holder.refresh, current]
    exact live
  | ok catalog =>
    rw [Holder.refresh, current]
    simp only [Holder.install, live.closed, Bool.false_eq_true, if_false]
    exact ⟨rfl, _, rfl⟩

end Holder

/-- A knowledge base that is closed is closed, also if it was before. -/
theorem KnowledgeBase.closed_close (kb : KnowledgeBase) : kb.close.closed = true := by
  unfold KnowledgeBase.close
  split
  · assumption
  · rfl

namespace Registry

/-- Every knowledge base of the generation is closed. -/
def Shut (r : Registry) (g : Generation) : Prop :=
  ∀ x ∈ g.ontologies.values, ∀ kb, r.get? x.base = some kb → kb.closed = true

/-- Closing one knowledge base leaves the others. -/
theorem get?_close (r : Registry) (id base : BaseId) : (r.close id).get? base =
    if id = base then (r.get? base).map KnowledgeBase.close else r.get? base := by
  unfold Registry.close
  split
  · next kb held =>
    obtain ⟨bound, -⟩ := Array.getElem?_eq_some_iff.1 held
    split
    · next same =>
      subst same
      rw [held]
      exact Array.getElem?_setIfInBounds_self_of_lt bound
    · next other => exact Array.getElem?_setIfInBounds_ne other
  · next absent =>
    split
    · next same => rw [← same, absent]; rfl
    · rfl

/-- What is closed, or among those that are closed one after another, is closed in the end. -/
theorem closed_of_closeAll {base : BaseId} {kb : KnowledgeBase} (ids : List BaseId) :
    ∀ {r : Registry}, (ids.foldl Registry.close r).get? base = some kb →
      (base ∈ ids ∨ ∀ kb, r.get? base = some kb → kb.closed = true) → kb.closed = true := by
  induction ids with
  | nil =>
    intro r held either
    exact either.elim (fun none => absurd none List.not_mem_nil) fun closed => closed kb held
  | cons id ids ih =>
    intro r held either
    refine ih held ?_
    by_cases same : id = base
    · refine .inr fun kb held => ?_
      rw [get?_close, if_pos same] at held
      obtain ⟨kb, -, rfl⟩ := Option.map_eq_some_iff.1 held
      exact kb.closed_close
    · refine either.imp (fun member => ?_) fun closed kb held => closed kb ?_
      · exact (List.mem_cons.1 member).resolve_left fun is => same is.symm
      · rwa [get?_close, if_neg same] at held

end Registry

/-- A holder that is closed leaves no knowledge base of its generation open. -/
theorem Holder.shut_close {h : Holder} {g : Generation} (current : h.current = some g)
    (registry : Registry) : (h.close registry).2.Shut g := by
  intro x member kb held
  rw [Holder.close, current] at held
  exact Registry.closed_of_closeAll _ held (.inl (List.mem_map_of_mem member))

namespace Server

/-! ## Up and down -/

/-- **A server that is down** has let go of everything. -/
structure Down (s : Server) : Prop where
  phase : s.phase = .stopped
  holder : s.holder = none
  resources : s.resources = none
  ended : ∀ h ∈ s.holders, h.Ended

/-- **A server that is up**, over the state of a number: that one is open, and no other is. -/
structure Up (s : Server) (n : Nat) : Prop where
  phase : s.phase = .running
  holder : s.holder = some n
  resources : ∃ up, s.resources = some up
  live : ∃ h, s.holders[n]? = some h ∧ h.Live
  ended : ∀ i h, i ≠ n → s.holders[i]? = some h → h.Ended

/-- The server is down or up, and nothing in between. -/
def Settled (s : Server) : Prop := s.Down ∨ ∃ n, s.Up n

variable {s : Server} {n : Nat} {h : Holder}

/-- Closing the state of a number closes that one. -/
theorem closeHolder_eq (held : s.holders[n]? = some h) : s.closeHolder n =
    { s with
      holders := s.holders.set n (h.close s.registry).1
      registry := (h.close s.registry).2 } := by
  rw [closeHolder, held]

/-! ## Starting -/

/-- How loading the state ends. -/
def loads (s : Server) (c : StartConditions) : Except ServiceError (Holder × Registry) :=
  Holder.load s.registry s.config.explainLimit c.now c.loaded

/-- How building the router and binding the address end. -/
def opens (s : Server) (c : StartConditions) : Except ServerError String :=
  match Router.build s.routes with
  | .error e => .error e
  | .ok _ => c.bound.mapError (.bind s.config.bindAddress)

/-- How scheduling the refresh job ends. -/
def schedules (s : Server) (c : StartConditions) : Except SchedulingError Nat :=
  (s.scheduler.schedule refreshJobId (decide (s.config.updateIntervalSecs = 0)) c.hasRuntime).1

/-- **What a start does**, by how its stages end. -/
structure StartLaw (s : Server) (c : StartConditions) : Prop where
  /-- A server that is not down is left as it is. -/
  again : s.phase ≠ .stopped → s.start c = (.error (.server .alreadyRunning), s)
  /-- Where nothing was loaded, nothing changes. -/
  unloaded : s.phase = .stopped → ∀ e, s.loads c = .error e → s.start c = (.error e, s)
  /-- What was loaded for a server that does not open is closed. -/
  unopened : s.phase = .stopped → ∀ h registry, s.loads c = .ok (h, registry) →
    ∀ e, s.opens c = .error e → (s.start c).1 = .error (.server e) ∧ (s.start c).2.Down ∧
      (s.start c).2.holders = s.holders ++ [(h.close registry).1] ∧
      ∀ g, h.current = some g → (s.start c).2.registry.Shut g
  /-- A server that opens is up, over what was loaded. -/
  opened : s.phase = .stopped → ∀ h registry, s.loads c = .ok (h, registry) →
    ∀ address, s.opens c = .ok address → (s.start c).2.Up s.holders.length ∧
      (s.start c).2.holders = s.holders ++ [h] ∧
      ∃ up, (s.start c).2.resources = some up ∧ up.address = address ∧
        (∀ job, s.schedules c = .ok job → (s.start c).1 = .ok address ∧ up.job = some job) ∧
        ∀ e, s.schedules c = .error e →
          (s.start c).1 = .error (.start 500 (.scheduling e)) ∧ up.job = none

section

variable {c : StartConditions} {registry : Registry}

/-- Where nothing was loaded, the server is as it was. -/
theorem start_unloaded {e : ServiceError} (phase : s.phase = .stopped)
    (failed : s.loads c = .error e) : s.start c = (.error e, s) := by
  rw [loads] at failed
  rw [start, if_neg fun other => other phase]
  simp only [failed]
  rw [← phase]

/-- Where something was loaded, the server goes on to come up over it. -/
theorem start_loaded (phase : s.phase = .stopped) (loaded : s.loads c = .ok (h, registry)) :
    s.start c = { s with phase := .starting, holders := s.holders ++ [h], registry }.bringUp c
      s.holders.length := by
  rw [loads] at loaded
  rw [start, if_neg fun other => other phase]
  simp only [loaded]
  rfl

/-- A server that does not open gives up. -/
theorem bringUp_of_error {e : ServerError} (failed : s.opens c = .error e) (n : Nat) :
    s.bringUp c n = (.error (.server e), s.giveUp n) := by
  unfold opens at failed
  unfold bringUp
  split
  · next refused =>
    rw [refused] at failed
    cases failed
    rfl
  · next built =>
    rw [built] at failed
    cases bound : c.bound with
    | ok address => rw [bound] at failed; cases failed
    | error io =>
      rw [bound] at failed
      cases failed
      rfl

/-- A server that opens is running before its refresh job is scheduled. -/
theorem bringUp_of_ok {address : String} (opened : s.opens c = .ok address) (n : Nat) :
    ∃ up : ServerResources, up.address = address ∧ up.job = none ∧ s.bringUp c n =
      { s with phase := .running, holder := some n, resources := some up }.scheduleRefresh up
        c.hasRuntime := by
  unfold opens at opened
  unfold bringUp
  split
  · next refused => rw [refused] at opened; cases opened
  · next router built =>
    rw [built] at opened
    cases bound : c.bound with
    | error io => rw [bound] at opened; cases opened
    | ok address =>
      rw [bound] at opened
      cases opened
      exact ⟨_, rfl, rfl, rfl⟩

/-- Whatever becomes of the refresh job, a server keeps the resources it came up with. -/
theorem scheduleRefresh_eq {up : ServerResources} (owned : s.resources = some up)
    (free : up.job = none) (c : StartConditions) : ∃ scheduler,
      s.scheduleRefresh up c.hasRuntime =
        (match s.schedules c with
          | .ok _ => .ok up.address
          | .error e => .error (.start 500 (.scheduling e)),
          { s with scheduler, resources := some { up with job := (s.schedules c).toOption } }) := by
  unfold scheduleRefresh schedules
  dsimp only
  generalize s.scheduler.schedule refreshJobId (decide (s.config.updateIntervalSecs = 0))
    c.hasRuntime = result
  obtain ⟨scheduled, scheduler⟩ := result
  refine ⟨scheduler, ?_⟩
  cases scheduled with
  | ok job => rfl
  | error e =>
    have same : { up with job := none } = up := by rw [← free]
    show _ = (_, { s with scheduler, resources := some { up with job := none } })
    rw [same, ← owned]
    rfl

/-- What was loaded for a server that does not open is the last one that it holds, and closed. -/
theorem start_unopened {e : ServerError} (phase : s.phase = .stopped)
    (loaded : s.loads c = .ok (h, registry)) (failed : s.opens c = .error e) :
    s.start c = (.error (.server e),
      { s with
        holders := s.holders ++ [(h.close registry).1]
        registry := (h.close registry).2 }) := by
  rw [start_loaded phase loaded, bringUp_of_error (by exact failed), giveUp,
    closeHolder_eq List.getElem?_concat_length]
  simp [phase]

/-- What was loaded for a server that opens is the state in use. -/
theorem start_opened {address : String} (phase : s.phase = .stopped)
    (loaded : s.loads c = .ok (h, registry)) (opened : s.opens c = .ok address) :
    ∃ up scheduler, up.address = address ∧ up.job = (s.schedules c).toOption ∧ s.start c =
      (match s.schedules c with
        | .ok _ => .ok address
        | .error e => .error (.start 500 (.scheduling e)),
        { s with
          phase := .running
          holders := s.holders ++ [h]
          holder := some s.holders.length
          resources := some up
          registry
          scheduler }) := by
  rw [start_loaded phase loaded]
  obtain ⟨up, rfl, free, brought⟩ := bringUp_of_ok
    (s := { s with phase := .starting, holders := s.holders ++ [h], registry }) opened
    s.holders.length
  rw [brought]
  obtain ⟨scheduler, result⟩ := scheduleRefresh_eq
    (s := { s with
      phase := .running
      holders := s.holders ++ [h]
      holder := some s.holders.length
      resources := some up
      registry }) rfl free c
  exact ⟨{ up with job := (s.schedules c).toOption }, scheduler, rfl, rfl, result⟩

end

/-- A server that is down starts by the law. -/
theorem Down.startLaw (down : s.Down) (c : StartConditions) : s.StartLaw c where
  again other := absurd down.phase other
  unloaded phase _ failed := start_unloaded phase failed
  unopened phase h registry loaded e failed := by
    rw [start_unopened phase loaded failed]
    refine ⟨rfl, ⟨phase, down.holder, down.resources, fun h' member => ?_⟩, rfl,
      fun g current => Holder.shut_close current registry⟩
    rcases List.mem_append.1 member with old | new
    · exact down.ended h' old
    · obtain rfl := List.mem_singleton.1 new
      exact h.ended_close registry
  opened phase h registry loaded address opened := by
    obtain ⟨up, scheduler, at_address, job, started⟩ := start_opened phase loaded opened
    rw [started]
    refine ⟨⟨rfl, rfl, ⟨up, rfl⟩, ⟨h, List.getElem?_concat_length, Holder.live_load loaded⟩,
      fun i h' other held => ?_⟩, rfl, up, rfl, at_address, fun n scheduled => ?_,
      fun e failed => ?_⟩
    · rw [List.getElem?_append] at held
      split at held
      · exact down.ended h' (List.mem_of_getElem? held)
      · next beyond =>
        have last : i - s.holders.length ≠ 0 := by omega
        rw [List.getElem?_singleton, if_neg last] at held
        cases held
    · rw [job, scheduled]
      exact ⟨rfl, rfl⟩
    · rw [job, failed]
      exact ⟨rfl, rfl⟩

/-- A server that is up does not start again. -/
theorem Up.startLaw (up : s.Up n) (c : StartConditions) : s.StartLaw c where
  again other := by rw [start, if_pos other]
  unloaded phase := absurd (up.phase.symm.trans phase) (by decide)
  unopened phase := absurd (up.phase.symm.trans phase) (by decide)
  opened phase := absurd (up.phase.symm.trans phase) (by decide)

/-- So every server between two calls starts by the law. -/
theorem Settled.startLaw (settled : s.Settled) (c : StartConditions) : s.StartLaw c :=
  settled.elim (fun down => down.startLaw c) fun ⟨_, up⟩ => up.startLaw c

/-! ## Stopping -/

/-- **What a stop does**, whatever comes of its steps. -/
structure StopLaw (s : Server) (c : StopConditions) : Prop where
  /-- A server that is down is left as it is. -/
  idle : s.phase = .stopped → s.stop c = (.ok (), s)
  /-- One that is up is down afterwards, and its state is closed. What went wrong with the listener
  is reported. -/
  ends : s.phase = .running → (s.stop c).1 = c.listener.mapError .shutdown ∧ (s.stop c).2.Down ∧
    ∃ n h, s.holder = some n ∧ s.holders[n]? = some h ∧
      (s.stop c).2.holders = s.holders.set n (h.close s.registry).1 ∧
      ∀ g, h.current = some g → (s.stop c).2.registry.Shut g
  /-- The job of the run that ends is cancelled, and if its loop goes on as far as it can, that has
  exited. It counts no run for it. -/
  cancels : s.phase = .running → ∀ up, s.resources = some up → ∀ n, up.job = some n →
    ∀ l, s.scheduler.loop? n = some l → ∃ l', (s.stop c).2.scheduler.loop? n = some l' ∧
      l'.job = l.job ∧ l'.runs = l.runs ∧ l'.cancelled = true ∧
      (c.jobExits = true → l'.phase = .exited)
  /-- No other job is touched. -/
  spares : s.phase = .running → ∀ up, s.resources = some up → ∀ n, up.job ≠ some n →
    (s.stop c).2.scheduler.loop? n = s.scheduler.loop? n

/-- Cancelling a job changes nothing but the scheduler. -/
theorem cancelJob_eq (s : Server) (job : Option Nat) (exits : Bool) :
    s.cancelJob job exits = { s with scheduler := (s.cancelJob job exits).scheduler } := by
  cases job <;> rfl

/-- **A job that is cancelled** has the wish to stop, and has exited if its loop went on. -/
theorem loop?_cancelJob {l : JobLoop} (there : s.scheduler.loop? n = some l) (exits : Bool) :
    ∃ l', (s.cancelJob (some n) exits).scheduler.loop? n = some l' ∧ l'.job = l.job ∧
      l'.runs = l.runs ∧ l'.cancelled = true ∧ (exits = true → l'.phase = .exited) := by
  have wished : (s.scheduler.cancel n).2.loop? n = some { l with cancelled := true } := by
    rw [Scheduler.cancel_snd there, Scheduler.loop?_put there]
  cases exits with
  | false => exact ⟨_, wished, rfl, rfl, rfl, nofun⟩
  | true => exact ⟨_, Scheduler.loop?_exit_notice wished rfl, rfl, rfl, rfl, fun _ => rfl⟩

/-- Cancelling a job leaves the loops of the others alone. -/
theorem loop?_cancelJob_of_ne {job : Option Nat} (other : job ≠ some n) (exits : Bool) :
    (s.cancelJob job exits).scheduler.loop? n = s.scheduler.loop? n := by
  cases job with
  | none => rfl
  | some m =>
    have apart : m ≠ n := fun same => other (congrArg some same)
    cases exits with
    | false => exact Scheduler.loop?_cancel_of_ne apart
    | true =>
      exact (Scheduler.loop?_exit_of_ne apart).trans
        ((Scheduler.loop?_notice_of_ne apart).trans (Scheduler.loop?_cancel_of_ne apart))

/-- Releasing the state in use closes it. -/
theorem release_eq (holder : s.holder = some n) (held : s.holders[n]? = some h) : s.release =
    { s with
      holders := s.holders.set n (h.close s.registry).1
      holder := none
      registry := (h.close s.registry).2 } := by
  unfold release
  simp only [holder, closeHolder_eq held]

/-- A stop takes everything down, whatever the listener reports. -/
theorem stop_eq {up : ServerResources} (phase : s.phase = .running)
    (owned : s.resources = some up) (holder : s.holder = some n) (held : s.holders[n]? = some h)
    (c : StopConditions) : s.stop c = (c.listener.mapError .shutdown,
      { s with
        phase := .stopped
        holders := s.holders.set n (h.close s.registry).1
        holder := none
        resources := none
        registry := (h.close s.registry).2
        scheduler := (s.cancelJob up.job c.jobExits).scheduler }) := by
  have same : (cancelJob { s with phase := .shuttingDown, resources := none } up.job
      c.jobExits).scheduler = (s.cancelJob up.job c.jobExits).scheduler := by
    cases up.job <;> rfl
  rw [stop, if_neg fun other => other phase, owned]
  show (_, { (cancelJob _ up.job c.jobExits).release with phase := .stopped }) = _
  rw [cancelJob_eq, release_eq (by exact holder) (by exact held), same]

/-- A server that is down has nothing to stop. -/
theorem Down.stopLaw (down : s.Down) (c : StopConditions) : s.StopLaw c where
  idle phase := by rw [stop, if_pos (by rw [phase]; decide)]
  ends phase := absurd (down.phase.symm.trans phase) (by decide)
  cancels phase := absurd (down.phase.symm.trans phase) (by decide)
  spares phase := absurd (down.phase.symm.trans phase) (by decide)

/-- A server that is up stops by the law. -/
theorem Up.stopLaw (up : s.Up n) (c : StopConditions) : s.StopLaw c where
  idle phase := absurd (up.phase.symm.trans phase) (by decide)
  ends phase := by
    obtain ⟨resources, owned⟩ := up.resources
    obtain ⟨h, held, -⟩ := up.live
    rw [stop_eq phase owned up.holder held c]
    refine ⟨rfl, ⟨rfl, rfl, rfl, fun h' member => ?_⟩, n, h, up.holder, held, rfl,
      fun g current => Holder.shut_close current s.registry⟩
    obtain ⟨i, held'⟩ := List.mem_iff_getElem?.1 member
    rw [List.getElem?_set] at held'
    split at held'
    · split at held'
      · cases held'
        exact h.ended_close s.registry
      · cases held'
    · next other => exact up.ended i h' (Ne.symm other) held'
  cancels phase resources owned job mine l there := by
    obtain ⟨h, held, -⟩ := up.live
    rw [stop_eq phase owned up.holder held c, mine]
    exact loop?_cancelJob there c.jobExits
  spares phase resources owned job other := by
    obtain ⟨h, held, -⟩ := up.live
    rw [stop_eq phase owned up.holder held c]
    exact loop?_cancelJob_of_ne other c.jobExits

/-- So does every server between two calls. -/
theorem Settled.stopLaw (settled : s.Settled) (c : StopConditions) : s.StopLaw c :=
  settled.elim (fun down => down.stopLaw c) fun ⟨_, up⟩ => up.stopLaw c

/-! ## Everything that happens -/

/-- What happens to a server. -/
inductive Event where
  | start (c : StartConditions)
  | stop (c : StopConditions)
  /-- The refresh job over the state of a number runs. -/
  | job (n now : Nat) (loaded : Except SourceError Catalog)
  | request (q : HttpRequest)
  /-- The loops of the scheduler go on, and leave it in another state. -/
  | scheduling (scheduler : Scheduler)

/-- The server that an event leaves. -/
def step (s : Server) : Event → Server
  | .start c => (s.start c).2
  | .stop c => (s.stop c).2
  | .job n now loaded => (s.runJob n now loaded).2
  | .request q => (s.serve q).2
  | .scheduling scheduler => { s with scheduler }

/-- The server that a history leaves. -/
def after (s : Server) (events : List Event) : Server := events.foldl step s

/-- How many states an event loads. -/
def loadsBy (s : Server) : Event → Nat
  | .start c => if s.phase = .stopped ∧ (s.loads c).isOk then 1 else 0
  | .stop _ | .job _ _ _ | .request _ | .scheduling _ => 0

/-- How many states are loaded over a history. -/
def loadCount (s : Server) : List Event → Nat
  | [] => 0
  | e :: events => s.loadsBy e + (s.step e).loadCount events

/-- The job of a state that was closed changes nothing. -/
theorem runJob_of_ended (held : s.holders[n]? = some h) (ended : h.Ended) (now : Nat)
    (loaded : Except SourceError Catalog) : (s.runJob n now loaded).2 = s := by
  have refreshed := ended.refresh s.registry now loaded
  obtain ⟨bound, rfl⟩ := List.getElem?_eq_some_iff.1 held
  simp only [runJob, held, refreshed, List.set_getElem_self]

/-- A request changes the resources and the knowledge bases, and takes no resources away. -/
theorem serve_eq (s : Server) (q : HttpRequest) : ∃ resources registry,
    (s.serve q).2 = { s with resources, registry } ∧ resources.isSome = s.resources.isSome := by
  unfold serve
  split
  · next none => exact ⟨s.resources, s.registry, rfl, rfl⟩
  · next up owned => exact ⟨_, _, rfl, by rw [owned]; rfl⟩

/-- A job changes nothing at a server that is down. -/
theorem Down.runJob (down : s.Down) (n now : Nat) (loaded : Except SourceError Catalog) :
    (s.runJob n now loaded).2 = s := by
  cases held : s.holders[n]? with
  | none => rw [Server.runJob, held]
  | some h => exact runJob_of_ended held (down.ended h (List.mem_of_getElem? held)) now loaded

/-- A job leaves a server up, over the same state. -/
theorem Up.runJob (up : s.Up n) (m now : Nat) (loaded : Except SourceError Catalog) :
    (s.runJob m now loaded).2.Up n ∧
      (s.runJob m now loaded).2.holders.length = s.holders.length := by
  by_cases mine : m = n
  · subst mine
    obtain ⟨h, held, live⟩ := up.live
    have ran : (s.runJob m now loaded).2 =
        { s with
          holders := s.holders.set m (h.refresh s.registry now loaded).2.1
          registry := (h.refresh s.registry now loaded).2.2 } := by
      rw [Server.runJob, held]
    obtain ⟨bound, -⟩ := List.getElem?_eq_some_iff.1 held
    rw [ran]
    refine ⟨⟨up.phase, up.holder, up.resources, ?_, fun i h' other held' => ?_⟩, List.length_set⟩
    · exact ⟨_, List.getElem?_set_self bound, live.refresh s.registry now loaded⟩
    · rw [List.getElem?_set_ne (Ne.symm other)] at held'
      exact up.ended i h' other held'
  · have same : (s.runJob m now loaded).2 = s := by
      cases held : s.holders[m]? with
      | none => rw [Server.runJob, held]
      | some h => exact runJob_of_ended held (up.ended m h mine held) now loaded
    rw [same]
    exact ⟨up, rfl⟩

/-- A server that is down comes up or stays down, and holds what it loaded. -/
theorem Down.start (down : s.Down) (c : StartConditions) : (s.start c).2.Settled ∧
    (s.start c).2.holders.length = s.holders.length + s.loadsBy (.start c) := by
  have law := down.startLaw c
  cases loaded : s.loads c with
  | error e =>
    rw [law.unloaded down.phase e loaded, loadsBy, loaded]
    exact ⟨.inl down, by simp [Except.isOk, Except.toBool]⟩
  | ok made =>
    obtain ⟨h, registry⟩ := made
    have one : s.loadsBy (.start c) = 1 := by
      rw [loadsBy, loaded]
      exact if_pos ⟨down.phase, rfl⟩
    rw [one]
    cases opened : s.opens c with
    | error e =>
      obtain ⟨-, down', holders, -⟩ := law.unopened down.phase h registry loaded e opened
      exact ⟨.inl down', by simp [holders]⟩
    | ok address =>
      obtain ⟨up, holders, -⟩ := law.opened down.phase h registry loaded address opened
      exact ⟨.inr ⟨_, up⟩, by simp [holders]⟩

/-- A server that is up goes down, and holds what it held. -/
theorem Up.stop (up : s.Up n) (c : StopConditions) :
    (s.stop c).2.Down ∧ (s.stop c).2.holders.length = s.holders.length := by
  obtain ⟨-, down, m, h, -, -, holders, -⟩ := (up.stopLaw c).ends up.phase
  exact ⟨down, by rw [holders, List.length_set]⟩

/-- **Whatever happens** leaves a server up or down, with one state more for each that it loads. -/
theorem Settled.step (settled : s.Settled) (e : Event) :
    (s.step e).Settled ∧ (s.step e).holders.length = s.holders.length + s.loadsBy e := by
  rcases settled with down | ⟨n, up⟩
  · cases e with
    | start c => exact down.start c
    | stop c =>
      rw [Server.step, (down.stopLaw c).idle down.phase]
      exact ⟨.inl down, rfl⟩
    | job n now loaded =>
      rw [Server.step, down.runJob]
      exact ⟨.inl down, rfl⟩
    | request q =>
      have served : s.serve q = (none, s) := by rw [serve, down.resources]
      rw [Server.step, served]
      exact ⟨.inl down, rfl⟩
    | scheduling scheduler =>
      exact ⟨.inl ⟨down.phase, down.holder, down.resources, down.ended⟩, rfl⟩
  · -- a server that is up loads nothing
    have stays : s.loadsBy e = 0 := by
      cases e with
      | start c => exact if_neg fun both => absurd (up.phase.symm.trans both.1) (by decide)
      | stop _ | job _ _ _ | request _ | scheduling _ => rfl
    rw [stays]
    cases e with
    | start c =>
      rw [Server.step, (up.startLaw c).again (by rw [up.phase]; decide)]
      exact ⟨.inr ⟨n, up⟩, rfl⟩
    | stop c => exact ⟨.inl (up.stop c).1, (up.stop c).2⟩
    | job m now loaded =>
      exact ⟨.inr ⟨n, (up.runJob m now loaded).1⟩, (up.runJob m now loaded).2⟩
    | request q =>
      obtain ⟨resources, registry, served, owned⟩ := serve_eq s q
      obtain ⟨mine, held⟩ := up.resources
      rw [held] at owned
      rw [Server.step, served]
      have still := Option.isSome_iff_exists.1 owned
      exact ⟨.inr ⟨n, up.phase, up.holder, still, up.live, up.ended⟩, rfl⟩
    | scheduling scheduler =>
      exact ⟨.inr ⟨n, up.phase, up.holder, up.resources, up.live, up.ended⟩, rfl⟩

/-- So does every history. -/
theorem Settled.after (events : List Event) : ∀ {s : Server}, s.Settled →
    (s.after events).Settled ∧
      (s.after events).holders.length = s.holders.length + s.loadCount events := by
  induction events with
  | nil => intro s settled; exact ⟨settled, rfl⟩
  | cons e events ih =>
    intro s settled
    obtain ⟨settled', first⟩ := settled.step e
    obtain ⟨settled'', rest⟩ := ih settled'
    refine ⟨settled'', ?_⟩
    show ((s.step e).after events).holders.length = _
    rw [rest, first, loadCount, Nat.add_assoc]

/-- **Cycles of a server.** After any history of starts, stops and whatever else happens to a
server, it is down or up. It holds every state that was ever loaded, and all of them are closed
where it is down. A start and a stop do by the law what their stages and steps come to. -/
theorem settled_after (config : Configuration) (routes : List Route) (scheduler : Scheduler)
    (events : List Event) :
    let fresh : Server := { config, routes, scheduler }
    let s := fresh.after events
    s.Settled ∧ s.holders.length = fresh.loadCount events ∧
      (s.phase = .stopped → ∀ h ∈ s.holders, h.closed = true) ∧
      (∀ c, s.StartLaw c) ∧ ∀ c, s.StopLaw c := by
  intro fresh s
  have down : fresh.Down := ⟨rfl, rfl, rfl, fun h none => absurd none List.not_mem_nil⟩
  obtain ⟨settled, count⟩ := Settled.after events (.inl down)
  refine ⟨settled, count.trans (Nat.zero_add _), fun phase h member => ?_, settled.startLaw,
    settled.stopLaw⟩
  rcases settled with down | ⟨n, up⟩
  · exact (down.ended h member).closed
  · exact absurd (up.phase.symm.trans phase) (by decide)

/-- A server whose refresh job finds no place to run is up, and stops all the same. -/
example :
    let c : StartConditions :=
      { now := 0, loaded := .ok { documents := [], rejected := [] }
        bound := .ok "127.0.0.1:8080", hasRuntime := false }
    let s := ({ config := {}, routes := [] } : Server).after [.start c]
    s.phase = .running ∧ (s.after [.stop {}]).phase = .stopped := by
  decide +kernel

end Server

end OntologyService
