import Mathlib
import OntologyService.Admission.Front
import OntologyService.Proofs.Admission.Counting
import OntologyService.Proofs.Routing.Lookup

/-!
# The gate covers the handlers

Three places have to agree on which requests the gate may leave out: the table of the router, which
reserves one method on the path of the administrative shutdown; the router of a server, which has
its own endpoint there; and the gate itself, which lets every request on that path through. They do
agree for tables that have no route on the path. Then whatever starts behind the gate has a guard of
its own, and the guards are those of the handlers at work, one by one (`Paired`).

**The law** (`covered_after`): a handler starts only for a request that was let in, it is counted
until it returns, also if its client goes away, and once a shutdown was requested none starts.

A table with another method on that path is accepted all the same, and its handler runs uncounted
and after the shutdown was requested: `not_covered_of_posted`.
-/

namespace OntologyService

namespace Front

/-! ## Histories -/

/-- What happens at the front. -/
inductive Event where
  | arrive (state : Option Generation) (q : HttpRequest)
  /-- The handler of this number returns, with the knowledge bases at hand. -/
  | finish (registry : Registry) (id : Nat)
  /-- The client of the request of this number goes away. -/
  | abandon (id : Nat)
  | requestShutdown

/-- The front after something happened. -/
def take (f : Front) : Event → Front
  | .arrive state q => (f.arrive state q).2
  | .finish registry id => (f.finish registry id).2.1
  | .abandon id => f.abandon id
  | .requestShutdown => { f with gate := f.gate.requestShutdown.2 }

/-- The front that a history leads to. -/
def after (f : Front) (history : List Event) : Front := history.foldl take f

/-- The front of a server for a router. -/
def ofRouter (t : Router) : Front := { router := t.withShutdown }

/-- **Every handler is covered by the gate.** -/
structure Covered (routes : List Route) (f : Front) : Prop where
  /-- A handler at work is one of the table, and its request is counted. -/
  counted : ∀ r ∈ f.running, (∃ route ∈ routes, route.handler = r.handler) ∧
    ∃ n, r.guardId = some n ∧ f.gate.owners? n = some 1
  /-- No two handlers share a guard. -/
  apart : (f.running.map Running.guardId).Nodup
  /-- The count is the number of the handlers at work. -/
  count : f.gate.inFlight = f.running.length
  /-- A handler starts only for a request that the gate lets in, with the guard of the request. -/
  starts : ∀ state q id, (f.arrive state q).1 = .started id → f.gate.requested = false ∧
    ∃ r n, (f.arrive state q).2.running = r :: f.running ∧ r.id = id ∧
      f.gate.enter.1 = some n ∧ r.guardId = some n
  /-- Once a shutdown was requested, no handler starts any more, whatever happens. -/
  quiet : f.gate.requested = true → ∀ later state q id,
    ((f.after later).arrive state q).1 ≠ .started id

/-! ## Tables that leave the path of the shutdown alone -/

section Table

variable {routes : List Route} {t : Router}

/-- Behind the gate lead only routes of the table. -/
theorem mem_routes_of_find (built : Router.build routes = .ok t) {method path : String}
    {h : Handler} {params : Table String String}
    (found : t.withShutdown.find method path = .endpoint (.handler h) params) :
    ∃ route ∈ routes, route.handler = h := by
  obtain ⟨row, member, same, -⟩ :=
    Router.find_endpoint (Router.holds_build built).withShutdown found
  rcases List.mem_append.1 member with ofTable | ofServer
  · obtain ⟨route, listed, rfl⟩ := List.mem_map.1 ofTable
    exact ⟨route, listed, Endpoint.handler.inj same⟩
  · rw [List.mem_singleton.1 ofServer] at same
    cases same

/-- On the path of the shutdown there is nothing else, if no route has the path. -/
theorem find_shutdownPath (built : Router.build routes = .ok t)
    (free : ∀ r ∈ routes, r.path ≠ shutdownPath) (method : String) (h : Handler)
    (params : Table String String) :
    t.withShutdown.find method shutdownPath ≠ .endpoint (.handler h) params := by
  intro found
  have known : Row.endpointsAt (routes.map .ofRoute ++ [.shutdown]) shutdownPath ≠ [] :=
    List.ne_nil_of_mem (a := ("GET", .shutdown))
      (Row.mem_endpointsAt.2 (List.mem_append_right _ List.mem_cons_self))
  obtain ⟨m, member⟩ := Router.find_of_spelled (Router.holds_build built).withShutdown
    (by decide) known found
  rcases List.mem_append.1 member with ofTable | ofServer
  · obtain ⟨route, listed, same⟩ := List.mem_map.1 ofTable
    exact free route listed (congrArg Row.path same)
  · cases List.mem_singleton.1 ofServer

end Table

/-! ## What an arrival can do -/

/-- The front after a handler was started. -/
def start (f : Front) (method : String) (handler : Handler) (request : RouteRequest)
    (guardId : Option Nat) : Front :=
  { f with
    running := { id := f.next, method, handler, request, guardId } :: f.running
    next := f.next + 1 }

/-- A handler that a request leads to is started. -/
theorem dispatch_of_find {f : Front} {q : HttpRequest} {h : Handler} {params : Table String String}
    (found : f.router.find q.method q.path = .endpoint (.handler h) params)
    (state : Option Generation) (guardId : Option Nat) :
    f.dispatch state q guardId = (.started f.next, f.start q.method h
      { params, query := Percent.queryFields q.query, body := q.body, state } guardId) := by
  unfold dispatch
  simp only [found]
  rfl

/-- Behind the gate a handler starts, or the request is answered at once and its guard let go. An
answer that no handler gives is never 200. -/
theorem dispatch_cases (f : Front) (state : Option Generation) (q : HttpRequest)
    (guardId : Option Nat) :
    (∃ h params, f.router.find q.method q.path = .endpoint (.handler h) params ∧
      f.dispatch state q guardId = (.started f.next, f.start q.method h
        { params, query := Percent.queryFields q.query, body := q.body, state } guardId)) ∨
    ∃ (r : HttpResponse) (requested : Bool), r.status ≠ 200 ∧
      (f.gate.requested = true → requested = true) ∧
      f.dispatch state q guardId
        = (.answered (r.answering q.method),
            ({ f with gate := { f.gate with requested } } : Front).letGo guardId) := by
  unfold dispatch
  split
  · exact .inr ⟨_, f.gate.requested, show 404 ≠ 200 by decide, id, rfl⟩
  · exact .inr ⟨_, f.gate.requested, show 405 ≠ 200 by decide, id, rfl⟩
  · exact .inr ⟨_, f.gate.requested, show 400 ≠ 200 by decide, id, rfl⟩
  · exact .inr ⟨_, true, show 202 ≠ 200 by decide, fun _ => rfl, rfl⟩
  · next h params found => exact .inl ⟨h, params, found, rfl⟩

variable {routes : List Route} {t : Router} {f : Front} {state : Option Generation}
  {q : HttpRequest}

/-- A request for the shutdown path is dispatched without a guard, whatever the gate says. -/
theorem arrive_of_admin (admin : q.path = shutdownPath) :
    f.arrive state q = f.dispatch state q none :=
  if_pos (by rw [decide_eq_true admin, Bool.or_true])

/-- Any other request that arrives once shutdown is requested is turned away. -/
theorem arrive_of_requested (gated : f.gated = true) (other : q.path ≠ shutdownPath)
    (closing : f.gate.requested = true) :
    f.arrive state q
      = (.answered ((f.turnAway q).answering q.method),
          { f with gate := { f.gate with next := f.gate.next + 1 } }) := by
  rw [arrive, if_neg (by simp [gated, other]), Gate.enter_of_requested closing]

/-- Any other request that arrives before is let in, and dispatched with a guard of its own. -/
theorem arrive_of_isOpen (gated : f.gated = true) (other : q.path ≠ shutdownPath)
    (isOpen : f.gate.requested = false) :
    f.arrive state q
      = ({ f with gate := f.gate.entered } : Front).dispatch state q (some f.gate.next) := by
  rw [arrive, if_neg (by simp [gated, other]), Gate.enter_of_isOpen isOpen]

/-- **What lies between two events**: the handlers at work have the guards, one by one. -/
structure Paired (routes : List Route) (t : Router) (f : Front) : Prop where
  router : f.router = t.withShutdown
  gated : f.gated = true
  kept : f.gate.Kept
  idle : f.gate.arriving = []
  single : ∀ p ∈ f.gate.guards, p.2 = 1
  guards : f.running.map Running.guardId = f.gate.guards.map fun p => some p.1
  numbered : ∀ r ∈ f.running, r.id < f.next
  distinct : (f.running.map Running.id).Nodup
  table : ∀ r ∈ f.running, ∃ route ∈ routes, route.handler = r.handler

/-- A front that has served nothing is paired with the routes its router was built from. -/
theorem paired_ofRouter (routes : List Route) (t : Router) : Paired routes t (ofRouter t) where
  router := rfl
  gated := rfl
  kept := Gate.kept_new
  idle := rfl
  single _ member := absurd member List.not_mem_nil
  guards := rfl
  numbered _ member := absurd member List.not_mem_nil
  distinct := List.nodup_nil
  table _ member := absurd member List.not_mem_nil

/-- What an arrival comes to: an answer that leaves the handlers and the guards as they are, or a
handler of the table with a guard of its own. -/
inductive Arrived (routes : List Route) (f : Front) (q : HttpRequest) : Arrival × Front → Prop where
  | answered (r : HttpResponse) (requested : Bool) (next : Nat)
    (stays : f.gate.requested = true → requested = true) (later : f.gate.next ≤ next) :
    Arrived routes f q (.answered r, { f with gate := { f.gate with requested, next } })
  | started (h : Handler) (request : RouteRequest) (known : ∃ route ∈ routes, route.handler = h)
    (isOpen : f.gate.requested = false) :
    Arrived routes f q
      (.started f.next,
        ({ f with gate := f.gate.entered } : Front).start q.method h request (some f.gate.next))

namespace Paired

/-- **What an arrival comes to**: over a table in which no route claims the shutdown path. -/
theorem arrived (h : Paired routes t f) (built : Router.build routes = .ok t)
    (free : ∀ r ∈ routes, r.path ≠ shutdownPath) (state : Option Generation) (q : HttpRequest) :
    Arrived routes f q (f.arrive state q) := by
  by_cases admin : q.path = shutdownPath
  · rw [arrive_of_admin admin]
    rcases f.dispatch_cases state q none with
      ⟨handler, params, found, -⟩ | ⟨r, req, -, stays, eq⟩
    · rw [h.router, admin] at found
      exact absurd found (find_shutdownPath built free q.method handler params)
    · rw [eq]
      exact .answered _ req f.gate.next stays (Nat.le_refl _)
  cases closing : f.gate.requested with
  | true =>
    rw [arrive_of_requested h.gated admin closing]
    exact .answered _ f.gate.requested (f.gate.next + 1) id (Nat.le_succ _)
  | false =>
    rw [arrive_of_isOpen h.gated admin closing]
    rcases ({ f with gate := f.gate.entered } : Front).dispatch_cases state q (some f.gate.next)
      with ⟨handler, params, found, eq⟩ | ⟨r, req, -, stays, eq⟩
    · rw [eq]
      rw [h.router] at found
      exact .started handler _ (mem_routes_of_find built found) closing
    · rw [eq]
      have gone := (h.kept.passing req (Nat.le_refl _)).end'_entered
      rw [letGo]
      refine Eq.subst (motive := fun gate => Arrived routes f q
        (.answered (r.answering q.method), { f with gate := gate })) gone.symm ?_
      exact .answered _ req (f.gate.next + 1) stays (Nat.le_succ _)

/-! ## The events -/

/-- A request that is answered without a guard leaves a front paired with its routes. -/
theorem answered (h : Paired routes t f) (requested : Bool) {next : Nat}
    (later : f.gate.next ≤ next) :
    Paired routes t { f with gate := { f.gate with requested, next } } where
  router := h.router
  gated := h.gated
  kept := h.kept.passing requested later
  idle := h.idle
  single := h.single
  guards := h.guards
  numbered := h.numbered
  distinct := h.distinct
  table := h.table

/-- A front that starts a handler of one of its routes is still paired with them. -/
theorem start (h : Paired routes t f) {handler : Handler}
    (known : ∃ route ∈ routes, route.handler = handler) (method : String) (request : RouteRequest) :
    Paired routes t
      (({ f with gate := f.gate.entered } : Front).start method handler request
        (some f.gate.next)) where
  router := h.router
  gated := h.gated
  kept := h.kept.entered
  idle := h.idle
  single p member := by
    rcases List.mem_cons.1 member with rfl | old
    · rfl
    · exact h.single p old
  guards := congrArg (some f.gate.next :: ·) h.guards
  numbered r member := by
    rcases List.mem_cons.1 member with rfl | old
    · exact Nat.lt_succ_self _
    · exact Nat.lt_succ_of_lt (h.numbered r old)
  distinct := by
    refine List.nodup_cons.2 ⟨fun old => ?_, h.distinct⟩
    obtain ⟨r, member, same⟩ := List.mem_map.1 old
    exact Nat.ne_of_lt (h.numbered r member) same
  table r member := by
    rcases List.mem_cons.1 member with rfl | old
    · exact known
    · exact h.table r old

/-- A front whose client goes away is still paired with its routes: the handler runs on. -/
theorem abandon (h : Paired routes t f) (id : Nat) : Paired routes t (f.abandon id) := by
  -- nothing changes but whether a client is there
  have same (r : Running) : ∃ awaited,
      (if r.id = id then { r with awaited := false } else r) = { r with awaited } := by
    split
    · exact ⟨false, rfl⟩
    · exact ⟨r.awaited, rfl⟩
  have kept {α : Type} (field : Running → α)
      (apart : ∀ r awaited, field { r with awaited } = field r) :
      (f.abandon id).running.map field = f.running.map field := by
    refine (List.map_map ..).trans (List.map_congr_left fun r _ => ?_)
    obtain ⟨awaited, eq⟩ := same r
    exact (congrArg field eq).trans (apart r awaited)
  have from' {r : Running} (member : r ∈ (f.abandon id).running) :
      ∃ s ∈ f.running, ∃ awaited, r = { s with awaited } := by
    obtain ⟨s, before, rfl⟩ := List.mem_map.1 member
    exact ⟨s, before, same s⟩
  exact
    { router := h.router
      gated := h.gated
      kept := h.kept
      idle := h.idle
      single := h.single
      guards := (kept Running.guardId fun _ _ => rfl).trans h.guards
      numbered := fun r member => by
        obtain ⟨s, before, awaited, rfl⟩ := from' member
        exact h.numbered s before
      distinct := (kept Running.id fun _ _ => rfl) ▸ h.distinct
      table := fun r member => by
        obtain ⟨s, before, awaited, rfl⟩ := from' member
        exact h.table s before }

/-- The guard of a handler at work. -/
theorem guard (h : Paired routes t f) {r : Running} (member : r ∈ f.running) :
    ∃ n, r.guardId = some n ∧ f.gate.owners? n = some 1 := by
  have listed : r.guardId ∈ f.gate.guards.map fun p => some p.1 :=
    h.guards ▸ List.mem_map_of_mem member
  obtain ⟨p, guards, eq⟩ := List.mem_map.1 listed
  obtain ⟨k, owned⟩ := Option.isSome_iff_exists.1
    (Gate.isSome_owners?_iff.2 (List.mem_map_of_mem (f := Prod.fst) guards))
  have one : k = 1 := h.single _ (Gate.mem_guards_of_owners? owned)
  exact ⟨p.1, eq.symm, one ▸ owned⟩

/-- No two handlers share a guard. -/
theorem apart (h : Paired routes t f) : (f.running.map Running.guardId).Nodup := by
  rw [h.guards, show (fun p : Nat × Nat => some p.1) = some ∘ Prod.fst from rfl, ← List.map_map]
  exact (List.nodup_append.1 h.kept.distinct).2.1.map fun _ _ => Option.some.inj

/-- A handler that returns takes its own guard along, and no other. -/
theorem finished (h : Paired routes t f) {r : Running} (member : r ∈ f.running) :
    Paired routes t
      (({ f with running := f.running.filter fun s => decide (s.id ≠ r.id) } : Front).letGo
        r.guardId) := by
  obtain ⟨n, guard, owned⟩ := h.guard member
  rw [guard]
  have gone : f.gate.end' n = f.gate.without n := Gate.end'_of_owned owned
  -- no two calls share a number or a guard, so to drop the one is to drop the other
  have same (s : Running) (there : s ∈ f.running) :
      decide (s.id ≠ r.id) = decide (s.guardId ≠ some n) := by
    refine decide_eq_decide.2 (not_congr ⟨fun eq => ?_, fun eq => ?_⟩)
    · rw [List.inj_on_of_nodup_map h.distinct there member eq, guard]
    · rw [List.inj_on_of_nodup_map h.apart there member (eq.trans guard.symm)]
  show Paired routes t
    { f with
      running := f.running.filter fun s => decide (s.id ≠ r.id), gate := f.gate.end' n }
  rw [gone]
  exact
    { router := h.router
      gated := h.gated
      kept := h.kept.without (Gate.mem_guarded_of_owners? owned)
      idle := h.idle
      single := fun p there => h.single p (List.mem_of_mem_filter there)
      guards := by
        show (f.running.filter fun s => decide (s.id ≠ r.id)).map Running.guardId
          = (f.gate.guards.filter fun p => decide (p.1 ≠ n)).map fun p => some p.1
        have left := List.filter_map (f := Running.guardId) (l := f.running)
          (p := fun guardId => decide (guardId ≠ some n))
        have right := List.filter_map (f := fun p : Nat × Nat => some p.1) (l := f.gate.guards)
          (p := fun guardId => decide (guardId ≠ some n))
        rw [List.filter_congr same]
        refine left.symm.trans ((h.guards ▸ right).trans (congrArg _ (List.filter_congr ?_)))
        intro p _
        exact decide_eq_decide.2 (not_congr (Option.some_inj ..))
      numbered := fun s there => h.numbered s (List.mem_of_mem_filter there)
      distinct := h.distinct.sublist (List.filter_sublist.map Running.id)
      table := fun s there => h.table s (List.mem_of_mem_filter there) }

/-- A front that answers is still paired with them: the call goes with its guard. -/
theorem finish (h : Paired routes t f) (registry : Registry) (id : Nat) :
    Paired routes t (f.finish registry id).2.1 := by
  unfold Front.finish
  split
  · exact h
  · next r found =>
    have number : r.id = id := by simpa using List.find?_some found
    rw [← number]
    exact h.finished (List.mem_of_find?_eq_some found)

/-- What happens at the front keeps guards and handlers together. -/
theorem take (h : Paired routes t f) (built : Router.build routes = .ok t)
    (free : ∀ r ∈ routes, r.path ≠ shutdownPath) (e : Event) : Paired routes t (f.take e) := by
  cases e with
  | finish registry id => exact h.finish registry id
  | abandon id => exact h.abandon id
  | requestShutdown => exact h.answered true (Nat.le_refl _)
  | arrive state q =>
    have arrived := h.arrived built free state q
    show Paired routes t (f.arrive state q).2
    generalize f.arrive state q = x at arrived ⊢
    cases arrived with
    | answered r requested next stays later => exact h.answered requested later
    | started handler request known isOpen => exact h.start known q.method request

/-- A front stays paired with its routes over every history. -/
theorem after (h : Paired routes t f) (built : Router.build routes = .ok t)
    (free : ∀ r ∈ routes, r.path ≠ shutdownPath) (history : List Event) :
    Paired routes t (f.after history) := by
  induction history generalizing f with
  | nil => exact h
  | cons e history ih => exact ih (h.take built free e)

end Paired

/-! ## Once a shutdown was requested -/

/-- Letting go of a guard does not withdraw the request for shutdown. -/
theorem requested_letGo (f : Front) (guardId : Option Nat) :
    (f.letGo guardId).gate.requested = f.gate.requested := by
  cases guardId with
  | none => rfl
  | some n =>
    show (f.gate.end' n).requested = f.gate.requested
    cases owned : f.gate.owners? n with
    | none => rw [Gate.end', owned]
    | some k => rw [Gate.end'_of_owned owned, Gate.without]

/-- Answering a request does not withdraw it either. -/
theorem requested_finish (f : Front) (registry : Registry) (id : Nat) :
    (f.finish registry id).2.1.gate.requested = f.gate.requested := by
  unfold finish
  split
  · rfl
  · exact requested_letGo _ _

namespace Paired

/-- No event withdraws the request for shutdown. -/
theorem requested_take (h : Paired routes t f) (built : Router.build routes = .ok t)
    (free : ∀ r ∈ routes, r.path ≠ shutdownPath) (closing : f.gate.requested = true) (e : Event) :
    (f.take e).gate.requested = true := by
  cases e with
  | abandon id => exact closing
  | requestShutdown => rfl
  | arrive state q =>
    have arrived := h.arrived built free state q
    show (f.arrive state q).2.gate.requested = true
    generalize f.arrive state q = x at arrived ⊢
    cases arrived with
    | answered r requested next stays later => exact stays closing
    | started handler request known isOpen => exact closing
  | finish registry id =>
    show (f.finish registry id).2.1.gate.requested = true
    rw [requested_finish]
    exact closing

/-- A shutdown once requested stays requested over every history. -/
theorem requested_after (h : Paired routes t f) (built : Router.build routes = .ok t)
    (free : ∀ r ∈ routes, r.path ≠ shutdownPath) (closing : f.gate.requested = true)
    (history : List Event) : (f.after history).gate.requested = true := by
  induction history generalizing f with
  | nil => exact closing
  | cons e history ih => exact ih (h.take built free e) (h.requested_take built free closing e)

end Paired

/-- **The law of the front**: whatever happens, the gate covers every handler of a table that leaves
the path of the administrative shutdown alone. -/
theorem covered_after {routes : List Route} {t : Router} (built : Router.build routes = .ok t)
    (free : ∀ r ∈ routes, r.path ≠ shutdownPath) (history : List Event) :
    Covered routes ((ofRouter t).after history) := by
  have paired := (paired_ofRouter routes t).after built free history
  refine ⟨fun r member => ⟨paired.table r member, paired.guard member⟩, paired.apart, ?_, ?_, ?_⟩
  · have lengths := congrArg List.length paired.guards
    rw [List.length_map, List.length_map] at lengths
    rw [paired.kept.count, paired.idle, List.length_nil, Nat.add_zero, lengths]
  · intro state q id began
    have arrived := paired.arrived built free state q
    generalize ((ofRouter t).after history).arrive state q = x at arrived began ⊢
    cases arrived with
    | answered r requested next stays later => cases began
    | started handler request known isOpen =>
      rw [Gate.enter_of_isOpen isOpen]
      exact ⟨isOpen, _, _, rfl, Arrival.started.inj began, rfl, rfl⟩
  · intro closing later state q id began
    have still := paired.requested_after built free closing later
    have arrived := (paired.after built free later).arrived built free state q
    generalize (((ofRouter t).after history).after later).arrive state q = x at arrived began
    cases arrived with
    | answered r requested next stays later => cases began
    | started handler request known isOpen =>
      rw [still] at isOpen
      cases isOpen

/-- A handler that answers at once. -/
def greeting : Handler := fun _ registry => (.answer { status := 200 }, registry)

/-- A client that goes away before a shutdown is requested leaves a handler that is waited for. -/
theorem covered_of_greeting :
    let routes : List Route := [⟨"GET", "/greeting", greeting⟩]
    let history : List Event :=
      [.arrive none { method := "GET", path := "/greeting" }, .abandon 0, .requestShutdown]
    ∃ t, Router.build routes = .ok t ∧ (∀ r ∈ routes, r.path ≠ shutdownPath) ∧
      ((ofRouter t).after history).running.length = 1 ∧
      Covered routes ((ofRouter t).after history) := by
  intro routes history
  have built : Router.build routes = .ok _ := Router.build_ok (by decide) (by decide)
  have free : ∀ r ∈ routes, r.path ≠ shutdownPath := by decide
  exact ⟨_, built, free, by cbv, covered_after built free history⟩

/-- **A handler can escape the gate**: only `GET` is reserved on the path of the administrative
shutdown, so a table may have another method there, and the gate lets its requests through. -/
theorem not_covered_of_posted :
    let routes : List Route := [⟨"POST", shutdownPath, greeting⟩]
    ∃ t, Router.build routes = .ok t ∧
      ¬ Covered routes ((ofRouter t).after [.requestShutdown]) := by
  intro routes
  refine ⟨_, Router.build_ok (by decide) (by decide), fun covered => ?_⟩
  have escaped := covered.quiet rfl [] none { method := "POST", path := shutdownPath } 0
  exact escaped (by cbv)

end Front

end OntologyService
