import OntologyService.Proofs.KnowledgeBase.Notices
import OntologyService.Proofs.Server.Agreement
import OntologyService.Proofs.State.History

/-!
# What requests change

Whatever a client sends, a knowledge base shows no trace of it unless the client was told so. A
request can fail in many places: it may lead nowhere, name no ontology, have a body that cannot be
read or a batch with a defect, or come too late. All of these lie in front of the one place where a
batch is taken in (`Route.calling_cases`, `KnowledgeBase.shown_serve_of_error`), so an answer other
than 200 means that nothing happened.

What shows of a knowledge base is its axioms, its revision and what its subscribers are told
(`KnowledgeBase.shown`). What it remembers may grow with every read.

**The law** (`confined_after`): over any requests to the routes of the service, in whatever state
the gate is, every one is confined to what its answer says (`Exchange.Confined`), and a knowledge
base holds what the batches leave that were answered 200, in their order (`Exchange.Took`).
-/

namespace OntologyService

namespace KnowledgeBase

variable {kb : KnowledgeBase} {c : Call} {additions removals : AxiomSet}

/-- **A batch was taken in**: additions first, with the counts that are reported, and the
subscribers were told of it if it counts anything. -/
structure TookIn (kb kb' : KnowledgeBase) (b : UpdateRequest) (s : UpdateSummary) : Prop where
  axioms : kb'.axioms = (kb.axioms ∪ b.additions).sdiff b.removals
  added : s.added = (b.additions.sdiff kb.axioms).size
  removed : s.removed = (b.removals.inter (kb.axioms ∪ b.additions)).size
  revision : kb'.revision = s.revision
  grown : s.revision = kb.revision + if s.added + s.removed > 0 then 1 else 0
  told : kb'.changes = if s.added + s.removed > 0 then kb.changes.send (kb.noticeOf s)
    else kb.changes

/-- An update that is answered takes in its batch. -/
theorem tookIn_of_update {b : UpdateRequest} {s : UpdateSummary}
    (updated : (kb.update b.additions b.removals).1 = .ok s) :
    kb.TookIn (kb.update b.additions b.removals).2 b s := by
  obtain ⟨live, valid⟩ := of_update_eq_ok updated
  obtain ⟨answer, axioms, revision, changes⟩ := update_shows live valid
  cases updated.symm.trans answer
  exact ⟨axioms, rfl, rfl, rfl, revision, changes⟩

end KnowledgeBase

namespace Registry

variable {r : Registry} {id : BaseId} {kb : KnowledgeBase} {c : KnowledgeBase.Call}

/-- No knowledge base shows a change. -/
def Untouched (r r' : Registry) : Prop :=
  ∀ id, (r'.get? id).map KnowledgeBase.shown = (r.get? id).map KnowledgeBase.shown

theorem Untouched.refl (r : Registry) : r.Untouched r := fun _ => rfl

/-- A call that does not show leaves everything untouched. -/
theorem untouched_call (held : r.get? id = some kb)
    (same : (kb.serve c).2.shown = kb.shown) : r.Untouched (r.call id c) := by
  intro other
  by_cases here : id = other
  · rw [← here, get?_call_self held, held, Option.map_some, Option.map_some, same]
  · rw [get?_call_of_ne here]

end Registry

/-! ## What a handler changes -/

/-- No failure of a knowledge base is reported with 200. -/
theorem ReasoningError.httpStatus_ne_ok (e : ReasoningError) : e.httpStatus ≠ 200 := by
  cases e <;> exact Nat.ne_of_beq_eq_false rfl

namespace Route

variable {r : RouteRequest} {e : ServiceError}

/-- Either a request names a knowledge base that is there, or that is why it is refused. -/
theorem base_cases (r : RouteRequest) :
    (∃ e, base r = .error e ∧ e.httpStatus ≠ 200) ∨
      ∃ name g id, r.params.get? "name" = some name ∧ r.state = some g ∧ g.find name = .ok id ∧
        base r = .ok id := by
  cases named : r.params.get? "name" with
  | none =>
    refine .inl ⟨.request (.missingParam "name"), ?_, by decide⟩
    rw [base, RouteRequest.param, named]
    rfl
  | some name =>
    cases state : r.state with
    | none =>
      refine .inl ⟨.state .closed, ?_, by decide⟩
      rw [base, RouteRequest.param, named, RouteRequest.generation, state]
      rfl
    | some g =>
      cases known : g.find name with
      | error e =>
        refine .inl ⟨.reasoning e, ?_, e.httpStatus_ne_ok⟩
        rw [base, RouteRequest.param, named, RouteRequest.generation, state]
        simp only [bind, Except.bind, known]
      | ok id =>
        refine .inr ⟨name, g, id, rfl, rfl, known, ?_⟩
        rw [base, RouteRequest.param, named, RouteRequest.generation, state]
        simp only [bind, Except.bind, known]

/-- A base that is not found is not answered with 200. -/
theorem status_of_base (refused : base r = .error e) : e.httpStatus ≠ 200 := by
  rcases base_cases r with ⟨e', refused', status⟩ | ⟨name, g, id, -, -, -, found⟩
  · cases refused.symm.trans refused'
    exact status
  · cases refused.symm.trans found

/-- The knowledge base of a request is that of the name in its path. -/
theorem of_base_eq_ok {name : String} {id : BaseId}
    (params : r.params = Table.ofList [("name", name)]) (found : base r = .ok id) :
    ∃ g, r.state = some g ∧ g.find name = .ok id := by
  rcases base_cases r with ⟨e, refused, -⟩ | ⟨name', g, id', named', state, known, found'⟩
  · cases found.symm.trans refused
  · rw [params, get?_name] at named'
    cases named'
    cases found.symm.trans found'
    exact ⟨g, state, known⟩

/-- A body that does not decode is not answered with 200. -/
theorem status_of_decodeBody {α : Type} {d : Decoder α} (refused : r.decodeBody d = .error e) :
    e.httpStatus ≠ 200 := by
  unfold RouteRequest.decodeBody at refused
  dsimp only at refused
  split at refused
  · cases refused
  · cases refused
    exact Nat.ne_of_beq_eq_false rfl

/-- **What a handler that calls comes to**: the request is refused before anything is called, or
the knowledge base that it names is called and its outcome reported. -/
theorem calling_cases {α : Type} (d : Decoder α) (call : α → KnowledgeBase.Call)
    (write : KnowledgeBase.Answer → Json) (r : RouteRequest) (registry : Registry) :
    let done := calling d call write r registry
    done.1.response.status ≠ 200 ∧ done.2 = registry ∨
      ∃ id kb b, base r = .ok id ∧ registry.get? id = some kb ∧ r.decodeBody d = .ok b ∧
        done.2 = registry.call id (call b) ∧
        match (kb.serve (call b)).1 with
        | .ok a => done.1 = .answer (.json 200 (write a))
        | .error e => done.1 = .failure (.reasoning e) := by
  intro done
  cases named : base r with
  | error e =>
    have refused : done = (.failure e, registry) := by simp only [done, calling, named]
    rw [refused]
    exact .inl ⟨status_of_base named, rfl⟩
  | ok id =>
    cases read : r.decodeBody d with
    | error e =>
      have refused : done = (.failure e, registry) := by simp only [done, calling, named, read]
      rw [refused]
      exact .inl ⟨status_of_decodeBody read, rfl⟩
    | ok b =>
      cases held : registry.get? id with
      | none =>
        have crashed : done = (.crash, registry) := by
          simp only [done, calling, named, read, held]
        rw [crashed]
        exact .inl ⟨Nat.ne_of_beq_eq_false rfl, rfl⟩
      | some kb =>
        refine .inr ⟨id, kb, b, rfl, held, rfl, ?_⟩
        simp only [done, calling, named, read, held, Registry.call]
        generalize kb.serve (call b) = served
        obtain ⟨outcome, kb'⟩ := served
        cases outcome with
        | error e => exact ⟨rfl, rfl⟩
        | ok a => exact ⟨rfl, rfl⟩

/-- A call that is refused touches no knowledge base. -/
theorem calling_refused {α : Type} {d : Decoder α} {call : α → KnowledgeBase.Call}
    {write : KnowledgeBase.Answer → Json} {registry : Registry}
    (refused : (calling d call write r registry).1.response.status ≠ 200) :
    registry.Untouched (calling d call write r registry).2 := by
  rcases calling_cases d call write r registry with
    ⟨-, left⟩ | ⟨id, kb, b, -, held, -, left, reported⟩
  · rw [left]
    exact .refl registry
  · rw [left]
    split at reported
    · rw [reported] at refused
      exact absurd rfl refused
    · next failed => exact Registry.untouched_call held (KnowledgeBase.shown_serve_of_error failed)

/-- A call that reads touches none either. -/
theorem calling_reads {α : Type} {d : Decoder α} {call : α → KnowledgeBase.Call}
    (reads : ∀ b, (call b).Reads) (write : KnowledgeBase.Answer → Json) (r : RouteRequest)
    (registry : Registry) : registry.Untouched (calling d call write r registry).2 := by
  rcases calling_cases d call write r registry with ⟨-, left⟩ | ⟨id, kb, b, -, held, -, left, -⟩
  · rw [left]
    exact .refl registry
  · rw [left]
    exact Registry.untouched_call held (KnowledgeBase.shown_serve_of_reads (reads b))

/-- **A handler of the service** that does not answer 200 leaves everything untouched, and so does
every handler but that of updates. -/
theorem untouched_of_mem {route : Route} (known : route ∈ ofKnowledgeBases) (r : RouteRequest)
    (registry : Registry) (quiet : (route.handler r registry).1.response.status ≠ 200 ∨
      route.path ≠ operationPath "update") :
    registry.Untouched (route.handler r registry).2 := by
  simp only [ofKnowledgeBases, List.mem_cons, List.not_mem_nil, or_false] at known
  rcases known with rfl | rfl | rfl | rfl | rfl | rfl
  · exact .refl registry
  · exact .refl registry
  · refine calling_reads ?_ _ r registry
    exact fun _ => trivial
  · refine calling_reads ?_ _ r registry
    exact fun _ => trivial
  · refine calling_reads ?_ _ r registry
    exact fun _ => trivial
  · rcases quiet with refused | other
    · exact calling_refused refused
    · exact absurd rfl other

/-- The path of updates has one route. -/
theorem eq_update_of_mem {route : Route} (known : route ∈ ofKnowledgeBases)
    (path : route.path = operationPath "update") :
    route = ⟨"POST", operationPath "update", update⟩ := by
  simp only [ofKnowledgeBases, List.mem_cons, List.not_mem_nil, or_false] at known
  rcases known with rfl | rfl | rfl | rfl | rfl | rfl
  case inr.inr.inr.inr.inr => rfl
  all_goals exact absurd path (by decide)

/-- **An update that is answered 200** was taken in, and the answer is its summary. -/
theorem update_answered {registry : Registry}
    (answered : (update r registry).1.response.status = 200) :
    ∃ id kb b s, base r = .ok id ∧ registry.get? id = some kb ∧
      r.decodeBody UpdateRequest.decode = .ok b ∧
      (kb.update b.additions b.removals).1 = .ok s ∧
      (update r registry).1.response = .json 200 s.toJson ∧
      (update r registry).2 = registry.call id (.update b.additions b.removals) := by
  rcases calling_cases UpdateRequest.decode (fun b => .update b.additions b.removals) writeAnswer r
    registry with ⟨refused, -⟩ | ⟨id, kb, b, named, held, read, left, reported⟩
  · exact absurd answered refused
  · have outcome : (kb.serve (.update b.additions b.removals)).1 =
        (kb.update b.additions b.removals).1.map .summary := rfl
    cases updated : (kb.update b.additions b.removals).1 with
    | error e =>
      rw [outcome, updated] at reported
      rw [update, show (calling _ _ _ r registry).1 = _ from reported] at answered
      exact absurd answered e.httpStatus_ne_ok
    | ok s =>
      rw [outcome, updated] at reported
      exact ⟨id, kb, b, s, named, held, read, updated, congrArg Outcome.response reported, left⟩

end Route

/-! ## Where a request leads -/

namespace HttpRequest

variable {q : HttpRequest} {name name' : String}

/-- The request posts to the path of updates, about the ontology of a name. -/
def Updates (q : HttpRequest) (name : String) : Prop :=
  q.method = "POST" ∧ ∃ segment, '/' ∉ segment.toList ∧ Percent.decodeText? segment = some name ∧
    q.path = Client.operationPath segment "update"

/-- A request is about one ontology. -/
theorem Updates.unique (h : q.Updates name) (h' : q.Updates name') : name = name' := by
  obtain ⟨-, segment, -, decoded, path⟩ := h
  obtain ⟨-, segment', -, decoded', path'⟩ := h'
  rw [Route.clientPath_inj (path.symm.trans path')] at decoded
  exact Option.some.inj (decoded.symm.trans decoded')

/-- The batch that the body of a request says. -/
def batch (q : HttpRequest) : Except ServiceError UpdateRequest :=
  ({ body := q.body } : RouteRequest).decodeBody UpdateRequest.decode

/-- Routes that a server has beside those of the service keep off the path of the request. -/
def KeptFor (q : HttpRequest) (routes : List Route) : Prop :=
  ∀ r ∈ routes, r ∉ Route.ofKnowledgeBases →
    (PathPattern.ofString r.path).match? q.path.toList = none

end HttpRequest

namespace Front

variable {f : Front} {q : HttpRequest} {routes : List Route}

/-- **A request to the routes of the service** leads to one of their handlers, and to that of
updates exactly if it posts to the path of updates. -/
theorem BuiltFrom.route_of_find (built : f.BuiltFrom routes) (ours : q.KeptFor routes)
    {h : Handler} {params : Table String String}
    (found : f.router.find q.method q.path = .endpoint (.handler h) params) :
    ∃ route ∈ Route.ofKnowledgeBases, route.handler = h ∧
      (route.path = Route.operationPath "update" →
        ∃ name, q.Updates name ∧ params = Table.ofList [("name", name)]) ∧
      ((∃ name, q.Updates name) → route.path = Route.operationPath "update") := by
  obtain ⟨rows, holds, -, -, toRoutes⟩ := built.rows
  obtain ⟨row, member, endpoint, methods, parts, matched, read⟩ := Router.find_endpoint holds found
  rcases List.mem_append.1 (toRoutes member) with ofTable | ofServer
  · obtain ⟨route, listed, rfl⟩ := List.mem_map.1 ofTable
    replace matched : (PathPattern.ofString route.path).match? q.path.toList = some parts := matched
    have known : route ∈ Route.ofKnowledgeBases := by
      -- the routes of others do not take such a path
      by_contra other
      rw [ours route listed other] at matched
      cases matched
    refine ⟨route, known, Endpoint.handler.inj endpoint, fun path => ?_, ?_⟩
    · cases Route.eq_update_of_mem known path
      rw [Route.ofString_operationPath (by decide)] at matched
      obtain ⟨segment, single, written, rfl⟩ := Route.exists_of_match?_operationPattern matched
      obtain ⟨name, decoded, rfl⟩ :=
        Router.exists_of_readParams (read (Route.contains_operationPath _) h rfl)
      have post : q.method = "POST" := by
        rcases methods with same | ⟨-, get⟩
        · exact same.symm
        · exact absurd get (by decide)
      exact ⟨name, ⟨post, segment, single, decoded, String.toList_inj.1 written⟩, rfl⟩
    · rintro ⟨name, -, segment, single, -, path⟩
      by_contra other
      rw [path, Route.match?_of_other (List.mem_map_of_mem known) other single] at matched
      cases matched
  · rw [List.mem_singleton.1 ofServer] at endpoint
    cases endpoint

/-! ## What an answer tells -/

/-- A request is turned away at the gate, or passes it. -/
theorem arrive_cases (f : Front) (state : Option Generation) (q : HttpRequest) :
    (∃ gate guardId, f.arrive state q = ({ f with gate } : Front).dispatch state q guardId) ∨
      ∃ gate, f.arrive state q
        = (.answered ((f.turnAway q).answering q.method), { f with gate }) := by
  unfold arrive
  split
  · exact .inl ⟨f.gate, none, rfl⟩
  · split
    · next gate _ => exact .inr ⟨gate, rfl⟩
    · next n gate _ => exact .inl ⟨gate, some n, rfl⟩

/-- The method of a request does not change the status of its answer. -/
theorem status_answering (r : HttpResponse) (method : String) :
    (r.answering method).status = r.status := by
  unfold HttpResponse.answering
  split <;> rfl

/-- A request that is turned away is answered with 503. -/
theorem status_turnAway (f : Front) (q : HttpRequest) : (f.turnAway q).status = 503 := by
  unfold turnAway
  dsimp only
  split <;> rfl

/-- **A request is answered** by the handler that it leads to, or by none, and then not with 200. -/
theorem serve_cases (f : Front) (state : Option Generation) (registry : Registry)
    (q : HttpRequest) :
    (f.serve state registry q).2.1.router = f.router ∧
      ((f.serve state registry q).1.status ≠ 200 ∧ (f.serve state registry q).2.2 = registry ∨
      ∃ h params, f.router.find q.method q.path = .endpoint (.handler h) params ∧
        let done :=
          h { params, query := Percent.queryFields q.query, body := q.body, state } registry
        (f.serve state registry q).1 = done.1.response.answering q.method ∧
          (f.serve state registry q).2.2 = done.2) := by
  have answered {r : HttpResponse} {f' : Front} (arrived : f.arrive state q = (.answered r, f')) :
      f.serve state registry q = (r, f', registry) := by
    rw [serve, arrived]
  rcases f.arrive_cases state q with ⟨gate, guardId, passed⟩ | ⟨gate, away⟩
  · rcases ({ f with gate } : Front).dispatch_cases state q guardId with
      ⟨h, params, found, started⟩ | ⟨r, requested, refused, -, told⟩
    · obtain ⟨answer, left, router⟩ := serve_of_started (passed.trans started) registry
      exact ⟨router, .inr ⟨h, params, found, answer, left⟩⟩
    · rw [answered (passed.trans told)]
      exact ⟨letGo_router _ guardId, .inl ⟨(status_answering r q.method).trans_ne refused, rfl⟩⟩
  · rw [answered away]
    refine ⟨rfl, .inl ⟨?_, rfl⟩⟩
    rw [status_answering, status_turnAway]
    decide

end Front

/-- A request that was answered, and the generation that was current when it came. -/
structure Exchange where
  state : Option Generation
  request : HttpRequest
  response : HttpResponse

namespace Exchange

/-- The client was told that the knowledge base of a number was updated. -/
def Updates (x : Exchange) (id : BaseId) : Prop :=
  x.response.status = 200 ∧
    ∃ name g, x.request.Updates name ∧ x.state = some g ∧ g.find name = .ok id

/-- **An exchange changes only what it should.** -/
structure Confined (x : Exchange) (before after : Registry) : Prop where
  /-- An answer other than 200 means that nothing changed. -/
  refused : x.response.status ≠ 200 → before.Untouched after
  /-- Only updates change anything. -/
  other : (∀ name, ¬ x.request.Updates name) → before.Untouched after
  /-- An update that is answered 200 was taken in by the knowledge base of its name, as the answer
  reports, and changed no other one. -/
  updated : ∀ name, x.request.Updates name → x.response.status = 200 →
    ∃ g id b s kb kb', x.state = some g ∧ g.find name = .ok id ∧ x.request.batch = .ok b ∧
      x.response = .json 200 s.toJson ∧ before.get? id = some kb ∧ after.get? id = some kb' ∧
      kb.TookIn kb' b s ∧ ∀ other, id ≠ other → after.get? other = before.get? other

/-- The batches that a knowledge base took in, by what its clients were told. -/
inductive Took (id : BaseId) : List Exchange → List Batch → Prop where
  | nil : Took id [] []
  | other {x : Exchange} {xs : List Exchange} {bs : List Batch} (other : ¬ x.Updates id)
    (rest : Took id xs bs) : Took id (x :: xs) bs
  | update {x : Exchange} {xs : List Exchange} {bs : List Batch} {b : UpdateRequest}
    (updates : x.Updates id) (read : x.request.batch = .ok b) (rest : Took id xs bs) :
    Took id (x :: xs) (⟨b.additions, b.removals⟩ :: bs)

/-- What an exchange leaves of one knowledge base: what showed before, or that with its batch. -/
inductive Leaves (x : Exchange) (id : BaseId) (kb kb' : KnowledgeBase) : Prop where
  | alone (other : ¬ x.Updates id) (same : kb'.shown = kb.shown)
  | updated {b : UpdateRequest} (updates : x.Updates id) (read : x.request.batch = .ok b)
    (axioms : kb'.axioms = (kb.axioms ∪ b.additions).sdiff b.removals)

/-- What was held before an exchange is held after it, with at most the change the exchange allows.
-/
theorem Confined.leaves {x : Exchange} {before after : Registry} (h : x.Confined before after)
    {id : BaseId} {kb : KnowledgeBase} (held : before.get? id = some kb) :
    ∃ kb', after.get? id = some kb' ∧ x.Leaves id kb kb' := by
  have still (untouched : before.Untouched after) (other : ¬ x.Updates id) :
      ∃ kb', after.get? id = some kb' ∧ x.Leaves id kb kb' := by
    have same := untouched id
    rw [held] at same
    obtain ⟨kb', held', same⟩ := Option.map_eq_some_iff.1 same
    exact ⟨kb', held', .alone other same⟩
  by_cases ok : x.response.status = 200
  · by_cases update : ∃ name, x.request.Updates name
    · obtain ⟨name, update⟩ := update
      obtain ⟨g, id', b, s, kb₁, kb₂, state, known, read, -, held₁, held₂, took, others⟩ :=
        h.updated name update ok
      by_cases here : id' = id
      · subst here
        cases held.symm.trans held₁
        exact ⟨kb₂, held₂, .updated ⟨ok, name, g, update, state, known⟩ read took.axioms⟩
      · refine ⟨kb, (others id here).trans held, .alone ?_ rfl⟩
        rintro ⟨-, name', g', update', state', known'⟩
        cases update.unique update'
        cases state.symm.trans state'
        exact here (Except.ok.inj (known.symm.trans known'))
    · have none' : ∀ name, ¬ x.request.Updates name := fun name u => update ⟨name, u⟩
      exact still (h.other none') fun ⟨_, name, _, u, _⟩ => none' name u
  · exact still (h.refused ok) fun u => ok u.1

end Exchange

namespace Front

variable {f : Front} {q : HttpRequest} {routes : List Route}

/-- **A request to the routes of the service** is confined to what its answer says. -/
theorem confined_serve (built : f.BuiltFrom routes) (ours : q.KeptFor routes)
    (state : Option Generation) (registry : Registry) :
    (⟨state, q, (f.serve state registry q).1⟩ : Exchange).Confined registry
      (f.serve state registry q).2.2 := by
  rcases (f.serve_cases state registry q).2 with
    ⟨refused, left⟩ | ⟨h, params, found, answer, left⟩
  · rw [left]
    exact ⟨fun _ => .refl registry, fun _ => .refl registry, fun _ _ ok => absurd ok refused⟩
  · obtain ⟨route, known, rfl, named, isUpdate⟩ := built.route_of_find ours found
    have status := congrArg HttpResponse.status answer
    rw [status_answering] at status
    refine ⟨fun refused => ?_, fun other => ?_, fun name updates ok => ?_⟩
    · rw [left]
      exact Route.untouched_of_mem known _ _ (.inl (status ▸ refused))
    · rw [left]
      refine Route.untouched_of_mem known _ _ (.inr fun path => ?_)
      obtain ⟨name, updates, -⟩ := named path
      exact other name updates
    · have path := isUpdate ⟨name, updates⟩
      obtain ⟨name', updates', rfl⟩ := named path
      cases updates.unique updates'
      cases Route.eq_update_of_mem known path
      obtain ⟨id, kb, b, s, base, held, read, updated, response, called⟩ :=
        Route.update_answered (status.symm.trans ok)
      obtain ⟨g, current, find⟩ := Route.of_base_eq_ok rfl base
      refine ⟨g, id, b, s, kb, _, current, find, read, ?_, held, ?_,
        KnowledgeBase.tookIn_of_update updated, fun other ne => ?_⟩
      · show (f.serve state registry q).1 = _
        rw [answer, updates.1, answering_post]
        exact response
      · rw [left]
        exact (congrArg (Registry.get? · id) called).trans (Registry.get?_call_self held _)
      · rw [left]
        exact (congrArg (Registry.get? · other) called).trans (Registry.get?_call_of_ne ne _)

/-- Serves requests one after another, each in the generation that is current when it comes. -/
def serveAll (f : Front) (registry : Registry) :
    List (Option Generation × HttpRequest) → List Exchange × Front × Registry
  | [] => ([], f, registry)
  | (state, q) :: requests =>
    let served := f.serve state registry q
    let rest := served.2.1.serveAll served.2.2 requests
    (⟨state, q, served.1⟩ :: rest.1, rest.2)

/-- Serving a request leaves a front built from its routes. -/
theorem BuiltFrom.serve (built : f.BuiltFrom routes) (state : Option Generation)
    (registry : Registry) (q : HttpRequest) :
    (f.serve state registry q).2.1.BuiltFrom routes := by
  rw [BuiltFrom, (f.serve_cases state registry q).1]
  exact built

/-- Requests do not change the router. -/
theorem BuiltFrom.serveAll (requests : List (Option Generation × HttpRequest)) : ∀ {f : Front},
    f.BuiltFrom routes → ∀ registry, (f.serveAll registry requests).2.1.BuiltFrom routes := by
  induction requests with
  | nil => intro f built registry; exact built
  | cons p requests ih => intro f built registry; exact ih (built.serve p.1 registry p.2) _

/-- **What a knowledge base holds after any requests** is what the batches leave that were answered
200. If there were none, it shows no change. -/
theorem took_serveAll (requests : List (Option Generation × HttpRequest)) :
    ∀ {f : Front} {registry : Registry} {id : BaseId} {kb : KnowledgeBase}, f.BuiltFrom routes →
      (∀ p ∈ requests, p.2.KeptFor routes) → registry.get? id = some kb →
      ∃ bs kb', Exchange.Took id (f.serveAll registry requests).1 bs ∧
        (f.serveAll registry requests).2.2.get? id = some kb' ∧
        kb'.axioms = takeBatches kb.axioms bs ∧ (bs = [] → kb'.shown = kb.shown) := by
  induction requests with
  | nil => intro f registry id kb _ _ held; exact ⟨[], kb, .nil, held, rfl, fun _ => rfl⟩
  | cons p requests ih =>
    intro f registry id kb built ours held
    obtain ⟨first, rest⟩ := List.forall_mem_cons.1 ours
    obtain ⟨kb₁, held₁, now⟩ := (confined_serve built first p.1 registry).leaves held
    obtain ⟨bs, kb₂, took, held₂, axioms, still⟩ := ih (built.serve p.1 registry p.2) rest held₁
    rcases now with ⟨other, same⟩ | ⟨updates, read, taken⟩
    · refine ⟨bs, kb₂, .other other took, held₂, ?_, fun none' => (still none').trans same⟩
      rw [axioms, show kb₁.axioms = kb.axioms from congrArg Prod.fst same]
    · refine ⟨_ :: bs, kb₂, .update updates read took, held₂, ?_,
        fun none' => absurd none' (List.cons_ne_nil _ _)⟩
      rw [axioms, taken]
      rfl

/-- **The law of effects.** Whatever was asked of the routes of the service, the next request is
confined to what its answer says, and every knowledge base holds what the batches leave that were
answered 200. Routes that a server has beside those of the service are to keep off the paths. -/
theorem confined_after (built : f.BuiltFrom routes)
    (requests : List (Option Generation × HttpRequest))
    (ours : ∀ p ∈ requests, p.2.KeptFor routes) (registry : Registry) :
    let run := f.serveAll registry requests
    (∀ (state : Option Generation) (q : HttpRequest), q.KeptFor routes →
      let served := run.2.1.serve state run.2.2 q
      (⟨state, q, served.1⟩ : Exchange).Confined run.2.2 served.2.2) ∧
    ∀ id kb, registry.get? id = some kb → ∃ bs kb', Exchange.Took id run.1 bs ∧
      run.2.2.get? id = some kb' ∧ kb'.axioms = takeBatches kb.axioms bs ∧
      (bs = [] → kb'.shown = kb.shown) := by
  intro run
  refine ⟨fun state q ours => ?_, fun id kb held => took_serveAll requests built ours held⟩
  exact confined_serve (BuiltFrom.serveAll requests built registry) ours state run.2.2

/-- A request that adds dogs to the ontology that has a slash in its name. -/
def addingDogs : HttpRequest :=
  { method := "POST", path := "/ontologies/a%2Fb/update"
    body := Utf8.encode (UpdateRequest.toJson ⟨dogs, ∅⟩).print }

/-- The request posts an update to the base named `a/b`. -/
theorem updates_addingDogs : addingDogs.Updates "a/b" := ⟨rfl, "a%2Fb", by decide, by cbv, rfl⟩

/-- It carries one axiom to add. -/
theorem batch_addingDogs : addingDogs.batch = .ok ⟨dogs, ∅⟩ :=
  KnowledgeBase.decodeBody_of_octets
    (WireType.octets_written (t := .updateRequest) WireType.noConfusion trivial)

/-- The request is answered 200 by a service that takes requests. -/
theorem status_addingDogs {f : Front} (serves : f.Serves Route.ofKnowledgeBases) {g : Generation}
    {id : BaseId} (known : g.find "a/b" = .ok id) {registry : Registry}
    (held : registry.get? id = some slashed) :
    (f.serve (some g) registry addingDogs).1.status = 200 := by
  have fits : (KnowledgeBase.Call.update dogs ∅).Fits slashed := ⟨by decide, by decide, by decide⟩
  obtain ⟨handler, listed, handles⟩ := KnowledgeBase.exists_handler rfl fits
  have built : f.BuiltFrom Route.ofKnowledgeBases := serves.router
  obtain ⟨-, segment, single, decoded, path⟩ := updates_addingDogs
  have found := built.find_operation (List.Subset.refl _) listed (by decide) single decoded
    fun r member other => absurd (List.mem_map_of_mem member) other
  rw [← path] at found
  obtain ⟨answer, -⟩ := serve_of_find (q := addingDogs) found serves.isOpen (some g) registry
  let r : RouteRequest := {
    params := Table.ofList [("name", "a/b")], query := Percent.queryFields addingDogs.query
    body := addingDogs.body, state := some g }
  obtain ⟨told, -⟩ := handles r registry id (Route.base_eq rfl rfl known) held rfl
  rw [slashed_updated] at told
  rw [answer, status_answering]
  exact told.1

/-- After dogs were added, a request whose body is no JSON is refused and changes nothing. -/
theorem slashed_confined :
    let g : Generation := { number := 1, loadedAt := 0, ontologies := .ofList [("a/b", ⟨"1", 0⟩)] }
    let registry : Registry := { bases := #[slashed] }
    let unreadable : HttpRequest := { addingDogs with body := "dogs".toUTF8.toList }
    ∃ t, Router.build Route.ofKnowledgeBases = .ok t ∧
      let f : Front := { router := t.withShutdown }
      let run := f.serveAll registry [(some g, addingDogs)]
      let served := run.2.1.serve (some g) run.2.2 unreadable
      f.BuiltFrom Route.ofKnowledgeBases ∧ addingDogs.KeptFor Route.ofKnowledgeBases ∧
        registry.get? 0 = some slashed ∧ (run.1.map fun x => x.response.status) = [200] ∧
        (∃ kb, run.2.2.get? 0 = some kb ∧ kb.axioms = dogs) ∧
        unreadable.KeptFor Route.ofKnowledgeBases ∧ served.1.status ≠ 200 ∧
        run.2.2.Untouched served.2.2 := by
  intro g registry unreadable
  have made : Router.build Route.ofKnowledgeBases = .ok _ :=
    Router.build_ok (by decide) (by simp [Route.ofKnowledgeBases, servedMethods])
  refine ⟨_, made, ?_⟩
  intro f run served
  have built : f.BuiltFrom Route.ofKnowledgeBases := ⟨_, made, .inr rfl⟩
  have ours (q : HttpRequest) : q.KeptFor Route.ofKnowledgeBases :=
    fun r member other => absurd member other
  have held : registry.get? 0 = some slashed := rfl
  have known : g.find "a/b" = .ok 0 := by
    rw [Generation.find, show g.ontologies.get? "a/b" = some ⟨"1", 0⟩ from
      Table.get?_insert_self "a/b" _ ∅]
  have first : (f.serve (some g) registry addingDogs).1.status = 200 :=
    status_addingDogs ⟨built, fun _ => rfl⟩ known held
  obtain ⟨law, holds⟩ :=
    confined_after built [(some g, addingDogs)] (fun p _ => ours p.2) registry
  obtain ⟨bs, kb, took, held', axioms, -⟩ := holds 0 slashed held
  have batches : bs = [⟨dogs, ∅⟩] := by
    cases took with
    | other other rest => exact absurd ⟨first, "a/b", g, updates_addingDogs, rfl, known⟩ other
    | update updates read rest =>
      cases rest
      cases batch_addingDogs.symm.trans read
      rfl
  have confined := law (some g) unreadable (ours _)
  have refused : served.1.status ≠ 200 := fun answered => by
    obtain ⟨_, _, b, _, _, _, _, _, read, -⟩ := confined.updated "a/b" updates_addingDogs answered
    have garbled : unreadable.batch.isOk = false := by cbv
    rw [read] at garbled
    cases garbled
  refine ⟨built, ours _, held, by rw [← first]; rfl, ⟨kb, held', ?_⟩, ours _, refused,
    confined.refused refused⟩
  rw [axioms, batches]
  decide

end Front

end OntologyService
