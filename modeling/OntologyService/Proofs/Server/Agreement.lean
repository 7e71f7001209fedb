import Mathlib
import OntologyService.Proofs.Admission.Coverage
import OntologyService.Proofs.Http.Percent
import OntologyService.Proofs.KnowledgeBase.History
import OntologyService.Proofs.Routing.Operations
import OntologyService.Proofs.Wire.Nesting

/-!
# Calls from afar

A call of a knowledge base goes over the wire as a message: the name of an operation, a JSON value
that is posted to its route, and a decoder for what comes back (`Message`). `Tells` says when a
response stands for the outcome of a call: it has the answer, to be read with that decoder, or the
status and the report of the failure.

**The law** (`serve_agrees`): a service that takes requests answers a message with a response that
tells what the knowledge base itself answers, and leaves the knowledge base as the call itself does.
Four parts come together in it. The path leads to the handler of the operation
(`Router.find_operation`), and a handler that is found is run (`Front.serve_of_find`); what was
written of the request, and of the answer, is read back (`WireType.octets_written`); and in between
a handler does nothing but call (`tells_calling`).

Messages have room for numbers of 64 bits only, and `Call.Fits` says so of a call. What an update
counts fits if its batches do: `fits_update`.
-/

namespace OntologyService

namespace KnowledgeBase

/-! ## Messages -/

/-- How a call goes over the wire: the operation, what is posted to its route, and how the answer is
read. -/
structure Message where
  operation : String
  body : Json
  answer : Decoder Answer

/-- The message of a call. A service is not told to close a knowledge base. -/
def Call.message? : Call → Option Message
  | .query kind e => some {
      operation := "query", body := QueryRequest.toJson ⟨kind, e⟩
      answer := fun room j => (NodeSet.decode room j).map .nodes }
  | .entailed a => some {
      operation := "entails", body := EntailsRequest.toJson ⟨a⟩
      answer := fun room j => (EntailsResponse.decode room j).map fun r => .truth r.entailed }
  | .explain a limit => some {
      operation := "explain", body := ExplainRequest.toJson ⟨a, limit⟩
      answer := fun room j =>
        (ExplainResponse.decode room j).map fun r => .justifications r.justifications }
  | .update additions removals => some {
      operation := "update", body := UpdateRequest.toJson ⟨additions, removals⟩
      answer := fun room j => (UpdateSummary.decode room j).map .summary }
  | .close => none

/-- The numbers of a call, and those of its answer, are numbers of 64 bits. -/
def Call.Fits (kb : KnowledgeBase) : Call → Prop
  | .query _ _ | .entailed _ | .close => True
  | .explain _ limit => limit < UInt64.size
  | .update additions removals =>
    additions.size < UInt64.size ∧ removals.size < UInt64.size ∧ kb.revision + 1 < UInt64.size

/-- **The request for a message**, about the ontology of a name. The name is written in the path in
whatever way is read as the name. -/
structure Message.Posted (m : Message) (name : String) (q : HttpRequest) : Prop where
  method : q.method = "POST"
  path : ∃ segment, '/' ∉ segment.toList ∧ Percent.decodeText? segment = some name ∧
    q.path = Client.operationPath segment m.operation
  body : q.body = Utf8.encode m.body.print

/-- **A response tells the outcome of a call**: an answer that is read as it was given, or the
status of a failure with its identifier and its wording. -/
def Message.Tells (m : Message) (r : HttpResponse) : Except ReasoningError Answer → Prop
  | .ok a => r.status = 200 ∧ m.answer.octets r.body = some a
  | .error e =>
    r.status = e.httpStatus ∧ ErrorBody.decode.octets r.body = some ⟨e.code, e.message⟩

variable {kb : KnowledgeBase} {c : Call} {m : Message}

/-! ## Reading and writing at the handler -/

/-- Octets are read as a function of what they are read as. -/
theorem octets_map {α β : Type} {d : Decoder α} {bytes : List UInt8} {a : α}
    (read : d.octets bytes = some a) (f : α → β) :
    Decoder.octets (fun room j => (d room j).map f) bytes = some (f a) := by
  obtain ⟨j, spelled, decoded⟩ := Option.bind_eq_some_iff.1 read
  rw [Decoder.octets, spelled, Option.bind_some, decoded]
  rfl

/-- A body that can be read is not empty, so nothing else is read in its place. -/
theorem decodeBody_of_octets {α : Type} {d : Decoder α} {r : RouteRequest} {a : α}
    (read : d.octets r.body = some a) : r.decodeBody d = .ok a := by
  have filled : r.body.isEmpty = false := by
    cases body : r.body with
    | cons _ _ => rfl
    | nil =>
      rw [body] at read
      obtain ⟨j, spelled, -⟩ := Option.bind_eq_some_iff.1 read
      cases spelled
  rw [RouteRequest.decodeBody, filled, if_neg Bool.false_ne_true, read]

theorem exists_of_map_eq_ok {ε α β : Type} {x : Except ε α} {f : α → β} {b : β}
    (mapped : x.map f = .ok b) : ∃ a, x = .ok a ∧ f a = b := by
  cases x with
  | error e => cases mapped
  | ok a => exact ⟨a, rfl, Except.ok.inj mapped⟩

/-- The report of a failure is read as its identifier and its wording. -/
theorem octets_failure (e : ReasoningError) :
    ErrorBody.decode.octets (HttpResponse.ofFailure (.reasoning e)).body
      = some ⟨e.code, e.message⟩ :=
  WireType.octets_written (t := .errorBody) WireType.noConfusion trivial

/-- **A handler calls** the knowledge base that the request names, and tells what it answers: the
request and the answer are of types that are read back as they were written. -/
theorem tells_calling {t u : WireType} (flat : t ≠ .expression) (flat' : u ≠ .expression)
    {call : t.Carrier → Call} {answer : u.Carrier → Answer} {v : t.Carrier}
    (reads : m.answer = fun room j => (u.codec.decode room j).map answer) (fits : t.codec.Fits v)
    (written : ∀ a, (kb.serve (call v)).1 = .ok a →
      ∃ w, u.codec.Fits w ∧ answer w = a ∧ Route.writeAnswer a = u.codec.write w)
    {r : RouteRequest} {registry : Registry} {id : BaseId} (base : Route.base r = .ok id)
    (held : registry.get? id = some kb) (body : r.body = Utf8.encode (t.codec.write v).print) :
    m.Tells (Route.calling t.codec.decode call Route.writeAnswer r registry).1.response
        (kb.serve (call v)).1 ∧
      (Route.calling t.codec.decode call Route.writeAnswer r registry).2
        = registry.set id (kb.serve (call v)).2 := by
  have read : r.decodeBody t.codec.decode = .ok v :=
    decodeBody_of_octets (body ▸ WireType.octets_written flat fits)
  rw [Route.calling, base]
  simp only [read, held]
  generalize kb.serve (call v) = served at written ⊢
  obtain ⟨outcome, kb'⟩ := served
  cases outcome with
  | error e => exact ⟨⟨rfl, octets_failure e⟩, rfl⟩
  | ok a =>
    obtain ⟨w, fits, rfl, same⟩ := written a rfl
    refine ⟨⟨rfl, ?_⟩, rfl⟩
    rw [reads]
    show Decoder.octets _ (Utf8.encode (Route.writeAnswer (answer w)).print) = _
    rw [same]
    exact octets_map (WireType.octets_written flat' fits) answer

/-- What an update did fits into a message if the update does. -/
theorem fits_update {additions removals : AxiomSet} {s : UpdateSummary}
    (fits : (Call.update additions removals).Fits kb)
    (updated : (kb.update additions removals).1 = .ok s) : s.Fits := by
  obtain ⟨few, few', early⟩ := fits
  obtain ⟨live, valid⟩ := of_update_eq_ok updated
  obtain ⟨answer, -, revision, -⟩ := update_shows live valid
  cases updated.symm.trans answer
  have added : (additions.sdiff kb.axioms).size ≤ additions.size :=
    SortedSet.size_le_of_subset fun _ ha => (SortedSet.mem_sdiff.1 ha).1
  have removed : (removals.inter (kb.axioms ∪ additions)).size ≤ removals.size :=
    SortedSet.size_le_of_subset fun _ ha => (SortedSet.mem_inter.1 ha).1
  refine ⟨added.trans_lt few, removed.trans_lt few', ?_⟩
  show (kb.update additions removals).2.revision < UInt64.size
  rw [revision]
  split <;> omega

/-- The name of an operation is written without braces. -/
theorem spelled_operation (sent : c.message? = some m) :
    PathPattern.Spelled m.operation.toList := by
  cases c with
  | close => cases sent
  | query kind e => cases sent; exact (by decide : PathPattern.Spelled "query".toList)
  | entailed a => cases sent; exact (by decide : PathPattern.Spelled "entails".toList)
  | explain a limit => cases sent; exact (by decide : PathPattern.Spelled "explain".toList)
  | update additions removals => cases sent; exact (by decide : PathPattern.Spelled "update".toList)

/-- **A message is handled** as the call that it is of. -/
theorem exists_handler (sent : c.message? = some m) (fits : c.Fits kb) :
    ∃ handler, ⟨"POST", Route.operationPath m.operation, handler⟩ ∈ Route.ofKnowledgeBases ∧
      ∀ (r : RouteRequest) (registry : Registry) (id : BaseId), Route.base r = .ok id →
        registry.get? id = some kb → r.body = Utf8.encode m.body.print →
          m.Tells (handler r registry).1.response (kb.serve c).1 ∧
            (handler r registry).2 = registry.set id (kb.serve c).2 := by
  cases c with
  | close => cases sent
  | query kind e =>
    cases sent
    refine ⟨Route.query, by simp [Route.ofKnowledgeBases], fun r registry id => ?_⟩
    refine tells_calling (t := .queryRequest) (u := .nodeSet) (v := ⟨kind, e⟩) (by decide)
      (by decide) rfl trivial fun a answered => ?_
    obtain ⟨ns, -, rfl⟩ := exists_of_map_eq_ok answered
    exact ⟨ns, trivial, rfl, rfl⟩
  | entailed x =>
    cases sent
    refine ⟨Route.entails, by simp [Route.ofKnowledgeBases], fun r registry id => ?_⟩
    refine tells_calling (t := .entailsRequest) (u := .entailsResponse) (v := ⟨x⟩) (by decide)
      (by decide) rfl trivial fun a answered => ?_
    obtain ⟨b, -, rfl⟩ := exists_of_map_eq_ok answered
    exact ⟨⟨b⟩, trivial, rfl, rfl⟩
  | explain x limit =>
    cases sent
    refine ⟨Route.explain, by simp [Route.ofKnowledgeBases], fun r registry id => ?_⟩
    refine tells_calling (t := .explainRequest) (u := .explainResponse) (v := ⟨x, limit⟩)
      (by decide) (by decide) rfl fits fun a answered => ?_
    obtain ⟨es, -, rfl⟩ := exists_of_map_eq_ok answered
    exact ⟨⟨es⟩, trivial, rfl, rfl⟩
  | update additions removals =>
    cases sent
    refine ⟨Route.update, by simp [Route.ofKnowledgeBases], fun r registry id => ?_⟩
    refine tells_calling (t := .updateRequest) (u := .updateSummary) (v := ⟨additions, removals⟩)
      (by decide) (by decide) rfl trivial fun a answered => ?_
    obtain ⟨s, updated, rfl⟩ := exists_of_map_eq_ok answered
    exact ⟨s, fits_update fits updated, rfl, rfl⟩

end KnowledgeBase

/-! ## Through the front -/

namespace Front

variable {f : Front} {q : HttpRequest} {h : Handler} {params : Table String String}

/-- A request that posts gets the response as it is. -/
theorem answering_post (r : HttpResponse) : r.answering "POST" = r :=
  if_neg (by simp)

/-- What a request to a handler starts. -/
theorem arrive_of_find (found : f.router.find q.method q.path = .endpoint (.handler h) params)
    (isOpen : f.gated = true → f.gate.requested = false) (state : Option Generation) :
    ∃ gate guardId, f.arrive state q = (.started f.next, ({ f with gate } : Front).start q.method h
      { params, query := Percent.queryFields q.query, body := q.body, state } guardId) := by
  unfold arrive
  split
  · exact ⟨f.gate, none, dispatch_of_find found state none⟩
  · next passes =>
    have gated : f.gated = true := by
      cases gated : f.gated with
      | true => rfl
      | false => simp [gated] at passes
    rw [Gate.enter_of_isOpen (isOpen gated)]
    exact ⟨f.gate.entered, some f.gate.next,
      dispatch_of_find (f := { f with gate := f.gate.entered }) found state _⟩

/-- Letting go of a guard does not touch the routes. -/
theorem letGo_router (f : Front) (guardId : Option Nat) : (f.letGo guardId).router = f.router := by
  cases guardId <;> rfl

/-- A handler that was started answers. -/
theorem serve_of_started {state : Option Generation} {gate : Gate} {request : RouteRequest}
    {guardId : Option Nat} (started : f.arrive state q = (.started f.next,
      ({ f with gate } : Front).start q.method h request guardId)) (registry : Registry) :
    (f.serve state registry q).1 = (h request registry).1.response.answering q.method ∧
      (f.serve state registry q).2.2 = (h request registry).2 ∧
      (f.serve state registry q).2.1.router = f.router := by
  unfold serve
  rw [started]
  simp only [finish, start, List.find?_cons, decide_true]
  exact ⟨rfl, rfl, letGo_router _ guardId⟩

/-- **A handler that a request leads to is run**, and its response is the answer. -/
theorem serve_of_find (found : f.router.find q.method q.path = .endpoint (.handler h) params)
    (isOpen : f.gated = true → f.gate.requested = false) (state : Option Generation)
    (registry : Registry) :
    let done := h { params, query := Percent.queryFields q.query, body := q.body, state } registry
    (f.serve state registry q).1 = done.1.response.answering q.method ∧
      (f.serve state registry q).2.2 = done.2 := by
  obtain ⟨gate, guardId, started⟩ := arrive_of_find found isOpen state
  obtain ⟨answer, left, -⟩ := serve_of_started started registry
  exact ⟨answer, left⟩

/-- Its router was built from the routes, and may have the endpoint of the shutdown besides. -/
def BuiltFrom (f : Front) (routes : List Route) : Prop :=
  ∃ t, Router.build routes = .ok t ∧ (f.router = t ∨ f.router = t.withShutdown)

/-- The rows of such a router are those of its routes, with that of the shutdown or without. -/
theorem BuiltFrom.rows {routes : List Route} (built : f.BuiltFrom routes) : ∃ rows,
    f.router.Holds rows ∧ Router.Distinct rows ∧ routes.map Row.ofRoute ⊆ rows ∧
      rows ⊆ routes.map Row.ofRoute ++ [.shutdown] := by
  obtain ⟨t, built, router⟩ := built
  have distinct := Router.distinct_build built
  rcases router with bare | whole
  · refine ⟨_, bare ▸ Router.holds_build built, ?_, List.Subset.refl _,
      List.subset_append_left _ _⟩
    exact distinct.sublist ((List.sublist_append_left _ _).map _)
  · exact ⟨_, whole ▸ (Router.holds_build built).withShutdown, distinct,
      List.subset_append_left _ _, List.Subset.refl _⟩

/-- **A post to the path of an operation** leads to its handler, with the name of the ontology.
Routes that a server has beside those of the service are to keep off the path. -/
theorem BuiltFrom.find_operation {routes : List Route} (built : f.BuiltFrom routes)
    (ours : Route.ofKnowledgeBases ⊆ routes) {operation segment name : String} {handler : Handler}
    (listed : ⟨"POST", Route.operationPath operation, handler⟩ ∈ Route.ofKnowledgeBases)
    (spelled : PathPattern.Spelled operation.toList) (single : '/' ∉ segment.toList)
    (decoded : Percent.decodeText? segment = some name)
    (apart : ∀ r ∈ routes, r.path ∉ Route.ofKnowledgeBases.map Route.path →
      (PathPattern.ofString r.path).match? (Client.operationPath segment operation).toList = none) :
    f.router.find "POST" (Client.operationPath segment operation)
      = .endpoint (.handler handler) (Table.ofList [("name", name)]) := by
  obtain ⟨rows, holds, distinct, fromRoutes, toRoutes⟩ := built.rows
  have row := fromRoutes (List.mem_map_of_mem (f := Row.ofRoute) (ours listed))
  refine Router.find_operation holds distinct row spelled single decoded fun r member other => ?_
  rcases List.mem_append.1 (toRoutes member) with ofTable | ofServer
  · obtain ⟨route, inTable, rfl⟩ := List.mem_map.1 ofTable
    by_cases ofService : route.path ∈ Route.ofKnowledgeBases.map Route.path
    · exact Route.match?_of_other ofService other single
    · exact apart route inTable ofService
  · rw [List.mem_singleton.1 ofServer]
    exact Route.match?_of_literal (by decide) (by decide)

/-- **A service that takes requests**: its router was built from routes, and no shutdown was
requested. -/
structure Serves (f : Front) (routes : List Route) : Prop where
  router : ∃ t, Router.build routes = .ok t ∧ (f.router = t ∨ f.router = t.withShutdown)
  isOpen : f.gated = true → f.gate.requested = false

/-- **A message leads to a handler** that calls the knowledge base and tells what it answers. Routes
that a server has beside those of the service are to keep off the path. -/
theorem Serves.exists_found {routes : List Route} (serves : f.Serves routes)
    (ours : Route.ofKnowledgeBases ⊆ routes) {name : String} {kb : KnowledgeBase}
    {c : KnowledgeBase.Call} {m : KnowledgeBase.Message} (sent : c.message? = some m)
    (fits : c.Fits kb) (posted : m.Posted name q)
    (apart : ∀ r ∈ routes, r.path ∉ Route.ofKnowledgeBases.map Route.path →
      (PathPattern.ofString r.path).match? q.path.toList = none) :
    ∃ handler, f.router.find q.method q.path
        = .endpoint (.handler handler) (Table.ofList [("name", name)]) ∧
      ∀ (r : RouteRequest) (registry : Registry) (id : BaseId), Route.base r = .ok id →
        registry.get? id = some kb → r.body = q.body →
          m.Tells (handler r registry).1.response (kb.serve c).1 ∧
            (handler r registry).2 = registry.set id (kb.serve c).2 := by
  obtain ⟨handler, listed, handles⟩ := KnowledgeBase.exists_handler sent fits
  obtain ⟨segment, single, decoded, path⟩ := posted.path
  have built : f.BuiltFrom routes := serves.router
  have found := built.find_operation ours listed (KnowledgeBase.spelled_operation sent) single
    decoded (path ▸ apart)
  rw [← path, ← posted.method] at found
  exact ⟨handler, found, fun r registry id base held body =>
    handles r registry id base held (body.trans posted.body)⟩

/-- **The law of remote calls.** For a generation of an open holder, an ontology of it and a message
about this ontology: the response tells what the knowledge base answers to the call, and the
knowledge base is left as the call leaves it. Routes that a server has beside those of the service
are to keep off the path. -/
theorem serve_agrees {routes : List Route} (serves : f.Serves routes)
    (ours : Route.ofKnowledgeBases ⊆ routes) {holder : Holder} {g : Generation}
    (current : holder.current = some g) {name : String} {id : BaseId} (known : g.find name = .ok id)
    {registry : Registry} {kb : KnowledgeBase} (held : registry.get? id = some kb)
    {c : KnowledgeBase.Call} {m : KnowledgeBase.Message} (sent : c.message? = some m)
    (fits : c.Fits kb) (posted : m.Posted name q)
    (apart : ∀ r ∈ routes, r.path ∉ Route.ofKnowledgeBases.map Route.path →
      (PathPattern.ofString r.path).match? q.path.toList = none) :
    m.Tells (f.serve holder.current registry q).1 (kb.serve c).1 ∧
      (f.serve holder.current registry q).2.2 = registry.set id (kb.serve c).2 := by
  obtain ⟨handler, found, handles⟩ := serves.exists_found ours sent fits posted apart
  obtain ⟨response, left⟩ := serve_of_find found serves.isOpen holder.current registry
  rw [response, left, posted.method, answering_post]
  exact handles _ registry id (Route.base_eq rfl current known) held rfl

/-- A knowledge base without axioms, of an ontology that has a slash in its name. -/
def slashed : KnowledgeBase :=
  { name := "a/b", reasoner := .new "a/b", explainer := { policy := .forward } }

/-- Dogs are animals. -/
def dogs : AxiomSet := .ofList [.subClassOf ⟨"Dog"⟩ ⟨"Animal"⟩]

/-- The base with a slash in its name takes the update. -/
theorem slashed_updated :
    (slashed.serve (.update dogs ∅)).1 = .ok (.summary ⟨1, 0, 1⟩) := by cbv

/-- A client that writes the slash with its digits is told that its batch was taken in. -/
theorem serve_agrees_slashed :
    let g : Generation := { number := 1, loadedAt := 0, ontologies := .ofList [("a/b", ⟨"1", 0⟩)] }
    let holder : Holder := { current := some g, policy := .forward }
    let registry : Registry := { bases := #[slashed] }
    let c : KnowledgeBase.Call := .update dogs ∅
    ∃ t m, Router.build Route.ofKnowledgeBases = .ok t ∧ c.message? = some m ∧ c.Fits slashed ∧
      let f : Front := { router := t.withShutdown }
      let q : HttpRequest :=
        { method := "POST", path := "/ontologies/a%2Fb/update", body := Utf8.encode m.body.print }
      f.Serves Route.ofKnowledgeBases ∧ g.find "a/b" = .ok 0 ∧ registry.get? 0 = some slashed ∧
        m.Posted "a/b" q ∧ (f.serve holder.current registry q).1.status = 200 ∧
        m.answer.octets (f.serve holder.current registry q).1.body = some (.summary ⟨1, 0, 1⟩) ∧
        (f.serve holder.current registry q).2.2 = registry.set 0 (slashed.serve c).2 := by
  intro g holder registry c
  have built : Router.build Route.ofKnowledgeBases = .ok _ :=
    Router.build_ok (by decide) (by simp [Route.ofKnowledgeBases, servedMethods])
  have fits : c.Fits slashed := ⟨by decide, by decide, by decide⟩
  refine ⟨_, _, built, rfl, fits, ?_⟩
  intro f q
  have serves : f.Serves Route.ofKnowledgeBases := ⟨⟨_, built, .inr rfl⟩, fun _ => rfl⟩
  have known : g.find "a/b" = .ok 0 := by
    rw [Generation.find, show g.ontologies.get? "a/b" = some ⟨"1", 0⟩ from
      Table.get?_insert_self "a/b" _ ∅]
  have current : holder.current = some g := rfl
  have held : registry.get? 0 = some slashed := rfl
  have posted : KnowledgeBase.Message.Posted _ "a/b" q :=
    ⟨rfl, ⟨"a%2Fb", by decide, by cbv, rfl⟩, rfl⟩
  obtain ⟨told, left⟩ := serve_agrees serves (List.Subset.refl _) current known held
    (c := c) rfl fits posted fun r member other => absurd (List.mem_map_of_mem member) other
  rw [show (slashed.serve c).1 = _ from slashed_updated] at told
  exact ⟨serves, known, held, posted, told.1, told.2, left⟩

end Front

end OntologyService
