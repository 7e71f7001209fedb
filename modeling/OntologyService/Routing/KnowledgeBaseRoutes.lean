import OntologyService.Routing.Router

/-!
# The routes of the service

What every instance of the service answers:

* `GET /health`: that it is up, and with what;
* `GET /ontologies`: the listing of the ontologies;
* `POST /ontologies/{name}/query`, `/entails`, `/explain` and `/update`: the calls of a knowledge
  base.

A call first looks for the knowledge base, then reads the body, then calls.
-/

namespace OntologyService

/-- The version that the service reports. -/
def serviceVersion : String := "0.3.0"

namespace Route

/-- The knowledge base that a request names. -/
def base (r : RouteRequest) : Except ServiceError BaseId := do
  let name ← r.param "name"
  let g ← r.generation
  match g.find name with
  | .ok id => .ok id
  | .error e => .error (.reasoning e)

/-- Answers a call to the knowledge base that a request names. -/
def calling {α : Type} (d : Decoder α) (call : α → KnowledgeBase.Call)
    (write : KnowledgeBase.Answer → Json) : Handler := fun r registry =>
  match base r with
  | .error e => (.failure e, registry)
  | .ok id =>
    match r.decodeBody d with
    | .error e => (.failure e, registry)
    | .ok body =>
      match registry.get? id with
      | none => (.crash, registry)
      | some kb =>
        match kb.serve (call body) with
        | (.ok a, kb) => (.answer (.json 200 (write a)), registry.set id kb)
        | (.error e, kb) => (.failure (.reasoning e), registry.set id kb)

/-- The body of the answer to a call. -/
def writeAnswer : KnowledgeBase.Answer → Json
  | .nodes ns => NodeSet.toJson ns
  | .truth entailed => EntailsResponse.toJson ⟨entailed⟩
  | .justifications es => ExplainResponse.toJson ⟨es⟩
  | .summary s => s.toJson
  | .done => .null

/-- Answers that the service is up. -/
def health : Handler := fun r registry =>
  (.ofExcept (r.generation.map fun g =>
    .json 200 (HealthResponse.toJson {
      status := "ok", version := serviceVersion, generation := g.number, loadedAt := g.loadedAt,
      ontologies := g.size })), registry)

/-- Answers with the listing of the ontologies. -/
def listing : Handler := fun r registry =>
  (.ofExcept (r.generation.map fun g =>
    .json 200 (OntologyListResponse.toJson ⟨g.summaries registry⟩)), registry)

/-- Answers a query. -/
def query : Handler := calling QueryRequest.decode (fun b => .query b.kind b.entity) writeAnswer

/-- Answers whether an axiom is entailed. -/
def entails : Handler := calling EntailsRequest.decode (fun b => .entailed b.statement) writeAnswer

/-- Answers with justifications. -/
def explain : Handler :=
  calling ExplainRequest.decode (fun b => .explain b.statement b.limit) writeAnswer

/-- Applies a batch. -/
def update : Handler :=
  calling UpdateRequest.decode (fun b => .update b.additions b.removals) writeAnswer

/-- The path pattern of an operation on an ontology. -/
def operationPath (operation : String) : String := "/ontologies/\x7bname\x7d/" ++ operation

/-- The routes that every instance answers. -/
def ofKnowledgeBases : List Route :=
  [⟨"GET", "/health", health⟩, ⟨"GET", "/ontologies", listing⟩,
   ⟨"POST", operationPath "query", query⟩, ⟨"POST", operationPath "entails", entails⟩,
   ⟨"POST", operationPath "explain", explain⟩, ⟨"POST", operationPath "update", update⟩]

end Route

end OntologyService
