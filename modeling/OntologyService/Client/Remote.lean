import OntologyService.Client.Address
import OntologyService.Http.Message

/-!
# Calling a service from afar

A client turns calls into requests and responses into answers. The way to the service is a
`Transport`: a function that may fail for reasons of its own. A response with an error status
carries the report of a failure; anything else that is not what was asked for is a defect of the
other side.

A client checks nothing that the service checks.

How a defect of the other side is worded comes from the libraries that read JSON and carry requests.
The texts that stand for it here are not theirs, and nothing depends on them.
-/

namespace OntologyService

/-- Carries requests to a service. -/
abbrev Transport := HttpRequest → Except String HttpResponse

/-- A client of one ontology at a service. -/
structure Client where
  base : String
  ontology : String

namespace Client

variable {α : Type}

/-- The transport that finds nobody listening. -/
def unreachable : Transport := fun _ => .error "connection refused"

/-- The failure that an error status reports. -/
def failureOf (r : HttpResponse) : ClientError :=
  match ErrorBody.decode.octets r.body with
  | some b => .remote r.status b.code b.message
  | none => .response s!"status {r.status} without error body"

/-- The response to a request, unless it reports a failure. -/
def send (t : Transport) (q : HttpRequest) : Except ClientError HttpResponse :=
  match t q with
  | .error reason => .error (.request reason)
  | .ok r => if r.status < 400 then .ok r else .error (failureOf r)

/-- What the response to a request says. -/
def ask (t : Transport) (d : Decoder α) (q : HttpRequest) : Except ClientError α :=
  match send t q with
  | .error e => .error e
  | .ok r =>
    match d.octets r.body with
    | some a => .ok a
    | none => .error (.response "failed to parse JSON")

/-- The request that posts a message to an operation on the ontology. -/
def request (c : Client) (operation : String) (body : Json) : HttpRequest :=
  { method := "POST", path := url c.base (operationPath c.ontology operation)
    body := Utf8.encode body.print }

/-- What the response to an operation on the ontology says. -/
def post (c : Client) (t : Transport) (operation : String) (body : Json) (d : Decoder α) :
    Except ClientError α :=
  ask t d (c.request operation body)

/-- Whether the service is up, and with what. -/
def health (base : String) (t : Transport) : Except ClientError HealthResponse :=
  ask t HealthResponse.decode { method := "GET", path := url base "/health" }

/-- The listing of the ontologies. -/
def list (base : String) (t : Transport) : Except ClientError (List OntologySummary) :=
  (ask t OntologyListResponse.decode { method := "GET", path := url base "/ontologies" }).map
    OntologyListResponse.ontologies

/-- Asks the service to shut down. -/
def shutdown (base : String) (t : Transport) : Except ClientError Unit :=
  (send t { method := "GET", path := url base "/admin/shutdown" }).map fun _ => ()

/-- Answers a call as the knowledge base at the service does. Closing does nothing. -/
def serve (c : Client) (t : Transport) : KnowledgeBase.Call → Except ClientError KnowledgeBase.Answer
  | .query kind e =>
    (c.post t "query" (QueryRequest.toJson ⟨kind, e⟩) NodeSet.decode).map .nodes
  | .entailed a =>
    (c.post t "entails" (EntailsRequest.toJson ⟨a⟩) EntailsResponse.decode).map fun r =>
      .truth r.entailed
  | .explain a limit =>
    (c.post t "explain" (ExplainRequest.toJson ⟨a, limit⟩) ExplainResponse.decode).map fun r =>
      .justifications r.justifications
  | .update additions removals =>
    (c.post t "update" (UpdateRequest.toJson ⟨additions, removals⟩) UpdateSummary.decode).map
      .summary
  | .close => .ok .done

end Client

end OntologyService
