import OntologyService.Http.Message
import OntologyService.Http.Percent
import OntologyService.Routing.Pattern

/-!
# Routes and routers

A `Route` says which handler answers a method on a path. A `Router` is built from routes, unless
two of them have the same method and path or one has a method that cannot be served. The path of
the administrative shutdown is reserved: no route may answer `GET` there, and the router gets an
endpoint of its own for it only when it serves a whole server.

`Router.find` is what a path and a method lead to. A `HEAD` request is served by the `GET` handler
of a path that has no handler of its own for it.

How a body that cannot be read is complained of comes from the library that reads JSON. The text
that stands for it here is not that of the library, and nothing depends on it.
-/

namespace OntologyService

/-- What a handler sees of a request. -/
structure RouteRequest where
  params : Table String String := ∅
  query : Table String String := ∅
  body : List UInt8 := []
  /-- The generation that was current when the request was dispatched. -/
  state : Option Generation := none

/-- What a handler comes to. -/
inductive Outcome where
  | answer (r : HttpResponse)
  | failure (e : ServiceError)
  | crash

/-- Answers a request, with the knowledge bases at hand. -/
abbrev Handler := RouteRequest → Registry → Outcome × Registry

/-- A handler for a method on a path. -/
structure Route where
  method : String
  path : String
  handler : Handler

/-- What a router has for a method on a path. -/
inductive Endpoint where
  | handler (h : Handler)
  /-- The administrative shutdown. -/
  | shutdown

namespace RouteRequest

/-- The generation that the request is answered from. -/
def generation (r : RouteRequest) : Except ServiceError Generation :=
  match r.state with
  | some g => .ok g
  | none => .error (.state .closed)

/-- A part of the path by its name. -/
def param (r : RouteRequest) (name : String) : Except ServiceError String :=
  match r.params.get? name with
  | some v => .ok v
  | none => .error (.request (.missingParam name))

/-- What the body says. An empty body says what an empty object says. -/
def decodeBody {α : Type} (r : RouteRequest) (d : Decoder α) : Except ServiceError α :=
  let body := if r.body.isEmpty then Utf8.encode ['\x7b', '\x7d'] else r.body
  match d.octets body with
  | some a => .ok a
  | none => .error (.request (.invalidBody "not a message of this endpoint"))

end RouteRequest

namespace Outcome

/-- The response that reports an outcome. -/
def response : Outcome → HttpResponse
  | answer r => r
  | failure e => .ofFailure e
  | crash => .ofCrash

/-- A response with the status that a handler gives it. HTTP has statuses of three digits only, and
a handler that comes to any other crashes. -/
def withStatus (r : HttpResponse) (status : Nat) : Outcome :=
  if 100 ≤ status ∧ status < 1000 then answer { r with status } else crash

/-- The outcome of something that may fail. -/
def ofExcept : Except ServiceError HttpResponse → Outcome
  | .ok r => answer r
  | .error e => failure e

end Outcome

/-- The path of the administrative shutdown. -/
def shutdownPath : String := "/admin/shutdown"

/-- The methods that a route may have. -/
def servedMethods : List String :=
  ["CONNECT", "DELETE", "GET", "HEAD", "OPTIONS", "PATCH", "POST", "PUT", "TRACE"]

/-- The endpoints of a path, in the order in which they were registered. -/
structure PathEntry where
  pattern : PathPattern
  /-- Whether the parts of the path are looked at. -/
  varies : Bool
  endpoints : List (String × Endpoint)

/-- What leads to which endpoint, by the text of the pattern. -/
structure Router where
  entries : Table String PathEntry := ∅

namespace Router

/-- The first route whose method and path an earlier one has. -/
def firstDuplicate? (seen : List (String × String)) : List Route → Option Route
  | [] => none
  | r :: rs =>
    if seen.contains (r.method, r.path) then some r
    else firstDuplicate? ((r.method, r.path) :: seen) rs

/-- Registers an endpoint behind the others of its path. -/
def register (t : Router) (method path : String) (e : Endpoint) : Router :=
  let entry := (t.entries.get? path).getD
    { pattern := .ofString path, varies := path.contains '\x7b', endpoints := [] }
  { t with
    entries := t.entries.insert path
      { entry with endpoints := entry.endpoints ++ [(method, e)] } }

/-- The first route, path by path, whose method cannot be served. -/
def firstUnsupported? (routes : List Route) : Option Route :=
  let byPath := routes.mergeSort fun r s => decide (Ranked.cmp r.path s.path ≠ .gt)
  byPath.find? fun r => !servedMethods.contains r.method

/-- The router for some routes. -/
def build (routes : List Route) : Except ServerError Router :=
  match firstDuplicate? [("GET", shutdownPath)] routes with
  | some r => .error (.duplicateRoute r.method r.path)
  | none =>
    match firstUnsupported? routes with
    | some r => .error (.unsupportedMethod r.method r.path)
    | none => .ok (routes.foldl (fun t r => t.register r.method r.path (.handler r.handler)) {})

/-- The router with the administrative shutdown. -/
def withShutdown (t : Router) : Router := t.register "GET" shutdownPath .shutdown

/-- The entry that a path leads to, with the parts of the path as they are written. -/
def entry? (t : Router) (path : String) : Option (PathEntry × List (String × String)) :=
  t.entries.values.foldl (fun best e =>
    match e.pattern.match? path.toList with
    | none => best
    | some parts =>
      match best with
      | none => some (e, parts)
      | some (b, _) => if e.pattern.goesBefore b.pattern then some (e, parts) else best) none

/-- The endpoint that answers a method. -/
def PathEntry.endpoint? (e : PathEntry) (method : String) : Option Endpoint :=
  match e.endpoints.find? fun p => decide (p.1 = method) with
  | some p => some p.2
  | none =>
    if method = "HEAD" then
      (e.endpoints.find? fun p => decide (p.1 = "GET")).map Prod.snd
    else none

/-- The methods of a path, in the order in which they were registered. -/
def PathEntry.allow (e : PathEntry) : List String :=
  e.endpoints.foldl (fun allow p =>
    (if p.1 = "GET" then ["GET", "HEAD"] else [p.1]).foldl
      (fun allow m => if allow.contains m then allow else allow ++ [m]) allow) []

/-- Where a method and a path lead. -/
inductive Destination where
  | nowhere
  /-- The path has other methods. -/
  | otherMethods (allow : List String)
  /-- A part of the path is not UTF-8. -/
  | unreadable (name : String)
  | endpoint (e : Endpoint) (params : Table String String)

/-- A part of a path as text, or its name if it is none. -/
def readParam (part : String × String) : Except String (String × String) :=
  match Percent.decodeText? part.2 with
  | some text => .ok (part.1, text)
  | none => .error part.1

/-- The parts of a path as text, or the name of the first that is none. -/
def readParams (parts : List (String × String)) : Except String (Table String String) :=
  (parts.mapM readParam).map Table.ofList

/-- Where a method and a path lead. -/
def find (t : Router) (method path : String) : Destination :=
  match t.entry? path with
  | none => .nowhere
  | some (e, parts) =>
    match PathEntry.endpoint? e method with
    | none => .otherMethods (PathEntry.allow e)
    | some endpoint =>
      match endpoint, e.varies with
      | .handler h, true =>
        match readParams parts with
        | .ok params => .endpoint (.handler h) params
        | .error name => .unreadable name
      | endpoint, _ => .endpoint endpoint ∅

end Router

end OntologyService
