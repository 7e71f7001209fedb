import OntologyService.Admission.Gate
import OntologyService.Routing.Router

/-!
# The front of the service

Between the network and the handlers stand the gate and the router. A request is answered in two
steps, and anything may happen between them: `arrive` routes it and starts its handler, and
`finish` lets the handler return. A request that no handler answers is answered on arrival.

Every path but that of the administrative shutdown passes the gate. A request that was let in is
counted until its handler returns, also if the client goes away in the meantime, and once a
shutdown was requested every request is turned away, whether its path is known or not.
-/

namespace OntologyService

/-- A handler at work. -/
structure Running where
  id : Nat
  method : String
  handler : Handler
  request : RouteRequest
  /-- The guard that counts the request, unless the gate was not passed. -/
  guardId : Option Nat
  /-- Whether the client is still there. -/
  awaited : Bool := true

/-- What stands between the network and the handlers. -/
structure Front where
  router : Router
  /-- Whether requests pass the gate. -/
  gated : Bool := true
  gate : Gate := {}
  running : List Running := []
  /-- The number of the next handler to start. -/
  next : Nat := 0

/-- What becomes of a request on arrival. -/
inductive Arrival where
  | answered (r : HttpResponse)
  /-- The handler of this number was started. -/
  | started (id : Nat)

namespace Front

/-- Ends the request of a guard, if there is one. -/
def letGo (f : Front) (guardId : Option Nat) : Front :=
  match guardId with
  | none => f
  | some n => { f with gate := f.gate.end' n }

/-- Answers a request that was turned away. A path that is known for other methods says so. -/
def turnAway (f : Front) (q : HttpRequest) : HttpResponse :=
  let refusal := HttpResponse.ofFailure (.server .shuttingDown)
  match f.router.find q.method q.path with
  | .otherMethods allow => { refusal with allow }
  | _ => refusal

/-- Answers a request whose path has a part that is not UTF-8. -/
def unreadable (name : String) : HttpResponse :=
  { status := 400, contentType := some "text/plain; charset=utf-8"
    body := (String.toUTF8 ("Invalid URL: Invalid UTF-8 in \x60" ++ name ++ "\x60")).toList }

/-- The answer to a request for the administrative shutdown. -/
def shutdownAnswer : HttpResponse := { status := 202 }

/-- Takes a request where it leads, behind the gate. -/
def dispatch (f : Front) (state : Option Generation) (q : HttpRequest) (guardId : Option Nat) :
    Arrival × Front :=
  let answered (r : HttpResponse) (f : Front) : Arrival × Front :=
    (.answered (r.answering q.method), f.letGo guardId)
  match f.router.find q.method q.path with
  | .nowhere => answered { status := 404 } f
  | .otherMethods allow => answered { status := 405, allow } f
  | .unreadable name => answered (unreadable name) f
  | .endpoint .shutdown _ =>
    answered shutdownAnswer { f with gate := f.gate.requestShutdown.2 }
  | .endpoint (.handler handler) params =>
    let request := { params, query := Percent.queryFields q.query, body := q.body, state }
    (.started f.next,
      { f with
        running := { id := f.next, method := q.method, handler, request, guardId } :: f.running
        next := f.next + 1 })

/-- Takes in a request while the given generation is current, if there is one. -/
def arrive (f : Front) (state : Option Generation) (q : HttpRequest) : Arrival × Front :=
  if !f.gated || q.path = shutdownPath then f.dispatch state q none
  else
    match f.gate.enter with
    | (none, gate) => (.answered ((f.turnAway q).answering q.method), { f with gate })
    | (some n, gate) => { f with gate : Front }.dispatch state q (some n)

/-- Lets a handler return. Its response goes to the client if the client is still there. -/
def finish (f : Front) (registry : Registry) (id : Nat) :
    Option HttpResponse × Front × Registry :=
  match f.running.find? fun r => decide (r.id = id) with
  | none => (none, f, registry)
  | some r =>
    let (outcome, registry) := r.handler r.request registry
    let f := { f with running := f.running.filter fun s => decide (s.id ≠ id) }
    (if r.awaited then some (outcome.response.answering r.method) else none,
      f.letGo r.guardId, registry)

/-- Lets the client of a request go away. Its handler runs on. -/
def abandon (f : Front) (id : Nat) : Front :=
  { f with running := f.running.map fun r => if r.id = id then { r with awaited := false } else r }

/-- Takes in a request and lets its handler return at once. -/
def serve (f : Front) (state : Option Generation) (registry : Registry) (q : HttpRequest) :
    HttpResponse × Front × Registry :=
  match f.arrive state q with
  | (.answered r, f) => (r, f, registry)
  | (.started id, f) =>
    match f.finish registry id with
    | (some r, f, registry) => (r, f, registry)
    | (none, f, registry) => (.ofCrash, f, registry)

end Front

end OntologyService
