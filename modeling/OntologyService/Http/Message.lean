import OntologyService.Json.Printer
import OntologyService.Wire.Messages

/-!
# HTTP messages

What of a request and of a response matters here. A request's path is kept as it is written, and
its query string apart from it; whatever follows a number sign belongs to neither.

`HttpResponse.answering` is what HTTP makes of a response in the end: the answer to a `HEAD`
request has no body, nor has a successful answer to a `CONNECT` request.
-/

namespace OntologyService

/-- A request as it arrives. -/
structure HttpRequest where
  method : String
  /-- The path as it is written. -/
  path : String
  query : String := ""
  body : List UInt8 := []

namespace HttpRequest

/-- The request for a target: a path that a query string may follow. -/
def ofTarget (method target : String) (body : List UInt8) : HttpRequest :=
  let target := target.toList.takeWhile fun c => decide (c ≠ '#')
  let path := target.takeWhile fun c => decide (c ≠ '?')
  { method, path := String.ofList path, query := String.ofList (target.drop (path.length + 1)), body }

end HttpRequest

/-- A response. -/
structure HttpResponse where
  status : Nat
  contentType : Option String := none
  /-- The methods that the path has, where the request's is not one of them. -/
  allow : List String := []
  body : List UInt8 := []
deriving DecidableEq

namespace HttpResponse

/-- A response without a body. -/
def empty (status : Nat) : HttpResponse := { status, contentType := some "text/plain" }

/-- A response whose body is a JSON value. -/
def json (status : Nat) (j : Json) : HttpResponse :=
  { status, contentType := some "application/json", body := Utf8.encode j.print }

/-- The report of a failure. -/
def ofFailure (e : ServiceError) : HttpResponse := json e.httpStatus e.body.toJson

/-- The report of a handler that crashed. -/
def ofCrash : HttpResponse :=
  json 500 (ErrorBody.toJson ⟨internalCode, "handler panicked"⟩)

/-- The response as the answer to a request with the method. -/
def answering (r : HttpResponse) (method : String) : HttpResponse :=
  if method = "HEAD" ∨ (method = "CONNECT" ∧ 200 ≤ r.status ∧ r.status < 300) then
    { r with body := [] }
  else r

end HttpResponse

end OntologyService
