/-!
# Where a client finds the service

The base of every URL is kept without slashes at its end. An interface that stands for all of them
is no place to connect to, so a client of it connects to the loopback interface.

Names of ontologies go into paths as they are.
-/

namespace OntologyService

namespace Client

/-- A base without the slashes at its end. -/
def trimBase (url : String) : String :=
  String.ofList ((url.toList.reverse.dropWhile fun c => decide (c = '/')).reverse)

/-- The base for a host and a port. -/
def baseFor (host : String) (port : UInt16) : String :=
  let host := if host = "0.0.0.0" then "127.0.0.1" else host
  trimBase ("http://" ++ host ++ ":" ++ toString port.toNat)

/-- The path of an operation on an ontology. -/
def operationPath (name operation : String) : String := "/ontologies/" ++ name ++ "/" ++ operation

/-- The URL of a path. -/
def url (base path : String) : String := base ++ path

end Client

end OntologyService
