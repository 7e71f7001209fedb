import OntologyService.Failure.Reasoning

/-!
# Why the service refuses or fails

Every part of the service has its own type of causes, and `ServiceError` is their sum. A failed
start carries the failure that stopped it, which is why `ServiceError` is recursive and why
`causes` lists a chain: the texts below an error, outermost first.

`httpStatus` is the one place where causes become HTTP statuses. A status outside 100 to 999 is no
status, and is answered as 500.
-/

namespace OntologyService

/-- Why a recurring job was not scheduled. -/
inductive SchedulingError where
  | noRuntime (job : String)
  | zeroPeriod (job : String)
  | duplicateJob (job : String)
deriving DecidableEq

/-- What went wrong while something was being stopped. -/
inductive ShutdownError where
  | jobAlreadyStopped (job : String)
  | listener (reason : String)
  | listenerTimeout (secs : Nat)
deriving DecidableEq

/-- Why the server refuses, apart from a failed start. -/
inductive ServerError where
  | alreadyRunning
  | notRunning
  | shuttingDown
  /-- The address could not be bound; `io` is the operating system's own text. -/
  | bind (addr io : String)
  | duplicateRoute (method path : String)
  | unsupportedMethod (method path : String)
deriving DecidableEq

/-- Why an ontology source or one of its documents could not be read. -/
inductive SourceError where
  | io (path io : String)
  | parse (path reason : String)
deriving DecidableEq

/-- Why there is no state to look at. -/
inductive StateError where
  | closed
deriving DecidableEq

/-- Why a request could not be understood, or its answer not written. -/
inductive RequestError where
  | missingParam (name : String)
  | invalidBody (reason : String)
  | encode (reason : String)
deriving DecidableEq

/-- Why a configuration could not be read, written or accepted. -/
inductive ConfigError where
  | read (path io : String)
  | parse (path reason : String)
  | write (path io : String)
  | invalid (field reason : String)
deriving DecidableEq

/-- Why a call to a remote service failed. -/
inductive ClientError where
  | request (reason : String)
  | response (reason : String)
  | remote (status : Nat) (code reason : String)
deriving DecidableEq

/-- Any failure of the service. -/
inductive ServiceError where
  | reasoning (e : ReasoningError)
  | scheduling (e : SchedulingError)
  | shutdown (e : ShutdownError)
  | server (e : ServerError)
  /-- The service did not come up; `status` describes the failure as HTTP would. -/
  | start (status : Nat) (cause : ServiceError)
  | source (e : SourceError)
  | state (e : StateError)
  | request (e : RequestError)
  | config (e : ConfigError)
  | client (e : ClientError)
deriving DecidableEq

/-! ## Identifiers -/

/-- The identifier that clients match on. -/
def SchedulingError.code : SchedulingError → String
  | noRuntime _ => "schemad::scheduling::no_runtime"
  | zeroPeriod _ => "schemad::scheduling::zero_period"
  | duplicateJob _ => "schemad::scheduling::duplicate"

/-- The identifier that clients match on. -/
def ShutdownError.code : ShutdownError → String
  | jobAlreadyStopped _ => "schemad::shutdown::job_stopped"
  | listener _ => "schemad::shutdown::listener"
  | listenerTimeout _ => "schemad::shutdown::timeout"

/-- The identifier that clients match on. -/
def ServerError.code : ServerError → String
  | alreadyRunning => "schemad::server::already_running"
  | notRunning => "schemad::server::not_running"
  | shuttingDown => "schemad::server::shutting_down"
  | bind _ _ => "schemad::server::bind"
  | duplicateRoute _ _ => "schemad::server::duplicate_route"
  | unsupportedMethod _ _ => "schemad::server::method"

/-- The identifier that clients match on. -/
def SourceError.code : SourceError → String
  | io _ _ => "schemad::source::io"
  | parse _ _ => "schemad::source::parse"

/-- The identifier that clients match on. -/
def StateError.code : StateError → String
  | closed => "schemad::state::closed"

/-- The identifier that clients match on. -/
def RequestError.code : RequestError → String
  | missingParam _ => "schemad::request::missing_param"
  | invalidBody _ => "schemad::request::body"
  | encode _ => "schemad::request::encode"

/-- The identifier that clients match on. -/
def ConfigError.code : ConfigError → String
  | read _ _ => "schemad::config::read"
  | parse _ _ => "schemad::config::parse"
  | write _ _ => "schemad::config::write"
  | invalid _ _ => "schemad::config::invalid"

/-- The identifier that clients match on. -/
def ClientError.code : ClientError → String
  | request _ => "schemad::client::request"
  | response _ => "schemad::client::response"
  | remote _ _ _ => "schemad::client::remote"

/-- The identifier that clients match on. -/
def ServiceError.code : ServiceError → String
  | reasoning e => e.code
  | scheduling e => e.code
  | shutdown e => e.code
  | server e => e.code
  | start _ _ => "schemad::server::start"
  | source e => e.code
  | state e => e.code
  | request e => e.code
  | config e => e.code
  | client e => e.code

/-- The identifier of a failure that has no cause of its own, such as a handler that crashed. -/
def internalCode : String := "schemad::internal"

/-! ## Wording -/

/-- The cause in one sentence. -/
def SchedulingError.message : SchedulingError → String
  | noRuntime job => s!"no async runtime available to run job \"{job}\""
  | zeroPeriod job => s!"job \"{job}\" has a zero period"
  | duplicateJob job => s!"job \"{job}\" is already scheduled"

/-- The cause in one sentence. -/
def ShutdownError.message : ShutdownError → String
  | jobAlreadyStopped job => s!"job \"{job}\" had already stopped"
  | listener reason => s!"listener task failed: {reason}"
  | listenerTimeout secs => s!"listener did not stop within {secs}s"

/-- The cause in one sentence. -/
def ServerError.message : ServerError → String
  | alreadyRunning => "server is already running"
  | notRunning => "server is not running"
  | shuttingDown => "server is shutting down"
  | bind addr _ => s!"failed to bind {addr}"
  | duplicateRoute method path => s!"route {method} {path} is registered twice"
  | unsupportedMethod method path => s!"route {path} uses unsupported method {method}"

/-- The cause in one sentence. -/
def SourceError.message : SourceError → String
  | io path _ => s!"failed to read ontology source {path}"
  | parse path reason => s!"failed to parse ontology document {path}: {reason}"

/-- The cause in one sentence. -/
def StateError.message : StateError → String
  | closed => "server state has been closed"

/-- The cause in one sentence. -/
def RequestError.message : RequestError → String
  | missingParam name => s!"missing path parameter \"{name}\""
  | invalidBody reason => s!"invalid request body: {reason}"
  | encode reason => s!"failed to encode response: {reason}"

/-- The cause in one sentence. -/
def ConfigError.message : ConfigError → String
  | read path _ => s!"failed to read config: {path}"
  | parse path _ => s!"failed to parse config: {path}"
  | write path _ => s!"failed to write config: {path}"
  | invalid field reason => s!"invalid value for {field}: {reason}"

/-- The cause in one sentence. -/
def ClientError.message : ClientError → String
  | request reason => s!"remote request failed: {reason}"
  | response reason => s!"unexpected response from server: {reason}"
  | remote status code reason => s!"server answered {status}: {reason} [{code}]"

/-- The cause in one sentence. -/
def ServiceError.message : ServiceError → String
  | reasoning e => e.message
  | scheduling e => e.message
  | shutdown e => e.message
  | server e => e.message
  | start status _ => s!"failed to start service (status {status})"
  | source e => e.message
  | state e => e.message
  | request e => e.message
  | config e => e.message
  | client e => e.message

/-! ## Advice -/

/-- What the operator can do about it. -/
def SchedulingError.help : SchedulingError → String
  | noRuntime _ => "Recurring jobs must be scheduled from within a Tokio runtime."
  | zeroPeriod _ => "Set `update_interval_secs` to at least 1."
  | duplicateJob _ =>
    "Only one instance of a job identity may run. Cancel the existing one first."

/-- What the operator can do about it, where there is something to do. -/
def ShutdownError.help : ShutdownError → Option String
  | listenerTimeout _ =>
    some "Open connections were dropped. Raise `drain_timeout_secs` for slow requests."
  | jobAlreadyStopped _ | listener _ => none

/-- What the operator can do about it, where there is something to do. -/
def ServerError.help : ServerError → Option String
  | alreadyRunning => some "Call `stop()` before starting the server again."
  | shuttingDown => some "No new requests are accepted once shutdown begins."
  | bind _ _ =>
    some "Another process may be listening on this port. Pick another with `--port`."
  | duplicateRoute _ _ => some "Every (method, path) pair may be handled by exactly one handler."
  | notRunning | unsupportedMethod _ _ => none

/-- What the operator can do about it, where there is something to do. -/
def ServiceError.help : ServiceError → Option String
  | reasoning e => some e.help
  | scheduling e => some e.help
  | shutdown e => e.help
  | server e => e.help
  | start _ _ =>
    some "The listener may already be bound. Call `stop()` to release it before retrying."
  | source (.io _ _) => some "Check that the ontology directory exists and is readable."
  | source (.parse _ _) =>
    some "Documents are JSON objects of the form \x7b\"axioms\": [...]\x7d."
  | state .closed => some "The service is shutting down; no knowledge base is available."
  | request (.invalidBody _) =>
    some "The body must be a JSON document matching the endpoint's request type."
  | request _ => none
  | config (.read _ _) => some "Ensure the config file exists and is readable."
  | config (.parse _ _) => some "Check the TOML syntax in the config file."
  | config (.write _ _) => some "Ensure you have write permissions to the config directory."
  | config (.invalid _ _) => none
  | client (.request _) => some "Is schemad running?"
  | client (.response _) => some "Server version mismatch?"
  | client (.remote _ _ _) => none

/-- The texts below an error, outermost first. Only an operating system's text or the failure
behind a failed start stands below anything. -/
def ServiceError.causes : ServiceError → List String
  | server (.bind _ io) => [io]
  | start _ cause => cause.message :: cause.causes
  | source (.io _ io) => [io]
  | config (.read _ io) => [io]
  | config (.write _ io) => [io]
  | _ => []

/-! ## Statuses -/

/-- The status of a server failure, as HTTP would put it. -/
def ServerError.status : ServerError → Nat
  | notRunning | shuttingDown => 503
  | _ => 500

/-- A failed start with the status that describes it unless something better is known. -/
def ServiceError.ofStart (cause : ServiceError) : ServiceError := .start 500 cause

/-- The status a failure of the server itself carries. -/
def ServiceError.serverStatus : ServiceError → Option Nat
  | server e => some e.status
  | start status _ => some status
  | _ => none

/-- A number as an HTTP status, or 500. -/
def httpStatusOr500 (status : Nat) : Nat :=
  if 100 ≤ status ∧ status ≤ 999 then status else 500

/-- The status of the response that reports a reasoning failure. -/
def ReasoningError.httpStatus : ReasoningError → Nat
  | malformedAxiom _ _ | invalidQuery _ _ | tooComplex _ _ => 400
  | unknownEntity _ | unknownOntology _ => 404
  | inconsistent _ => 409
  | closed _ => 503

/-- The status of the response that reports a failure. -/
def ServiceError.httpStatus : ServiceError → Nat
  | reasoning e => e.httpStatus
  | state .closed => 503
  | request (.encode _) => 500
  | request _ => 400
  | server e => httpStatusOr500 e.status
  | start status _ => httpStatusOr500 status
  | _ => 500

end OntologyService
