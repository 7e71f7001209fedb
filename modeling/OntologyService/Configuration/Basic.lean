import OntologyService.Explanation.Generator
import OntologyService.Failure.Service
import OntologyService.Text.Numeral
import OntologyService.Text.WhiteSpace

/-!
# Configuration

What an operator can set. Settings come in layers: the defaults, a document, environment variables
and the command line, each over the one before. Environment variables are applied one after the
other, and one that makes no sense stops the layer and leaves what the earlier ones have set.
-/

namespace OntologyService

/-- The settings of the service. -/
structure Configuration where
  /-- The interface to listen on. -/
  host : String := "localhost"
  port : UInt16 := 18080
  /-- The time between two refreshes of the state. -/
  updateIntervalSecs : UInt64 := 60
  /-- How long a shutdown waits for requests that are under way. -/
  drainTimeoutSecs : UInt64 := 30
  /-- The directory of the ontology documents. -/
  ontologyDir : String := "ontologies"
  explainLimit : LimitPolicy := .forward
deriving DecidableEq

namespace Configuration

instance : Inhabited Configuration := ⟨{}⟩

/-- The variable that sets the host. -/
def hostVariable : String := "SCHEMAD_HOST"

/-- The variable that sets the port. -/
def portVariable : String := "SCHEMAD_PORT"

/-- The variable that sets the time between two refreshes. -/
def updateIntervalVariable : String := "SCHEMAD_UPDATE_INTERVAL"

/-- Sets the host, if there is one to set. -/
def withHost (c : Configuration) : Option String → Configuration
  | none => c
  | some host => { c with host }

/-- Sets the port from its text, if there is one. -/
def readPort (c : Configuration) : Option String → Except ConfigError Configuration
  | none => .ok c
  | some text =>
    match Numeral.nat? UInt16.size text with
    | none => .error (.invalid portVariable s!"\"{text}\" is not a port number")
    | some n => .ok { c with port := UInt16.ofNat n }

/-- Sets the time between two refreshes from its text, if there is one. -/
def readUpdateInterval (c : Configuration) : Option String → Except ConfigError Configuration
  | none => .ok c
  | some text =>
    match Numeral.nat? UInt64.size text with
    | none => .error (.invalid updateIntervalVariable s!"\"{text}\" is not a number of seconds")
    | some n => .ok { c with updateIntervalSecs := UInt64.ofNat n }

/-- Applies the environment variables. The configuration is the one that they leave, also where
one of them makes no sense. -/
def applyVariables (c : Configuration) (lookup : String → Option String) :
    Option ConfigError × Configuration :=
  let c := c.withHost (lookup hostVariable)
  match c.readPort (lookup portVariable) with
  | .error e => (some e, c)
  | .ok c =>
    match c.readUpdateInterval (lookup updateIntervalVariable) with
    | .error e => (some e, c)
    | .ok c => (none, c)

/-- Accepts settings with which the service can run. -/
def validate (c : Configuration) : Except ConfigError Unit :=
  if allWhiteSpace c.host then .error (.invalid "host" "must not be empty")
  else if c.updateIntervalSecs = 0 then
    .error (.invalid "update_interval_secs" "must be at least 1")
  else .ok ()

/-- The address to listen on. -/
def bindAddress (c : Configuration) : String := c.host ++ ":" ++ toString c.port.toNat

end Configuration

end OntologyService
