import OntologyService.CommandLine.Words
import OntologyService.Configuration.Document
import OntologyService.Routing.KnowledgeBaseRoutes
import OntologyService.Server.Lifecycle

/-!
# The daemon

Runs a server over a directory of ontology documents until it is told to stop. The settings come
from the defaults, a document, the environment and the command line, each over the one before; what
they come to is checked once, at the end.
-/

namespace OntologyService

open CommandLine

/-- The settings on the command line of the daemon. -/
structure DaemonSettings where
  document : Option String := none
  host : Option String := none
  port : Option UInt16 := none
  updateIntervalSecs : Option UInt64 := none
  ontologyDir : Option String := none

namespace DaemonSettings

/-- The port that a text spells. Zero may have a minus sign. -/
def port? (s : String) : Option UInt16 :=
  let n := match s.toList with
    | '-' :: '+' :: _ => none
    | '-' :: digits => Numeral.nat? 1 (String.ofList digits)
    | _ => Numeral.nat? UInt16.size s
  n.map UInt16.ofNat

/-- The number of seconds that a text spells. -/
def seconds? (s : String) : Option UInt64 := (Numeral.nat? UInt64.size s).map UInt64.ofNat

/-- The configuration with the settings in place of its own. -/
def onto (s : DaemonSettings) (c : Configuration) : Configuration :=
  { c with
    host := s.host.getD c.host
    port := s.port.getD c.port
    updateIntervalSecs := s.updateIntervalSecs.getD c.updateIntervalSecs
    ontologyDir := s.ontologyDir.getD c.ontologyDir }

/-- The configuration below the environment. -/
def base (s : DaemonSettings) (k : Configuration.Wording) (files : FileReader) :
    Except ConfigError Configuration :=
  match s.document with
  | none => .ok {}
  | some path => Configuration.ofFile k path (files path)

/-- The configuration that all layers come to. -/
def configure (s : DaemonSettings) (k : Configuration.Wording) (files : FileReader)
    (lookup : String → Option String) : Except ConfigError Configuration :=
  match s.base k files with
  | .error e => .error e
  | .ok c =>
    match c.applyVariables lookup with
    | (some e, _) => .error e
    | (none, c) =>
      let c := s.onto c
      c.validate.map fun _ => c

end DaemonSettings

namespace Daemon

/-- The command line of the daemon. -/
def program : Program DaemonSettings DaemonSettings where
  name := "schemad"
  version := serviceVersion
  about := "Schema reasoning daemon"
  options := [
    { name := "config", about := "TOML configuration file"
      effect := .value "CONFIG" (path fun v s => { s with document := some v }) },
    { name := "host", about := "Interface to bind"
      effect := .value "HOST" (text fun v s => { s with host := some v }) },
    { name := "port", about := "Port to listen on (0 picks a free port)"
      effect := .value "PORT" (spelled DaemonSettings.port? fun v s => { s with port := some v }) },
    { name := "interval", about := "Seconds between ontology refreshes"
      effect := .value "INTERVAL"
        (spelled DaemonSettings.seconds? fun v s => { s with updateIntervalSecs := some v }) },
    { name := "ontology-dir", about := "Directory of ontology documents"
      effect := .value "ONTOLOGY_DIR" (path fun v s => { s with ontologyDir := some v }) }]
  body := .single id

/-- The server of a configuration. -/
def server (c : Configuration) : Server := { config := c, routes := Route.ofKnowledgeBases }

/-- A run that ends with a failure. -/
def failed (e : ServiceError) : RunReport :=
  { status := 1, complaint := "Error: " ++ e.message ++ "\n" }

/-- The configuration that a run of the daemon has, unless the run ends before it has one. -/
def configured (k : Configuration.Wording) (words : List String) (files : FileReader)
    (lookup : String → Option String) : Except RunReport Configuration :=
  match program.read {} words with
  | .error h => .error h.report
  | .ok s => (s.configure k files lookup).mapError fun e => failed (.config e)

/-- Starts the server of a configuration. One that does not come up whole is stopped again. -/
def start (c : Configuration) (w : StartConditions) : Except RunReport Server :=
  match (server c).start w with
  | (.ok _, s) => .ok s
  | (.error e, _) => .error (failed e)

/-- Stops a server that was told to. -/
def stop (s : Server) (w : StopConditions) : RunReport :=
  match (s.stop w).1 with
  | .ok _ => { status := 0 }
  | .error e => failed e

end Daemon

end OntologyService
