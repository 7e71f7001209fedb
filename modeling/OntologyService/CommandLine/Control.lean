import OntologyService.Client.Remote
import OntologyService.CommandLine.Words
import OntologyService.Routing.KnowledgeBaseRoutes
import OntologyService.Source.Directory

/-!
# The control program

Asks one thing of a service, or of an ontology document that is given in place of a service. The
questions on the service itself have no such substitute, so they go to the service also where a
document is given.

Files are read through a function, and the service is reached through a `Transport`, so a run is a
value: its output, or why it failed. A run that fails has no output.

How a text that is no document or no axiom is complained of comes from the library that reads JSON.
The texts that stand for it here are not that library's, and nothing depends on them.
-/

namespace OntologyService

open CommandLine

/-- What is asked. -/
inductive ControlTask where
  | health
  | shutdown
  | list
  | query (kind : QueryKind) (e : Entity)
  | entails (axiomText : String)
  | explain (axiomText : String) (limit : Nat)
  /-- The axioms to add and to remove are in files. -/
  | update (additions removals : Option String)

/-- What is asked, and of whom. -/
structure Errand where
  url : String
  /-- The document to ask in place of the service. -/
  localFile : Option String
  ontology : String
  task : ControlTask

/-- Why an errand failed. -/
inductive ErrandError where
  | file (path io : String)
  | document (path : String)
  | axiomText
  | nothingToUpdate
  | service (e : ServiceError)
deriving DecidableEq

namespace ErrandError

/-- The text of a failure. -/
def message : ErrandError → String
  | file path io => s!"cannot read {path}: {io}"
  | document path => s!"{path} is no ontology document"
  | axiomText => "the axiom is not readable"
  | nothingToUpdate => "nothing to update: pass --add and/or --remove"
  | service e => e.message

end ErrandError

/-- The settings of the control program. -/
structure ControlSettings where
  url : String := "http://127.0.0.1:18080"
  localFile : Option String := none
  ontology : String := ""
  kind : QueryKind := .aboutClass .equivalentClasses
  entity : String := ""
  individual : Bool := false
  axiomText : String := ""
  limit : Nat := 0
  additions : Option String := none
  removals : Option String := none

namespace ControlSettings

/-- An errand with the settings. -/
def errand (s : ControlSettings) (task : ControlTask) : Errand :=
  { url := s.url, localFile := s.localFile, ontology := s.ontology, task }

/-- The entity that is asked for. -/
def asked (s : ControlSettings) : Entity :=
  if s.individual then .ofIndividual ⟨s.entity⟩ else .ofClass ⟨s.entity⟩

end ControlSettings

namespace Control

/-! ## The command line -/

/-- The operand that names the ontology. -/
def ontologyOperand : Operand ControlSettings where
  placeholder := "ONTOLOGY"
  set := text fun v s => { s with ontology := v }

/-- The operand that spells an axiom. -/
def axiomOperand : Operand ControlSettings where
  placeholder := "AXIOM"
  set := text fun v s => { s with axiomText := v }

/-- Asks for a query. -/
def queryCommand : Command ControlSettings Errand where
  name := "query"
  about := "Run a hierarchy or instance query"
  options := [{
    name := "individual"
    about := "Treat ENTITY as an individual rather than a class"
    effect := .flag fun s => { s with individual := true } }]
  operands := [
    ontologyOperand,
    { placeholder := "KIND"
      about := "e.g. super_classes, direct_sub_classes, instances, types"
      set := spelled QueryKind.ofName? fun v s => { s with kind := v } },
    { placeholder := "ENTITY"
      set := text fun v s => { s with entity := v } }]
  result s := s.errand (.query s.kind s.asked)

/-- Asks whether an axiom is entailed. -/
def entailsCommand : Command ControlSettings Errand where
  name := "entails"
  about := "Check whether an axiom (JSON) is entailed"
  operands := [ontologyOperand, axiomOperand]
  result s := s.errand (.entails s.axiomText)

/-- Asks for the justifications of an axiom. -/
def explainCommand : Command ControlSettings Errand where
  name := "explain"
  about := "List justifications for an entailed axiom (JSON)"
  options := [{
    name := "limit"
    about := "Maximum justifications; 0 for all"
    shownDefault := some "0"
    effect := .value "LIMIT" (spelled (Numeral.nat? UInt64.size) fun v s => { s with limit := v }) }]
  operands := [ontologyOperand, axiomOperand]
  result s := s.errand (.explain s.axiomText s.limit)

/-- Changes an ontology. -/
def updateCommand : Command ControlSettings Errand where
  name := "update"
  about := "Add and remove axioms, each read from a \x60\x7b\"axioms\": [...]\x7d\x60 file"
  options := [
    { name := "add", about := ""
      effect := .value "ADD" (path fun v s => { s with additions := some v }) },
    { name := "remove", about := ""
      effect := .value "REMOVE" (path fun v s => { s with removals := some v }) }]
  operands := [ontologyOperand]
  result s := s.errand (.update s.additions s.removals)

/-- The control program. -/
def program : Program ControlSettings Errand where
  name := "schemactl"
  version := serviceVersion
  about := "Schema reasoning client"
  options := [
    { name := "url"
      about := "Base URL of the schemad instance"
      shownDefault := some "http://127.0.0.1:18080"
      effect := .value "URL" (text fun v s => { s with url := v }) },
    { name := "local"
      about := "Reason over this ontology document in-process instead of a server"
      effect := .value "LOCAL" (path fun v s => { s with localFile := some v }) }]
  body := .choice [
    { name := "health", about := "Show server health", result := fun s => s.errand .health },
    { name := "shutdown", about := "Ask the server to shut down gracefully"
      result := fun s => s.errand .shutdown },
    { name := "list", about := "List loaded ontologies", result := fun s => s.errand .list },
    queryCommand, entailsCommand, explainCommand, updateCommand]

end Control

/-! ## Errands -/

/-- Who answers the calls on an ontology. -/
inductive Respondent where
  | here (kb : KnowledgeBase)
  | afar (c : Client)

namespace Respondent

/-- Answers a call. -/
def ask (t : Transport) (call : KnowledgeBase.Call) :
    Respondent → Except ErrandError KnowledgeBase.Answer
  | here kb => (kb.serve call).1.mapError fun e => .service (.reasoning e)
  | afar c => (c.serve t call).mapError fun e => .service (.client e)

end Respondent

namespace Errand

/-- The axioms in a file; none where there is no file. -/
def readAxioms (files : FileReader) : Option String → Except ErrandError AxiomSet
  | none => .ok ∅
  | some path =>
    match files path with
    | .error io => .error (.file path io)
    | .ok octets =>
      match DocumentFile.decode.octets octets with
      | none => .error (.document path)
      | some d => .ok d.axioms

/-- The axiom that a text spells, without a defect. -/
def readAxiom (s : String) : Except ErrandError Axiom :=
  match Axiom.decode.text s with
  | none => .error .axiomText
  | some a =>
    match a.validate with
    | .error e => .error (.service (.reasoning e))
    | .ok _ => .ok a

/-- The name of the ontology in a file: that of the file, without its extension. -/
def nameIn (path : String) : String :=
  let names := (path.splitOn "/").filter fun part => decide (part ≠ "") && decide (part ≠ ".")
  Utf8.decodeLossy (FileName.split ((names.getLast?.getD "").toUTF8.toList)).1

/-- Who answers the calls of an errand. -/
def respondent (e : Errand) (files : FileReader) : Except ErrandError Respondent :=
  match e.localFile with
  | none => .ok (.afar ⟨Client.trimBase e.url, e.ontology⟩)
  | some path =>
    match readAxioms files (some path) with
    | .error f => .error f
    | .ok axioms =>
      match KnowledgeBase.new (nameIn path) axioms .forward with
      | .error f => .error (.service (.reasoning f))
      | .ok kb => .ok (.here kb)

/-- The call that an errand makes on its ontology, if it is about one. -/
def call (files : FileReader) : ControlTask → Except ErrandError (Option KnowledgeBase.Call)
  | .health | .shutdown | .list => .ok none
  | .query kind e => .ok (some (.query kind e))
  | .entails axiomText => (readAxiom axiomText).map fun a => some (.entailed a)
  | .explain axiomText limit => (readAxiom axiomText).map fun a => some (.explain a limit)
  | .update additions removals =>
    match readAxioms files additions, readAxioms files removals with
    | .error f, _ | _, .error f => .error f
    | .ok add, .ok remove =>
      if add.isEmpty && remove.isEmpty then .error .nothingToUpdate
      else .ok (some (.update add remove))

/-! ## Reports -/

/-- A node on a line of its own. -/
def nodeLine (n : Node) : String :=
  "  \x7b" ++ ", ".intercalate (n.toList.map Entity.render) ++ "\x7d"

/-- The justifications of an axiom, numbered. -/
def justificationLines (a : Axiom) (es : Explanations) : List String :=
  if es.isEmpty then [a.render ++ ": no justifications (not entailed)"]
  else
    es.toList.zipIdx.flatMap fun (j, i) =>
      s!"Justification {i + 1}:" :: j.toList.map fun a => "  " ++ a.render

/-- The lines that report the answer to a call. -/
def answerLines : KnowledgeBase.Call → KnowledgeBase.Answer → List String
  | .query kind e, .nodes ns =>
    s!"{kind.name} of {e.render}: {ns.size} nodes" :: ns.toList.map nodeLine
  | .entailed a, .truth b => [a.render ++ if b then ": entailed" else ": not entailed"]
  | .explain a _, .justifications es => justificationLines a es
  | _, .summary s => [s!"Added {s.added}, removed {s.removed}; now at revision {s.revision}"]
  | _, _ => []

/-- The lines that report the health of a service. -/
def healthLines (h : HealthResponse) : List String :=
  [s!"{h.status} (schemad {h.version})",
   s!"  generation {h.generation} loaded at {h.loadedAt}, {h.ontologies} ontologies"]

/-- The line that reports an ontology. -/
def summaryLine (o : OntologySummary) : String :=
  s!"  {o.name}  version {o.version}  {o.axioms} axioms  revision {o.revision}"

/-- The lines that report the ontologies of a service. -/
def listLines (os : List OntologySummary) : List String :=
  if os.isEmpty then ["No ontologies loaded."] else os.map summaryLine

/-- The lines that report what a service says of itself. -/
def serviceLines (e : Errand) (t : Transport) : Except ErrandError (List String) :=
  let base := Client.trimBase e.url
  let r := match e.task with
    | .health => (Client.health base t).map healthLines
    | .shutdown => (Client.shutdown base t).map fun _ => [s!"Shutdown requested at {base}"]
    | .list => (Client.list base t).map listLines
    | _ => .ok []
  r.mapError fun e => .service (.client e)

/-- Runs an errand, and gives the lines of its report. -/
def lines (e : Errand) (files : FileReader) (t : Transport) : Except ErrandError (List String) :=
  match call files e.task with
  | .error f => .error f
  | .ok none => e.serviceLines t
  | .ok (some call) =>
    match e.respondent files with
    | .error f => .error f
    | .ok r => (r.ask t call).map (answerLines call)

/-- The files that an errand reads. -/
def paths (e : Errand) : List String :=
  let named := match e.task with
    | .update additions removals => [additions, removals]
    | _ => []
  (e.localFile :: named).filterMap id

/-- Runs an errand. -/
def run (e : Errand) (files : FileReader) (t : Transport) : RunReport :=
  match e.lines files t with
  | .ok lines => { status := 0, output := String.join (lines.map fun line => line ++ "\n") }
  | .error f => { status := 1, complaint := "Error: " ++ f.message ++ "\n" }

end Errand

namespace Control

/-- Runs the control program. -/
def run (words : List String) (files : FileReader) (t : Transport) : RunReport :=
  match program.read {} words with
  | .error h => h.report
  | .ok e => e.run files t

end Control

end OntologyService
