import OntologyService.Configuration.Basic
import OntologyService.Source.FileTree
import OntologyService.Toml.Reader
import OntologyService.Wire.Ontology

/-!
# Configuration documents

A configuration is kept in a TOML document with one line for each setting. A document that is read
may leave settings out, which then have their defaults, and may hold what is no setting, which is
passed over. Whole numbers in TOML have 64 bits with a sign, so a number of seconds beyond those
cannot be written.

How the library that reads and writes TOML words its complaints is left to a `Wording`.
-/

namespace OntologyService

namespace Configuration

/-! ## The names of the settings -/

/-- The names of the settings, in the order in which they are written. -/
def settingNames : List String :=
  ["host", "port", "update_interval_secs", "drain_timeout_secs", "ontology_dir", "explain_limit"]

/-! ## JSON -/

/-- Writes a configuration. -/
def toJson (c : Configuration) : Json :=
  .obj [("host", .str c.host), ("port", .nat c.port.toNat),
    ("update_interval_secs", .nat c.updateIntervalSecs.toNat),
    ("drain_timeout_secs", .nat c.drainTimeoutSecs.toNat), ("ontology_dir", .str c.ontologyDir),
    ("explain_limit", c.explainLimit.toJson)]

/-- Reads a configuration; a setting that is left out has its default. -/
def decode : Decoder Configuration := fun room j => do
  let s ← Decoder.record settingNames room j
  let d : Configuration := {}
  let port ← s.optional 1 d.port.toNat (Decoder.natBelow UInt16.size)
  let interval ← s.optional 2 d.updateIntervalSecs.toNat Decoder.word
  let timeout ← s.optional 3 d.drainTimeoutSecs.toNat Decoder.word
  return {
    host := ← s.optional 0 d.host Decoder.string
    port := UInt16.ofNat port
    updateIntervalSecs := UInt64.ofNat interval
    drainTimeoutSecs := UInt64.ofNat timeout
    ontologyDir := ← s.optional 4 d.ontologyDir Decoder.string
    explainLimit := ← s.optional 5 d.explainLimit LimitPolicy.decode }

/-! ## Reading TOML -/

/-- A text. -/
def text? : Toml → Option String
  | .string s => some s
  | _ => none

/-- A whole number without sign below a bound. -/
def nat? (bound : Nat) : Toml → Option Nat
  | .integer (.ofNat n) => if n < bound then some n else none
  | _ => none

/-- Whether a value says nothing. -/
def saysNothing : Toml → Bool
  | .array [] | .table _ [] | .tables [] => true
  | _ => false

/-- A policy, by its name, or by its name as the only key of a table that says no more about it. -/
def policy? : Toml → Option LimitPolicy
  | .string s => LimitPolicy.ofName? s
  | .table _ [(name, v)] => if saysNothing v then LimitPolicy.ofName? name else none
  | _ => none

/-- A setting, or its default if the document leaves it out. -/
def setting {α : Type} (fields : Toml.Fields) (name : String) (missing : α)
    (read? : Toml → Option α) : Option α :=
  match Toml.find? name fields with
  | none => some missing
  | some v => read? v

/-- The configuration that a document holds. -/
def ofFields? (fields : Toml.Fields) : Option Configuration := do
  let d : Configuration := {}
  let host ← setting fields "host" d.host text?
  let port ← setting fields "port" d.port.toNat (nat? UInt16.size)
  let interval ←
    setting fields "update_interval_secs" d.updateIntervalSecs.toNat (nat? UInt64.size)
  let timeout ← setting fields "drain_timeout_secs" d.drainTimeoutSecs.toNat (nat? UInt64.size)
  let ontologyDir ← setting fields "ontology_dir" d.ontologyDir text?
  let explainLimit ← setting fields "explain_limit" d.explainLimit policy?
  return {
    host, port := UInt16.ofNat port, updateIntervalSecs := UInt64.ofNat interval,
    drainTimeoutSecs := UInt64.ofNat timeout, ontologyDir, explainLimit }

/-- The configuration that a text spells. -/
def parse? (s : String) : Option Configuration := (Toml.read s).bind ofFields?

/-! ## Writing TOML -/

/-- A text as a value. -/
def writeText (s : String) : List Char := Quotation.write s.toList

/-- A number as a value. -/
def writeNat (n : Nat) : List Char := Nat.toDigits 10 n

/-- Whether a number fits into a whole number of TOML. -/
def fits (n : UInt64) : Bool := decide (n.toNat < Toml.integerBound)

/-- The settings as values, in order. -/
def written (c : Configuration) : List (List Char) :=
  [writeText c.host, writeNat c.port.toNat, writeNat c.updateIntervalSecs.toNat,
   writeNat c.drainTimeoutSecs.toNat, writeText c.ontologyDir, writeText c.explainLimit.name]

/-- The text of a configuration, if it can be written. -/
def render? (c : Configuration) : Option String :=
  if fits c.updateIntervalSecs && fits c.drainTimeoutSecs then
    some (String.ofList ((settingNames.zip c.written).flatMap fun (name, value) =>
      name.toList ++ [' ', '=', ' '] ++ value ++ ['\n']))
  else none

/-! ## Files -/

/-- What is said of documents. -/
structure Wording where
  /-- What is said of a text that is no configuration. -/
  unread : String → String := fun _ => "not a configuration"
  /-- What is said of a configuration that cannot be written. -/
  unwritten : Configuration → String := fun _ => "a number is out of range"

/-- The configuration in a file, given what reading the file came to. -/
def ofFile (k : Wording) (path : String) (content : Except String (List UInt8)) :
    Except ConfigError Configuration :=
  match content with
  | .error io => .error (.read path io)
  | .ok octets =>
    match Utf8.decode? octets with
    | none => .error (.read path "stream did not contain valid UTF-8")
    | some s =>
      match parse? s with
      | none => .error (.parse path (k.unread s))
      | some c => .ok c

/-- The configuration in a file of a tree. -/
def load (k : Wording) (t : FileTree) (path : String) : Except ConfigError Configuration :=
  ofFile k path (t.read path)

/-- Writes the configuration to a file of a tree, in directories that are made for it if need be.
What cannot be written touches no file. -/
def save (c : Configuration) (k : Wording) (t : FileTree) (path : String) :
    Except ConfigError Unit × FileTree :=
  match c.render? with
  | none => (.error (.parse path (k.unwritten c)), t)
  | some s =>
    match t.save path s.toUTF8.toList with
    | (.error (place, io), t) => (.error (.write place io), t)
    | (.ok (), t) => (.ok (), t)

end Configuration

end OntologyService
