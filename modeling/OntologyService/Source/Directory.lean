import OntologyService.Source.Catalog
import OntologyService.Source.Digest
import OntologyService.Wire.Ontology

/-!
# A source in a directory

Every regular file whose name ends in the extension `json` is a document, and its name without the
extension is the name of the ontology. Files are taken in the order of their names, octet by octet
and with the extension. A name that is not UTF-8 names no ontology, and its file is passed over.

The version of a document is a digest of its content, in sixteen digits. Equal contents have equal
versions; the converse is only as likely as a digest of 64 bits makes it. Which digest it is, and
how the library that reads JSON words its complaints, is left to a `DocumentReader`.
-/

namespace OntologyService

/-- A document as it stands in a file. -/
structure DocumentFile where
  axioms : AxiomSet
deriving DecidableEq

namespace DocumentFile

/-- Writes a document. -/
def toJson (d : DocumentFile) : Json := .obj [("axioms", AxiomSet.toJson d.axioms)]

/-- Reads a document; one that says nothing of axioms has none. -/
def decode : Decoder DocumentFile := fun room j => do
  let s ← Decoder.record ["axioms"] room j
  return ⟨← s.optional 0 ∅ AxiomSet.decode⟩

end DocumentFile

/-- A name in a directory, as octets. -/
abbrev FileName := List UInt8

namespace FileName

/-- A name split at its last point. A name without a point, or with no more than a leading one,
is all stem; so is the name of the directory above. -/
def split (n : FileName) : FileName × Option FileName :=
  let dot : UInt8 := 46
  let behind := n.reverse.takeWhile fun b => decide (b ≠ dot)
  let before := (n.reverse.drop (behind.length + 1)).reverse
  if n = [dot, dot] ∨ before.isEmpty then (n, none) else (before, some behind.reverse)

/-- The name of the ontology in a file of this name, if the file is a document. -/
def stem? (n : FileName) : Option FileName :=
  match n.split with
  | (stem, some extension) => if extension = "json".toUTF8.toList then some stem else none
  | (_, none) => none

end FileName

/-- What documents are read with. -/
structure DocumentReader where
  /-- The digest of a content. -/
  digest : List UInt8 → UInt64 := Digest.ofContent
  /-- What is said of a content that is no document. -/
  complaint : List UInt8 → String := fun _ => "not an ontology document"

/-- What stands in a directory under a name. -/
inductive DirectoryItem where
  /-- A regular file, or why its content could not be read. -/
  | file (content : Except String (List UInt8))
  | other

/-- A directory: its names, each once, with what stands under them. -/
abbrev DirectoryListing := List (FileName × DirectoryItem)

namespace DirectoryListing

/-- The version that a digest makes: its digits in hexadecimal, sixteen of them. -/
def versionOf (digest : UInt64) : String :=
  String.ofList ((List.range 16).map fun n =>
    Nat.digitChar (digest.toNat / Nat.pow 16 (15 - n) % 16))

/-- Reads a document. -/
def readDocument (k : DocumentReader) (path name : String)
    (content : Except String (List UInt8)) : Except SourceError Document :=
  match content with
  | .error reason => .error (.io path reason)
  | .ok octets =>
    match DocumentFile.decode.octets octets with
    | none => .error (.parse path (k.complaint octets))
    | some d => .ok { name, version := versionOf (k.digest octets), axioms := d.axioms }

/-- The path of a file in a directory. A path that ends in a slash gets no other, and the empty one
gets none. -/
def pathIn (dir file : String) : String :=
  match dir.toList.getLast? with
  | none | some '/' => dir ++ file
  | some _ => dir ++ "/" ++ file

/-- A document of the directory, with its name and its content. -/
structure Found where
  fileName : FileName
  name : String
  content : Except String (List UInt8)

/-- The documents of a directory, in the order of their file names. -/
def found (l : DirectoryListing) : List Found :=
  let documents := l.filterMap fun
    | (n, .file content) =>
      n.stem?.bind fun stem => (Utf8.decode? stem).map fun name => ⟨n, name, content⟩
    | (_, .other) => none
  documents.mergeSort fun a b => decide (Ranked.cmp a.fileName b.fileName ≠ .gt)

/-- What the source says of itself. -/
def description (dir : String) : String := "directory " ++ dir

/-- What a directory publishes. -/
def load (k : DocumentReader) (dir : String) (l : DirectoryListing) : Catalog :=
  let entries := l.found.map fun f =>
    (f.name, readDocument k (pathIn dir (Utf8.decodeLossy f.fileName)) f.name f.content)
  { documents := entries.filterMap fun (_, r) =>
      match r with
      | .ok d => some d
      | .error _ => none
    rejected := entries.filterMap fun (name, r) =>
      match r with
      | .ok _ => none
      | .error error => some { name, error } }

end DirectoryListing

end OntologyService
