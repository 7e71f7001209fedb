import OntologyService.Source.Directory

/-!
# File trees

A tree of files as a value: what stands under each path below the root. A path that starts with a
slash goes from the root, and any other from the working directory. Paths are resolved name by
name, so every name but the last has to be a directory's; `..` leads out of a directory, and at the
root it stays there. A path with a null in it is not even asked for.

There are no links, no permissions and no limits on length, so nothing else is ever in the way. The
working directory is taken to be there: from one that was removed nothing is found, not even the
directory that it was in.

What fails gives the text that the operating system has for it.
-/

namespace OntologyService

/-- The names from the root down. -/
abbrev TreePath := List FileName

/-- What stands under a path. -/
inductive TreeNode where
  | file (content : List UInt8)
  | directory

/-- Files and directories by path. The root is a directory and not listed. -/
structure FileTree where
  nodes : Table TreePath TreeNode := ∅
  /-- The working directory. -/
  home : TreePath := []

namespace FileTree

/-- What stands under a path. -/
def node? (t : FileTree) (p : TreePath) : Option TreeNode :=
  if p.isEmpty then some .directory else t.nodes.get? p

/-- Whether the path is a directory's. -/
def isDirectory (t : FileTree) (p : TreePath) : Bool :=
  match t.node? p with
  | some .directory => true
  | _ => false

/-- Makes the path a directory, and every path on the way there. -/
def makeDirectory (t : FileTree) (p : TreePath) : FileTree :=
  let way := (List.range p.length).map fun n => p.take (n + 1)
  way.foldl (fun t q =>
    match t.node? q with
    | some _ => t
    | none => { t with nodes := t.nodes.insert q .directory }) t

/-- Puts a file under the path, in directories that are made for it if need be. A directory is
not replaced by a file. -/
def write (t : FileTree) (p : TreePath) (content : List UInt8) : FileTree :=
  let t := t.makeDirectory p.dropLast
  if t.isDirectory p || !t.isDirectory p.dropLast then t
  else { t with nodes := t.nodes.insert p (.file content) }

/-- Removes what stands under the path, and everything below it. -/
def delete (t : FileTree) (p : TreePath) : FileTree :=
  { t with nodes := t.nodes.filter fun q _ => !p.isPrefixOf q }

/-! ## Failures -/

/-- The text that the operating system has for a missing file. -/
def missingReason : String := "No such file or directory (os error 2)"

/-- The text that the operating system has for a directory read as a file. -/
def directoryReason : String := "Is a directory (os error 21)"

/-- The text that the operating system has for a file on the way to something else. -/
def notDirectoryReason : String := "Not a directory (os error 20)"

/-- The text that the operating system has for a file where a directory is to be made. -/
def existsReason : String := "File exists (os error 17)"

/-- The text for a path that the operating system would take to end early. -/
def nullReason : String := "file name contained an unexpected NUL byte"

/-! ## Paths -/

/-- The parts of a path. -/
def pieces (path : String) : List String := (path.toList.splitOn '/').map String.ofList

/-- Whether there is a null in one of the parts, where the operating system would end the path. -/
def hasNull (parts : List String) : Bool := parts.any fun part => part.toList.contains '\x00'

/-- The parts of a path that lead somewhere. -/
def busy (parts : List String) : List String :=
  parts.filter fun part => decide (part ≠ "") && decide (part ≠ ".")

/-- The names that a path goes through. -/
def parts (path : String) : TreePath := (busy (pieces path)).map fun part => part.toUTF8.toList

/-- Whether a directory stands under the path, and under every path on the way there. -/
def stands (t : FileTree) (p : TreePath) : Bool :=
  (List.range (p.length + 1)).all fun n => t.isDirectory (p.take n)

/-- Where a path starts: at the root, or at the working directory if it is still there. -/
def start (t : FileTree) (path : String) : Except String TreePath :=
  if path.startsWith "/" then .ok []
  else if t.stands t.home then .ok t.home
  else .error missingReason

/-- Follows the parts of a path from a directory. -/
def walk (t : FileTree) (at' : TreePath) : List String → Except String TreePath
  | [] => .ok at'
  | part :: parts =>
    match t.node? at' with
    | none => .error missingReason
    | some (.file _) => .error notDirectoryReason
    | some .directory =>
      if part = "" ∨ part = "." then t.walk at' parts
      else if part = ".." then t.walk at'.dropLast parts
      else t.walk (at' ++ [part.toUTF8.toList]) parts

/-- The place that the parts of a path lead to. -/
def follow (t : FileTree) (path : String) (parts : List String) : Except String TreePath :=
  match t.start path with
  | .error reason => .error reason
  | .ok at' => t.walk at' parts

/-- The place that a path leads to. -/
def resolve (t : FileTree) (path : String) : Except String TreePath :=
  if hasNull (pieces path) then .error nullReason
  else if path = "" then .error missingReason
  else t.follow path (pieces path)

/-! ## Reading -/

/-- The content of a file. -/
def read (t : FileTree) (path : String) : Except String (List UInt8) :=
  match t.resolve path with
  | .error reason => .error reason
  | .ok p =>
    match t.node? p with
    | some (.file content) => .ok content
    | some .directory => .error directoryReason
    | none => .error missingReason

/-- What stands in a directory. -/
def list (t : FileTree) (p : TreePath) : Except String DirectoryListing :=
  match t.node? p with
  | none => .error missingReason
  | some (.file _) => .error notDirectoryReason
  | some .directory =>
    .ok (t.nodes.toList.filterMap fun (q, node) =>
      match q.getLast? with
      | some name =>
        if q.dropLast = p then
          some (name, match node with
            | .file content => .file (.ok content)
            | .directory => .other)
        else none
      | none => none)

/-- What a directory of the tree publishes. -/
def load (t : FileTree) (k : DocumentReader) (dir : String) : Except SourceError Catalog :=
  match t.resolve dir with
  | .error reason => .error (.io dir reason)
  | .ok p =>
    match t.list p with
    | .error reason => .error (.io dir reason)
    | .ok listing => .ok (listing.load k dir)

/-! ## Writing -/

/-- The parts of a path without those at its end that lead nowhere. -/
def trim : List String → List String
  | [] => []
  | first :: parts =>
    first :: (parts.reverse.dropWhile fun part => decide (part = "" ∨ part = ".")).reverse

/-- The parts of a path in front of its last. -/
def above (path : String) : List String := (trim (pieces path)).dropLast

/-- The path to the directory that a path leads into. -/
def parent (path : String) : String :=
  match trim (above path) with
  | [""] => "/"
  | parts => "/".intercalate parts

/-- Goes down from a directory, and makes the directories that are missing. `made` tells whether it
had to, and what it made stays. -/
def enter (t : FileTree) (at' : TreePath) (made : Bool) :
    List String → Except String Unit × FileTree
  | [] => (.ok (), t)
  | part :: parts =>
    if part = ".." then enter t at'.dropLast made parts
    else
      let p := at' ++ [part.toUTF8.toList]
      match t.node? p with
      | none => enter { t with nodes := t.nodes.insert p .directory } p true parts
      | some .directory => enter t p made parts
      | some (.file _) =>
        -- every way is asked for in full first, and piece by piece once something is missing
        (.error (if made || parts.isEmpty then existsReason else notDirectoryReason), t)

/-- Makes the directory that a path leads into. -/
def makeParent (t : FileTree) (path : String) : Except String Unit × FileTree :=
  if (above path).isEmpty then (.ok (), t)
  else if hasNull (above path) then (.error nullReason, t)
  else
    match t.start path with
    | .error reason => (.error reason, t)
    | .ok at' => t.enter at' false (busy (above path))

/-- Puts a file where a path leads, in place of the one that is there. -/
def put (t : FileTree) (path : String) (content : List UInt8) : Except String Unit × FileTree :=
  let all := pieces path
  let named := (all.reverse.dropWhile fun part => decide (part = "")).reverse
  let name := named.getLast?.getD ""
  if hasNull all then (.error nullReason, t)
  else if path = "" then (.error missingReason, t)
  else
    match t.follow path named.dropLast with
    | .error reason => (.error reason, t)
    | .ok at' =>
      match t.node? at' with
      | none => (.error missingReason, t)
      | some (.file _) => (.error notDirectoryReason, t)
      | some .directory =>
        let p := at' ++ [name.toUTF8.toList]
        if named ≠ all ∨ name = "" ∨ name = "." ∨ name = ".." ∨ t.isDirectory p then
          (.error directoryReason, t)
        else (.ok (), { t with nodes := t.nodes.insert p (.file content) })

/-- Puts a file where a path leads, in directories that are made for it if need be. If it comes to
nothing, it tells for which path and why. -/
def save (t : FileTree) (path : String) (content : List UInt8) :
    Except (String × String) Unit × FileTree :=
  match t.makeParent path with
  | (.error reason, t) => (.error (parent path, reason), t)
  | (.ok (), t) =>
    let (saved, t) := t.put path content
    (saved.mapError fun reason => (path, reason), t)

end FileTree

end OntologyService
