import OntologyService.CommandLine.Control
import OntologyService.CommandLine.Daemon
import OntologyService.Source.FileTree

/-!
# The programs

Runs the control program, or the daemon if that is the first word. All that is done here is to fetch
what a run depends on (words, files, variables, the clock) and to print its report. No listener and
no transport come with the library: the control program finds nobody listening, and the daemon gets
as far as binding its address.
-/

namespace OntologyService

open CommandLine

namespace Main

/-- The content of a file, or the operating system's text for why it cannot be read. -/
def readFile (path : String) : IO (Except String (List UInt8)) := do
  try
    return .ok (← IO.FS.readBinFile path).toList
  catch e =>
    return .error (toString e)

/-- Reads files ahead. -/
def readFiles (paths : List String) : IO FileReader := do
  let contents ← paths.mapM fun path => return (path, ← readFile path)
  return fun path => (List.lookup path contents).getD (.error FileTree.missingReason)

/-- What a directory publishes. -/
def readDirectory (path : String) : IO (Except SourceError Catalog) := do
  try
    let place ← IO.FS.realPath path
    let items ← (← place.readDir).toList.mapM fun entry => do
      let item ←
        if (← entry.path.metadata).type == .file then
          pure (DirectoryItem.file (← readFile entry.path.toString))
        else pure DirectoryItem.other
      return (entry.fileName.toUTF8.toList, item)
    return .ok (DirectoryListing.load {} path items)
  catch e =>
    return .error (.io path (toString e))

/-- Prints what a run leaves behind. -/
def finish (r : RunReport) : IO UInt32 := do
  IO.print r.output
  IO.eprint r.complaint
  return UInt32.ofNat r.status

/-- Runs the control program. -/
def control (words : List String) : IO UInt32 := do
  match Control.program.read {} words with
  | .error h => finish h.report
  | .ok e => finish (e.run (← readFiles e.paths) Client.unreachable)

/-- Runs the daemon. -/
def daemon (words : List String) : IO UInt32 := do
  match Daemon.program.read {} words with
  | .error h => finish h.report
  | .ok s =>
    let files ← readFiles s.document.toList
    let names := [Configuration.hostVariable, Configuration.portVariable,
      Configuration.updateIntervalVariable]
    let values ← names.mapM fun name => return (name, ← IO.getEnv name)
    match s.configure {} files fun name => (List.lookup name values).join with
    | .error e => finish (Daemon.failed (.config e))
    | .ok c =>
      let loaded ← readDirectory c.ontologyDir
      let now ← IO.monoMsNow
      match Daemon.start c { now, loaded, bound := .error "no listener" } with
      | .error r => finish r
      | .ok server => finish (Daemon.stop server {})

end Main

end OntologyService

/-- Runs the program that the words ask for. -/
def main (words : List String) : IO UInt32 :=
  match words with
  | "schemad" :: words => OntologyService.Main.daemon words
  | words => OntologyService.Main.control words
