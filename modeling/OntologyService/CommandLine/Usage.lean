import OntologyService.CommandLine.Grammar

/-!
# Help texts

The help on a program or a command is made from its grammar: what it is about, how it is called,
and then lists in two columns. Options are listed by their place among the options of their kind,
and of two with the same place the one with the smaller name is first; help and version are last.
-/

namespace OntologyService

namespace CommandLine

variable {σ β : Type}

/-- Lines of two columns. The first is as wide as its widest entry. -/
def columns (rows : List (String × String)) : List String :=
  let width := rows.foldl (fun w row => max w row.1.length) 0
  rows.map fun (left, right) =>
    "  " ++ left ++ String.ofList (List.replicate (width - left.length) ' ') ++ "  " ++ right

/-- A list with its title, behind a blank line; nothing if it is empty. -/
def titled (title : String) (rows : List (String × String)) : List String :=
  if rows.isEmpty then [] else "" :: (title ++ ":") :: columns rows

/-- The form of a placeholder that has to be filled. -/
def required (placeholder : String) : String := "<" ++ placeholder ++ ">"

/-- An option in the help. -/
def CommandOption.row (o : CommandOption σ) : String × String :=
  let value := match o.effect with
    | .flag _ => ""
    | .value placeholder _ => " " ++ required placeholder
  let default := match o.shownDefault with
    | none => ""
    | some d => " [default: " ++ d ++ "]"
  ("    --" ++ o.name ++ value, o.about ++ default)

/-- Options of two kinds in the order of the help. -/
def optionRows (own shared : List (CommandOption σ)) : List (String × String) :=
  let placed := own.zipIdx ++ shared.zipIdx
  (placed.mergeSort fun a b => a.2 < b.2 || (a.2 == b.2 && a.1.name ≤ b.1.name)).map fun o =>
    o.1.row

/-- The option that shows the help. -/
def helpRow : String × String := ("-h, --help", "Print help")

/-- The option that shows the version. -/
def versionRow : String × String := ("-V, --version", "Print version")

/-- What the command that shows help is about. -/
def helpAbout : String := "Print this message or the help of the given subcommand(s)"

/-- A help text. -/
def page (about usage : String) (lists : List String) : String :=
  String.join ((about :: "" :: ("Usage: " ++ usage) :: lists).map fun line => line ++ "\n")

/-- The help on a program. -/
def Program.help (p : Program σ β) : String :=
  let options := titled "Options" (optionRows [] p.options ++ [helpRow, versionRow])
  match p.body with
  | .single _ => page p.about (p.name ++ " [OPTIONS]") options
  | .choice commands =>
    let rows := commands.map (fun c => (c.name, c.about)) ++ [("help", helpAbout)]
    page p.about (p.name ++ " [OPTIONS] <COMMAND>") (titled "Commands" rows ++ options)

/-- The help on a command of a program. -/
def Program.helpOn (p : Program σ β) (c : Command σ β) : String :=
  let operands := c.operands.map fun o => (required o.placeholder, o.about)
  let call := " ".intercalate (p.name :: c.name :: "[OPTIONS]" :: operands.map Prod.fst)
  page c.about call (titled "Arguments" operands ++
    titled "Options" (optionRows c.options p.options ++ [helpRow]))

/-- The help on the command that shows help. -/
def Program.helpOnHelp (p : Program σ β) : String :=
  page helpAbout (p.name ++ " help [COMMAND]...")
    (titled "Arguments" [("[COMMAND]...", "Print help for the subcommand(s)")])

end CommandLine

end OntologyService
