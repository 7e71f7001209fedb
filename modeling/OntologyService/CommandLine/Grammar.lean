/-!
# The grammar of a command line

A `Program` has options, and either commands, of which one has to be chosen, or none. A `Command`
has options of its own and operands, which are told apart by their place. The options of the
program may stand on either side of the command.

Reading a command line changes settings of a type `σ` word by word, and in the end makes a result
of a type `β` of them. What an option or an operand does is part of the grammar: a function on the
settings, which may refuse its text.
-/

namespace OntologyService

namespace CommandLine

/-- What an option does to the settings. -/
inductive OptionEffect (σ : Type) where
  /-- The option says all by being there. -/
  | flag (set : σ → σ)
  /-- The option has a value; in the help a placeholder stands for it. -/
  | value (placeholder : String) (set : String → σ → Option σ)

/-- An option: a name behind two hyphens. -/
structure CommandOption (σ : Type) where
  name : String
  about : String
  /-- The value that the option has where it is left out, if the help says so. -/
  shownDefault : Option String := none
  effect : OptionEffect σ

/-- A word with a meaning by its place. -/
structure Operand (σ : Type) where
  placeholder : String
  about : String := ""
  set : String → σ → Option σ

/-- A command. -/
structure Command (σ β : Type) where
  name : String
  about : String
  options : List (CommandOption σ) := []
  operands : List (Operand σ) := []
  /-- What the settings come to. -/
  result : σ → β

/-- What a program does apart from its options. -/
inductive ProgramBody (σ β : Type) where
  /-- There are no commands, and the settings come to a result by themselves. -/
  | single (result : σ → β)
  /-- One of the commands has to be chosen. -/
  | choice (commands : List (Command σ β))

/-- A program. -/
structure Program (σ β : Type) where
  name : String
  version : String
  about : String
  options : List (CommandOption σ) := []
  body : ProgramBody σ β

variable {σ : Type}

/-- A text of any kind. -/
def text (set : String → σ → σ) (v : String) (s : σ) : Option σ := some (set v s)

/-- A path, which is not empty. -/
def path (set : String → σ → σ) (v : String) (s : σ) : Option σ :=
  if v = "" then none else some (set v s)

/-- A text that spells a value. -/
def spelled {α : Type} (read? : String → Option α) (set : α → σ → σ) (v : String) (s : σ) :
    Option σ :=
  (read? v).map fun a => set a s

/-- Commands by name. -/
def Program.commands {β : Type} (p : Program σ β) : List (Command σ β) :=
  match p.body with
  | .single _ => []
  | .choice commands => commands

end CommandLine

end OntologyService
