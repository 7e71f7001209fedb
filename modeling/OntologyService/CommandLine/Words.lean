import OntologyService.CommandLine.Usage

/-!
# Reading a command line

Words are read from the left, and the first one that asks for help or makes no sense ends the
reading. A word that begins with a hyphen is never a value or an operand, except for the hyphen
alone, and behind a word of two hyphens, where all words are operands. The value of an option is
the next word, or what stands in the same word behind an equals sign.

An option stands once at most on each side of the command; of one that stands on both sides the
second counts.
-/

namespace OntologyService

namespace CommandLine

/-- Why a command line was not read to a result. -/
inductive Halt where
  /-- It asked for a text. -/
  | answer (text : String)
  | mistake (reason : String)
deriving DecidableEq

/-- A word, by how it begins. -/
inductive WordForm where
  /-- Two hyphens alone. -/
  | operandsFollow
  /-- An option by name, with what stands behind the equals sign. -/
  | long (name : String) (attached : Option String)
  /-- Options by letters. -/
  | short (first : Char)
  | plain
deriving DecidableEq

/-- The form of a word. -/
def WordForm.of (word : String) : WordForm :=
  match word.toList with
  | ['-', '-'] => .operandsFollow
  | '-' :: '-' :: cs =>
    let name := cs.takeWhile fun c => decide (c ≠ '=')
    let attached := match cs.drop name.length with
      | [] => none
      | _ :: value => some (String.ofList value)
    .long (String.ofList name) attached
  | '-' :: c :: _ => .short c
  | _ => .plain

/-- What may stand on one side of the command. -/
structure Level (σ : Type) where
  options : List (CommandOption σ)
  help : String
  /-- The answer to the question for the version, where it may be asked. -/
  version : Option String := none
  /-- The words that end the level. -/
  commands : List String := []

namespace Level

variable {σ : Type}

/-- Takes all words as operands. -/
def fill (operands : List (Operand σ)) (s : σ) : List String → Except Halt σ
  | [] =>
    match operands with
    | [] => .ok s
    | o :: _ => .error (.mistake s!"the argument {required o.placeholder} is missing")
  | w :: words =>
    match operands with
    | [] => .error (.mistake s!"unexpected argument {w}")
    | o :: operands =>
      match o.set w s with
      | none => .error (.mistake s!"invalid value {w} for {required o.placeholder}")
      | some s => fill operands s words

/-- The answer to an option that every level has. -/
def answer? (l : Level σ) (name : String) : Option String :=
  if name = "help" then some l.help else if name = "version" then l.version else none

/-- The answer to a letter. -/
def answerLetter? (l : Level σ) (letter : Char) : Option String :=
  if letter = 'h' then some l.help else if letter = 'V' then l.version else none

/-- Reads words up to one that ends the level. Gives the settings, and the words from there on. -/
def read (l : Level σ) (seen : List String) (operands : List (Operand σ)) (s : σ) :
    List String → Except Halt (σ × List String)
  | [] => (fill operands s []).map fun s => (s, [])
  | w :: words =>
    match WordForm.of w with
    | .operandsFollow => (fill operands s words).map fun s => (s, [])
    | .short letter =>
      match l.answerLetter? letter with
      | some text => .error (.answer text)
      | none => .error (.mistake s!"unexpected argument {w}")
    | .long name attached =>
      match l.answer? name, attached with
      | some _, some _ => .error (.mistake s!"the option --{name} has no value")
      | some text, none => .error (.answer text)
      | none, _ =>
        match l.options.find? fun o => o.name == name with
        | none => .error (.mistake s!"unexpected argument {w}")
        | some o =>
          if seen.contains name then .error (.mistake s!"the option --{name} is given twice")
          else
            match o.effect, attached with
            | .flag _, some _ => .error (.mistake s!"the option --{name} has no value")
            | .flag set, none => read l (name :: seen) operands (set s) words
            | .value _ set, some v =>
              match set v s with
              | none => .error (.mistake s!"invalid value {v} for --{name}")
              | some s => read l (name :: seen) operands s words
            | .value _ set, none =>
              match words with
              | [] => .error (.mistake s!"the option --{name} needs a value")
              | v :: words =>
                if WordForm.of v ≠ .plain then
                  .error (.mistake s!"the option --{name} needs a value")
                else
                  match set v s with
                  | none => .error (.mistake s!"invalid value {v} for --{name}")
                  | some s => read l (name :: seen) operands s words
    | .plain =>
      if l.commands.contains w then .ok (s, w :: words)
      else
        match operands with
        | [] => .error (.mistake s!"unexpected argument {w}")
        | o :: operands =>
          match o.set w s with
          | none => .error (.mistake s!"invalid value {w} for {required o.placeholder}")
          | some s => read l seen operands s words

end Level

namespace Program

variable {σ β : Type}

/-- What may stand before the command. -/
def outer (p : Program σ β) : Level σ where
  options := p.options
  help := p.help
  version := some (p.name ++ " " ++ p.version ++ "\n")
  commands :=
    match p.body with
    | .single _ => []
    | .choice commands => commands.map Command.name ++ ["help"]

/-- What may stand behind a command. -/
def inner (p : Program σ β) (c : Command σ β) : Level σ where
  options := c.options ++ p.options
  help := p.helpOn c

/-- The command of a name. -/
def command? (p : Program σ β) (name : String) : Option (Command σ β) :=
  p.commands.find? fun c => c.name == name

/-- The answer to a question for help, given what it is asked on. -/
def helpAnswer (p : Program σ β) : List String → Halt
  | [] => .answer p.help
  | [topic] =>
    match p.command? topic with
    | some c => .answer (p.helpOn c)
    | none =>
      if topic = "help" then .answer p.helpOnHelp else .mistake s!"unrecognized subcommand {topic}"
  | _ :: topic :: _ => .mistake s!"unrecognized subcommand {topic}"

/-- Reads a command line. -/
def read (p : Program σ β) (start : σ) (words : List String) : Except Halt β :=
  match p.outer.read [] [] start words with
  | .error h => .error h
  | .ok (s, rest) =>
    match p.body, rest with
    | .single result, _ => .ok (result s)
    | .choice _, [] => .error (.mistake "a subcommand is missing")
    | .choice _, name :: words =>
      match p.command? name with
      | none => .error (p.helpAnswer words)
      | some c => ((p.inner c).read [] c.operands s words).map fun r => c.result r.1

end Program

/-- Gives the content of a file, or the operating system's text for why it cannot. -/
abbrev FileReader := String → Except String (List UInt8)

/-- What a run of a program leaves behind. -/
structure RunReport where
  status : Nat
  output : String := ""
  complaint : String := ""
deriving DecidableEq

/-- A run that ends while the command line is read. -/
def Halt.report : Halt → RunReport
  | .answer text => { status := 0, output := text }
  | .mistake reason => { status := 2, complaint := "error: " ++ reason ++ "\n" }

end CommandLine

end OntologyService
