import OntologyService.Text.Numeral

/-!
# TOML strings

A string is written between marks, double or single; between double marks a backslash starts an
escape. Three marks on either side instead of one let the string run over lines; such a string may
hold up to two marks in a row, and may end in up to two marks right before the three.

`read?` is one step per character, with a `Phase` for what it is in the middle of, so it reads
from any place of a string. `write` chooses the plainest of the four quotations that can hold the
text and escapes what cannot stand for itself.

Lines end in a line feed here: whoever hands a text over has turned the pairs of carriage return
and line feed into that.
-/

namespace OntologyService

/-- A way to quote. -/
structure Quotation where
  mark : Char
  escapes : Bool
  lines : Bool
deriving DecidableEq

namespace Quotation

/-- Double marks, with escapes, in one line. -/
def basic : Quotation := ⟨'"', true, false⟩

/-- Single marks, in one line. -/
def literal : Quotation := ⟨'\'', false, false⟩

/-- Three double marks, with escapes, over lines. -/
def basicLines : Quotation := ⟨'"', true, true⟩

/-- Three single marks, over lines. -/
def literalLines : Quotation := ⟨'\'', false, true⟩

/-! ## Reading -/

/-- Whether a character may stand for itself in every kind of text. -/
def plain (c : Char) : Bool := c = '\t' || (decide (' ' ≤ c) && c ≠ '\x7F')

/-- What a reader of a string is in the middle of. -/
inductive Phase where
  /-- Text, of which the last so many characters are marks that may be a part of the end. -/
  | marks (n : Nat)
  /-- An escape, right behind its backslash. -/
  | escape
  /-- The number of a character, with so many digits to come and this value so far. -/
  | code (digits value : Nat)
  /-- The blanks between a backslash and the line end that it hides. -/
  | lineEnd
  /-- The blanks and line ends behind a hidden line end. -/
  | indent

/-- What a character does to a reader. -/
inductive Step where
  | refuse
  /-- Goes on, with some text. -/
  | more (text : List Char) (phase : Phase)
  /-- Ends the string, with some text. -/
  | last (text : List Char)
  /-- Shows that the string has ended before it, with some text. -/
  | past (text : List Char)

/-- The character that a letter stands for behind a backslash. -/
def escaped? : Char → Option Char
  | '"' => some '"'
  | '\\' => some '\\'
  | 'b' => some '\x08'
  | 'f' => some '\x0C'
  | 'n' => some '\n'
  | 'r' => some '\r'
  | 't' => some '\t'
  | _ => none

/-- A character in text behind `n` marks. -/
def stepText (q : Quotation) (n : Nat) (c : Char) : Step :=
  let marks := List.replicate n q.mark
  if c = q.mark then
    if !q.lines then .last []
    else if n = 4 then .last [q.mark, q.mark]
    else .more [] (.marks (n + 1))
  else if 3 ≤ n then .past (List.replicate (n - 3) q.mark)
  else if q.escapes && c = '\\' then .more marks .escape
  else if (q.lines && c = '\n') || plain c then .more (marks ++ [c]) (.marks 0)
  else .refuse

/-- A character right behind a backslash. -/
def stepEscape (q : Quotation) (c : Char) : Step :=
  if c = 'u' then .more [] (.code 4 0)
  else if c = 'U' then .more [] (.code 8 0)
  else if q.lines && (c = ' ' || c = '\t') then .more [] .lineEnd
  else if q.lines && c = '\n' then .more [] .indent
  else
    match escaped? c with
    | some c => .more [c] (.marks 0)
    | none => .refuse

/-- A digit of the number of a character. -/
def stepCode (digits value : Nat) (c : Char) : Step :=
  match Numeral.digit? 16 c with
  | none => .refuse
  | some d =>
    let value := value * 16 + d
    if 1 < digits then .more [] (.code (digits - 1) value)
    else if value.isValidChar then .more [Char.ofNat value] (.marks 0)
    else .refuse

/-- What a character does to a reader in a phase. -/
def step (q : Quotation) (c : Char) : Phase → Step
  | .marks n => stepText q n c
  | .escape => stepEscape q c
  | .code digits value => stepCode digits value c
  | .lineEnd =>
    if c = ' ' || c = '\t' then .more [] .lineEnd
    else if c = '\n' then .more [] .indent
    else .refuse
  | .indent =>
    if c = ' ' || c = '\t' || c = '\n' then .more [] .indent else stepText q 0 c

/-- Reads a string on from a phase, up to its end: the text, and what follows the string. -/
def readFrom? (q : Quotation) : Phase → List Char → Option (List Char × List Char)
  | .marks n, [] => if 3 ≤ n then some (List.replicate (n - 3) q.mark, []) else none
  | _, [] => none
  | phase, c :: rest =>
    match q.step c phase with
    | .refuse => none
    | .more text phase => (readFrom? q phase rest).map fun (s, rest) => (text ++ s, rest)
    | .last text => some (text, rest)
    | .past text => some (text, c :: rest)

/-- Reads a string in this quotation behind its opening marks. -/
def read? (q : Quotation) (cs : List Char) : Option (List Char × List Char) :=
  q.readFrom? (.marks 0) cs

/-- Text over lines without the line end right behind its opening marks. -/
def dropLineEnd : List Char → List Char
  | '\n' :: rest => rest
  | cs => cs

/-- Reads a string in any quotation. -/
def readAny? : List Char → Option (List Char × List Char)
  | '"' :: '"' :: '"' :: rest => basicLines.read? (dropLineEnd rest)
  | '"' :: rest => basic.read? rest
  | '\'' :: '\'' :: '\'' :: rest => literalLines.read? (dropLineEnd rest)
  | '\'' :: rest => literal.read? rest
  | _ => none

/-! ## Writing -/

/-- The length of the longest run of a character, where `run` have just been seen. -/
def longestRun (mark : Char) (run : Nat) : List Char → Nat
  | [] => run
  | c :: cs => if c = mark then longestRun mark (run + 1) cs else max run (longestRun mark 0 cs)

/-- Whether the text holds a character that can only be written as an escape. -/
def needsEscapes (cs : List Char) : Bool := cs.any fun c => !plain c && c ≠ '\n'

/-- Whether a quotation can hold the text as it stands. -/
def holds (q : Quotation) (cs : List Char) : Bool :=
  !needsEscapes cs && !(q.escapes && cs.contains '\\') && (q.lines || !cs.contains '\n') &&
    decide (longestRun q.mark 0 cs ≤ if q.lines then 2 else 0)

/-- The quotation that a text is written in: the first that holds it as it stands, or else double
marks with escapes. -/
def of (cs : List Char) : Quotation :=
  match [basic, literal, basicLines, literalLines].find? fun q => q.holds cs with
  | some q => q
  | none => if cs.contains '\n' then basicLines else basic

/-- A character other than the mark, where escapes are in force. -/
def escapeChar (q : Quotation) (c : Char) : List Char :=
  let hex (n : Nat) := Numeral.hexChar 'A' n
  if c = '\x08' then ['\\', 'b']
  else if c = '\t' then ['\\', 't']
  else if c = '\n' then if q.lines then ['\n'] else ['\\', 'n']
  else if c = '\x0C' then ['\\', 'f']
  else if c = '\r' then ['\\', 'r']
  else if c = '\\' then ['\\', '\\']
  else if !plain c then ['\\', 'u', '0', '0', hex (c.toNat / 16), hex (c.toNat % 16)]
  else [c]

/-- Text behind `n` marks, where escapes are in force. A mark stands for itself only where no more
of them stand in a row than the quotation lets. -/
def escape (q : Quotation) (n : Nat) : List Char → List Char
  | [] => []
  | c :: cs =>
    if c = q.mark then
      if n < if q.lines then 2 else 0 then c :: escape q (n + 1) cs
      else '\\' :: c :: escape q 0 cs
    else escapeChar q c ++ escape q 0 cs

/-- The marks at either end. -/
def marks (q : Quotation) : List Char := List.replicate (if q.lines then 3 else 1) q.mark

/-- The text in the quotation. A text of several lines starts on a line of its own. -/
def writeIn (q : Quotation) (cs : List Char) : List Char :=
  q.marks ++ (if q.lines && cs.contains '\n' then ['\n'] else []) ++
    (if q.escapes then q.escape 0 cs else cs) ++ q.marks

/-- The text as a string. -/
def write (cs : List Char) : List Char := (of cs).writeIn cs

end Quotation

end OntologyService
