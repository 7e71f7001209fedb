import OntologyService.Json.Basic
import OntologyService.Text.Numeral
import OntologyService.Text.Utf8

/-!
# Reading JSON

The grammar of RFC 8259 and nothing beyond it: one value, with blanks, tabs and line ends around
it; no byte order mark, no comments, no trailing commas, no raw control characters in strings.
Nesting has no limit here.

The reader takes characters, of which some may be missing where the octets of the text were not
UTF-8. A missing character can only stand inside a string, and makes that string unreadable.

Each of the mutually recursive readers is handed a number of steps. Every step takes a character,
so the length of the text is enough of them, and `read` supplies it.
-/

namespace OntologyService

namespace Json

/-- Text in which the octets of some characters were not UTF-8. -/
abbrev Chars := List (Option Char)

/-! ## Blanks, numbers and strings -/

/-- Whether a character may stand between two tokens. -/
def isBlank (c : Char) : Bool := c = ' ' || c = '\t' || c = '\n' || c = '\r'

/-- Passes over blanks. -/
def skipBlanks : Chars → Chars
  | some c :: rest => if isBlank c then skipBlanks rest else some c :: rest
  | cs => cs

/-- Reads digits, and gives their value, their number and what follows them. -/
def digits (value count : Nat) : Chars → Nat × Nat × Chars
  | some c :: rest =>
    match Numeral.digit? 10 c with
    | some d => digits (value * 10 + d) (count + 1) rest
    | none => (value, count, some c :: rest)
  | cs => (value, count, cs)

/-- Reads the whole part of a number: `0`, or digits that do not start with `0`. -/
def wholePart? : Chars → Option (Nat × Chars)
  | some '0' :: rest => some (0, rest)
  | cs =>
    match digits 0 0 cs with
    | (_, 0, _) => none
    | (value, _ + 1, rest) => some (value, rest)

/-- Reads what may follow the whole part: a point with digits. Gives the mantissa and the number
of digits behind the point. -/
def fraction? (value : Nat) : Chars → Option (Nat × Nat × Bool × Chars)
  | some '.' :: cs =>
    match digits value 0 cs with
    | (_, 0, _) => none
    | (mantissa, places + 1, rest) => some (mantissa, places + 1, true, rest)
  | cs => some (value, 0, false, cs)

/-- Reads the digits of an exponent. -/
def exponentDigits? (negative : Bool) (cs : Chars) : Option (Int × Bool × Chars) :=
  match digits 0 0 cs with
  | (_, 0, _) => none
  | (value, _ + 1, rest) => some (if negative then -(value : Int) else value, true, rest)

/-- Reads what may follow that: an exponent. -/
def exponent? : Chars → Option (Int × Bool × Chars)
  | some 'e' :: some '+' :: cs | some 'E' :: some '+' :: cs => exponentDigits? false cs
  | some 'e' :: some '-' :: cs | some 'E' :: some '-' :: cs => exponentDigits? true cs
  | some 'e' :: cs | some 'E' :: cs => exponentDigits? false cs
  | cs => some (0, false, cs)

/-- Reads a number behind its sign. -/
def number? (negative : Bool) (cs : Chars) : Option (JsonNumber × Chars) := do
  let (value, cs) ← wholePart? cs
  let (mantissa, places, pointed, cs) ← fraction? value cs
  let (exponent, raised, cs) ← exponent? cs
  if pointed || raised then return (.decimal negative mantissa (exponent - places), cs)
  else return (.whole negative value, cs)

/-- A piece of a string: a character, a UTF-16 unit given as an escape, or an octet that is not
UTF-8. -/
inductive Piece where
  | char (c : Char)
  | unit (n : Nat)
  | stray

/-- The value of four hexadecimal digits. -/
def unit? (a b c d : Char) : Option Nat := do
  let a ← Numeral.digit? 16 a
  let b ← Numeral.digit? 16 b
  let c ← Numeral.digit? 16 c
  let d ← Numeral.digit? 16 d
  return ((a * 16 + b) * 16 + c) * 16 + d

/-- The character that a letter stands for behind a backslash. -/
def escaped? : Char → Option Char
  | '"' => some '"'
  | '\\' => some '\\'
  | '/' => some '/'
  | 'b' => some '\x08'
  | 'f' => some '\x0C'
  | 'n' => some '\n'
  | 'r' => some '\r'
  | 't' => some '\t'
  | _ => none

/-- Reads a string behind its opening quote. -/
def pieces? : Chars → Option (List Piece × Chars)
  | [] => none
  | some '"' :: rest => some ([], rest)
  | some '\\' :: some 'u' :: some a :: some b :: some c :: some d :: rest => do
    let n ← unit? a b c d
    let (ps, rest) ← pieces? rest
    return (.unit n :: ps, rest)
  | some '\\' :: some e :: rest => do
    let c ← escaped? e
    let (ps, rest) ← pieces? rest
    return (.char c :: ps, rest)
  | some '\\' :: _ => none
  | some c :: rest =>
    if c < ' ' then none
    else do
      let (ps, rest) ← pieces? rest
      return (.char c :: ps, rest)
  | none :: rest => do
    let (ps, rest) ← pieces? rest
    return (.stray :: ps, rest)

/-- Whether a UTF-16 unit is the first of a pair. -/
def isHigh (n : Nat) : Bool := decide (0xD800 ≤ n) && decide (n < 0xDC00)

/-- Whether a UTF-16 unit is the second of a pair. -/
def isLow (n : Nat) : Bool := decide (0xDC00 ≤ n) && decide (n < 0xE000)

/-- The characters that the pieces spell. Units of pairs have to come in pairs. -/
def spell? : List Piece → Option (List Char)
  | [] => some []
  | .char c :: ps => (spell? ps).map (c :: ·)
  | .stray :: _ => none
  | .unit m :: .unit n :: ps =>
    if isHigh m then
      if isLow n then
        (spell? ps).map (Char.ofNat (0x10000 + (m - 0xD800) * 0x400 + (n - 0xDC00)) :: ·)
      else none
    else if isLow m then none
    else (spell? (.unit n :: ps)).map (Char.ofNat m :: ·)
  | .unit m :: ps =>
    if isHigh m || isLow m then none else (spell? ps).map (Char.ofNat m :: ·)

/-- Reads a string behind its opening quote; the text is missing if the string spells none. -/
def string? (cs : Chars) : Option (Option String × Chars) := do
  let (ps, rest) ← pieces? cs
  return ((spell? ps).map String.ofList, rest)

/-! ## Values -/

/-- The string as a value. -/
def ofText? : Option String → Json
  | some s => .str s
  | none => .unreadable

/-- The object of some fields, of which each key has to spell text. -/
def ofFields (fields : List (Option String × Json)) : Json :=
  match fields.mapM fun f => f.1.map fun key => (key, f.2) with
  | some fs => .obj fs
  | none => .unreadable

mutual

/-- Reads a value; blanks before it are passed over. -/
def value? : Nat → Chars → Option (Json × Chars)
  | 0, _ => none
  | n + 1, cs =>
    match skipBlanks cs with
    | some 'n' :: some 'u' :: some 'l' :: some 'l' :: rest => some (.null, rest)
    | some 't' :: some 'r' :: some 'u' :: some 'e' :: rest => some (.bool true, rest)
    | some 'f' :: some 'a' :: some 'l' :: some 's' :: some 'e' :: rest => some (.bool false, rest)
    | some '"' :: rest => (string? rest).map fun (s, rest) => (ofText? s, rest)
    | some '[' :: rest =>
      match skipBlanks rest with
      | some ']' :: rest => some (.arr [], rest)
      | rest => (items? n rest).map fun (js, rest) => (.arr js, rest)
    | some '\x7b' :: rest =>
      match skipBlanks rest with
      | some '\x7d' :: rest => some (.obj [], rest)
      | rest => (fields? n rest).map fun (fs, rest) => (ofFields fs, rest)
    | some '-' :: rest => (number? true rest).map fun (k, rest) => (.num k, rest)
    | rest => (number? false rest).map fun (k, rest) => (.num k, rest)

/-- Reads the items of an array up to its end. -/
def items? : Nat → Chars → Option (List Json × Chars)
  | 0, _ => none
  | n + 1, cs => do
    let (j, rest) ← value? n cs
    match skipBlanks rest with
    | some ',' :: rest =>
      let (js, rest) ← items? n rest
      return (j :: js, rest)
    | some ']' :: rest => return ([j], rest)
    | _ => none

/-- Reads the fields of an object up to its end. -/
def fields? : Nat → Chars → Option (List (Option String × Json) × Chars)
  | 0, _ => none
  | n + 1, cs =>
    match skipBlanks cs with
    | some '"' :: rest => do
      let (key, rest) ← string? rest
      match skipBlanks rest with
      | some ':' :: rest =>
        let (j, rest) ← value? n rest
        match skipBlanks rest with
        | some ',' :: rest =>
          let (fs, rest) ← fields? n rest
          return ((key, j) :: fs, rest)
        | some '\x7d' :: rest => return ([(key, j)], rest)
        | _ => none
      | _ => none
    | _ => none

end

/-- The value that a text spells. -/
def readChars (cs : Chars) : Option Json :=
  match value? (cs.length + 1) cs with
  | some (j, rest) => if (skipBlanks rest).isEmpty then some j else none
  | none => none

/-- The value that a text spells. -/
def read (s : String) : Option Json := readChars (s.toList.map some)

/-- The value that octets spell. -/
def readOctets (octets : List UInt8) : Option Json := readChars (Utf8.decode octets)

end Json

end OntologyService
