import OntologyService.Toml.Quoted
import OntologyService.Toml.Scalar

/-!
# Reading TOML

Version 1.0 of the format. Lines end in a line feed or in a carriage return and a line feed, and
`unifyLineEnds` makes the former of the latter before anything else is read; a carriage return
that is left over belongs nowhere.

Arrays and tables in braces nest less than 80 deep, and a dotted key has less than 80 parts.

The mutually recursive readers are handed a number of steps, as is the reader of lines. Every step
takes a character, so the length of the text is enough of them, and `read` supplies it.
-/

namespace OntologyService

namespace Toml

/-- Text in which every line ends in a line feed alone. -/
def unifyLineEnds : List Char → List Char
  | [] => []
  | '\r' :: '\n' :: rest => '\n' :: unifyLineEnds rest
  | c :: rest => c :: unifyLineEnds rest

/-! ## Between values -/

/-- Passes over blanks. -/
def skipBlanks : List Char → List Char
  | [] => []
  | c :: rest => if c = ' ' || c = '\t' then skipBlanks rest else c :: rest

/-- Passes over blanks, line ends and comments. -/
def skipLines? (inComment : Bool) : List Char → Option (List Char)
  | [] => some []
  | c :: rest =>
    if c = '\n' then skipLines? false rest
    else if inComment then if Quotation.plain c then skipLines? true rest else none
    else if c = ' ' || c = '\t' then skipLines? false rest
    else if c = '#' then skipLines? true rest
    else some (c :: rest)

/-- Passes over the rest of a line, in which only blanks and a comment may stand. -/
def finishLine? (inComment : Bool) : List Char → Option (List Char)
  | [] => some []
  | c :: rest =>
    if c = '\n' then some rest
    else if inComment then if Quotation.plain c then finishLine? true rest else none
    else if c = ' ' || c = '\t' then finishLine? false rest
    else if c = '#' then finishLine? true rest
    else none

/-! ## Keys -/

/-- How deep values nest at most, and how many parts a dotted key has at most. -/
def maxDepth : Nat := 79

/-- Whether a character may stand in a key without quotes. -/
def isBare (c : Char) : Bool := c.isAlphanum || c = '_' || c = '-'

/-- Reads a key, or one part of a dotted key. -/
def simpleKey? : List Char → Option (String × List Char)
  | '"' :: rest => (Quotation.basic.read? rest).map fun (s, rest) => (String.ofList s, rest)
  | '\'' :: rest => (Quotation.literal.read? rest).map fun (s, rest) => (String.ofList s, rest)
  | cs =>
    let name := cs.takeWhile isBare
    if name.isEmpty then none else some (String.ofList name, cs.drop name.length)

/-- Reads the parts of a key, with blanks around them. -/
def keyParts? : Nat → List Char → Option (List String × List Char)
  | 0, _ => none
  | n + 1, cs => do
    let (part, cs) ← simpleKey? (skipBlanks cs)
    match skipBlanks cs with
    | '.' :: cs =>
      let (parts, cs) ← keyParts? n cs
      return (part :: parts, cs)
    | cs => return ([part], cs)

/-- Reads a key. -/
def key? (cs : List Char) : Option (List String × List Char) :=
  keyParts? maxDepth cs

/-- Reads a key and the sign between it and its value. -/
def keyAndSign? (cs : List Char) : Option (List String × List Char) := do
  let (path, cs) ← key? cs
  match cs with
  | '=' :: cs => return (path, skipBlanks cs)
  | _ => none

/-! ## Values -/

mutual

/-- Reads a value, in which so many levels may nest. -/
def value? : Nat → Nat → List Char → Option (Toml × List Char)
  | 0, _, _ => none
  | n + 1, room, cs =>
    match cs with
    | '"' :: _ | '\'' :: _ =>
      (Quotation.readAny? cs).map fun (s, rest) => (.string (String.ofList s), rest)
    | '[' :: rest =>
      match room with
      | 0 => none
      | room + 1 => (items? n room rest).map fun (items, rest) => (.array items, rest)
    | '\x7b' :: rest =>
      match room with
      | 0 => none
      | room + 1 =>
        match skipBlanks rest with
        | '\x7d' :: rest => some (.table .inline [], rest)
        | rest => do
          let (pairs, rest) ← pairs? n room rest
          let fields ← inlineFields pairs
          return (.table .inline fields, rest)
    | cs => scalar? cs

/-- Reads the items of an array up to its end; a comma may follow the last of them. -/
def items? : Nat → Nat → List Char → Option (List Toml × List Char)
  | 0, _, _ => none
  | n + 1, room, cs => do
    match ← skipLines? false cs with
    | ']' :: rest => return ([], rest)
    | cs =>
      let (v, cs) ← value? n room cs
      match ← skipLines? false cs with
      | ',' :: cs =>
        let (vs, rest) ← items? n room cs
        return (v :: vs, rest)
      | ']' :: rest => return ([v], rest)
      | _ => none

/-- Reads the keys and values of a table in braces up to its end. -/
def pairs? : Nat → Nat → List Char → Option (List (List String × Toml) × List Char)
  | 0, _, _ => none
  | n + 1, room, cs => do
    let (path, cs) ← keyAndSign? cs
    let (v, cs) ← value? n room cs
    match skipBlanks cs with
    | ',' :: cs =>
      let (ps, rest) ← pairs? n room cs
      return ((path, v) :: ps, rest)
    | '\x7d' :: rest => return ([(path, v)], rest)
    | _ => none

end

/-! ## Documents -/

/-- Reads line by line into a document, below the last header. -/
def lines? : Nat → List String → Fields → List Char → Option Fields
  | 0, _, _, _ => none
  | n + 1, header, root, cs =>
    match skipBlanks cs with
    | [] => some root
    | '\n' :: cs => lines? n header root cs
    | '#' :: cs => do
      let cs ← finishLine? true cs
      lines? n header root cs
    | '[' :: '[' :: cs => do
      let (path, cs) ← key? cs
      let cs ← char? ']' cs
      let cs ← char? ']' cs
      let cs ← finishLine? false cs
      lines? n path (← openElement path root) cs
    | '[' :: cs => do
      let (path, cs) ← key? cs
      let cs ← char? ']' cs
      let cs ← finishLine? false cs
      lines? n path (← openTable path root) cs
    | cs => do
      let (path, cs) ← keyAndSign? cs
      let (v, cs) ← value? (cs.length + 1) maxDepth cs
      let cs ← finishLine? false cs
      lines? n header (← alter .implied (assign path v) header .header root) cs

/-- Text without the byte order mark that it may start with. -/
def dropByteOrderMark : List Char → List Char
  | '\uFEFF' :: rest => rest
  | cs => cs

/-- The table that a document spells. -/
def read (s : String) : Option Fields :=
  let cs := unifyLineEnds (dropByteOrderMark s.toList)
  lines? (cs.length + 1) [] [] cs

end Toml

end OntologyService
