/-!
# Path patterns

A pattern is written like a path, with names in braces for what may vary: `{name}` takes the place
of what is left of a segment, and `{*name}` at the end that of all that is left of the path. A
brace that is written twice stands for itself, in a name as well as outside of one. What stands in
place of a name may be empty only if more of the pattern follows.

Patterns are compared with paths character by character, and text may stand in front of a name.
Several patterns may match one path. The first difference between two of them decides: what is
spelled out goes before what varies.
-/

namespace OntologyService

/-- A part of a pattern. -/
inductive PatternPart where
  /-- A character that is spelled out. -/
  | char (c : Char)
  /-- A name for what is left of a segment. -/
  | segment (name : String)
  /-- A name for what is left of the path. -/
  | rest (name : String)
deriving DecidableEq

/-- A pattern, part by part. -/
abbrev PathPattern := List PatternPart

namespace PathPattern

/-- A character of a written pattern: a brace around a name, or one that stands for itself. -/
inductive Mark where
  | opening
  | closing
  | char (c : Char)

/-- The marks that a text is made of; a brace that is written twice is a character. -/
def marks : List Char → List Mark
  | [] => []
  | '\x7b' :: '\x7b' :: cs => .char '\x7b' :: marks cs
  | '\x7d' :: '\x7d' :: cs => .char '\x7d' :: marks cs
  | '\x7b' :: cs => .opening :: marks cs
  | '\x7d' :: cs => .closing :: marks cs
  | c :: cs => .char c :: marks cs

/-- A character that is no brace is a mark of its own. -/
theorem marks_char {c : Char} (noOpening : c ≠ '\x7b') (noClosing : c ≠ '\x7d') (cs : List Char) :
    marks (c :: cs) = .char c :: marks cs := by
  rw [marks]
  · rintro _ rfl -
    exact noOpening rfl
  · rintro _ rfl -
    exact noClosing rfl
  · exact noOpening
  · exact noClosing

/-- A brace is a mark of its own, unless it is written twice. -/
theorem marks_opening {cs : List Char} (single : ∀ rest, cs ≠ '\x7b' :: rest) :
    marks ('\x7b' :: cs) = .opening :: marks cs := by
  rw [marks]
  exact single

/-- So is a closing brace that is not doubled. -/
theorem marks_closing {cs : List Char} (single : ∀ rest, cs ≠ '\x7d' :: rest) :
    marks ('\x7d' :: cs) = .closing :: marks cs := by
  rw [marks]
  exact single

/-- The part that a name in braces stands for. -/
def named : List Char → PatternPart
  | '*' :: name => .rest (String.ofList name)
  | name => .segment (String.ofList name)

/-- The parts that marks spell. Inside a name, `name` holds its characters so far, the last one
first. -/
def parts (name : Option (List Char)) : List Mark → PathPattern
  | [] => []
  | .closing :: ms =>
    match name with
    | some cs => named cs.reverse :: parts none ms
    | none => .char '\x7d' :: parts none ms
  | .opening :: ms =>
    match name with
    | some cs => parts (some ('\x7b' :: cs)) ms
    | none => parts (some []) ms
  | .char c :: ms =>
    match name with
    | some cs => parts (some (c :: cs)) ms
    | none => .char c :: parts none ms

/-- The pattern that a text spells. -/
def ofString (s : String) : PathPattern := parts none (marks s.toList)

/-- Whether a character belongs to a segment. -/
def inSegment (c : Char) : Bool := decide (c ≠ '/')

/-- The parts of a path that the names of a pattern stand for, as they are written, if the pattern
matches the path. -/
def match? : PathPattern → List Char → Option (List (String × String))
  | [], [] => some []
  | .char c :: pattern, d :: path => if c = d then match? pattern path else none
  | .segment name :: pattern, path =>
    let value := path.takeWhile inSegment
    if pattern.isEmpty && value.isEmpty then none
    else (match? pattern (path.dropWhile inSegment)).map ((name, String.ofList value) :: ·)
  | [.rest name], c :: path => some [(name, String.ofList (c :: path))]
  | _, _ => none

/-- Whether the first pattern goes before the second where both match. -/
def goesBefore : PathPattern → PathPattern → Bool
  | .char c :: ps, .char d :: qs => decide (c = d) && goesBefore ps qs
  | .char _ :: _, .segment _ :: _ | .char _ :: _, .rest _ :: _ => true
  | .segment _ :: ps, .segment _ :: qs => goesBefore ps qs
  | _, _ => false

end PathPattern

end OntologyService
