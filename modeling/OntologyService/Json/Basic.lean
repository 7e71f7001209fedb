/-!
# JSON values

Objects are lists of fields, in the order of the text and with whatever repetitions it has: what a
repetition means is decided by whoever uses the object. Numbers keep the two shapes in which they
are written, because a whole number and a decimal are told apart when they are used, even where
they have the same value.

`unreadable` stands for a part of a text that follows the grammar and yet has no value: a string
that spells no Unicode text, or an object with such a string for a key. It can be passed over, and
every use of it fails.
-/

namespace OntologyService

/-- A number as it is written. -/
inductive JsonNumber where
  /-- Digits only, with or without a minus sign. -/
  | whole (negative : Bool) (n : Nat)
  /-- The number `mantissa * 10 ^ exponent`, written with a fraction or an exponent. -/
  | decimal (negative : Bool) (mantissa : Nat) (exponent : Int)
deriving DecidableEq

/-- A JSON value. -/
inductive Json where
  | null
  | bool (b : Bool)
  | num (n : JsonNumber)
  | str (s : String)
  | arr (items : List Json)
  | obj (fields : List (String × Json))
  | unreadable

namespace Json

/-- A count. -/
def nat (n : Nat) : Json := .num (.whole false n)

instance : Inhabited Json := ⟨.null⟩

/-- The last field of the name; a later field takes the place of an earlier one. -/
def field? (j : Json) (name : String) : Option Json :=
  match j with
  | .obj fields => (fields.reverse.find? fun f => decide (f.1 = name)).map Prod.snd
  | _ => none

mutual

/-- How deep arrays and objects are nested in the value. -/
def depth : Json → Nat
  | .arr items => depthOfItems items + 1
  | .obj fields => depthOfFields fields + 1
  | .null | .bool _ | .num _ | .str _ | .unreadable => 0

/-- The depth of the deepest item. -/
def depthOfItems : List Json → Nat
  | [] => 0
  | j :: js => max (depth j) (depthOfItems js)

/-- The depth of the deepest field. -/
def depthOfFields : List (String × Json) → Nat
  | [] => 0
  | (_, j) :: fs => max (depth j) (depthOfFields fs)

end

end Json

end OntologyService
