/-!
# UTF-8

Reading never fails as a whole. `decode` gives one element per character, and `none` for a maximal
run of octets that starts a character and does not finish it, or starts none. What a `none` means
is for the reader of the text to say: text that has to be UTF-8 has no `none`, text that only has
to be shown has the replacement character in its place.
-/

namespace OntologyService

namespace Utf8

/-- The characters of a text, as octets. -/
def encode (cs : List Char) : List UInt8 := cs.flatMap String.utf8EncodeChar

/-- A character of which some octets are still to come: what they have to add up to so far, the
range of the next octet, and how many come after that one. -/
structure Partial where
  value : Nat
  low : Nat := 0x80
  high : Nat := 0xBF
  after : Nat

/-- What an octet begins: nothing, a whole character, or a part of one. -/
inductive Beginning where
  | nothing
  | whole (c : Char)
  | part (p : Partial)

/-- The leading octets of the standard, with the range that each leaves to the second octet. -/
def begin? (octet : UInt8) : Beginning :=
  let n := octet.toNat
  if n < 0x80 then .whole (Char.ofNat n)
  else if n < 0xC2 then .nothing
  else if n < 0xE0 then .part { value := n - 0xC0, after := 0 }
  else if n = 0xE0 then .part { value := 0, low := 0xA0, after := 1 }
  else if n = 0xED then .part { value := 0xD, high := 0x9F, after := 1 }
  else if n < 0xF0 then .part { value := n - 0xE0, after := 1 }
  else if n = 0xF0 then .part { value := 0, low := 0x90, after := 2 }
  else if n < 0xF4 then .part { value := n - 0xF0, after := 2 }
  else if n = 0xF4 then .part { value := 4, high := 0x8F, after := 2 }
  else .nothing

mutual

/-- Reads on between two characters. -/
def decode : List UInt8 → List (Option Char)
  | [] => []
  | octet :: rest =>
    match begin? octet with
    | .nothing => none :: decode rest
    | .whole c => some c :: decode rest
    | .part p => finish p rest

/-- Reads on inside a character. An octet that does not continue it begins something else. -/
def finish (p : Partial) : List UInt8 → List (Option Char)
  | [] => [none]
  | octet :: rest =>
    if p.low ≤ octet.toNat ∧ octet.toNat ≤ p.high then
      let value := p.value * 64 + octet.toNat % 64
      match p.after with
      | 0 => some (Char.ofNat value) :: decode rest
      | n + 1 => finish { value, after := n } rest
    else
      match begin? octet with
      | .nothing => none :: none :: decode rest
      | .whole c => none :: some c :: decode rest
      | .part p' => none :: finish p' rest

end

/-- The text that the octets spell, if they are UTF-8 throughout. -/
def decode? (octets : List UInt8) : Option String :=
  ((decode octets).mapM id).map String.ofList

/-- The text that the octets spell, with the replacement character for what is not UTF-8. -/
def decodeLossy (octets : List UInt8) : String :=
  String.ofList ((decode octets).map fun c => c.getD '\uFFFD')

end Utf8

end OntologyService
