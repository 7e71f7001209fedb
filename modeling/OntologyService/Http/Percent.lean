import OntologyService.Order.Table
import OntologyService.Text.Numeral
import OntologyService.Text.Utf8

/-!
# Text in URLs

Octets that have no place in a URL are written as a percent sign and two hexadecimal digits. A
percent sign that is not followed by two digits stands for itself.

The fields of a query string are separated by ampersands, and within a field the first equals sign
separates the name from the value. A plus sign there is a blank, octets that are not UTF-8 become
the replacement character, and of fields with one name the last counts.
-/

namespace OntologyService

namespace Percent

/-- The character of an octet, if it is in ASCII. -/
def ascii (octet : UInt8) : Char := Char.ofNat octet.toNat

/-- An octet as a percent sign and two digits. -/
def escapeOctet (octet : UInt8) : List Char :=
  ['%', Numeral.hexChar 'A' (octet.toNat / 16), Numeral.hexChar 'A' (octet.toNat % 16)]

/-- The octets that are written. -/
def decode : List UInt8 → List UInt8
  | [] => []
  | 37 :: a :: b :: rest =>
    match Numeral.digit? 16 (ascii a), Numeral.digit? 16 (ascii b) with
    | some high, some low => UInt8.ofNat (high * 16 + low) :: decode rest
    | _, _ => 37 :: decode (a :: b :: rest)
  | octet :: rest => octet :: decode rest

/-- The text that is written, if it is UTF-8. -/
def decodeText? (s : String) : Option String := Utf8.decode? (decode s.toUTF8.toList)

/-- The octets of a part of a query string. -/
def decodeField (octets : List UInt8) : String :=
  Utf8.decodeLossy (decode (octets.map fun b => if b = 43 then 32 else b))

/-- The name and the value of a field of a query string. -/
def splitField (octets : List UInt8) : String × String :=
  let name := octets.takeWhile fun b => decide (b ≠ 61)
  (decodeField name, decodeField (octets.drop (name.length + 1)))

/-- The fields of a query string. -/
def queryFields (query : String) : Table String String :=
  Table.ofList (((query.splitOn "&").filter fun field => decide (field ≠ "")).map fun field =>
    splitField field.toUTF8.toList)

end Percent

end OntologyService
