import OntologyService.Json.Basic
import OntologyService.Text.Numeral

/-!
# Printing JSON

Compact and in one line. In strings only the quote, the backslash and the control characters are
escaped, the common controls by their letters and the others by number; everything else stands for
itself.
-/

namespace OntologyService

namespace Json

/-- A hexadecimal digit. -/
def hexDigit (n : Nat) : Char := Numeral.hexChar 'a' n

/-- A character as it stands in a string. -/
def printChar (c : Char) : List Char :=
  if c = '"' then ['\\', '"']
  else if c = '\\' then ['\\', '\\']
  else if c = '\x08' then ['\\', 'b']
  else if c = '\x0C' then ['\\', 'f']
  else if c = '\n' then ['\\', 'n']
  else if c = '\r' then ['\\', 'r']
  else if c = '\t' then ['\\', 't']
  else if c < ' ' then ['\\', 'u', '0', '0', hexDigit (c.toNat / 16),
    hexDigit (c.toNat % 16)]
  else [c]

/-- A string with its quotes. -/
def printString (s : String) : List Char := '"' :: (s.toList.flatMap printChar ++ ['"'])

/-- The decimal digits of a number. -/
def printNat (n : Nat) : List Char := Nat.toDigits 10 n

/-- A minus sign where one is due. -/
def printSign (negative : Bool) : List Char := if negative then ['-'] else []

/-- A number; decimals as mantissa and exponent. -/
def printNumber : JsonNumber → List Char
  | .whole negative n => printSign negative ++ printNat n
  | .decimal negative mantissa exponent =>
    printSign negative ++ printNat mantissa ++
      'e' :: (printSign (decide (exponent < 0)) ++ printNat exponent.natAbs)

mutual

/-- A value. What has none is printed as a string that has none either. -/
def print : Json → List Char
  | .null => ['n', 'u', 'l', 'l']
  | .bool true => ['t', 'r', 'u', 'e']
  | .bool false => ['f', 'a', 'l', 's', 'e']
  | .num n => printNumber n
  | .str s => printString s
  | .arr items => '[' :: (printItems items ++ [']'])
  | .obj fields => '\x7b' :: (printFields fields ++ ['\x7d'])
  | .unreadable => ['"', '\\', 'u', 'd', '8', '0', '0', '"']

/-- The items of an array, separated by commas. -/
def printItems : List Json → List Char
  | [] => []
  | [j] => print j
  | j :: j' :: js => print j ++ ',' :: printItems (j' :: js)

/-- The fields of an object, separated by commas. -/
def printFields : List (String × Json) → List Char
  | [] => []
  | [(k, j)] => printString k ++ ':' :: print j
  | (k, j) :: f :: fs => printString k ++ ':' :: (print j ++ ',' :: printFields (f :: fs))

end

/-- The text of a value. -/
def text (j : Json) : String := String.ofList j.print

end Json

end OntologyService
