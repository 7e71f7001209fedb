/-!
# Numerals

Digits and the numbers that they spell, in ASCII only: a digit of another script is no digit here.

`nat?` is the form in which settings are written outside of documents: digits, with or without a
plus sign, and nothing else. `overflows` tells the decimals that no double can hold.
-/

namespace OntologyService

namespace Numeral

/-- The value of a digit in a base up to sixteen, whose letters may be of either case. -/
def digit? (base : Nat) (c : Char) : Option Nat :=
  let value :=
    if '0' ≤ c ∧ c ≤ '9' then c.toNat - '0'.toNat
    else if 'a' ≤ c ∧ c ≤ 'f' then c.toNat - 'a'.toNat + 10
    else if 'A' ≤ c ∧ c ≤ 'F' then c.toNat - 'A'.toNat + 10
    else 16
  if value < base then some value else none

/-- The number that digits spell, the most significant first. -/
def ofDigits (base : Nat) (ds : List Nat) : Nat := ds.foldl (fun n d => n * base + d) 0

/-- The number below the bound that a text spells. -/
def nat? (bound : Nat) (s : String) : Option Nat :=
  let digits := match s.toList with
    | '+' :: rest => rest
    | cs => cs
  match digits.mapM (digit? 10) with
  | none | some [] => none
  | some ds => if ofDigits 10 ds < bound then some (ofDigits 10 ds) else none

/-- A hexadecimal digit below ten, or with its letter from the case that starts at `ten`. -/
def hexChar (ten : Char) (n : Nat) : Char :=
  if n < 10 then Char.ofNat ('0'.toNat + n) else Char.ofNat (ten.toNat + (n - 10))

/-- Whether the decimal `mantissa * 10 ^ exponent` lies beyond every double: it would round to
infinity. Sizes far from the limit are told by their number of bits, so no power of ten is large. -/
def overflows (mantissa : Nat) (exponent : Int) : Bool :=
  let bits : Int := Nat.log2 mantissa
  let limit := Nat.pow 2 1024 - Nat.pow 2 970
  if mantissa = 0 then false
  else if exponent > 400 then true
  else if exponent ≥ 0 then decide (mantissa * Nat.pow 10 exponent.toNat ≥ limit)
  else if bits + 3 * exponent < 1000 then false
  else decide (mantissa ≥ limit * Nat.pow 10 exponent.natAbs)

end Numeral

end OntologyService
