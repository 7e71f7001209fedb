/-!
# Decimals in double precision

How a decimal of a JSON text becomes a double: not by one rounding of its value, but in three. The
leading digits, as many as 64 bits hold, are rounded; the power of ten that they are to be
multiplied by is rounded; and so is the product. Near the upper end of the doubles this decides
which decimals are still numbers, and `exceeds` tells those that are not.

Only products matter for that. A decimal with a negative power of ten is divided, and no quotient
of 64 bits is too large.
-/

namespace OntologyService

namespace Double

/-- The bits that a double has for the digits of a number. -/
def precision : Nat := 53

/-- The power of two that no double reaches. -/
def limit : Nat := Nat.pow 2 1024

/-- The greatest power of ten below the limit, by its exponent. -/
def maxPowerOfTen : Nat := 308

/-- The nearest number of which only the first bits are not zero, as many as a double has. Of two
that are equally near it is the one whose last bit is zero. -/
def nearest (n : Nat) : Nat :=
  if n.log2 < precision then n
  else
    let unit := Nat.pow 2 (n.log2 + 1 - precision)
    let quotient := n / unit
    let rest := n % unit
    let up := decide (unit < 2 * rest) || (decide (unit = 2 * rest) && quotient % 2 = 1)
    (if up then quotient + 1 else quotient) * unit

/-- The leading digits of a number that 64 bits hold, and how many digits were left out. -/
def leading (n : Nat) : Nat × Nat :=
  if n < UInt64.size then (n, 0)
  else
    let (digits, dropped) := leading (n / 10)
    (digits, dropped + 1)
termination_by n
decreasing_by
  have : 0 < UInt64.size := by decide
  omega

/-- Whether `mantissa * 10 ^ exponent` is too large for a double. -/
def exceeds (mantissa : Nat) (exponent : Int) : Bool :=
  let (digits, dropped) := leading mantissa
  match exponent + dropped with
  | .negSucc _ => false
  | .ofNat e =>
    decide (digits ≠ 0) &&
      (decide (maxPowerOfTen < e) ||
        decide (limit ≤ nearest (nearest digits * nearest (Nat.pow 10 e))))

end Double

end OntologyService
