import OntologyService.Text.Numeral
import OntologyService.Toml.Basic

/-!
# TOML numbers, truth values and moments

Digits may be separated by single underscores. A decimal whole number does not start with a zero,
has 64 bits with a sign, and may carry a sign; the other bases carry none. A moment is a date, a
time, or both, and its parts have to exist: there is no thirtieth of February.

Each reader takes as much as belongs to it and gives what follows.
-/

namespace OntologyService

namespace Toml

/-- Reads digits on. Behind an underscore there has to be one. -/
def moreDigits? (base : Nat) : List Char → Option (List Nat × List Char)
  | [] => some ([], [])
  | '_' :: [] => none
  | '_' :: c :: rest => do
    let d ← Numeral.digit? base c
    let (ds, rest) ← moreDigits? base rest
    return (d :: ds, rest)
  | c :: rest =>
    match Numeral.digit? base c with
    | none => some ([], c :: rest)
    | some d => (moreDigits? base rest).map fun (ds, rest) => (d :: ds, rest)

/-- Reads digits, of which there is at least one. -/
def digits? (base : Nat) : List Char → Option (List Nat × List Char)
  | [] => none
  | c :: rest => do
    let d ← Numeral.digit? base c
    let (ds, rest) ← moreDigits? base rest
    return (d :: ds, rest)

/-- Reads digits that have no zero before others. -/
def decimalDigits? : List Char → Option (List Nat × List Char)
  | '0' :: rest => some ([0], rest)
  | cs => digits? 10 cs

/-- Reads a sign, if there is one. -/
def sign : List Char → Bool × List Char
  | '-' :: rest => (true, rest)
  | '+' :: rest => (false, rest)
  | cs => (false, cs)

/-- The first number that has no room in 64 bits with a sign. -/
def integerBound : Nat := 0x8000000000000000

/-- A whole number of 64 bits with a sign. -/
def integer? (negative : Bool) (n : Nat) : Option Toml :=
  if negative then if n ≤ integerBound then some (.integer (-n)) else none
  else if n < integerBound then some (.integer n) else none

/-- Reads a whole number in another base than ten. -/
def inBase? (base : Nat) (cs : List Char) : Option (Toml × List Char) := do
  let (ds, rest) ← digits? base cs
  let n ← integer? false (Numeral.ofDigits base ds)
  return (n, rest)

/-- Reads the exponent of a decimal behind its letter. -/
def exponent? (cs : List Char) : Option (Int × List Char) := do
  let (negative, cs) := sign cs
  let (ds, rest) ← digits? 10 cs
  let n : Int := Numeral.ofDigits 10 ds
  return (if negative then -n else n, rest)

/-- The decimal with the digits and the exponent. A negative one may lie beyond every double. -/
def float? (negative : Bool) (ds : List Nat) (exponent : Int) : Option Toml :=
  if !negative && Numeral.overflows (Numeral.ofDigits 10 ds) exponent then none else some .float

/-- Reads a decimal number behind its sign. -/
def decimal? (negative : Bool) (cs : List Char) : Option (Toml × List Char) := do
  let (whole, cs) ← decimalDigits? cs
  match cs with
  | '.' :: cs =>
    let (places, cs) ← digits? 10 cs
    let (exponent, cs) ← match cs with
      | 'e' :: cs | 'E' :: cs => exponent? cs
      | cs => some (0, cs)
    return (← float? negative (whole ++ places) (exponent - places.length), cs)
  | 'e' :: cs | 'E' :: cs =>
    let (exponent, cs) ← exponent? cs
    return (← float? negative whole exponent, cs)
  | cs => return (← integer? negative (Numeral.ofDigits 10 whole), cs)

/-! ## Moments -/

/-- Reads exactly so many digits, and gives their value if it lies in the range. -/
def field? (digits low high : Nat) (cs : List Char) : Option (Nat × List Char) := do
  let ds ← (cs.take digits).mapM (Numeral.digit? 10)
  let n := Numeral.ofDigits 10 ds
  if ds.length = digits ∧ low ≤ n ∧ n ≤ high then return (n, cs.drop digits) else none

/-- Reads a character that has to be there. -/
def char? (c : Char) : List Char → Option (List Char)
  | c' :: rest => if c' = c then some rest else none
  | [] => none

/-- The number of days of a month. -/
def daysIn (year month : Nat) : Nat :=
  if month = 2 then
    if year % 4 = 0 ∧ (year % 100 ≠ 0 ∨ year % 400 = 0) then 29 else 28
  else if month = 4 ∨ month = 6 ∨ month = 9 ∨ month = 11 then 30
  else 31

/-- Reads a date. -/
def date? (cs : List Char) : Option (List Char) := do
  let (year, cs) ← field? 4 0 9999 cs
  let cs ← char? '-' cs
  let (month, cs) ← field? 2 1 12 cs
  let cs ← char? '-' cs
  let (_, cs) ← field? 2 1 (daysIn year month) cs
  return cs

/-- Reads the fraction of a second, if there is one. -/
def secondFraction? : List Char → Option (List Char)
  | '.' :: cs =>
    let digits := cs.takeWhile fun c => (Numeral.digit? 10 c).isSome
    if digits.isEmpty then none else some (cs.drop digits.length)
  | cs => some cs

/-- Reads a time of day. -/
def time? (cs : List Char) : Option (List Char) := do
  let (_, cs) ← field? 2 0 23 cs
  let cs ← char? ':' cs
  let (_, cs) ← field? 2 0 59 cs
  let cs ← char? ':' cs
  let (_, cs) ← field? 2 0 60 cs
  secondFraction? cs

/-- Reads the distance from universal time, if there is one. -/
def offset? : List Char → Option (List Char)
  | 'Z' :: cs | 'z' :: cs => some cs
  | '+' :: cs | '-' :: cs => do
    let (_, cs) ← field? 2 0 23 cs
    let cs ← char? ':' cs
    let (_, cs) ← field? 2 0 59 cs
    return cs
  | cs => some cs

/-- Reads a moment. A blank may stand between date and time, so a date with a blank behind it is a
date by itself unless a time follows. -/
def moment? (cs : List Char) : Option (List Char) :=
  match date? cs with
  | none => time? cs
  | some rest =>
    let behind := match rest with
      | 'T' :: cs | 't' :: cs | ' ' :: cs => time? cs
      | _ => none
    match behind with
    | none => some rest
    | some rest => offset? rest

/-! ## All of them -/

/-- Reads a number without sign in another base than ten, a decimal, or a moment. -/
def number? (cs : List Char) : Option (Toml × List Char) :=
  match moment? cs with
  | some rest => some (.moment, rest)
  | none =>
    match cs with
    | '0' :: 'x' :: rest => inBase? 16 rest
    | '0' :: 'o' :: rest => inBase? 8 rest
    | '0' :: 'b' :: rest => inBase? 2 rest
    | cs =>
      match sign cs with
      | (_, 'i' :: 'n' :: 'f' :: rest) | (_, 'n' :: 'a' :: 'n' :: rest) => some (.float, rest)
      | (negative, cs) => decimal? negative cs

/-- Reads a value that is one word. -/
def scalar? : List Char → Option (Toml × List Char)
  | 't' :: 'r' :: 'u' :: 'e' :: rest => some (.bool true, rest)
  | 'f' :: 'a' :: 'l' :: 's' :: 'e' :: rest => some (.bool false, rest)
  | cs => number? cs

end Toml

end OntologyService
