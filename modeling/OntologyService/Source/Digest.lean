/-!
# Digests of contents

SipHash with one round for each word and three at the end, and with a key of zeros. What is digested
is the number of octets, in eight octets of its own, and then the octets. Words take their octets in
little-endian order, and the last word has the count of all octets at its top.
-/

namespace OntologyService

/-- The four words that a digest is made with. -/
structure Digest where
  v₀ : UInt64 := 0x736f6d6570736575
  v₁ : UInt64 := 0x646f72616e646f6d
  v₂ : UInt64 := 0x6c7967656e657261
  v₃ : UInt64 := 0x7465646279746573

namespace Digest

/-- Turns a word to the left. -/
def rotate (w n : UInt64) : UInt64 := w <<< n ||| w >>> (64 - n)

/-- One round. -/
def round (d : Digest) : Digest :=
  let a := d.v₀ + d.v₁
  let b := rotate d.v₁ 13 ^^^ a
  let c := d.v₂ + d.v₃
  let e := rotate d.v₃ 16 ^^^ c
  let f := rotate a 32 + e
  let g := c + b
  { v₀ := f, v₁ := rotate b 17 ^^^ g, v₂ := rotate g 32, v₃ := rotate e 21 ^^^ f }

/-- Takes in a word. -/
def absorb (d : Digest) (word : UInt64) : Digest :=
  let d := { d with v₃ := d.v₃ ^^^ word }.round
  { d with v₀ := d.v₀ ^^^ word }

/-- The word of up to eight octets. -/
def word (octets : List UInt8) : UInt64 :=
  octets.foldr (fun octet w => w <<< 8 ||| octet.toUInt64) 0

/-- Takes in octets, and the count of all octets at the end. -/
def absorbAll (d : Digest) (count : Nat) : List UInt8 → Digest
  | a :: b :: c :: e :: f :: g :: h :: i :: octets =>
    (d.absorb (word [a, b, c, e, f, g, h, i])).absorbAll count octets
  | last => d.absorb (word last ||| UInt64.ofNat count <<< 56)

/-- The digest that the words make. -/
def finish (d : Digest) : UInt64 :=
  let d := { d with v₂ := d.v₂ ^^^ 0xff }.round.round.round
  d.v₀ ^^^ d.v₁ ^^^ d.v₂ ^^^ d.v₃

/-- The digest of octets. -/
def ofOctets (octets : List UInt8) : UInt64 :=
  (({} : Digest).absorbAll octets.length octets).finish

/-- The digest of a content. -/
def ofContent (content : List UInt8) : UInt64 :=
  let count := (List.range 8).map fun n => UInt8.ofNat (content.length / Nat.pow 256 n)
  ofOctets (count ++ content)

end Digest

end OntologyService
