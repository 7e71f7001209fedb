/-!
# White space

The characters with the property `White_Space` of the Unicode standard.
-/

namespace OntologyService

/-- The ranges of the property, each from its first to its last character. -/
def whiteSpaceRanges : List (Nat × Nat) :=
  [(0x0009, 0x000D), (0x0020, 0x0020), (0x0085, 0x0085), (0x00A0, 0x00A0), (0x1680, 0x1680),
   (0x2000, 0x200A), (0x2028, 0x2029), (0x202F, 0x202F), (0x205F, 0x205F), (0x3000, 0x3000)]

/-- Whether a character is white space. -/
def isWhiteSpace (c : Char) : Bool :=
  whiteSpaceRanges.any fun r => decide (r.1 ≤ c.toNat) && decide (c.toNat ≤ r.2)

/-- Whether a text holds nothing but white space. -/
def allWhiteSpace (s : String) : Bool := s.toList.all isWhiteSpace

end OntologyService
