import Mathlib.Tactic.SplitIfs
import OntologyService.Text.Numeral

/-!
# Hexadecimal digits

The character of a value is read as the value (`digit?_hexChar`). What is read as a digit is a digit
or a letter of ASCII (`range_of_digit?`).
-/

namespace OntologyService

namespace Numeral

variable {c : Char} {n : Nat}

/-- A digit that is written is read as its value. -/
theorem digit?_hexChar (small : n < 16) : digit? 16 (hexChar 'A' n) = some n := by
  have all : ∀ n < 16, digit? 16 (hexChar 'A' n) = some n := by decide
  exact all n small

/-- The digits, by their places in ASCII. -/
theorem range_of_digit? (digit : digit? 16 c = some n) :
    (48 ≤ c.toNat ∧ c.toNat ≤ 57) ∨ (97 ≤ c.toNat ∧ c.toNat ≤ 102) ∨
      (65 ≤ c.toNat ∧ c.toNat ≤ 70) := by
  have order (d e : Char) : d ≤ e ↔ d.toNat ≤ e.toNat := Iff.rfl
  simp only [digit?, order] at digit
  split_ifs at digit with decimal _ lower _ upper _ beyond
  · exact .inl decimal
  · exact .inr (.inl lower)
  · exact .inr (.inr upper)
  · exact absurd beyond (Nat.lt_irrefl 16)

/-- Digits are letters or figures. -/
theorem isAlphanum_of_digit? (digit : digit? 16 c = some n) : c.isAlphanum = true := by
  have all : ∀ place < 103, (48 ≤ place ∧ place ≤ 57) ∨ (97 ≤ place ∧ place ≤ 102) ∨
      (65 ≤ place ∧ place ≤ 70) → (Char.ofNat place).isAlphanum = true := by decide
  have range := range_of_digit? digit
  rw [← Char.ofNat_toNat c]
  exact all _ (by omega) range

end Numeral

end OntologyService
