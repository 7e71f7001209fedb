import Mathlib.Data.List.Infix
import OntologyService.Http.Percent
import OntologyService.Proofs.Text.Numeral
import OntologyService.Proofs.Text.Utf8

/-!
# Reading what stands in a path

An octet that is written with a percent sign and two digits is read back as it was
(`decode_escapeOctet`), and no delimiter comes up in it (`not_delimiter_of_mem_escapeOctet`).

A text that is not written so is read with the escapes that it happens to have (`decodeChars`). It
stands for itself if it has none, and for less than is written if it has any (`decodeChars_cases`).
-/

namespace OntologyService

namespace Percent

/-! ## Characters and their octets -/

/-- A character in ASCII has one octet. -/
theorem encodeChar_ascii {c : Char} (small : c.toNat < 128) :
    String.utf8EncodeChar c = [UInt8.ofNat c.toNat] := by
  rw [String.utf8EncodeChar]
  exact if_pos (Nat.le_of_lt_succ small)

/-- Any other character has no octet that is in ASCII. -/
theorem encodeChar_high {c : Char} (large : ¬c.toNat < 128) :
    ∀ octet ∈ String.utf8EncodeChar c, 128 ≤ octet.toNat := by
  have beyond : ¬c.val.toNat ≤ 127 := fun le => large (Nat.lt_succ_of_le le)
  simp only [String.utf8EncodeChar, beyond, if_false]
  split_ifs <;> simp [UInt8.toNat_ofNat'] <;> omega

/-- An octet below 128 is the character with its number. -/
theorem ascii_ofNat {c : Char} (small : c.toNat < 128) : ascii (UInt8.ofNat c.toNat) = c := by
  rw [ascii, Utf8.toNat_ofNat_of_lt (by omega), Char.ofNat_toNat]

/-- A digit is a single octet, which is read as its value. -/
theorem exists_octet_of_digit? {c : Char} {n : Nat} (digit : Numeral.digit? 16 c = some n) :
    ∃ octet, String.utf8EncodeChar c = [octet] ∧ Numeral.digit? 16 (ascii octet) = some n := by
  have range := Numeral.range_of_digit? digit
  have small : c.toNat < 128 := by omega
  exact ⟨UInt8.ofNat c.toNat, encodeChar_ascii small, by rwa [ascii_ofNat small]⟩

/-- An octet that is not in ASCII is no digit. -/
theorem lt_of_digit?_ascii {octet : UInt8} {n : Nat}
    (digit : Numeral.digit? 16 (ascii octet) = some n) : octet.toNat < 128 := by
  have range := Numeral.range_of_digit? digit
  have valid : octet.toNat.isValidChar := .inl (octet.toNat_lt.trans (by decide))
  have place : (ascii octet).toNat = octet.toNat := by
    rw [ascii, Char.ofNat, dif_pos valid]
    rfl
  omega

/-! ## Octets one by one -/

/-- An octet that is no percent sign decodes to itself. -/
theorem decode_cons {octet : UInt8} (other : octet ≠ 37) (rest : List UInt8) :
    decode (octet :: rest) = octet :: decode rest := by
  rw [decode]
  rintro a b rest' rfl -
  exact other rfl

/-- Two digits behind a percent sign are the octet of their value. -/
theorem decode_digits {a b : UInt8} {m n : Nat} (high : Numeral.digit? 16 (ascii a) = some m)
    (low : Numeral.digit? 16 (ascii b) = some n) (rest : List UInt8) :
    decode (37 :: a :: b :: rest) = UInt8.ofNat (m * 16 + n) :: decode rest := by
  rw [decode, high, low]

/-! ## Octets that are written with digits -/

/-- An octet that is written with digits is read first. -/
theorem decode_escapeOctet (octet : UInt8) (rest : List UInt8) :
    decode (Utf8.encode (escapeOctet octet) ++ rest) = octet :: decode rest := by
  have bound := octet.toNat_lt
  obtain ⟨a, high, read⟩ := exists_octet_of_digit?
    (Numeral.digit?_hexChar (n := octet.toNat / 16) (by omega))
  obtain ⟨b, low, read'⟩ := exists_octet_of_digit?
    (Numeral.digit?_hexChar (n := octet.toNat % 16) (by omega))
  have spelled : Utf8.encode (escapeOctet octet) = [37, a, b] := by
    simp only [Utf8.encode, escapeOctet, List.flatMap_cons, List.flatMap_nil, high, low]
    rfl
  have whole : octet.toNat / 16 * 16 + octet.toNat % 16 = octet.toNat := by omega
  rw [spelled]
  refine (decode_digits read read' rest).trans ?_
  rw [whole, UInt8.ofNat_toNat]

/-- Octets that are written with digits are read first. -/
theorem decode_escape_append (octets rest : List UInt8) :
    decode (Utf8.encode (octets.flatMap escapeOctet) ++ rest) = octets ++ decode rest := by
  induction octets with
  | nil => rfl
  | cons octet octets ih =>
    rw [List.flatMap_cons, Utf8.encode, List.flatMap_append, List.append_assoc]
    exact (decode_escapeOctet octet _).trans (congrArg (octet :: ·) ih)

/-- What is written with digits has no delimiter in it. -/
theorem not_delimiter_of_mem_escapeOctet {octet : UInt8} {c : Char}
    (among : c ∈ escapeOctet octet) : c ∉ ['/', '?', '#'] := by
  have bound := octet.toNat_lt
  have digit {n : Nat} (small : n < 16) : Numeral.hexChar 'A' n ∉ ['/', '?', '#'] := by
    intro delimiter
    have letter := Numeral.isAlphanum_of_digit? (Numeral.digit?_hexChar small)
    simp only [List.mem_cons, List.not_mem_nil, or_false] at delimiter
    rcases delimiter with same | same | same <;> rw [same] at letter <;> cases letter
  simp only [escapeOctet, List.mem_cons, List.not_mem_nil, or_false] at among
  rcases among with rfl | rfl | rfl
  · decide
  · exact digit (by omega)
  · exact digit (by omega)

/-! ## Octets that are read as they are -/

/-- Octets with no percent sign among them decode to themselves. -/
theorem decode_append {octets : List UInt8} (plain : 37 ∉ octets) (rest : List UInt8) :
    decode (octets ++ rest) = octets ++ decode rest := by
  induction octets with
  | nil => rfl
  | cons octet octets ih =>
    obtain ⟨here, behind⟩ := not_or.1 (mt List.mem_cons.2 plain)
    rw [List.cons_append, decode_cons (Ne.symm here), ih behind, List.cons_append]

/-- A percent sign without two digits behind it stands for itself. -/
theorem decode_percent {rest : List UInt8}
    (alone : ∀ a b behind m n, rest = a :: b :: behind →
      Numeral.digit? 16 (ascii a) = some m → Numeral.digit? 16 (ascii b) ≠ some n) :
    decode (37 :: rest) = 37 :: decode rest := by
  match rest with
  | [] | [_] => rfl
  | a :: b :: behind =>
    rw [decode]
    split
    · next m n high low => exact absurd low (alone a b behind m n rfl high)
    · rfl

/-! ## Text that happens to have escapes -/

/-- The octets that a text in a URL stands for. -/
def decodeChars : List Char → List UInt8
  | [] => []
  | '%' :: a :: b :: rest =>
    match Numeral.digit? 16 a, Numeral.digit? 16 b with
    | some high, some low => UInt8.ofNat (high * 16 + low) :: decodeChars rest
    | _, _ => 37 :: decodeChars (a :: b :: rest)
  | c :: rest => String.utf8EncodeChar c ++ decodeChars rest

/-- Somewhere in the text two digits stand behind a percent sign. -/
def HasEscape (cs : List Char) : Prop :=
  ∃ a b m n, Numeral.digit? 16 a = some m ∧ Numeral.digit? 16 b = some n ∧ ['%', a, b] <:+: cs

variable {c : Char} {cs : List Char}

/-- Whether a text starts with a percent sign and two digits. -/
def startsWithEscape : List Char → Bool
  | '%' :: a :: b :: _ => (Numeral.digit? 16 a).isSome && (Numeral.digit? 16 b).isSome
  | _ => false

/-- Whether there is an escape can be computed. -/
theorem hasEscape_iff (cs : List Char) : HasEscape cs ↔ cs.tails.any startsWithEscape := by
  rw [List.any_eq_true]
  constructor
  · rintro ⟨a, b, m, n, high, low, inside⟩
    obtain ⟨tail, ⟨rest, rfl⟩, suffix⟩ := List.infix_iff_prefix_suffix.1 inside
    exact ⟨_, (List.mem_tails _ _).2 suffix, by simp [startsWithEscape, high, low]⟩
  · rintro ⟨tail, suffix, starts⟩
    unfold startsWithEscape at starts
    split at starts
    · next a b rest =>
      obtain ⟨high, low⟩ := Bool.and_eq_true_iff.1 starts
      obtain ⟨m, high⟩ := Option.isSome_iff_exists.1 high
      obtain ⟨n, low⟩ := Option.isSome_iff_exists.1 low
      exact ⟨a, b, m, n, high, low, (List.prefix_append _ rest).isInfix.trans
        ((List.mem_tails _ _).1 suffix).isInfix⟩
    · cases starts

instance (cs : List Char) : Decidable (HasEscape cs) := decidable_of_iff' _ (hasEscape_iff cs)

/-- Digits that do not stand at the front stand behind it. -/
theorem hasEscape_cons (alone : ∀ a b rest m n, c = '%' → cs = a :: b :: rest →
      Numeral.digit? 16 a = some m → Numeral.digit? 16 b ≠ some n) :
    HasEscape (c :: cs) ↔ HasEscape cs := by
  constructor
  · rintro ⟨a, b, m, n, high, low, inside⟩
    rcases List.infix_cons_iff.1 inside with ⟨rest, front⟩ | behind
    · obtain ⟨percent, digits⟩ := List.cons.inj front
      exact absurd low (alone a b rest m n percent.symm digits.symm high)
    · exact ⟨a, b, m, n, high, low, behind⟩
  · rintro ⟨a, b, m, n, high, low, inside⟩
    exact ⟨a, b, m, n, high, low, inside.trans (List.suffix_cons c cs).isInfix⟩

/-- **A text stands for itself**, unless digits stand behind a percent sign somewhere in it: then it
stands for less than is written. -/
theorem decodeChars_cases (cs : List Char) :
    (HasEscape cs ∧ (decodeChars cs).length < (Utf8.encode cs).length) ∨
      (¬HasEscape cs ∧ decodeChars cs = Utf8.encode cs) := by
  fun_induction decodeChars cs with
  | case1 => exact .inr ⟨by decide, rfl⟩
  | case2 a b rest high low read' read ih =>
    have behind : (decodeChars rest).length ≤ (Utf8.encode rest).length :=
      ih.elim (fun h => Nat.le_of_lt h.2) fun h => Nat.le_of_eq (congrArg List.length h.2)
    have size := a.utf8Size_pos
    have size' := b.utf8Size_pos
    refine .inl ⟨⟨a, b, high, low, read, read', (List.prefix_append _ rest).isInfix⟩, ?_⟩
    simp only [Utf8.length_encode_cons, List.length_cons]
    omega
  | case3 a b rest alone ih =>
    have same : HasEscape ('%' :: a :: b :: rest) ↔ HasEscape (a :: b :: rest) :=
      hasEscape_cons fun _ _ _ m n _ same high low => by
        cases same
        exact alone m n high low
    rw [same, Utf8.length_encode_cons, List.length_cons, Nat.add_comm]
    exact ih.imp (And.imp_right (Nat.add_lt_add_left · 1)) (And.imp_right (congrArg (37 :: ·)))
  | case4 c rest other ih =>
    have same : HasEscape (c :: rest) ↔ HasEscape rest :=
      hasEscape_cons fun a b rest' _ _ percent digits _ _ => other a b rest' percent digits
    rw [same, Utf8.length_encode_cons, List.length_append, String.length_utf8EncodeChar]
    exact ih.imp (And.imp_right (Nat.add_lt_add_left · _)) (And.imp_right (congrArg (_ ++ ·)))

/-- Characters without an escape decode to their octets. -/
theorem decodeChars_eq (plain : ¬HasEscape cs) : decodeChars cs = Utf8.encode cs :=
  (decodeChars_cases cs).elim (fun h => absurd h.1 plain) And.right

end Percent

end OntologyService
