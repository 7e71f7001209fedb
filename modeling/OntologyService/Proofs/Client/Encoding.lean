import Mathlib.Data.List.TakeWhile
import OntologyService.Client.Encoding
import OntologyService.Proofs.Http.Percent

/-!
# What a URL says of a text that was put into it

A text that goes into a URL as it is may look like one that is already written. Where a percent sign
stands in front of two digits, the reader of the URL takes the three for one octet, whichever
`UrlEncoding` wrote the URL; everything else is read as it was (`decode_write`). What is cut off at
a delimiter does not depend on it either (`takeWhile_write`).
-/

namespace OntologyService

namespace UrlEncoding

open Percent

variable {e : UrlEncoding} {c : Char}

/-- A character that is legal in a URL stands for itself. -/
theorem writeChar_of_legal (legal : e.foreign c = false) : e.writeChar c = [c] :=
  if_neg (by simp [legal])

theorem write_append (e : UrlEncoding) (cs ds : List Char) :
    e.write (cs ++ ds) = e.write cs ++ e.write ds := List.flatMap_append

theorem write_cons (e : UrlEncoding) (c : Char) (cs : List Char) :
    e.write (c :: cs) = e.writeChar c ++ e.write cs := rfl

theorem encode_write_cons (e : UrlEncoding) (c : Char) (cs : List Char) :
    Utf8.encode (e.write (c :: cs)) = Utf8.encode (e.writeChar c) ++ Utf8.encode (e.write cs) := by
  rw [write_cons, Utf8.encode, List.flatMap_append]
  rfl

theorem encode_singleton (c : Char) : Utf8.encode [c] = String.utf8EncodeChar c :=
  List.flatMap_singleton ..

/-- A character other than the percent sign is read as it was, however it is written. -/
theorem decode_writeChar (other : c ≠ '%') (rest : List UInt8) :
    decode (Utf8.encode (e.writeChar c) ++ rest) = String.utf8EncodeChar c ++ decode rest := by
  cases legal : e.foreign c with
  | true =>
    rw [writeChar, if_pos legal]
    exact decode_escape_append _ rest
  | false =>
    rw [writeChar_of_legal legal, encode_singleton]
    refine decode_append (fun among => ?_) rest
    by_cases small : c.toNat < 128
    · rw [encodeChar_ascii small, List.mem_singleton] at among
      refine other ?_
      rw [← ascii_ofNat small, ← among]
      rfl
    · exact absurd (encodeChar_high small 37 among) (by decide)

/-- A digit in front of what is written is a character of the text. -/
theorem exists_of_digit {cs : List Char} {octet : UInt8} {octets : List UInt8} {n : Nat}
    (front : Utf8.encode (e.write cs) = octet :: octets)
    (digit : Numeral.digit? 16 (ascii octet) = some n) :
    ∃ rest, cs = ascii octet :: rest ∧ octets = Utf8.encode (e.write rest) := by
  cases cs with
  | nil => cases front
  | cons c rest =>
    rw [encode_write_cons] at front
    obtain ⟨first, others, spelled⟩ := List.exists_cons_of_length_pos
      (l := String.utf8EncodeChar c) (by rw [String.length_utf8EncodeChar]; exact c.utf8Size_pos)
    cases legal : e.foreign c with
    | true =>
      rw [writeChar, if_pos legal, spelled] at front
      have percent : octet = 37 := (List.cons.inj front).1.symm
      have none' : Numeral.digit? 16 (ascii 37) = none := by decide
      rw [percent, none'] at digit
      cases digit
    | false =>
      rw [writeChar_of_legal legal, encode_singleton] at front
      by_cases small : c.toNat < 128
      · rw [encodeChar_ascii small] at front
        obtain ⟨rfl, rfl⟩ := List.cons.inj front
        exact ⟨rest, by rw [ascii_ofNat small], rfl⟩
      · rw [spelled] at front
        have above := encodeChar_high small first (spelled ▸ List.mem_cons_self)
        rw [(List.cons.inj front).1] at above
        have below := lt_of_digit?_ascii digit
        omega

/-- A percent sign is written as it is. -/
theorem encode_write_percent (e : UrlEncoding) (cs : List Char) :
    Utf8.encode (e.write ('%' :: cs)) = 37 :: Utf8.encode (e.write cs) := by
  rw [encode_write_cons, writeChar_of_legal (e.meaning '%' (by decide)), encode_singleton]
  rfl

/-- A digit is written as it is, with a single octet. -/
theorem encode_write_digit {n : Nat} (digit : Numeral.digit? 16 c = some n) (cs : List Char) :
    ∃ octet, Utf8.encode (e.write (c :: cs)) = octet :: Utf8.encode (e.write cs) ∧
      Numeral.digit? 16 (ascii octet) = some n := by
  obtain ⟨octet, spelled, read⟩ := exists_octet_of_digit? digit
  refine ⟨octet, ?_, read⟩
  rw [encode_write_cons, writeChar_of_legal (e.alphanumeric c (Numeral.isAlphanum_of_digit? digit)),
    encode_singleton, spelled]
  rfl

/-- **What is read of a text in a URL** is the same whatever library wrote the URL. -/
theorem decode_write (e : UrlEncoding) (cs : List Char) :
    decode (Utf8.encode (e.write cs)) = decodeChars cs := by
  fun_induction decodeChars cs with
  | case1 => rfl
  | case2 a b rest high low read' read ih =>
    obtain ⟨first, spelled, digit⟩ := encode_write_digit (e := e) read (b :: rest)
    obtain ⟨second, spelled', digit'⟩ := encode_write_digit (e := e) read' rest
    rw [encode_write_percent, spelled, spelled', decode_digits digit digit', ih]
  | case3 a b rest alone ih =>
    rw [encode_write_percent, decode_percent, ih]
    intro x y behind m n front high low
    obtain ⟨cs, same, after⟩ := exists_of_digit front high
    obtain ⟨ds, same', -⟩ := exists_of_digit after.symm low
    obtain ⟨rfl, rfl⟩ := List.cons.inj same
    obtain ⟨rfl, rfl⟩ := List.cons.inj same'
    exact alone m n high low
  | case4 c rest other ih =>
    by_cases percent : c = '%'
    · subst percent
      rw [encode_write_percent, decode_percent, ih]
      · rfl
      intro x y behind m n front high low
      obtain ⟨cs, same, after⟩ := exists_of_digit front high
      obtain ⟨ds, same', -⟩ := exists_of_digit after.symm low
      exact other _ _ _ rfl (by rw [same, same'])
    · rw [encode_write_cons, decode_writeChar percent, ih]

/-! ## What is cut off -/

/-- Text that has a place in a URL is written as it is. -/
theorem write_of_legal {cs : List Char} (legal : ∀ c ∈ cs, e.foreign c = false) :
    e.write cs = cs := by
  induction cs with
  | nil => rfl
  | cons c cs ih =>
    rw [write_cons, writeChar_of_legal (legal c List.mem_cons_self),
      ih fun d among => legal d (List.mem_cons_of_mem c among)]
    rfl

/-- No delimiter comes up where a character has no place in a URL. -/
theorem not_delimiter_of_mem_writeChar (foreign : e.foreign c = true) {d : Char}
    (among : d ∈ e.writeChar c) : d ∉ ['/', '?', '#'] := by
  rw [writeChar, if_pos foreign] at among
  obtain ⟨octet, -, among⟩ := List.mem_flatMap.1 among
  exact not_delimiter_of_mem_escapeOctet among

/-- Text without delimiters is written without them. -/
theorem not_delimiter_of_mem_write {cs : List Char} (plain : ∀ c ∈ cs, c ∉ ['/', '?', '#']) :
    ∀ d ∈ e.write cs, d ∉ ['/', '?', '#'] := by
  intro d among
  obtain ⟨c, within, among⟩ := List.mem_flatMap.1 among
  cases legal : e.foreign c with
  | true => exact not_delimiter_of_mem_writeChar legal among
  | false =>
    rw [writeChar_of_legal legal, List.mem_singleton] at among
    rw [among]
    exact plain c within

/-- **A text is cut** where it is cut before it is written, if it is cut at delimiters. -/
theorem takeWhile_write {p : Char → Bool} (stops : ∀ c, p c = false → c ∈ ['/', '?', '#'])
    (cs : List Char) : (e.write cs).takeWhile p = e.write (cs.takeWhile p) := by
  have passes {c : Char} (other : c ∉ ['/', '?', '#']) : p c = true := by
    cases stop : p c with
    | true => rfl
    | false => exact absurd (stops c stop) other
  induction cs with
  | nil => rfl
  | cons c cs ih =>
    cases legal : e.foreign c with
    | true =>
      have all : ∀ d ∈ e.writeChar c, p d = true := fun d among =>
        passes (not_delimiter_of_mem_writeChar legal among)
      have here : p c = true := passes fun delimiter => by
        rw [e.meaning c (List.mem_append_left ['%'] delimiter)] at legal
        cases legal
      rw [write_cons, List.takeWhile_append_of_pos all, ih, List.takeWhile_cons_of_pos here,
        write_cons]
    | false =>
      rw [write_cons, writeChar_of_legal legal, List.singleton_append]
      cases here : p c with
      | true =>
        rw [List.takeWhile_cons_of_pos here, List.takeWhile_cons_of_pos here, write_cons,
          writeChar_of_legal legal, ih]
        rfl
      | false =>
        have stop : ¬p c = true := by simp [here]
        rw [List.takeWhile_cons_of_neg stop, List.takeWhile_cons_of_neg stop]
        rfl

end UrlEncoding

end OntologyService
