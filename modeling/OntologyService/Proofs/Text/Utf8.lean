import Mathlib.Algebra.Group.Nat.Defs
import Mathlib.Tactic.SplitIfs
import OntologyService.Order.Ranked
import OntologyService.Text.Utf8

/-!
# Reading back what was written as UTF-8

Every character is read back from its own octets, whatever follows them (`decode_encodeChar`), so a
text is read back character by character (`decode_encode`). The leading octet says how many follow
and, where that is less than their whole range, which the second may be; a character is never
written in a form whose second octet lies outside, because it is written in the shortest form and no
character is a surrogate.

The octets that a text is read from are its own (`decode?_eq_some_iff`): a part that was begun fixes
the octets so far, and whatever completes it fixes the rest (`Partial.Spells`). And texts stand in
the order of their octets (`before_encode_iff`), because a longer form begins with a greater octet
and of two forms of one length the first different octet decides.
-/

namespace OntologyService

/-! ## The octets of a text -/

theorem toList_loop (octets : ByteArray) (i : Nat) (taken : List UInt8) :
    ByteArray.toList.loop octets i taken = taken.reverse ++ octets.data.toList.drop i := by
  fun_induction ByteArray.toList.loop octets i taken with
  | case1 i taken inside ih =>
    have there : i < octets.data.toList.length := inside
    have next : octets.get! i = octets.data.toList[i] := getElem!_pos octets.data i inside
    rw [ih, List.reverse_cons, List.append_assoc, List.drop_eq_getElem_cons there, next]
    rfl
  | case2 i taken outside =>
    rw [List.drop_eq_nil_of_le (Nat.le_of_not_lt outside), List.append_nil]

/-- The octets of a text are those of its characters. -/
theorem toUTF8_ofList (cs : List Char) :
    (String.ofList cs).toUTF8.toList = Utf8.encode cs := by
  rw [ByteArray.toList, toList_loop]
  exact List.toList_data_toByteArray

namespace Utf8

open Ranked (Before)

variable {n : Nat} {rest : List UInt8} {p : Partial}

/-- A number below 256 is that of its octet. -/
theorem toNat_ofNat_of_lt (small : n < 256) : (UInt8.ofNat n).toNat = n := by
  rw [UInt8.toNat_ofNat']
  exact Nat.mod_eq_of_lt small

/-! ## Leading octets -/

/-- An octet below 128 is a character by itself. -/
theorem decode_one (small : n < 0x80) :
    decode (UInt8.ofNat n :: rest) = some (Char.ofNat n) :: decode rest := by
  have whole : begin? (UInt8.ofNat n) = .whole (Char.ofNat n) := by
    rw [begin?, toNat_ofNat_of_lt (by omega)]
    exact if_pos small
  rw [decode, whole]

/-- An octet that begins a character of two leaves one to come. -/
theorem decode_two (low : 2 ≤ n) (high : n < 32) :
    decode (UInt8.ofNat (n + 0xC0) :: rest) = finish { value := n, after := 0 } rest := by
  have part : begin? (UInt8.ofNat (n + 0xC0)) = .part { value := n, after := 0 } := by
    rw [begin?, toNat_ofNat_of_lt (by omega)]
    rw [if_neg (by omega), if_neg (by omega), if_pos (by omega), Nat.add_sub_cancel]
  rw [decode, part]

/-- An octet that begins a character of three leaves two to come. -/
theorem decode_three (high : n < 16) :
    decode (UInt8.ofNat (n + 0xE0) :: rest)
      = finish
          { value := n, low := if n = 0 then 0xA0 else 0x80,
            high := if n = 13 then 0x9F else 0xBF, after := 1 } rest := by
  have part : begin? (UInt8.ofNat (n + 0xE0)) = .part
      { value := n, low := if n = 0 then 0xA0 else 0x80,
        high := if n = 13 then 0x9F else 0xBF, after := 1 } := by
    rw [begin?, toNat_ofNat_of_lt (by omega)]
    rw [if_neg (by omega), if_neg (by omega), if_neg (by omega), Nat.add_sub_cancel]
    by_cases first : n = 0
    · subst first; rfl
    by_cases surrogate : n = 13
    · subst surrogate; rfl
    rw [if_neg (by omega), if_neg (by omega), if_pos (by omega), if_neg first, if_neg surrogate]
  rw [decode, part]

/-- An octet that begins a character of four leaves three to come. -/
theorem decode_four (high : n ≤ 4) :
    decode (UInt8.ofNat (n + 0xF0) :: rest)
      = finish
          { value := n, low := if n = 0 then 0x90 else 0x80,
            high := if n = 4 then 0x8F else 0xBF, after := 2 } rest := by
  have part : begin? (UInt8.ofNat (n + 0xF0)) = .part
      { value := n, low := if n = 0 then 0x90 else 0x80,
        high := if n = 4 then 0x8F else 0xBF, after := 2 } := by
    rw [begin?, toNat_ofNat_of_lt (by omega)]
    rw [if_neg (by omega), if_neg (by omega), if_neg (by omega), if_neg (by omega),
      if_neg (by omega), if_neg (by omega), Nat.add_sub_cancel]
    by_cases first : n = 0
    · subst first; rfl
    by_cases last : n = 4
    · subst last; rfl
    rw [if_neg (by omega), if_pos (by omega), if_neg first, if_neg last]
  rw [decode, part]

/-! ## Octets that follow -/

/-- The last octet of a character completes it. -/
theorem finish_last (last : p.after = 0) (low : p.low ≤ n % 64 + 128)
    (high : n % 64 + 128 ≤ p.high) :
    finish p (UInt8.ofNat (n % 64 + 128) :: rest)
      = some (Char.ofNat (p.value * 64 + n % 64)) :: decode rest := by
  rw [finish, toNat_ofNat_of_lt (by omega), if_pos ⟨low, high⟩, last,
    show (n % 64 + 128) % 64 = n % 64 by omega]

/-- An octet that goes on with a character adds its six bits. -/
theorem finish_next {m : Nat} (next : p.after = m + 1) (low : p.low ≤ n % 64 + 128)
    (high : n % 64 + 128 ≤ p.high) :
    finish p (UInt8.ofNat (n % 64 + 128) :: rest)
      = finish { value := p.value * 64 + n % 64, after := m } rest := by
  rw [finish, toNat_ofNat_of_lt (by omega), if_pos ⟨low, high⟩, next,
    show (n % 64 + 128) % 64 = n % 64 by omega]

/-! ## Characters and texts -/

/-- **Every character is read back** from its octets, whatever follows them. -/
theorem decode_encodeChar (c : Char) (rest : List UInt8) :
    decode (String.utf8EncodeChar c ++ rest) = some c :: decode rest := by
  have valid : c.toNat < 0xD800 ∨ 0xDFFF < c.toNat ∧ c.toNat < 0x110000 := c.valid
  have back {n : Nat} (same : n = c.toNat) : some (Char.ofNat n) :: decode rest
      = some c :: decode rest := by rw [same, Char.ofNat_toNat]
  unfold String.utf8EncodeChar
  rw [show c.val.toNat = c.toNat from rfl]
  generalize c.toNat = v at valid back
  dsimp only
  -- one case for each length, which the range of the first octet tells
  split
  · next one =>
    refine (decode_one (by omega)).trans (back rfl)
  split
  · next one two =>
    refine (decode_two (by omega) (by omega)).trans ?_
    refine (finish_last rfl (by show 128 ≤ _; omega) (by show _ ≤ 191; omega)).trans (back ?_)
    dsimp only
    omega
  split
  · next one two three =>
    refine (decode_three (by omega)).trans ?_
    refine (finish_next (m := 0) rfl (by dsimp only; split <;> omega)
      (by dsimp only; split <;> omega)).trans ?_
    refine (finish_last rfl (by show 128 ≤ _; omega) (by show _ ≤ 191; omega)).trans (back ?_)
    dsimp only
    omega
  · next one two three =>
    refine (decode_four (by omega)).trans ?_
    refine (finish_next (m := 1) rfl (by dsimp only; split <;> omega)
      (by dsimp only; split <;> omega)).trans ?_
    refine (finish_next (m := 0) rfl (by show 128 ≤ _; omega) (by show _ ≤ 191; omega)).trans ?_
    refine (finish_last rfl (by show 128 ≤ _; omega) (by show _ ≤ 191; omega)).trans (back ?_)
    dsimp only
    omega

theorem encode_cons (c : Char) (cs : List Char) :
    encode (c :: cs) = String.utf8EncodeChar c ++ encode cs := List.flatMap_cons ..

/-- **A text is read back** character by character. -/
theorem decode_encode (cs : List Char) : decode (encode cs) = cs.map some := by
  induction cs with
  | nil => rfl
  | cons c cs ih =>
    rw [encode_cons, decode_encodeChar, ih, List.map_cons]

/-- Text that was written as UTF-8 is UTF-8. -/
theorem decode?_encode (cs : List Char) : decode? (encode cs) = some (String.ofList cs) := by
  have all : (cs.map some).mapM id = some cs := by
    induction cs with
    | nil => rfl
    | cons c cs ih => rw [List.map_cons, List.mapM_cons, ih]; rfl
  rw [decode?, decode_encode, all]
  rfl

/-! ## What is read was written -/

theorem length_encode_cons (c : Char) (cs : List Char) :
    (encode (c :: cs)).length = c.utf8Size + (encode cs).length := by
  rw [encode_cons, List.length_append, String.length_utf8EncodeChar]

/-- What is read as a text begins with its first character. -/
theorem exists_of_some_cons {c : Char} {cs : List Char} {read : List (Option Char)}
    (same : some c :: read = cs.map some) :
    ∃ behind, cs = c :: behind ∧ read = behind.map some := by
  cases cs with
  | nil => cases same
  | cons d behind =>
    obtain ⟨head, tail⟩ := List.cons.inj same
    exact ⟨behind, by rw [Option.some.inj head], tail⟩

/-- What begins with an octet that makes no sense is no text. -/
theorem none_cons_ne (read : List (Option Char)) (cs : List Char) :
    none :: read ≠ cs.map some := by
  cases cs <;> simp

theorem eq_map_of_mapM_id {read : List (Option Char)} {cs : List Char}
    (all : read.mapM id = some cs) : read = cs.map some := by
  induction read generalizing cs with
  | nil => cases all; rfl
  | cons c read ih =>
    rw [List.mapM_cons] at all
    obtain ⟨d, here, all⟩ := Option.bind_eq_some_iff.1 all
    obtain ⟨ds, behind, all⟩ := Option.bind_eq_some_iff.1 all
    cases all
    rw [List.map_cons, ← ih behind, show c = some d from here]

/-- A number that is a character's is that of its character. -/
theorem toNat_ofNat_of_valid {v : Nat} (valid : v < 0xD800 ∨ 0xDFFF < v ∧ v < 0x110000) :
    (Char.ofNat v).val.toNat = v := by
  have scalar : v.isValidChar := valid
  rw [Char.ofNat, dif_pos scalar]
  rfl

theorem octet_eq {v : Nat} (octet : UInt8) (same : v = octet.toNat) : UInt8.ofNat v = octet := by
  rw [same, UInt8.ofNat_toNat]

/-- A character below 128 is written as one octet. -/
theorem encodeChar_one {a : UInt8} (small : a.toNat < 0x80) :
    String.utf8EncodeChar (Char.ofNat a.toNat) = [a] := by
  rw [String.utf8EncodeChar, toNat_ofNat_of_valid (by omega)]
  rw [if_pos (by omega), octet_eq a rfl]

/-- A character of two octets is written as them. -/
theorem encodeChar_two {a b : UInt8} {v : Nat} (value : v = (a.toNat - 0xC0) * 64 + b.toNat % 64)
    (low : 0xC2 ≤ a.toNat) (high : a.toNat < 0xE0) (tail : 0x80 ≤ b.toNat ∧ b.toNat ≤ 0xBF) :
    String.utf8EncodeChar (Char.ofNat v) = [a, b] := by
  rw [String.utf8EncodeChar, toNat_ofNat_of_valid (by omega)]
  rw [if_neg (by omega), if_pos (by omega), octet_eq a (by omega),
    octet_eq b (by omega)]

/-- Three octets stand for a character unless they are the long form of two, or a surrogate. -/
theorem encodeChar_three {a b c : UInt8} {v : Nat}
    (value : v = ((a.toNat - 0xE0) * 64 + b.toNat % 64) * 64 + c.toNat % 64)
    (low : 0xE0 ≤ a.toNat) (high : a.toNat < 0xF0) (tail : 0x80 ≤ b.toNat ∧ b.toNat ≤ 0xBF)
    (tail' : 0x80 ≤ c.toNat ∧ c.toNat ≤ 0xBF) (shortest : a.toNat = 0xE0 → 0xA0 ≤ b.toNat)
    (scalar : a.toNat = 0xED → b.toNat ≤ 0x9F) :
    String.utf8EncodeChar (Char.ofNat v) = [a, b, c] := by
  rw [String.utf8EncodeChar, toNat_ofNat_of_valid (by omega)]
  rw [if_neg (by omega), if_neg (by omega), if_pos (by omega), octet_eq a (by omega),
    octet_eq b (by omega), octet_eq c (by omega)]

/-- Four octets stand for a character unless they are the long form of three, or beyond the last. -/
theorem encodeChar_four {a b c d : UInt8} {v : Nat}
    (value : v = (((a.toNat - 0xF0) * 64 + b.toNat % 64) * 64 + c.toNat % 64) * 64 + d.toNat % 64)
    (low : 0xF0 ≤ a.toNat) (high : a.toNat ≤ 0xF4) (tail : 0x80 ≤ b.toNat ∧ b.toNat ≤ 0xBF)
    (tail' : 0x80 ≤ c.toNat ∧ c.toNat ≤ 0xBF) (tail'' : 0x80 ≤ d.toNat ∧ d.toNat ≤ 0xBF)
    (shortest : a.toNat = 0xF0 → 0x90 ≤ b.toNat) (last : a.toNat = 0xF4 → b.toNat ≤ 0x8F) :
    String.utf8EncodeChar (Char.ofNat v) = [a, b, c, d] := by
  rw [String.utf8EncodeChar, toNat_ofNat_of_valid (by omega)]
  rw [if_neg (by omega), if_neg (by omega), if_neg (by omega), octet_eq a (by omega),
    octet_eq b (by omega), octet_eq c (by omega), octet_eq d (by omega)]

/-- Whatever octets complete a part, they and those taken for it so far are what the character is
written as. -/
def Partial.Spells (taken : List UInt8) : Nat → Partial → Prop
  | 0, p => ∀ octet : UInt8, p.low ≤ octet.toNat → octet.toNat ≤ p.high →
    String.utf8EncodeChar (Char.ofNat (p.value * 64 + octet.toNat % 64)) = taken ++ [octet]
  | n + 1, p => ∀ octet : UInt8, p.low ≤ octet.toNat → octet.toNat ≤ p.high →
    Spells (taken ++ [octet]) n { value := p.value * 64 + octet.toNat % 64, after := n }

/-- A character that is read off one octet is written as it. -/
theorem encodeChar_of_begin? {a : UInt8} {c : Char} (whole : begin? a = .whole c) :
    String.utf8EncodeChar c = [a] := by
  simp only [begin?] at whole
  split_ifs at whole with ascii
  rw [← Beginning.whole.inj whole]
  exact encodeChar_one ascii

/-- **A leading octet** leaves to those that follow it just the range in which they spell. -/
theorem spells_of_begin? {a : UInt8} (part : begin? a = .part p) : p.Spells [a] p.after := by
  simp only [begin?] at part
  split_ifs at part with _ _ two first surrogate _ fourth _ last <;>
    obtain rfl := Beginning.part.inj part
  · exact fun b low high => encodeChar_two rfl (by omega) two ⟨low, high⟩
  · intro b (low : 0xA0 ≤ b.toNat) high c low' high'
    exact encodeChar_three (by dsimp only; omega) (by omega) (by omega) ⟨by omega, high⟩
      ⟨low', high'⟩ (fun _ => low) (by omega)
  · intro b low (high : b.toNat ≤ 0x9F) c low' high'
    exact encodeChar_three (by dsimp only; omega) (by omega) (by omega) ⟨low, by omega⟩
      ⟨low', high'⟩ (by omega) (fun _ => high)
  · intro b low high c low' high'
    exact encodeChar_three rfl (by omega) (by omega) ⟨low, high⟩ ⟨low', high'⟩ (by omega)
      (by omega)
  · intro b (low : 0x90 ≤ b.toNat) high c low' high' d low'' high''
    exact encodeChar_four (by dsimp only; omega) (by omega) (by omega) ⟨by omega, high⟩
      ⟨low', high'⟩ ⟨low'', high''⟩ (fun _ => low) (by omega)
  · intro b low high c low' high' d low'' high''
    exact encodeChar_four rfl (by omega) (by omega) ⟨low, high⟩ ⟨low', high'⟩ ⟨low'', high''⟩
      (by omega) (by omega)
  · intro b low (high : b.toNat ≤ 0x8F) c low' high' d low'' high''
    exact encodeChar_four (by dsimp only; omega) (by omega) (by omega) ⟨low, by omega⟩
      ⟨low', high'⟩ ⟨low'', high''⟩ (by omega) (fun _ => high)

mutual

/-- **A text has the octets that it is read from**, whether from between two characters or, as
`encode_of_finish` has it, from within one. -/
theorem encode_of_decode : {octets : List UInt8} → {cs : List Char} →
    decode octets = cs.map some → encode cs = octets
  | [], cs, read => by
    rw [List.map_eq_nil_iff.1 read.symm]
    rfl
  | octet :: rest, cs, read => by
    rw [decode] at read
    split at read
    · exact absurd read (none_cons_ne _ cs)
    · next c whole =>
      obtain ⟨cs', rfl, behind⟩ := exists_of_some_cons read
      rw [encode_cons, encode_of_decode behind, encodeChar_of_begin? whole, List.singleton_append]
    · next p part => exact encode_of_finish (spells_of_begin? part) read

/-- What completes a character, and goes on as a text, is what the text is written as. -/
theorem encode_of_finish : {octets : List UInt8} → {cs : List Char} → {p : Partial} →
    {taken : List UInt8} → p.Spells taken p.after → finish p octets = cs.map some →
      encode cs = taken ++ octets
  | [], cs, _, _, _, read => absurd read (none_cons_ne _ cs)
  | octet :: rest, cs, p, taken, spells, read => by
    rw [finish] at read
    split at read
    · next range =>
      split at read
      · next last =>
        rw [last] at spells
        obtain ⟨cs', rfl, behind⟩ := exists_of_some_cons read
        rw [encode_cons, encode_of_decode behind, spells octet range.1 range.2, List.append_assoc,
          List.singleton_append]
      · next n after =>
        rw [after] at spells
        rw [encode_of_finish (spells octet range.1 range.2) read, List.append_assoc,
          List.singleton_append]
    · split at read <;> exact absurd read (none_cons_ne _ cs)

end

/-- **A text is read exactly from its octets.** -/
theorem decode?_eq_some_iff {octets : List UInt8} {s : String} :
    decode? octets = some s ↔ octets = encode s.toList := by
  constructor
  · intro read
    obtain ⟨cs, all, rfl⟩ := Option.map_eq_some_iff.1 read
    rw [String.toList_ofList]
    exact (encode_of_decode (eq_map_of_mapM_id all)).symm
  · rintro rfl
    rw [decode?_encode, String.ofList_toList]

/-! ## The order of octets -/

/-- Octets are compared from the left. -/
theorem before_cons {a b : UInt8} {as bs : List UInt8} :
    Before (a :: as) (b :: bs) ↔ a.toNat < b.toNat ∨ a.toNat = b.toNat ∧ Before as bs := by
  show (Ranked.cmpNat a.toNat b.toNat).then (Ranked.cmpList as bs) = .lt ↔ _
  rw [Ranked.then_eq_lt, Ranked.cmpNat_eq_lt, Ranked.cmpNat_eq_eq]
  rfl

/-- What two texts begin with is no matter for their order. -/
theorem before_append {front as bs : List UInt8} :
    Before (front ++ as) (front ++ bs) ↔ Before as bs := by
  induction front with
  | nil => rfl
  | cons a front ih =>
    rw [List.cons_append, List.cons_append, before_cons, ih]
    simp only [Nat.lt_irrefl, true_and, false_or]

/-- **The octets of a smaller character** come before those of a greater, whatever follows them. -/
theorem before_encodeChar {c d : Char} (less : c < d) (as bs : List UInt8) :
    Before (String.utf8EncodeChar c ++ as) (String.utf8EncodeChar d ++ bs) := by
  have less : c.val.toNat < d.val.toNat := less
  have bound : d.val.toNat < 0x110000 := by
    have valid : d.val.toNat < 0xD800 ∨ 0xDFFF < d.val.toNat ∧ d.val.toNat < 0x110000 := d.valid
    omega
  unfold String.utf8EncodeChar
  generalize c.val.toNat = v at less
  generalize d.val.toNat = w at less bound
  -- of two numbers with one length in base 64, the first different digit decides
  have last : v / 64 < w / 64 ∨ v / 64 = w / 64 ∧ v % 64 < w % 64 := by omega
  have third : v / 4096 < w / 4096 ∨ v / 4096 = w / 4096 ∧ v / 64 % 64 ≤ w / 64 % 64 := by omega
  have second : v / 262144 < w / 262144 ∨
      v / 262144 = w / 262144 ∧ v / 4096 % 64 ≤ w / 4096 % 64 := by omega
  have follows (x : Nat) : (x % 64 + 128) % 256 = x % 64 + 128 := by omega
  have two (x : Nat) : (x % 32 + 192) % 256 = x % 32 + 192 := by omega
  have three (x : Nat) : (x % 16 + 224) % 256 = x % 16 + 224 := by omega
  have four {x : Nat} (small : x < 0x110000) :
      (x / 262144 % 8 + 240) % 256 = x / 262144 + 240 := by omega
  dsimp only
  split_ifs <;>
    simp only [List.cons_append, List.nil_append, before_cons, UInt8.toNat_ofNat', follows, two,
      three, four (Nat.lt_trans less bound), four bound] <;>
    omega

/-- Texts are written in the order of their characters. -/
theorem before_encode : ∀ {cs ds : List Char}, cs < ds → Before (encode cs) (encode ds)
  | [], [], less => absurd less (List.lt_irrefl [])
  | [], d :: ds, _ => by
    rw [encode_cons]
    cases full : String.utf8EncodeChar d with
    | nil => exact absurd full String.utf8EncodeChar_ne_nil
    | cons a as => rfl
  | c :: cs, [], less => absurd less (List.not_lt_nil (c :: cs))
  | c :: cs, d :: ds, less => by
    rw [encode_cons, encode_cons]
    rcases List.cons_lt_cons_iff.1 less with first | ⟨rfl, later⟩
    · exact before_encodeChar first _ _
    · exact before_append.2 (before_encode later)

/-- **The order of texts** octet by octet is their order character by character. -/
theorem before_iff {s t : String} : Before s t ↔ s.toList < t.toList :=
  Ranked.cmpString_eq_lt.trans String.lt_iff

/-- **Texts stand in the order of their octets.** -/
theorem before_encode_iff {s t : String} :
    Before (encode s.toList) (encode t.toList) ↔ Before s t := by
  have forth {s t : String} (less : Before s t) : Before (encode s.toList) (encode t.toList) :=
    before_encode (before_iff.1 less)
  constructor
  · intro before
    rcases Ranked.before_or_eq_or_before s t with less | rfl | greater
    · exact less
    · exact absurd before (Ranked.before_irrefl _)
    · exact absurd before (forth greater).asymm
  · exact forth

end Utf8

end OntologyService
