import Mathlib.Tactic.IntervalCases
import OntologyService.Json.Printer
import OntologyService.Json.Reader
import OntologyService.Proofs.Text.Utf8

/-!
# Reading back what was printed as JSON

Every value is read back from its print (`read_text`), and from its print in UTF-8
(`readOctets_print`). The pieces of a print say where they end, by a quote or a bracket, save for
numbers: a number ends where no more of it follows, so what comes behind a value is assumed to go on
no number (`Stops`). Behind an item or a field comes a comma or a bracket, behind the whole value
nothing.

Strings are read character by character: what stands for a character is read as one piece, and the
pieces spell the characters again (`string?_print`), because only characters below the blank are
given by number and none of these is part of a pair.
-/

namespace OntologyService

namespace Json

variable {rest : Chars} {c : Char} {n : Nat}

/-! ## Numbers -/

/-- The text does not start with a digit. -/
def NoDigit : Chars → Prop
  | some c :: _ => Numeral.digit? 10 c = none
  | _ => True

/-- The text does not go on a number. -/
def Stops : Chars → Prop
  | some c :: _ => Numeral.digit? 10 c = none ∧ c ≠ '.' ∧ c ≠ 'e' ∧ c ≠ 'E'
  | _ => True

/-- What ends a number is no digit. -/
theorem Stops.noDigit (h : Stops rest) : NoDigit rest := by
  unfold Stops at h
  unfold NoDigit
  split at h
  · exact h.1
  · exact h

/-- A digit is one of ten characters. -/
theorem eq_digitChar (digit : c.isDigit = true) : ∃ d, d < 10 ∧ c = Nat.digitChar d := by
  have range : 48 ≤ c.toNat ∧ c.toNat ≤ 57 := by
    simpa [Char.isDigit, UInt32.le_iff_toNat_le] using digit
  refine ⟨c.toNat - 48, by omega, Char.toNat_inj.1 ?_⟩
  rw [Nat.toNat_digitChar_of_lt_ten (by omega)]
  omega

/-- A decimal digit is read as its distance from zero. -/
theorem digit?_of_isDigit (digit : c.isDigit = true) :
    Numeral.digit? 10 c = some (c.toNat - '0'.toNat) := by
  obtain ⟨d, small, rfl⟩ := eq_digitChar digit
  interval_cases d <;> rfl

/-- Where no digit stands, none is read. -/
theorem digits_of_noDigit (stops : NoDigit rest) (value count : Nat) :
    digits value count rest = (value, count, rest) := by
  unfold digits
  split
  · next c rest =>
    rw [show Numeral.digit? 10 c = none from stops]
  · rfl

/-- Digits are read up to where they end, and counted. -/
theorem digits_append {ds : List Char} (all : ∀ d ∈ ds, d.isDigit = true) (stops : NoDigit rest)
    (value count : Nat) :
    digits value count (ds.map some ++ rest)
      = (Nat.ofDigitChars 10 ds value, count + ds.length, rest) := by
  induction ds generalizing value count with
  | nil => exact digits_of_noDigit stops value count
  | cons d ds ih =>
    rw [List.map_cons, List.cons_append, digits, digit?_of_isDigit (all d List.mem_cons_self)]
    refine (ih (fun d' member => all d' (List.mem_cons_of_mem d member)) _ _).trans ?_
    rw [Nat.mul_comm value 10, List.length_cons, Nat.add_assoc, Nat.add_comm 1 ds.length]
    rfl

/-- A number is written in digits. -/
theorem isDigit_of_mem_printNat (n : Nat) : ∀ d ∈ printNat n, d.isDigit = true :=
  fun _ member => Nat.isDigit_of_mem_toDigits (by omega) (by omega) member

/-- The digits of a number spell it. -/
theorem digits_printNat (stops : NoDigit rest) (n : Nat) :
    digits 0 0 ((printNat n).map some ++ rest) = (n, (printNat n).length, rest) := by
  rw [digits_append (isDigit_of_mem_printNat n) stops, Nat.zero_add, printNat,
    Nat.ofDigitChars_ten_toDigits]

theorem length_printNat_pos (n : Nat) : 0 < (printNat n).length :=
  List.length_pos_iff.2 Nat.toDigits_ne_nil

/-- A number is written with a digit in front. -/
theorem printNat_eq_cons (n : Nat) : ∃ d cs, d < 10 ∧ printNat n = Nat.digitChar d :: cs := by
  obtain ⟨c, cs, front⟩ := List.exists_cons_of_length_pos (length_printNat_pos n)
  obtain ⟨d, small, rfl⟩ :=
    eq_digitChar (isDigit_of_mem_printNat n c (front ▸ List.mem_cons_self))
  exact ⟨d, cs, small, front⟩

/-- Only zero is written with a zero in front. -/
theorem head_printNat (n : Nat) (some : n ≠ 0) : ∃ c cs, printNat n = c :: cs ∧ c ≠ '0' := by
  induction n using Nat.strongRecOn with
  | ind n ih =>
    by_cases small : n < 10
    · refine ⟨Nat.digitChar n, [], Nat.toDigits_of_lt_base small, ?_⟩
      interval_cases n <;> first | exact absurd rfl some | decide
    · obtain ⟨c, cs, front, other⟩ := ih (n / 10) (by omega) (by omega)
      refine ⟨c, cs ++ [Nat.digitChar (n % 10)], ?_, other⟩
      rw [printNat, Nat.toDigits_of_base_le (by omega) (by omega)]
      rw [printNat] at front
      rw [front, List.cons_append]

/-- A whole part is read back. -/
theorem wholePart?_printNat (stops : NoDigit rest) (n : Nat) :
    wholePart? ((printNat n).map some ++ rest) = some (n, rest) := by
  by_cases zero : n = 0
  · rw [zero]
    rfl
  · have read := digits_printNat stops n
    have long := length_printNat_pos n
    obtain ⟨c, cs, front, other⟩ := head_printNat n zero
    rw [front] at read long ⊢
    unfold wholePart?
    split
    · next same =>
      rw [List.map_cons, List.cons_append, List.cons.injEq] at same
      exact absurd (Option.some.inj same.1) other
    · rw [read, ← Nat.succ_pred_eq_of_pos long]

/-- Without a point there is no fraction. -/
theorem fraction?_of_ne (other : ∀ rest', rest ≠ some '.' :: rest') (value : Nat) :
    fraction? value rest = some (value, 0, false, rest) := by
  unfold fraction?
  split
  · next rest' => exact absurd rfl (other rest')
  · rfl

/-- What ends a number is no exponent. -/
theorem exponent?_of_stops (stops : Stops rest) : exponent? rest = some (0, false, rest) := by
  unfold exponent?
  split
  all_goals first | rfl | (exfalso; simp [Stops] at stops)

/-- The digits of an exponent are read back, with the sign in front of them. -/
theorem exponentDigits?_printNat (stops : NoDigit rest) (negative : Bool) (n : Nat) :
    exponentDigits? negative ((printNat n).map some ++ rest)
      = some (if negative then -(n : Int) else n, true, rest) := by
  have long := length_printNat_pos n
  rw [exponentDigits?, digits_printNat stops n, ← Nat.succ_pred_eq_of_pos long]

theorem exponent?_digit {d : Nat} (small : d < 10) (cs : Chars) :
    exponent? (some 'e' :: some (Nat.digitChar d) :: cs)
      = exponentDigits? false (some (Nat.digitChar d) :: cs) := by
  interval_cases d <;> rfl

/-- An exponent is read back. -/
theorem exponent?_print (stops : NoDigit rest) (exponent : Int) :
    exponent? (some 'e' ::
      ((printSign (decide (exponent < 0)) ++ printNat exponent.natAbs).map some ++ rest))
      = some (exponent, true, rest) := by
  by_cases negative : exponent < 0
  · rw [decide_eq_true negative]
    refine (exponentDigits?_printNat stops true exponent.natAbs).trans ?_
    rw [if_pos rfl]
    congr 2
    omega
  · rw [decide_eq_false negative, printSign, if_neg Bool.false_ne_true, List.nil_append]
    have read := exponentDigits?_printNat stops false exponent.natAbs
    obtain ⟨d, cs, small, front⟩ := printNat_eq_cons exponent.natAbs
    rw [front] at read ⊢
    refine (exponent?_digit small _).trans (read.trans ?_)
    rw [if_neg Bool.false_ne_true]
    congr 2
    omega

/-- The digits of a number as they stand behind its sign. -/
def printUnsigned : JsonNumber → List Char
  | .whole _ n => printNat n
  | .decimal _ mantissa exponent =>
    printNat mantissa ++ 'e' :: (printSign (decide (exponent < 0)) ++ printNat exponent.natAbs)

/-- Whether a number has a minus sign. -/
def isNegative : JsonNumber → Bool
  | .whole negative _ | .decimal negative _ _ => negative

/-- A number is its sign and what is behind it. -/
theorem printNumber_eq (k : JsonNumber) :
    printNumber k = printSign (isNegative k) ++ printUnsigned k := by
  cases k with
  | whole negative n => rfl
  | decimal negative mantissa exponent => exact List.append_assoc ..

/-- **A number is read back** behind its sign. -/
theorem number?_print (stops : Stops rest) (k : JsonNumber) :
    number? (isNegative k) ((printUnsigned k).map some ++ rest) = some (k, rest) := by
  cases k with
  | whole negative n =>
    have noPoint : ∀ rest', rest ≠ some '.' :: rest' := by
      rintro rest' rfl
      exact stops.2.1 rfl
    simp only [number?, printUnsigned, wholePart?_printNat stops.noDigit, Option.bind_eq_bind,
      Option.bind_some, fraction?_of_ne noPoint, exponent?_of_stops stops]
    rfl
  | decimal negative mantissa exponent =>
    have noPoint (cs : Chars) : ∀ rest', some 'e' :: cs ≠ some '.' :: rest' := by
      intro rest' same
      exact absurd (Option.some.inj (List.cons.inj same).1) (by decide)
    have behind (cs : Chars) : NoDigit (some 'e' :: cs) := rfl
    simp only [number?, printUnsigned, List.map_append, List.append_assoc, List.map_cons,
      List.cons_append, wholePart?_printNat (behind _), Option.bind_eq_bind, Option.bind_some,
      fraction?_of_ne (noPoint _)]
    rw [← List.append_assoc, ← List.map_append, exponent?_print stops.noDigit]
    show some (JsonNumber.decimal negative mantissa (exponent - 0), rest) = _
    rw [Int.sub_zero]

/-! ## Strings -/

/-- A piece in front of what was read. -/
def before (p : Piece) (x : List Piece × Chars) : List Piece × Chars := (p :: x.1, x.2)

/-- A character with a short escape is read off that. -/
theorem pieces?_escaped {e : Char} (known : escaped? e = some c) (other : e ≠ 'u') (rest : Chars) :
    pieces? (some '\\' :: some e :: rest) = (pieces? rest).map (before (.char c)) := by
  rw [pieces?.eq_4 e rest fun _ _ _ _ _ _ => other, known]
  cases pieces? rest <;> rfl

/-- Four digits are read as one unit. -/
theorem pieces?_unit {a b c' d : Char} (known : unit? a b c' d = some n) (rest : Chars) :
    pieces? (some '\\' :: some 'u' :: some a :: some b :: some c' :: some d :: rest)
      = (pieces? rest).map (before (.unit n)) := by
  rw [pieces?.eq_3, known]
  cases pieces? rest <;> rfl

/-- A character that needs no escape is read as it is. -/
theorem pieces?_plain (noQuote : c ≠ '"') (noBackslash : c ≠ '\\') (visible : ¬ c < ' ')
    (rest : Chars) : pieces? (some c :: rest) = (pieces? rest).map (before (.char c)) := by
  rw [pieces?.eq_6 c rest noQuote (fun _ _ _ _ _ _ => noBackslash) (fun _ _ _ => noBackslash)
    noBackslash, if_neg visible]
  cases pieces? rest <;> rfl

/-- The piece as which a character is read back: a control character without a letter of its own is
given by its number. -/
def piece (c : Char) : Piece :=
  if c < ' ' ∧ c ∉ ['\x08', '\x0C', '\n', '\r', '\t'] then .unit c.toNat else .char c

/-- A control character is read off its two digits. -/
theorem unit?_print (small : n < 32) :
    unit? '0' '0' (hexDigit (n / 16)) (hexDigit (n % 16)) = some n := by
  interval_cases n <;> rfl

/-- What stands for a character is read as its piece. -/
theorem pieces?_printChar (c : Char) (rest : Chars) :
    pieces? ((printChar c).map some ++ rest) = (pieces? rest).map (before (piece c)) := by
  unfold printChar
  split
  · next quote =>
    subst quote
    exact pieces?_escaped rfl (by decide) rest
  split
  · next backslash =>
    subst backslash
    exact pieces?_escaped rfl (by decide) rest
  split
  · next backspace =>
    subst backspace
    exact pieces?_escaped rfl (by decide) rest
  split
  · next feed =>
    subst feed
    exact pieces?_escaped rfl (by decide) rest
  split
  · next line =>
    subst line
    exact pieces?_escaped rfl (by decide) rest
  split
  · next back =>
    subst back
    exact pieces?_escaped rfl (by decide) rest
  split
  · next tab =>
    subst tab
    exact pieces?_escaped rfl (by decide) rest
  split
  · next noQuote noBackslash b f n r t control =>
    -- a control character that has no letter of its own is written by its number
    have number : piece c = .unit c.toNat := if_pos ⟨control, by simp [b, f, n, r, t]⟩
    rw [number]
    exact pieces?_unit
      (unit?_print (by simpa [Char.lt_def, UInt32.lt_iff_toNat_lt] using control)) rest
  · next noQuote noBackslash b f n r t visible =>
    have plain : piece c = .char c := if_neg fun h => visible h.1
    rw [plain]
    exact pieces?_plain noQuote noBackslash visible rest

/-- What is written between quotes is read piece by piece. -/
theorem pieces?_print (cs : List Char) (rest : Chars) :
    pieces? ((cs.flatMap printChar ++ ['"']).map some ++ rest) = some (cs.map piece, rest) := by
  induction cs with
  | nil => rfl
  | cons c cs ih =>
    rw [List.flatMap_cons, List.append_assoc, List.map_append, List.append_assoc,
      pieces?_printChar, ih]
    rfl

/-- A unit that is none of a pair spells its character, whatever follows. -/
theorem spell?_unit {m : Nat} (small : m < 0xD800) (ps : List Piece) :
    spell? (.unit m :: ps) = (spell? ps).map (Char.ofNat m :: ·) := by
  have noHigh : isHigh m = false := by
    rw [isHigh, decide_eq_false (by omega), Bool.false_and]
  have noLow : isLow m = false := by
    rw [isLow, decide_eq_false (by omega), Bool.false_and]
  by_cases pair : ∃ n qs, ps = .unit n :: qs
  · obtain ⟨n, qs, rfl⟩ := pair
    rw [spell?, noHigh, noLow]
    rfl
  · rw [spell?.eq_5 m ps fun n qs same => pair ⟨n, qs, same⟩, noHigh, noLow]
    rfl

/-- The pieces of a text spell the text. -/
theorem spell?_pieces (cs : List Char) : spell? (cs.map piece) = some cs := by
  induction cs with
  | nil => rfl
  | cons c cs ih =>
    rw [List.map_cons, piece]
    split
    · next control =>
      have small : c.toNat < 32 := by simpa [Char.lt_def, UInt32.lt_iff_toNat_lt] using control.1
      rw [spell?_unit (by omega), ih, Char.ofNat_toNat]
      rfl
    · rw [spell?, ih]
      rfl

/-- **A string is read back** behind its opening quote. -/
theorem string?_print (s : String) (rest : Chars) :
    string? ((s.toList.flatMap printChar ++ ['"']).map some ++ rest) = some (some s, rest) := by
  rw [string?, pieces?_print]
  show some ((spell? (s.toList.map piece)).map String.ofList, rest) = _
  rw [spell?_pieces, Option.map_some, String.ofList_toList]

/-! ## Values -/

theorem skipBlanks_cons (visible : isBlank c = false) (rest : Chars) :
    skipBlanks (some c :: rest) = some c :: rest := by
  rw [skipBlanks, if_neg (by rw [visible]; exact Bool.false_ne_true)]

/-- Behind its sign a number begins with a digit. -/
theorem printUnsigned_eq_cons (k : JsonNumber) :
    ∃ d cs, d < 10 ∧ printUnsigned k = Nat.digitChar d :: cs := by
  cases k with
  | whole negative n => exact printNat_eq_cons n
  | decimal negative mantissa exponent =>
    obtain ⟨d, cs, small, front⟩ := printNat_eq_cons mantissa
    exact ⟨d, _, small, congrArg (· ++ _) front⟩

/-- A value starts with a character that is neither blank nor closes a bracket. -/
theorem print_eq_cons (j : Json) :
    ∃ c cs, j.print = c :: cs ∧ isBlank c = false ∧ c ≠ ']' := by
  cases j with
  | null => exact ⟨'n', _, rfl, rfl, by decide⟩
  | bool b => cases b with
    | true => exact ⟨'t', _, rfl, rfl, by decide⟩
    | false => exact ⟨'f', _, rfl, rfl, by decide⟩
  | str s => exact ⟨'"', _, rfl, rfl, by decide⟩
  | arr items => exact ⟨'[', _, rfl, rfl, by decide⟩
  | obj fields => exact ⟨'\x7b', _, rfl, rfl, by decide⟩
  | unreadable => exact ⟨'"', _, rfl, rfl, by decide⟩
  | num k =>
    obtain ⟨d, cs, small, front⟩ := printUnsigned_eq_cons k
    rw [print, printNumber_eq, front]
    cases isNegative k with
    | true => exact ⟨'-', _, rfl, rfl, by decide⟩
    | false =>
      refine ⟨Nat.digitChar d, cs, rfl, ?_⟩
      interval_cases d <;> exact ⟨rfl, by decide⟩

/-- What begins with a digit is a number. -/
theorem value?_digit {d : Nat} (small : d < 10) (n : Nat) (cs : Chars) :
    value? (n + 1) (some (Nat.digitChar d) :: cs)
      = (number? false (some (Nat.digitChar d) :: cs)).map fun x => (.num x.1, x.2) := by
  interval_cases d <;> rfl

/-- A number is read back as a value. -/
theorem value?_number (stops : Stops rest) (n : Nat) (k : JsonNumber) :
    value? (n + 1) ((printNumber k).map some ++ rest) = some (.num k, rest) := by
  have read := number?_print stops k
  rw [printNumber_eq]
  cases sign : isNegative k with
  | true =>
    rw [sign] at read
    show (number? true ((printUnsigned k).map some ++ rest)).map _ = _
    rw [read]
    rfl
  | false =>
    obtain ⟨d, cs, small, front⟩ := printUnsigned_eq_cons k
    rw [sign, front] at read
    rw [front]
    exact (value?_digit small n _).trans (congrArg (Option.map fun x => (num x.1, x.2)) read)

theorem stops_comma (rest : Chars) : Stops (some ',' :: rest) := by
  refine ⟨rfl, ?_⟩
  decide

theorem stops_bracket (rest : Chars) : Stops (some ']' :: rest) := by
  refine ⟨rfl, ?_⟩
  decide

theorem stops_brace (rest : Chars) : Stops (some '\x7d' :: rest) := by
  refine ⟨rfl, ?_⟩
  decide

/-- Behind an opening bracket that is not closed at once come items. -/
theorem value?_arr {cs : Chars} (visible : isBlank c = false) (other : c ≠ ']') (n : Nat) :
    value? (n + 1) (some '[' :: some c :: cs)
      = (items? n (some c :: cs)).map fun x => (.arr x.1, x.2) := by
  rw [value?, skipBlanks_cons (by decide)]
  simp only [skipBlanks_cons visible]
  split
  · next same => exact absurd (Option.some.inj (List.cons.inj same).1) other
  · rfl

/-- Behind an opening brace that a quote follows come fields. -/
theorem value?_obj (n : Nat) (cs : Chars) :
    value? (n + 1) (some '\x7b' :: some '"' :: cs)
      = (fields? n (some '"' :: cs)).map fun x => (ofFields x.1, x.2) := rfl

/-- An item and the text behind it, which ends the array or goes on with another item. -/
theorem items?_last {j : Json} {m : Nat} {cs : Chars}
    (read : value? m (cs ++ some ']' :: rest) = some (j, some ']' :: rest)) :
    items? (m + 1) (cs ++ some ']' :: rest) = some ([j], rest) := by
  rw [items?, read]
  rfl

/-- An item in front of a comma is the first of those that are read. -/
theorem items?_next {j : Json} {js : List Json} {m : Nat} {cs ds : Chars}
    (read : value? m (cs ++ some ',' :: ds) = some (j, some ',' :: ds))
    (more : items? m ds = some (js, rest)) :
    items? (m + 1) (cs ++ some ',' :: ds) = some (j :: js, rest) := by
  rw [items?, read]
  show (items? m ds).bind _ = _
  rw [more]
  rfl

/-- A field in front of a closing brace is the last. -/
theorem fields?_last {key : String} {j : Json} {m : Nat} {cs : Chars}
    (read : value? m (cs ++ some '\x7d' :: rest) = some (j, some '\x7d' :: rest)) :
    fields? (m + 1) ((printString key).map some ++ some ':' :: (cs ++ some '\x7d' :: rest))
      = some ([(some key, j)], rest) := by
  rw [fields?, printString]
  show (string? ((key.toList.flatMap printChar ++ ['"']).map some ++ _)).bind _ = _
  rw [string?_print]
  show (value? m (cs ++ some '\x7d' :: rest)).bind _ = _
  rw [read]
  rfl

/-- A field in front of a comma is the first of those that are read. -/
theorem fields?_next {key : String} {j : Json} {fs : List (Option String × Json)} {m : Nat}
    {cs ds : Chars} (read : value? m (cs ++ some ',' :: ds) = some (j, some ',' :: ds))
    (more : fields? m ds = some (fs, rest)) :
    fields? (m + 1) ((printString key).map some ++ some ':' :: (cs ++ some ',' :: ds))
      = some ((some key, j) :: fs, rest) := by
  rw [fields?, printString]
  show (string? ((key.toList.flatMap printChar ++ ['"']).map some ++ _)).bind _ = _
  rw [string?_print]
  show (value? m (cs ++ some ',' :: ds)).bind _ = _
  rw [read]
  show (fields? m ds).bind _ = _
  rw [more]
  rfl

/-- Fields whose keys were read make an object. -/
theorem ofFields_some (fs : List (String × Json)) :
    ofFields (fs.map fun f => (some f.1, f.2)) = .obj fs := by
  have all : (fs.map fun f => (some f.1, f.2)).mapM
      (fun f : Option String × Json => f.1.map fun key => (key, f.2)) = some fs := by
    induction fs with
    | nil => rfl
    | cons f fs ih =>
      rw [List.map_cons, List.mapM_cons, ih]
      rfl
  rw [ofFields, all]

/-- Items begin with something that is read as an item. -/
theorem printItems_eq_cons (j : Json) (js : List Json) :
    ∃ c cs, printItems (j :: js) = c :: cs ∧ isBlank c = false ∧ c ≠ ']' := by
  obtain ⟨c, cs, front, visible, other⟩ := print_eq_cons j
  cases js with
  | nil => exact ⟨c, cs, front, visible, other⟩
  | cons j' js => exact ⟨c, _, congrArg (· ++ _) front, visible, other⟩

/-- Fields begin with the quote of a name. -/
theorem printFields_eq_cons (f : String × Json) (fs : List (String × Json)) :
    ∃ cs, printFields (f :: fs) = '"' :: cs := by
  cases fs with
  | nil => exact ⟨_, rfl⟩
  | cons f' fs => exact ⟨_, rfl⟩

/-- What is printed is not empty. -/
theorem length_print_pos (j : Json) : 0 < j.print.length := by
  obtain ⟨c, cs, front, -⟩ := print_eq_cons j
  rw [front, List.length_cons]
  exact Nat.succ_pos _

mutual

/-- **A value is read back** from its print, whatever follows that does not go on a number. -/
theorem value?_print : ∀ (n : Nat) (j : Json) (rest : Chars), j.print.length < n → Stops rest →
    value? n (j.print.map some ++ rest) = some (j, rest)
  | 0, _, _, enough, _ => absurd enough (Nat.not_lt_zero _)
  | _ + 1, .null, _, _, _ => rfl
  | _ + 1, .bool true, _, _, _ => rfl
  | _ + 1, .bool false, _, _, _ => rfl
  | _ + 1, .unreadable, _, _, _ => rfl
  | _ + 1, .arr [], _, _, _ => rfl
  | _ + 1, .obj [], _, _, _ => rfl
  | n + 1, .num k, _, _, stops => value?_number stops n k
  | n + 1, .str s, rest, _, _ =>
    congrArg (Option.map fun x : Option String × Chars => (ofText? x.1, x.2)) (string?_print s rest)
  | n + 1, .arr (j :: js), rest, enough, _ => by
    -- the items are shorter than the array by its brackets, so the fuel is enough for them
    have length : (printItems (j :: js)).length + 1 < n := by
      simp only [print, List.length_cons, List.length_append, List.length_nil] at enough
      omega
    have items := items?_print n j js rest length
    obtain ⟨c, cs, front, visible, other⟩ := printItems_eq_cons j js
    rw [print, front, List.map_cons, List.map_append, List.cons_append, List.append_assoc]
    rw [front] at items
    refine (value?_arr visible other n).trans ?_
    exact congrArg (Option.map fun x => (arr x.1, x.2)) items
  | n + 1, .obj (f :: fs), rest, enough, _ => by
    have length : (printFields (f :: fs)).length + 1 < n := by
      simp only [print, List.length_cons, List.length_append, List.length_nil] at enough
      omega
    have fields := fields?_print n f fs rest length
    obtain ⟨cs, front⟩ := printFields_eq_cons f fs
    rw [print, front, List.map_cons, List.map_append, List.cons_append, List.append_assoc]
    rw [front] at fields
    refine (value?_obj n _).trans ?_
    refine (congrArg (Option.map fun x : _ × Chars => (ofFields x.1, x.2)) fields).trans ?_
    rw [Option.map_some, ofFields_some]

/-- Items are read back, if there is room for as many characters as they take. -/
theorem items?_print : ∀ (n : Nat) (j : Json) (js : List Json) (rest : Chars),
    (printItems (j :: js)).length + 1 < n →
    items? n ((printItems (j :: js)).map some ++ some ']' :: rest) = some (j :: js, rest)
  | 0, _, _, _, enough => absurd enough (Nat.not_lt_zero _)
  | n + 1, j, [], rest, enough => by
    rw [printItems] at enough ⊢
    exact items?_last (value?_print n j _ (by omega) (stops_bracket rest))
  | n + 1, j, j' :: js, rest, enough => by
    have some := length_print_pos j
    rw [printItems, List.length_append, List.length_cons] at enough
    rw [printItems, List.map_append, List.append_assoc, List.map_cons, List.cons_append]
    exact items?_next (value?_print n j _ (by omega) (stops_comma _))
      (items?_print n j' js rest (by omega))

/-- Fields are read back, if there is room for as many characters as they take. -/
theorem fields?_print : ∀ (n : Nat) (f : String × Json) (fs : List (String × Json)) (rest : Chars),
    (printFields (f :: fs)).length + 1 < n →
    fields? n ((printFields (f :: fs)).map some ++ some '\x7d' :: rest)
      = some ((f :: fs).map fun f => (some f.1, f.2), rest)
  | 0, _, _, _, enough => absurd enough (Nat.not_lt_zero _)
  | n + 1, (key, j), [], rest, enough => by
    rw [printFields, List.length_append, List.length_cons] at enough
    rw [printFields, List.map_append, List.append_assoc, List.map_cons, List.cons_append]
    exact fields?_last (value?_print n j _ (by omega) (stops_brace rest))
  | n + 1, (key, j), f' :: fs, rest, enough => by
    have some := length_print_pos j
    rw [printFields, List.length_append, List.length_cons, List.length_append,
      List.length_cons] at enough
    rw [printFields, List.map_append, List.append_assoc, List.map_cons, List.cons_append,
      List.map_append, List.append_assoc, List.map_cons, List.cons_append]
    exact fields?_next (value?_print n j _ (by omega) (stops_comma _))
      (fields?_print n f' fs rest (by omega))

end

/-- **A text is read back** as the value that it was printed from. -/
theorem readChars_print (j : Json) : readChars (j.print.map some) = some j := by
  have read := value?_print ((j.print.map some).length + 1) j []
    (by rw [List.length_map]; exact Nat.lt_succ_self _) trivial
  rw [List.append_nil] at read
  rw [readChars, read]
  rfl

/-- **What is written is read back**, whatever the value. -/
theorem read_text (j : Json) : read j.text = some j := by
  rw [read, text, String.toList_ofList]
  exact readChars_print j

/-- The same in UTF-8. -/
theorem readOctets_print (j : Json) : readOctets (Utf8.encode j.print) = some j := by
  rw [readOctets, Utf8.decode_encode]
  exact readChars_print j

end Json

end OntologyService
