import OntologyService.Proofs.Json.Reading
import OntologyService.Proofs.Toml.Quotation
import OntologyService.Toml.Reader

/-!
# Documents of plain lines

A document in which every line gives a value to a name of its own spells just these values
(`read_document`). A line can be read (`Line.Sound`) if its name needs no quotes and its value is
spelled by a text that ends with the line (`Spells`). Texts in their quotations are such
(`spells_text`), and so are the digits of a number that fits (`spells_nat`): digits up to the end of
a line are no moment, no number in another base, and have no zero in front.

No line holds a carriage return, so unifying the ends of lines changes nothing.
-/

namespace OntologyService

namespace Toml

variable {cs ds rest : List Char} {c d : Char} {n : Nat}

/-! ## Whole numbers -/

/-- Only digits. -/
def Digits (cs : List Char) : Prop := ∀ c ∈ cs, c.isDigit = true

theorem Digits.of_cons (digits : Digits (c :: cs)) : c.isDigit = true ∧ Digits cs :=
  List.forall_mem_cons.1 digits

/-- A number is written in digits. -/
theorem digits_toDigits (n : Nat) : Digits (Nat.toDigits 10 n) :=
  Json.isDigit_of_mem_printNat n

/-- A digit is not what is none. -/
theorem ne_of_isDigit (digit : c.isDigit = true) (other : d.isDigit = false) : c ≠ d := by
  rintro rfl
  cases digit.symm.trans other

/-- Without an underscore a digit is read by itself. -/
theorem moreDigits?_cons (other : c ≠ '_') (cs : List Char) :
    moreDigits? 10 (c :: cs) =
      match Numeral.digit? 10 c with
      | none => some ([], c :: cs)
      | some d => (moreDigits? 10 cs).map fun (ds, rest) => (d :: ds, rest) := by
  conv => lhs; unfold moreDigits?
  split
  · next nil => cases nil
  · next one => exact absurd (List.cons.inj one).1 other
  · next more => exact absurd (List.cons.inj more).1 other
  · next same =>
    cases same
    rfl

/-- Digits are read up to the end of the line. -/
theorem moreDigits?_append (digits : Digits ds) (rest : List Char) :
    moreDigits? 10 (ds ++ '\n' :: rest)
      = some (ds.map fun c => c.toNat - '0'.toNat, '\n' :: rest) := by
  induction ds with
  | nil => exact moreDigits?_cons (by decide) rest
  | cons c ds ih =>
    obtain ⟨here, later⟩ := digits.of_cons
    rw [List.cons_append, moreDigits?_cons (ne_of_isDigit here rfl), Json.digit?_of_isDigit here,
      ih later]
    rfl

/-- Digits are read up to the end of the line. -/
theorem digits?_append (digits : Digits (c :: ds)) (rest : List Char) :
    digits? 10 (c :: ds ++ '\n' :: rest)
      = some ((c :: ds).map fun c => c.toNat - '0'.toNat, '\n' :: rest) := by
  obtain ⟨here, later⟩ := digits.of_cons
  rw [List.cons_append, digits?, Json.digit?_of_isDigit here, Option.bind_eq_bind,
    Option.bind_some, moreDigits?_append later]
  rfl

/-- A number is the value of its digits. -/
theorem ofDigits_toDigits (n : Nat) :
    Numeral.ofDigits 10 ((Nat.toDigits 10 n).map fun c => c.toNat - '0'.toNat) = n := by
  rw [Numeral.ofDigits, List.foldl_map]
  refine Eq.trans ?_ Nat.ofDigitChars_ten_toDigits
  simp only [Nat.ofDigitChars, Nat.mul_comm]

/-! ## Digits and moments -/

/-- What fails for one element fails for all together. -/
theorem mapM_eq_none {α β : Type} {f : α → Option β} {a : α} {as : List α} (among : a ∈ as)
    (fails : f a = none) : as.mapM f = none := by
  induction as with
  | nil => cases among
  | cons b as ih =>
    rw [List.mapM_cons]
    rcases List.mem_cons.1 among with rfl | among
    · rw [fails]
      rfl
    · rw [ih among]
      cases f b <;> rfl

/-- Parts of a moment come out of the digits in front of the end of the line. -/
theorem rest_of_field? {k low high v : Nat} (digits : Digits ds)
    (read : field? k low high (ds ++ '\n' :: rest) = some (v, cs)) :
    ∃ ds', Digits ds' ∧ cs = ds' ++ '\n' :: rest := by
  by_cases long : k ≤ ds.length
  · refine ⟨ds.drop k, fun c among => digits c (List.mem_of_mem_drop among), ?_⟩
    unfold field? at read
    cases taken : ((ds ++ '\n' :: rest).take k).mapM (Numeral.digit? 10) with
    | none => rw [taken] at read; cases read
    | some values =>
      rw [taken, Option.bind_eq_bind, Option.bind_some] at read
      dsimp only at read
      split at read
      · cases read
        exact List.drop_append_of_le_length long
      · cases read
  · have among : '\n' ∈ (ds ++ '\n' :: rest).take k := by
      rw [List.take_append, ← Nat.sub_add_cancel (Nat.sub_pos_of_lt (Nat.lt_of_not_le long))]
      exact List.mem_append_right _ List.mem_cons_self
    unfold field? at read
    rw [mapM_eq_none among (by decide)] at read
    cases read

/-- What is neither a digit nor a line end is not read where digits are. -/
theorem char?_of_digits (digits : Digits ds) (noDigit : c.isDigit = false) (line : c ≠ '\n')
    (rest : List Char) : char? c (ds ++ '\n' :: rest) = none := by
  cases ds with
  | nil => exact if_neg (Ne.symm line)
  | cons d ds => exact if_neg (ne_of_isDigit digits.of_cons.1 noDigit)

/-- **A number** is not taken for a moment. -/
theorem moment?_of_digits (digits : Digits ds) (rest : List Char) :
    moment? (ds ++ '\n' :: rest) = none := by
  have date : date? (ds ++ '\n' :: rest) = none := by
    unfold date?
    cases year : field? 4 0 9999 (ds ++ '\n' :: rest) with
    | none => rfl
    | some read =>
      obtain ⟨value, behind⟩ := read
      obtain ⟨ds', digits', rfl⟩ := rest_of_field? digits year
      rw [Option.bind_eq_bind, Option.bind_some]
      dsimp only
      rw [char?_of_digits digits' (by decide) (by decide)]
      rfl
  have time : time? (ds ++ '\n' :: rest) = none := by
    unfold time?
    cases hour : field? 2 0 23 (ds ++ '\n' :: rest) with
    | none => rfl
    | some read =>
      obtain ⟨value, behind⟩ := read
      obtain ⟨ds', digits', rfl⟩ := rest_of_field? digits hour
      rw [Option.bind_eq_bind, Option.bind_some]
      dsimp only
      rw [char?_of_digits digits' (by decide) (by decide)]
      rfl
  rw [moment?, date]
  exact time

/-! ## Numbers as values -/

/-- A number that begins with a digit has no sign. -/
theorem sign_of_digit (digit : c.isDigit = true) (cs : List Char) :
    sign (c :: cs) = (false, c :: cs) := by
  unfold sign
  split
  · next minus => exact absurd (List.cons.inj minus).1 (ne_of_isDigit digit rfl)
  · next plus => exact absurd (List.cons.inj plus).1 (ne_of_isDigit digit rfl)
  · rfl

/-- A number that fits is read off its digits. -/
theorem decimal?_toDigits (small : n < integerBound) (rest : List Char) :
    decimal? false (Nat.toDigits 10 n ++ '\n' :: rest)
      = some (.integer n, '\n' :: rest) := by
  have read : decimalDigits? (Nat.toDigits 10 n ++ '\n' :: rest)
      = some ((Nat.toDigits 10 n).map fun c => c.toNat - '0'.toNat, '\n' :: rest) := by
    by_cases zero : n = 0
    · rw [zero]
      rfl
    · obtain ⟨c, cs, front, other⟩ := Json.head_printNat n zero
      rw [Json.printNat] at front
      have digits := front ▸ digits_toDigits n
      rw [front]
      unfold decimalDigits?
      split
      · next same => exact absurd (List.cons.inj same).1 other
      · exact digits?_append digits rest
  rw [decimal?, read, Option.bind_eq_bind, Option.bind_some]
  dsimp only
  rw [ofDigits_toDigits, integer?, if_neg Bool.false_ne_true, if_pos small]
  rfl

/-- What is read as a value at the end of a line. -/
structure Spells (text : List Char) (v : Toml) : Prop where
  read : ∀ n room rest, value? (n + 1) room (text ++ '\n' :: rest) = some (v, '\n' :: rest)
  visible : ∀ rest, skipBlanks (text ++ rest) = text ++ rest
  noReturn : '\r' ∉ text

theorem skipBlanks_cons (visible : c ≠ ' ' ∧ c ≠ '\t') (cs : List Char) :
    skipBlanks (c :: cs) = c :: cs := by
  rw [skipBlanks, if_neg (by simpa using visible)]

/-- A number is read as such, because nothing else starts with its digits. -/
theorem number?_toDigits (small : n < integerBound) (rest : List Char) :
    number? (Nat.toDigits 10 n ++ '\n' :: rest) = some (.integer n, '\n' :: rest) := by
  have digits := digits_toDigits n
  have moment := moment?_of_digits digits rest
  have decimal := decimal?_toDigits small rest
  obtain ⟨c, cs, front⟩ := List.exists_cons_of_ne_nil (l := Nat.toDigits 10 n) Nat.toDigits_ne_nil
  rw [front] at digits moment decimal ⊢
  obtain ⟨digit, later⟩ := digits.of_cons
  have noBase {d : Char} {cs' : List Char} (noDigit : d.isDigit = false) (line : d ≠ '\n')
      (same : c :: cs ++ '\n' :: rest = '0' :: d :: cs') : False := by
    have none' := char?_of_digits later noDigit line rest
    rw [show cs ++ '\n' :: rest = d :: cs' from (List.cons.inj same).2, char?, if_pos rfl] at none'
    cases none'
  have noWord {d : Char} {cs' : List Char} (noDigit : d.isDigit = false)
      (same : c :: cs ++ '\n' :: rest = d :: cs') : False :=
    ne_of_isDigit digit noDigit (List.cons.inj same).1
  unfold number?
  rw [moment]
  dsimp only
  split
  · next same => exact (noBase (by decide) (by decide) same).elim
  · next same => exact (noBase (by decide) (by decide) same).elim
  · next same => exact (noBase (by decide) (by decide) same).elim
  · rw [List.cons_append, sign_of_digit digit, ← List.cons_append]
    split
    · next same => exact (noWord (by decide) (Prod.mk.inj same).2).elim
    · next same => exact (noWord (by decide) (Prod.mk.inj same).2).elim
    · next same =>
      cases same
      exact decimal

/-- **A number** that fits is read back. -/
theorem spells_nat (small : n < integerBound) : Spells (Nat.toDigits 10 n) (.integer n) := by
  have digits := digits_toDigits n
  have number := number?_toDigits small
  obtain ⟨c, cs, front⟩ := List.exists_cons_of_ne_nil (l := Nat.toDigits 10 n) Nat.toDigits_ne_nil
  rw [front] at digits number ⊢
  have other {d : Char} (noDigit : d.isDigit = false) : c ≠ d :=
    ne_of_isDigit digits.of_cons.1 noDigit
  refine ⟨fun k room rest => ?_, fun rest => ?_, fun among => ?_⟩
  · have noWord {d : Char} {cs' : List Char} (noDigit : d.isDigit = false)
        (same : c :: cs ++ '\n' :: rest = d :: cs') : False := other noDigit (List.cons.inj same).1
    have scalar : scalar? (c :: cs ++ '\n' :: rest) = some (.integer n, '\n' :: rest) := by
      unfold scalar?
      split
      · next same => exact (noWord (by decide) same).elim
      · next same => exact (noWord (by decide) same).elim
      · exact number rest
    unfold value?
    split
    · next same => exact (noWord (by decide) same).elim
    · next same => exact (noWord (by decide) same).elim
    · next same => exact (noWord (by decide) same).elim
    · next same => exact (noWord (by decide) same).elim
    · exact scalar
  · exact skipBlanks_cons ⟨other rfl, other rfl⟩ _
  · exact absurd (digits _ among) (by decide)

/-- **A text** is read back. -/
theorem spells_text (s : String) : Spells (Quotation.write s.toList) (.string s) := by
  obtain ⟨mark, text, known, front⟩ := Quotation.write_eq_cons s.toList
  refine ⟨fun n room rest => ?_, fun rest => ?_, Quotation.return_not_mem_write _⟩
  · have read : Quotation.readAny? (Quotation.write s.toList ++ '\n' :: rest)
        = some (s.toList, '\n' :: rest) := Quotation.readAny?_write s.toList (by simp) (by simp)
    rw [front] at read ⊢
    have value : value? (n + 1) room (mark :: text ++ '\n' :: rest)
        = (Quotation.readAny? (mark :: text ++ '\n' :: rest)).map fun read =>
          (.string (String.ofList read.1), read.2) := by
      rcases known with rfl | rfl
      · rw [List.cons_append, value?]
      · rw [List.cons_append, value?]
    rw [value, read, Option.map_some]
    dsimp only
    rw [String.ofList_toList]
  · rw [front]
    exact skipBlanks_cons (by rcases known with rfl | rfl <;> decide) _

/-! ## Lines -/

/-- A line with the value of a setting. -/
structure Line where
  name : String
  text : List Char
  value : Toml

namespace Line

/-- The characters of a line. -/
def chars (l : Line) : List Char := l.name.toList ++ [' ', '=', ' '] ++ l.text ++ ['\n']

/-- A line that can be read. -/
structure Sound (l : Line) : Prop where
  named : l.name.toList ≠ []
  bare : ∀ c ∈ l.name.toList, isBare c = true
  spells : Spells l.text l.value

end Line

/-- A character of a bare name is not one that is none. -/
theorem ne_of_isBare (bare : isBare c = true) (other : isBare d = false) : c ≠ d := by
  rintro rfl
  cases bare.symm.trans other

/-- A bare name is read up to the blank. -/
theorem simpleKey?_bare {name : String} (named : name.toList ≠ [])
    (bare : ∀ c ∈ name.toList, isBare c = true) (rest : List Char) :
    simpleKey? (name.toList ++ ' ' :: rest) = some (name, ' ' :: rest) := by
  have taken : (name.toList ++ ' ' :: rest).takeWhile isBare = name.toList := by
    rw [List.takeWhile_append_of_pos bare, List.takeWhile_cons_of_neg (by decide), List.append_nil]
  have noMark {d : Char} {cs' : List Char} (other : isBare d = false)
      (same : name.toList ++ ' ' :: rest = d :: cs') : False := by
    obtain ⟨c, cs, front⟩ := List.exists_cons_of_ne_nil named
    rw [front] at same
    exact ne_of_isBare (bare c (front ▸ List.mem_cons_self)) other (List.cons.inj same).1
  unfold simpleKey?
  split
  · next same => exact (noMark (by decide) same).elim
  · next same => exact (noMark (by decide) same).elim
  · dsimp only
    rw [taken, List.drop_left, String.ofList_toList, if_neg (by simpa using named)]

/-- No blank stands in front of a name. -/
theorem skipBlanks_name {name : String} (named : name.toList ≠ [])
    (bare : ∀ c ∈ name.toList, isBare c = true) (rest : List Char) :
    skipBlanks (name.toList ++ rest) = name.toList ++ rest := by
  obtain ⟨c, cs, front⟩ := List.exists_cons_of_ne_nil named
  have first : isBare c = true := bare c (front ▸ List.mem_cons_self)
  rw [front]
  exact skipBlanks_cons ⟨ne_of_isBare first (by decide), ne_of_isBare first (by decide)⟩ _

/-- A name that is new goes to the end. -/
theorem put_fresh {key : String} {fields : Fields} (fresh : find? key fields = none) (v : Toml) :
    put key v fields = fields ++ [(key, v)] := by
  induction fields with
  | nil => rfl
  | cons f fields ih =>
    rw [find?, List.find?_cons] at fresh
    split at fresh
    · cases fresh
    · next other =>
      rw [put, if_neg (of_decide_eq_false other), ih fresh]
      rfl

namespace Line

variable {l : Line} {root : Fields}

theorem chars_append (l : Line) (rest : List Char) :
    l.chars ++ rest = l.name.toList ++ ' ' :: '=' :: ' ' :: (l.text ++ '\n' :: rest) := by
  simp [chars]

/-- The name of a line and the sign behind it. -/
theorem Sound.keyAndSign? (h : l.Sound) (rest : List Char) :
    keyAndSign? (l.chars ++ rest) = some ([l.name], l.text ++ '\n' :: rest) := by
  have key : key? (l.chars ++ rest)
      = some ([l.name], '=' :: ' ' :: (l.text ++ '\n' :: rest)) := by
    rw [key?, maxDepth, keyParts?, chars_append, skipBlanks_name h.named h.bare,
      simpleKey?_bare h.named h.bare, Option.bind_eq_bind, Option.bind_some]
    rfl
  rw [Toml.keyAndSign?, key, Option.bind_eq_bind, Option.bind_some]
  show some ([l.name], skipBlanks (l.text ++ '\n' :: rest)) = _
  rw [h.spells.visible]

/-- A line with a new name adds its setting. -/
theorem assign_fresh (fresh : find? l.name root = none) :
    alter .implied (assign [l.name] l.value) [] .header root
      = some (root ++ [(l.name, l.value)]) := by
  show assignKey false l.name l.value .header root = _
  rw [assignKey, if_neg (by decide), fresh, put_fresh fresh]

/-- **A line** adds its value to the document. -/
theorem Sound.lines? (h : l.Sound) (fresh : find? l.name root = none) (n : Nat)
    (rest : List Char) :
    Toml.lines? (n + 1) [] root (l.chars ++ rest)
      = Toml.lines? n [] (root ++ [(l.name, l.value)]) rest := by
  have begin' : skipBlanks (l.chars ++ rest) = l.chars ++ rest := by
    rw [chars_append, skipBlanks_name h.named h.bare]
  have other {d : Char} {cs' : List Char} (noName : isBare d = false)
      (same : l.chars ++ rest = d :: cs') : False := by
    obtain ⟨c, cs, front⟩ := List.exists_cons_of_ne_nil h.named
    rw [chars_append, front] at same
    exact ne_of_isBare (h.bare c (front ▸ List.mem_cons_self)) noName (List.cons.inj same).1
  conv => lhs; unfold Toml.lines?
  rw [begin']
  split
  · next nil => simp [chars_append] at nil
  · next same => exact (other (by decide) same).elim
  · next same => exact (other (by decide) same).elim
  · next same => exact (other (by decide) same).elim
  · next same => exact (other (by decide) same).elim
  · rw [h.keyAndSign?, Option.bind_eq_bind, Option.bind_some]
    dsimp only
    rw [h.spells.read]
    show (alter .implied (assign [l.name] l.value) [] .header root).bind _ = _
    rw [assign_fresh fresh, Option.bind_some]

end Line

/-! ## Documents -/

/-- The characters of a document. -/
def document (ls : List Line) : List Char := ls.flatMap Line.chars

/-- The fields of a document. -/
def fields (ls : List Line) : Fields := ls.map fun l => (l.name, l.value)

/-- What is not among the names is not found. -/
theorem find?_eq_none {key : String} {root : Fields} (fresh : key ∉ root.map Prod.fst) :
    find? key root = none := by
  rw [find?, List.find?_eq_none.2, Option.map_none]
  intro f among
  simpa using fun same => fresh (List.mem_map.2 ⟨f, among, same⟩)

/-- Lines with different names are read one after the other. -/
theorem lines?_document {ls : List Line} {root : Fields} (sound : ∀ l ∈ ls, l.Sound)
    (distinct : (root.map Prod.fst ++ ls.map Line.name).Nodup) (enough : ls.length < n) :
    lines? n [] root (document ls) = some (root ++ fields ls) := by
  induction ls generalizing root n with
  | nil =>
    cases n with
    | zero => cases enough
    | succ n => exact congrArg some (List.append_nil root).symm
  | cons l ls ih =>
    cases n with
    | zero => cases enough
    | succ n =>
      have fresh : l.name ∉ root.map Prod.fst := fun among =>
        (List.nodup_append.1 distinct).2.2 _ among _ List.mem_cons_self rfl
      have distinct' : ((root ++ [(l.name, l.value)]).map Prod.fst ++ ls.map Line.name).Nodup := by
        rw [List.map_append, List.append_assoc]
        exact distinct
      have next := ih (fun l' among => sound l' (List.mem_cons_of_mem _ among)) distinct'
        (Nat.lt_of_succ_lt_succ enough)
      rw [document, List.flatMap_cons, (sound l List.mem_cons_self).lines? (find?_eq_none fresh)]
      rw [List.append_assoc] at next
      exact next

/-- A text without carriage returns has its line ends already. -/
theorem unifyLineEnds_eq (none' : '\r' ∉ cs) : unifyLineEnds cs = cs := by
  induction cs with
  | nil => rfl
  | cons c cs ih =>
    obtain ⟨here, later⟩ := List.ne_and_not_mem_of_not_mem_cons none'
    conv => lhs; unfold unifyLineEnds
    split
    · next nil => cases nil
    · next same => exact absurd (List.cons.inj same).1.symm here
    · next same =>
      cases same
      rw [ih later]

/-- A line that can be read has no carriage return. -/
theorem Line.Sound.noReturn {l : Line} (h : l.Sound) : '\r' ∉ l.chars := by
  have name : '\r' ∉ l.name.toList := fun among => absurd (h.bare _ among) (by decide)
  simp [Line.chars, name, h.spells.noReturn]

/-- There are no more lines than characters. -/
theorem length_le_document (ls : List Line) : ls.length ≤ (document ls).length := by
  induction ls with
  | nil => exact Nat.le_refl 0
  | cons l ls ih =>
    have some' : 1 ≤ l.chars.length := by
      rw [Line.chars, List.length_append, List.length_singleton]
      exact Nat.le_add_left 1 _
    rw [document, List.flatMap_cons, List.length_append, List.length_cons, Nat.add_comm ls.length]
    exact Nat.add_le_add some' ih

/-- A document has no mark in front of it. -/
theorem dropByteOrderMark_document {ls : List Line} (sound : ∀ l ∈ ls, l.Sound) :
    dropByteOrderMark (document ls) = document ls := by
  unfold dropByteOrderMark
  split
  · next marked =>
    cases ls with
    | nil => cases marked
    | cons l ls =>
      have h := sound l List.mem_cons_self
      obtain ⟨c, cs, front⟩ := List.exists_cons_of_ne_nil h.named
      rw [document, List.flatMap_cons, Line.chars_append, front] at marked
      exact absurd (List.cons.inj marked).1
        (ne_of_isBare (h.bare c (front ▸ List.mem_cons_self)) (by decide))
  · rfl

/-- **A document** of sound lines with different names spells the fields of its lines. -/
theorem read_document {ls : List Line} (sound : ∀ l ∈ ls, l.Sound)
    (distinct : (ls.map Line.name).Nodup) :
    read (String.ofList (document ls)) = some (fields ls) := by
  have noReturn : '\r' ∉ document ls := fun among => by
    obtain ⟨l, member, here⟩ := List.mem_flatMap.1 among
    exact (sound l member).noReturn here
  rw [read, String.toList_ofList, dropByteOrderMark_document sound, unifyLineEnds_eq noReturn]
  exact lines?_document sound distinct (Nat.lt_succ_of_le (length_le_document ls))

end Toml

end OntologyService
