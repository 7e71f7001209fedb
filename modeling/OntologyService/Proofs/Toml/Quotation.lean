import Mathlib.Data.List.Basic
import Mathlib.Tactic.SplitIfs
import OntologyService.Proofs.Text.Numeral
import OntologyService.Toml.Quoted

/-!
# Texts and their quotations

Every text is read back from the quotation that it is written in (`readAny?_write`), in front of
anything but a mark. A reader that is behind `n` marks has not yet told whether they are text, so
both of the laws that carry this speak of a text that is written from there on: where escapes are in
force (`readFrom?_escape`), the writer counts marks as the reader does and escapes the one too many;
where there are none (`readFrom?_literal`), the quotation was chosen so that no run of marks is too
long. At the end the marks that are text and those that close the string stand in one row
(`readFrom?_marks`).
-/

namespace OntologyService

namespace Quotation

variable {q : Quotation} {c d : Char} {cs rest : List Char} {n k v : Nat}

/-- How many marks in a row stand for themselves. -/
def slack (q : Quotation) : Nat := if q.lines then 2 else 0

theorem slack_le (q : Quotation) : q.slack ≤ 2 := by
  unfold slack
  split <;> omega

/-- Marks stand for themselves only where there may be several lines. -/
theorem lines_of_slack (some : n < q.slack) : q.lines = true := by
  unfold slack at some
  split at some
  · assumption
  · omega

/-- Text in front of what a reader gets. -/
def prepend (text : List Char) (p : List Char × List Char) : List Char × List Char :=
  (text ++ p.1, p.2)

theorem map_prepend_prepend (front text : List Char) (p? : Option (List Char × List Char)) :
    (p?.map (prepend text)).map (prepend front) = p?.map (prepend (front ++ text)) := by
  cases p? <;> simp [prepend]

/-- A step that reads on comes in front of what is read later. -/
theorem readFrom?_more {phase phase' : Phase} {text : List Char}
    (stepped : q.step c phase = .more text phase') (rest : List Char) :
    q.readFrom? phase (c :: rest) = (q.readFrom? phase' rest).map (prepend text) := by
  rw [readFrom?, stepped]
  rfl

/-- A step that adds nothing is passed over. -/
theorem readFrom?_quiet {phase phase' : Phase} (stepped : q.step c phase = .more [] phase')
    (rest : List Char) : q.readFrom? phase (c :: rest) = q.readFrom? phase' rest := by
  rw [readFrom?_more stepped]
  exact Option.map_id' 

/-! ## Marks -/

/-- A mark that may be the first of a closing row is counted. -/
theorem readFrom?_mark (lines : q.lines = true) (few : n < 4) (rest : List Char) :
    q.readFrom? (.marks n) (q.mark :: rest) = q.readFrom? (.marks (n + 1)) rest := by
  have other : n ≠ 4 := by omega
  exact readFrom?_quiet (by simp [step, stepText, lines, other]) rest

/-- Of a row of marks the last three close the text, and the others belong to it. -/
theorem readFrom?_past (enough : 3 ≤ n) (ends : rest.head? ≠ some q.mark) :
    q.readFrom? (.marks n) rest = some (List.replicate (n - 3) q.mark, rest) := by
  cases rest with
  | nil => simp [readFrom?, enough]
  | cons c rest =>
    have other : c ≠ q.mark := fun same => ends (congrArg some same)
    simp [readFrom?, step, stepText, other, enough]

/-- **The end of a string**, where the text has come to its last marks. -/
theorem readFrom?_marks (few : n ≤ q.slack) (ends : rest.head? ≠ some q.mark) :
    q.readFrom? (.marks n) (q.marks ++ rest) = some (List.replicate n q.mark, rest) := by
  cases lines : q.lines with
  | false =>
    have none' : n = 0 := by simpa [slack, lines] using few
    simp [marks, lines, readFrom?, step, stepText, none']
  | true =>
    have three : q.marks = [q.mark, q.mark, q.mark] := by simp [marks, lines]
    have few : n ≤ 2 := Nat.le_trans few q.slack_le
    rw [three, List.cons_append, List.cons_append, List.cons_append, List.nil_append,
      readFrom?_mark lines (by omega), readFrom?_mark lines (by omega)]
    rcases Nat.lt_or_eq_of_le few with few | rfl
    · rw [readFrom?_mark lines (by omega), readFrom?_past (by omega) ends]
      rfl
    · simp [readFrom?, step, stepText, lines]

/-! ## Characters -/

/-- A character that stands for itself belongs to the text, with the marks in front of it. -/
theorem readFrom?_plain (few : n ≤ 2) (other : c ≠ q.mark)
    (free : q.escapes = true → c ≠ '\\') (stands : q.lines = true ∧ c = '\n' ∨ plain c = true)
    (rest : List Char) :
    q.readFrom? (.marks n) (c :: rest)
      = (q.readFrom? (.marks 0) rest).map (prepend (List.replicate n q.mark ++ [c])) := by
  have few : ¬ 3 ≤ n := by omega
  have free : ¬ ((q.escapes && decide (c = '\\')) = true) := by simpa using free
  have stands : ((q.lines && decide (c = '\n')) || plain c) = true := by simpa using stands
  refine readFrom?_more ?_ rest
  rw [step, stepText, if_neg other, if_neg few, if_neg free, if_pos stands]

/-- A backslash begins an escape, and ends a row of marks. -/
theorem readFrom?_backslash (few : n ≤ 2) (escapes : q.escapes = true) (other : '\\' ≠ q.mark)
    (rest : List Char) :
    q.readFrom? (.marks n) ('\\' :: rest)
      = (q.readFrom? .escape rest).map (prepend (List.replicate n q.mark)) := by
  refine readFrom?_more ?_ rest
  rw [step, stepText, if_neg other, if_neg (by omega), if_pos (by simpa using escapes)]

/-- A short escape is read as its character. -/
theorem readFrom?_escaped (known : escaped? d = some c) (rest : List Char) :
    q.readFrom? .escape (d :: rest) = (q.readFrom? (.marks 0) rest).map (prepend [c]) := by
  unfold escaped? at known
  refine readFrom?_more ?_ rest
  split at known <;> cases known <;> simp [step, stepEscape, escaped?]

/-! ## Numbers of characters -/

/-- A digit of a number is read, and more are to come. -/
theorem readFrom?_digit (small : n < 16) (k v : Nat) (rest : List Char) :
    q.readFrom? (.code (k + 2) v) (Numeral.hexChar 'A' n :: rest)
      = q.readFrom? (.code (k + 1) (v * 16 + n)) rest := by
  refine readFrom?_quiet ?_ rest
  rw [step, stepCode, Numeral.digit?_hexChar small]
  exact if_pos (by omega)

/-- With the last digit of a number, the character of the number is read. -/
theorem readFrom?_lastDigit (small : n < 16) (valid : (v * 16 + n).isValidChar)
    (rest : List Char) :
    q.readFrom? (.code 1 v) (Numeral.hexChar 'A' n :: rest)
      = (q.readFrom? (.marks 0) rest).map (prepend [Char.ofNat (v * 16 + n)]) := by
  refine readFrom?_more ?_ rest
  rw [step, stepCode, Numeral.digit?_hexChar small]
  exact (if_neg (by omega)).trans (if_pos valid)

/-- Only characters of less than eight bits have to be written by their numbers. -/
theorem toNat_lt_of_not_plain (hidden : plain c = false) : c.toNat < 128 := by
  by_cases last : c = '\x7F'
  · rw [last]
    decide
  · have low : ¬ ' ' ≤ c := fun visible => by simp [plain, visible, last] at hidden
    have below : c.toNat < 32 := by simpa [Char.le_def, UInt32.le_iff_toNat_le] using low
    omega

/-- A control character is read off its four digits. -/
theorem readFrom?_number (hidden : plain c = false) (rest : List Char) :
    q.readFrom? .escape ('u' :: '0' :: '0' :: Numeral.hexChar 'A' (c.toNat / 16) ::
        Numeral.hexChar 'A' (c.toNat % 16) :: rest)
      = (q.readFrom? (.marks 0) rest).map (prepend [c]) := by
  have small := toNat_lt_of_not_plain hidden
  have zero : '0' = Numeral.hexChar 'A' 0 := rfl
  have number : c.toNat / 16 * 16 + c.toNat % 16 = c.toNat := by omega
  have numbered : q.step 'u' .escape = .more [] (.code 4 0) := by simp [step, stepEscape]
  rw [readFrom?_quiet numbered, zero, readFrom?_digit (by omega),
    readFrom?_digit (by omega), readFrom?_digit (by omega), Nat.zero_mul, Nat.zero_add,
    Nat.zero_add, readFrom?_lastDigit (by omega)]
  · rw [number, Char.ofNat_toNat]
  · rw [number]
    exact c.valid

/-! ## Texts with escapes -/

/-- **A character** is read back from the way it is written where escapes are in force. -/
theorem readFrom?_escapeChar (few : n ≤ 2) (escapes : q.escapes = true) (double : q.mark = '"')
    (other : c ≠ q.mark) (rest : List Char) :
    q.readFrom? (.marks n) (q.escapeChar c ++ rest)
      = (q.readFrom? (.marks 0) rest).map (prepend (List.replicate n q.mark ++ [c])) := by
  have different : '\\' ≠ q.mark := by rw [double]; decide
  have escaped {e d : Char} (known : escaped? e = some d) :
      q.readFrom? (.marks n) (['\\', e] ++ rest)
        = (q.readFrom? (.marks 0) rest).map (prepend (List.replicate n q.mark ++ [d])) := by
    rw [List.cons_append, readFrom?_backslash few escapes different, List.singleton_append,
      readFrom?_escaped known, map_prepend_prepend]
  unfold escapeChar
  dsimp only
  split_ifs with b t l lines f r backslash hidden
  · exact b ▸ escaped rfl
  · exact t ▸ escaped rfl
  · rw [← l]
    exact readFrom?_plain few other (by simp [l]) (.inl ⟨lines, l⟩) rest
  · exact l ▸ escaped rfl
  · exact f ▸ escaped rfl
  · exact r ▸ escaped rfl
  · rw [backslash]
    exact escaped rfl
  · simp only [List.cons_append, List.nil_append]
    rw [readFrom?_backslash few escapes different, readFrom?_number (by simpa using hidden),
      map_prepend_prepend]
  · exact readFrom?_plain few other (fun _ => backslash) (.inr (by simpa using hidden)) rest

theorem escape_cons (q : Quotation) (n : Nat) (c : Char) (cs : List Char) :
    q.escape n (c :: cs) =
      if c = q.mark then
        if n < q.slack then c :: q.escape (n + 1) cs else '\\' :: c :: q.escape 0 cs
      else q.escapeChar c ++ q.escape 0 cs := rfl

/-- A text that is written with escapes is read back. -/
theorem readFrom?_escape (escapes : q.escapes = true) (double : q.mark = '"') (few : n ≤ q.slack)
    (ends : rest.head? ≠ some q.mark) :
    q.readFrom? (.marks n) (q.escape n cs ++ (q.marks ++ rest))
      = some (List.replicate n q.mark ++ cs, rest) := by
  induction cs generalizing n with
  | nil => rw [escape, List.nil_append, readFrom?_marks few ends, List.append_nil]
  | cons c cs ih =>
    have two := Nat.le_trans few q.slack_le
    rw [escape_cons]
    split_ifs with mark room
    · rw [mark, List.cons_append, readFrom?_mark (lines_of_slack room) (by omega), ih room,
        List.replicate_succ', List.append_assoc]
      rfl
    · have different : '\\' ≠ q.mark := by rw [double]; decide
      rw [List.cons_append, List.cons_append, readFrom?_backslash two escapes different,
        readFrom?_escaped (c := c) (by rw [mark, double]; rfl), ih (Nat.zero_le _)]
      rfl
    · rw [List.append_assoc, readFrom?_escapeChar two escapes double mark, ih (Nat.zero_le _)]
      simp [prepend]

/-! ## Texts that stand for themselves -/

/-- The longest row of marks is no shorter than the one at the beginning. -/
theorem le_longestRun (mark : Char) (n : Nat) (cs : List Char) : n ≤ longestRun mark n cs := by
  induction cs generalizing n with
  | nil => exact Nat.le_refl n
  | cons c cs ih =>
    unfold longestRun
    split
    · exact Nat.le_of_succ_le (ih (n + 1))
    · exact Nat.le_max_left ..

/-- A text without marks in its way is read as it stands. -/
theorem readFrom?_literal (literal : q.escapes = false) (few : longestRun q.mark n cs ≤ q.slack)
    (stands : ∀ c ∈ cs, q.lines = true ∧ c = '\n' ∨ plain c = true)
    (ends : rest.head? ≠ some q.mark) :
    q.readFrom? (.marks n) (cs ++ (q.marks ++ rest))
      = some (List.replicate n q.mark ++ cs, rest) := by
  induction cs generalizing n with
  | nil =>
    rw [List.nil_append, List.append_nil]
    exact readFrom?_marks few ends
  | cons c cs ih =>
    have stands' := fun c among => stands c (List.mem_cons_of_mem _ among)
    unfold longestRun at few
    split at few
    · next mark =>
      have room : n < q.slack := Nat.le_trans (le_longestRun q.mark (n + 1) cs) few
      have two := q.slack_le
      rw [mark, List.cons_append, readFrom?_mark (lines_of_slack room) (by omega), ih few stands',
        List.replicate_succ', List.append_assoc]
      rfl
    · next other =>
      obtain ⟨here, later⟩ := Nat.max_le.1 few
      rw [List.cons_append, readFrom?_plain (Nat.le_trans here q.slack_le) other
        (fun escapes => nomatch literal.symm.trans escapes) (stands c List.mem_cons_self),
        ih later stands']
      simp [prepend]

/-! ## What is written -/

/-- Escapes bring no marks and no ends of lines into a text. -/
theorem mem_escapeChar (among : d ∈ q.escapeChar c) :
    d ≠ '\r' ∧ (d = '\n' → c = '\n') ∧ (d = '"' → c = '"') := by
  have digits : ∀ n < 16, let digit := Numeral.hexChar 'A' n
      digit ≠ '\r' ∧ digit ≠ '\n' ∧ digit ≠ '"' := by decide
  have small (hidden : plain c = false) : c.toNat / 16 ≤ 15 := by
    have := toNat_lt_of_not_plain hidden
    omega
  unfold escapeChar at among
  dsimp only at among
  split_ifs at among <;> simp only [List.mem_cons, List.not_mem_nil, or_false] at among <;> grind

/-- Every character is written as something. -/
theorem escapeChar_ne_nil (q : Quotation) (c : Char) : q.escapeChar c ≠ [] := by
  unfold escapeChar
  dsimp only
  split_ifs <;> exact List.cons_ne_nil _ _

/-- What is written has line ends only where the text has. -/
theorem mem_escape (among : d ∈ q.escape n cs) (other : q.mark = '"') :
    d ≠ '\r' ∧ (d = '\n' → '\n' ∈ cs) := by
  induction cs generalizing n with
  | nil => cases among
  | cons c cs ih =>
    rw [escape_cons] at among
    have later {n : Nat} (among : d ∈ q.escape n cs) : d ≠ '\r' ∧ (d = '\n' → '\n' ∈ c :: cs) :=
      (ih among).imp_right fun h same => List.mem_cons_of_mem c (h same)
    have double (same : d = q.mark) : d ≠ '\r' ∧ (d = '\n' → '\n' ∈ c :: cs) := by
      rw [same, other]
      exact ⟨by decide, fun absurd' => absurd absurd' (by decide)⟩
    split_ifs at among with mark room
    · rcases List.mem_cons.1 among with here | among
      · exact double (here.trans mark)
      · exact later among
    · rcases List.mem_cons.1 among with rfl | among
      · exact ⟨by decide, fun absurd' => absurd absurd' (by decide)⟩
      · rcases List.mem_cons.1 among with here | among
        · exact double (here.trans mark)
        · exact later among
    · rcases List.mem_append.1 among with here | among
      · obtain ⟨noReturn, line, -⟩ := mem_escapeChar here
        exact ⟨noReturn, fun same => List.mem_cons.2 (.inl (line same).symm)⟩
      · exact later among

/-- A text without a row of marks is without the mark. -/
theorem not_mem_of_longestRun (none' : longestRun d 0 cs ≤ 0) : d ∉ cs := by
  induction cs with
  | nil => exact List.not_mem_nil
  | cons c cs ih =>
    unfold longestRun at none'
    split at none'
    · exact absurd (Nat.le_trans (le_longestRun d 1 cs) none') (by omega)
    · next other =>
      exact List.not_mem_cons_of_ne_of_not_mem (Ne.symm other) (ih (Nat.max_le.1 none').2)

/-- What stands between the marks. -/
def body (q : Quotation) (cs : List Char) : List Char := if q.escapes then q.escape 0 cs else cs

/-- A quotation that a text can be written in. -/
structure Suits (q : Quotation) (cs : List Char) : Prop where
  known : q ∈ [basic, literal, basicLines, literalLines]
  holds : q.escapes = false → q.holds cs = true

/-- **The choice** of a quotation suits the text. -/
theorem of_suits (cs : List Char) : (of cs).Suits cs := by
  unfold of
  split
  · next q found =>
    have holds := List.find?_some (p := fun q : Quotation => q.holds cs) found
    exact ⟨List.mem_of_find?_eq_some found, fun _ => holds⟩
  · split
    · exact ⟨by decide, nofun⟩
    · exact ⟨by decide, nofun⟩

namespace Suits

variable (h : q.Suits cs)
include h

/-- A quotation has escapes and double marks, or neither. -/
theorem double_or_single :
    q.escapes = true ∧ q.mark = '"' ∨ q.escapes = false ∧ q.mark = '\'' := by
  have all : ∀ q ∈ [basic, literal, basicLines, literalLines],
      q.escapes = true ∧ q.mark = '"' ∨ q.escapes = false ∧ q.mark = '\'' := by decide
  exact all q h.known

/-- What can be written as it stands. -/
theorem stands (literal : q.escapes = false) :
    longestRun q.mark 0 cs ≤ q.slack ∧ (∀ c ∈ cs, q.lines = true ∧ c = '\n' ∨ plain c = true) := by
  have holds := h.holds literal
  rw [Quotation.holds, Bool.and_eq_true, Bool.and_eq_true, Bool.and_eq_true] at holds
  obtain ⟨⟨⟨visible, -⟩, lines⟩, few⟩ := holds
  refine ⟨of_decide_eq_true few, fun c among => ?_⟩
  have visible : plain c = true ∨ c = '\n' := by
    simp only [needsEscapes, Bool.not_eq_true', List.any_eq_false] at visible
    have := visible c among
    grind
  refine visible.symm.imp_left fun line => ⟨?_, line⟩
  have here : '\n' ∈ cs := line ▸ among
  simpa [here] using lines

/-- A text is read back from between its marks. -/
theorem readFrom?_body (ends : rest.head? ≠ some q.mark) :
    q.readFrom? (.marks 0) (q.body cs ++ (q.marks ++ rest)) = some (cs, rest) := by
  rcases h.double_or_single with ⟨escapes, double⟩ | ⟨literal, -⟩
  · rw [body, if_pos escapes]
    exact readFrom?_escape escapes double (Nat.zero_le _) ends
  · obtain ⟨few, stands⟩ := h.stands literal
    rw [body, if_neg (by rw [literal]; nofun)]
    exact readFrom?_literal literal few stands ends

/-- What stands between the marks has line ends only where the text has. -/
theorem mem_body (among : d ∈ q.body cs) : d ≠ '\r' ∧ (d = '\n' → '\n' ∈ cs) := by
  rcases h.double_or_single with ⟨escapes, double⟩ | ⟨literal, -⟩
  · rw [body, if_pos escapes] at among
    exact mem_escape among double
  · rw [body, if_neg (by rw [literal]; nofun)] at among
    refine ⟨fun same => ?_, fun same => same ▸ among⟩
    rcases (h.stands literal).2 d among with ⟨-, line⟩ | visible
    · exact absurd (same.symm.trans line) (by decide)
    · exact absurd (same ▸ visible) (by decide)

/-- No text starts with a mark, in one line. -/
theorem body_ne_mark (single : q.lines = false) (cs' : List Char) : q.body cs ≠ q.mark :: cs' := by
  intro starts
  rcases h.double_or_single with ⟨escapes, double⟩ | ⟨literal, -⟩
  · have slack : q.slack = 0 := by simp [slack, single]
    rw [body, if_pos escapes] at starts
    cases cs with
    | nil => cases starts
    | cons c cs =>
      rw [escape_cons, slack, if_neg (Nat.not_lt_zero 0)] at starts
      split at starts
      · rw [double] at starts
        exact absurd (List.cons.inj starts).1 (by decide)
      · next other =>
        obtain ⟨d, ds, written⟩ := List.exists_cons_of_ne_nil (q.escapeChar_ne_nil c)
        rw [written] at starts
        have first : d ∈ q.escapeChar c := written ▸ List.mem_cons_self
        have same : d = q.mark := (List.cons.inj starts).1
        exact other ((mem_escapeChar first).2.2 (same.trans double) |>.trans double.symm)
  · have few := (h.stands literal).1
    rw [slack, single] at few
    rw [body, if_neg (by rw [literal]; nofun)] at starts
    exact not_mem_of_longestRun few (starts ▸ List.mem_cons_self)

end Suits

/-! ## Reading what was written -/

/-- A text that does not begin with a line end has none dropped. -/
theorem dropLineEnd_eq (other : cs.head? ≠ some '\n') : dropLineEnd cs = cs := by
  unfold dropLineEnd
  split
  · exact absurd rfl other
  · rfl

/-- A text over lines starts behind the end of its first line. -/
theorem Suits.dropLineEnd (h : q.Suits cs) (lines : q.lines = true) (rest : List Char) :
    Quotation.dropLineEnd ((if q.lines && cs.contains '\n' then ['\n'] else []) ++
        (q.body cs ++ (q.marks ++ rest)))
      = q.body cs ++ (q.marks ++ rest) := by
  rw [lines, Bool.true_and]
  split
  · rfl
  · next none' =>
    refine dropLineEnd_eq ?_
    rw [List.nil_append]
    cases written : q.body cs with
    | nil =>
      rcases h.double_or_single with ⟨-, mark⟩ | ⟨-, mark⟩ <;> simp [marks, lines, mark]
    | cons d ds =>
      intro same
      have among : d ∈ q.body cs := written ▸ List.mem_cons_self
      have line := (h.mem_body among).2 (Option.some.inj same)
      exact none' (List.contains_iff_mem.2 line)

/-- A text is written between marks, behind a line end if it has one itself. -/
theorem writeIn_eq (q : Quotation) (cs rest : List Char) :
    q.writeIn cs ++ rest = q.marks ++ ((if q.lines && cs.contains '\n' then ['\n'] else []) ++
      (q.body cs ++ (q.marks ++ rest))) := by
  rw [writeIn, body]
  simp only [List.append_assoc]

/-- One mark, and not three, begins a text on one line. -/
theorem readAny?_single (mark : q = basic ∨ q = literal)
    (other : ∀ cs', cs ≠ q.mark :: q.mark :: cs') : readAny? (q.marks ++ cs) = q.read? cs := by
  rcases mark with rfl | rfl
  · show readAny? ('"' :: cs) = _
    unfold readAny?
    split <;> grind [basic]
  · show readAny? ('\'' :: cs) = _
    unfold readAny?
    split <;> grind [literal]

/-- Three marks begin a text on several lines. -/
theorem readAny?_lines (mark : q = basicLines ∨ q = literalLines) (cs : List Char) :
    readAny? (q.marks ++ cs) = q.read? (dropLineEnd cs) := by
  rcases mark with rfl | rfl <;> rfl

/-- **Every text** is read back from what was written, in front of anything but a mark. -/
theorem readAny?_write (cs : List Char) (double : rest.head? ≠ some '"')
    (single : rest.head? ≠ some '\'') : readAny? (write cs ++ rest) = some (cs, rest) := by
  have h := of_suits cs
  rw [write, writeIn_eq]
  generalize of cs = q at h
  have ends : rest.head? ≠ some q.mark := by
    rcases h.double_or_single with ⟨-, mark⟩ | ⟨-, mark⟩ <;> rw [mark] <;> assumption
  have read := h.readFrom?_body ends
  cases lines : q.lines with
  | true =>
    have known : q = basicLines ∨ q = literalLines := by
      have all : ∀ q ∈ [basic, literal, basicLines, literalLines],
          q.lines = true → q = basicLines ∨ q = literalLines := by decide
      exact all q h.known lines
    have begun := h.dropLineEnd lines rest
    rw [lines] at begun
    rw [readAny?_lines known, begun]
    exact read
  | false =>
    have known : q = basic ∨ q = literal := by
      have all : ∀ q ∈ [basic, literal, basicLines, literalLines],
          q.lines = false → q = basic ∨ q = literal := by decide
      exact all q h.known lines
    have one : q.marks = [q.mark] := by simp [marks, lines]
    rw [readAny?_single known]
    · exact read
    · intro cs' starts
      rw [Bool.false_and, if_neg Bool.false_ne_true, List.nil_append, one] at starts
      cases written : q.body cs with
      | nil =>
        -- the marks of an empty text stand side by side
        rw [written, List.nil_append, List.singleton_append] at starts
        exact ends (congrArg List.head? (List.cons.inj starts).2)
      | cons d ds =>
        rw [written, List.cons_append] at starts
        exact h.body_ne_mark lines ds (by rw [written, (List.cons.inj starts).1])

/-- What is written starts with a mark. -/
theorem write_eq_cons (cs : List Char) :
    ∃ mark text, (mark = '"' ∨ mark = '\'') ∧ write cs = mark :: text := by
  have h := of_suits cs
  rw [← List.append_nil (write cs), write, writeIn_eq]
  generalize of cs = q at h
  have marks : ∃ more, q.marks = q.mark :: more := by
    unfold Quotation.marks
    split <;> exact ⟨_, List.replicate_succ⟩
  obtain ⟨more, written⟩ := marks
  have mark : q.mark = '"' ∨ q.mark = '\'' := h.double_or_single.imp And.right And.right
  rw [written]
  exact ⟨q.mark, _, mark, rfl⟩

/-- What is written holds no carriage return. -/
theorem return_not_mem_write (cs : List Char) : '\r' ∉ write cs := by
  have h := of_suits cs
  rw [← List.append_nil (write cs), write, writeIn_eq]
  generalize of cs = q at h
  have marks : '\r' ∉ q.marks := by
    have all : ∀ q ∈ [basic, literal, basicLines, literalLines], '\r' ∉ q.marks := by decide
    exact all q h.known
  have body : '\r' ∉ q.body cs := fun among => (h.mem_body among).1 rfl
  have line : '\r' ∉ if q.lines && cs.contains '\n' then ['\n'] else [] := by
    split <;> decide
  simp only [List.mem_append, marks, body, line, List.not_mem_nil, or_self, not_false_eq_true]

end Quotation

end OntologyService
