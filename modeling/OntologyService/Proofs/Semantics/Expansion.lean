import OntologyService.Proofs.Semantics.NormalForm

/-!
# The size of the normal form

Two numbers belong to an expression. Its **full size** is how many conjuncts its expansion has when
nothing stops it: a union adds, an intersection multiplies, and a negation swaps the two. Its
**peak** is the largest number that turns up while this is worked out from left to right, every
partial sum and every partial product at every depth.

The bound is put to the running numbers, so it is the peak that decides whether an expression is
refused; if it is not, the normal form has its full size (`expand_sized`). The full size never
passes the peak, and it falls short of it only where an intersection has an operand that expands to
nothing: that operand takes back what the others came to (`spoiled`). Expressions without such an
operand (`Productive`) peak at their full size (`peakSize_eq`), and what they come to does not
depend on the order of operands (`Reordered`).

**The laws**: `dnf_keeps_meaning`, a normal form is true exactly where the expression is, and keeps
to the bound; `dnf_sized`, which expressions have one, and of which size.
-/

namespace OntologyService

namespace ClassExpression

variable {positive : Bool} {e : ClassExpression} {es : List ClassExpression}

/-! ## Full size and peak -/

mutual

/-- How many conjuncts the expansion has in full. -/
def fullSize (positive : Bool) : ClassExpression → Nat
  | ofClass _ | nominal _ => 1
  | not e => fullSize (!positive) e
  | and es => if positive then fullSizeAll positive es else fullSizeAny positive es
  | or es => if positive then fullSizeAny positive es else fullSizeAll positive es

/-- The sum of the full sizes. -/
def fullSizeAny (positive : Bool) : List ClassExpression → Nat
  | [] => 0
  | e :: es => fullSize positive e + fullSizeAny positive es

/-- The product of the full sizes. -/
def fullSizeAll (positive : Bool) : List ClassExpression → Nat
  | [] => 1
  | e :: es => fullSize positive e * fullSizeAll positive es

end

mutual

/-- The largest number of conjuncts that turns up in the expansion. -/
def peakSize (positive : Bool) : ClassExpression → Nat
  | ofClass _ | nominal _ => 1
  | not e => peakSize (!positive) e
  | and es => if positive then peakSizeAll positive 1 es else peakSizeAny positive 0 es
  | or es => if positive then peakSizeAny positive 0 es else peakSizeAll positive 1 es

/-- The largest number that turns up in a union of which `before` conjuncts are there. -/
def peakSizeAny (positive : Bool) (before : Nat) : List ClassExpression → Nat
  | [] => before
  | e :: es => max before
      (max (peakSize positive e) (peakSizeAny positive (before + fullSize positive e) es))

/-- The largest number that turns up in an intersection of which `found` conjuncts are there. -/
def peakSizeAll (positive : Bool) (found : Nat) : List ClassExpression → Nat
  | [] => found
  | e :: es => max found
      (max (peakSize positive e) (peakSizeAll positive (found * fullSize positive e) es))

end

/-- The greatest size of a disjunction is no less than what comes in front of it. -/
theorem le_peakSizeAny (positive : Bool) (before : Nat) (es : List ClassExpression) :
    before ≤ peakSizeAny positive before es := by
  cases es with
  | nil => exact Nat.le_of_eq (by rw [peakSizeAny])
  | cons e es => rw [peakSizeAny]; exact Nat.le_max_left ..

/-- The greatest size of a conjunction is no less than what comes in front of it. -/
theorem le_peakSizeAll (positive : Bool) (found : Nat) (es : List ClassExpression) :
    found ≤ peakSizeAll positive found es := by
  cases es with
  | nil => exact Nat.le_of_eq (by rw [peakSizeAll])
  | cons e es => rw [peakSizeAll]; exact Nat.le_max_left ..

/-! ## What an expansion comes to -/

/-- **An expansion of a full size and a peak**: within the bound it is answered in full size, and
beyond the bound it is refused with a number that turned up. -/
inductive Sized (size peak : Nat) : Except ReasoningError (List Conjunct) → Prop
  | answered (cs : List Conjunct) : peak ≤ maxConjuncts → cs.length = size →
    Sized size peak (.ok cs)
  | refused (terms : Nat) : maxConjuncts < terms → terms ≤ peak →
    Sized size peak (.error (.tooComplex terms maxConjuncts))

namespace Sized

variable {size size' peak peak' : Nat} {x : Except ReasoningError (List Conjunct)}

/-- One more number that turned up is not the one that decides, if it is within the bound. -/
theorem raise (h : Sized size peak x) {n : Nat} (small : n ≤ maxConjuncts) :
    Sized size (max n peak) x := by
  cases h with
  | answered cs le length => exact .answered cs (Nat.max_le.2 ⟨small, le⟩) length
  | refused terms large le => exact .refused terms large (Nat.le_trans le (Nat.le_max_right ..))

/-- **A part that is expanded first**: its own peak decides, then the number that is checked, and
then what is done with the conjuncts of the part. -/
theorem bind (h : Sized size peak x) (running : Nat → Nat) (turns_up : running size ≤ peak')
    {next : List Conjunct → Except ReasoningError (List Conjunct)}
    (rest : ∀ cs, cs.length = size → running size ≤ maxConjuncts → Sized size' peak' (next cs)) :
    Sized size' (max peak peak')
      (x >>= fun cs => checkSize (running cs.length) >>= fun _ => next cs) := by
  cases h with
  | refused terms large le => exact .refused terms large (Nat.le_trans le (Nat.le_max_left ..))
  | answered cs le length =>
    show Sized _ _ (checkSize (running cs.length) >>= fun _ => next cs)
    rw [length]
    by_cases small : running size ≤ maxConjuncts
    · rw [checkSize_eq_ok_iff.2 small]
      exact (rest cs length small).raise le
    · have large := Nat.not_le.1 small
      rw [checkSize, if_pos large]
      exact .refused _ large (Nat.le_trans turns_up (Nat.le_max_right ..))

/-- More conjuncts in front. -/
theorem append (h : Sized size peak x) (front : List Conjunct) :
    Sized (front.length + size) peak (x >>= fun later => pure (front ++ later)) := by
  cases h with
  | answered cs le length => exact .answered _ le (by rw [List.length_append, length])
  | refused terms large le => exact .refused terms large le

end Sized

/-- There are as many combinations as pairs. -/
theorem length_distribute (left right : List Conjunct) :
    (distribute left right).length = left.length * right.length := by
  simp [distribute, List.length_flatMap, List.map_const']

mutual

/-- **The peak decides**, and the full size is what is answered. -/
theorem expand_sized : ∀ (e : ClassExpression) (positive : Bool),
    Sized (fullSize positive e) (peakSize positive e) (expand positive e)
  | .ofClass c, positive => by
    rw [expand]
    exact .answered _ (by simp [peakSize, maxConjuncts]) (by simp [fullSize])
  | .nominal i, positive => by
    rw [expand]
    exact .answered _ (by simp [peakSize, maxConjuncts]) (by simp [fullSize])
  | .not e, positive => by
    rw [expand, fullSize, peakSize]
    exact expand_sized e _
  | .and es, positive => by
    rw [expand, fullSize, peakSize]
    cases positive with
    | true => simpa using expandAll_sized es true [{}] (by simp [maxConjuncts])
    | false => simpa using expandAny_sized es false 0 (Nat.zero_le _)
  | .or es, positive => by
    rw [expand, fullSize, peakSize]
    cases positive with
    | true => simpa using expandAny_sized es true 0 (Nat.zero_le _)
    | false => simpa using expandAll_sized es false [{}] (by simp [maxConjuncts])

/-- The operands of a disjunction add up, and are refused where the sum is too great. -/
theorem expandAny_sized : ∀ (es : List ClassExpression) (positive : Bool) (before : Nat),
    before ≤ maxConjuncts →
      Sized (fullSizeAny positive es) (peakSizeAny positive before es)
        (expandAny positive before es)
  | [], positive, before, small => by
    rw [expandAny, peakSizeAny]
    exact .answered [] small (by simp [fullSizeAny])
  | e :: es, positive, before, small => by
    rw [expandAny, fullSizeAny, peakSizeAny]
    refine ((expand_sized e positive).bind (before + ·) (le_peakSizeAny ..)
      fun cs length upTo => ?_).raise small
    rw [← length] at upTo ⊢
    exact (expandAny_sized es positive _ upTo).append cs

/-- The operands of a conjunction multiply, and are refused where the product is too great. -/
theorem expandAll_sized : ∀ (es : List ClassExpression) (positive : Bool) (found : List Conjunct),
    found.length ≤ maxConjuncts →
      Sized (found.length * fullSizeAll positive es) (peakSizeAll positive found.length es)
        (expandAll positive found es)
  | [], positive, found, small => by
    rw [expandAll, peakSizeAll]
    exact .answered found small (by simp [fullSizeAll])
  | e :: es, positive, found, small => by
    rw [expandAll, fullSizeAll, peakSizeAll]
    refine ((expand_sized e positive).bind (found.length * ·) (le_peakSizeAll ..)
      fun cs length product => ?_).raise small
    rw [← length, ← length_distribute] at product
    have rest := expandAll_sized es positive (distribute found cs) product
    rwa [length_distribute, length, Nat.mul_assoc] at rest

end

/-! ## Where the two numbers differ -/

mutual

/-- The full size turns up in the end. -/
theorem fullSize_le_peakSize : ∀ (e : ClassExpression) (positive : Bool),
    fullSize positive e ≤ peakSize positive e
  | .ofClass c, positive | .nominal i, positive => by simp [fullSize, peakSize]
  | .not e, positive => by
    rw [fullSize, peakSize]
    exact fullSize_le_peakSize e _
  | .and es, positive => by
    rw [fullSize, peakSize]
    cases positive with
    | true => simpa using fullSizeAll_le es true 1
    | false => simpa using fullSizeAny_le es false 0
  | .or es, positive => by
    rw [fullSize, peakSize]
    cases positive with
    | true => simpa using fullSizeAny_le es true 0
    | false => simpa using fullSizeAll_le es false 1

/-- The size in the end is no more than the greatest on the way. -/
theorem fullSizeAny_le : ∀ (es : List ClassExpression) (positive : Bool) (before : Nat),
    before + fullSizeAny positive es ≤ peakSizeAny positive before es
  | [], positive, before => by simp [fullSizeAny, peakSizeAny]
  | e :: es, positive, before => by
    have rest := fullSizeAny_le es positive (before + fullSize positive e)
    rw [fullSizeAny, peakSizeAny]
    omega

/-- The size in the end is no more than the greatest on the way. -/
theorem fullSizeAll_le : ∀ (es : List ClassExpression) (positive : Bool) (found : Nat),
    found * fullSizeAll positive es ≤ peakSizeAll positive found es
  | [], positive, found => by simp [fullSizeAll, peakSizeAll]
  | e :: es, positive, found => by
    have rest := fullSizeAll_le es positive (found * fullSize positive e)
    rw [fullSizeAll, peakSizeAll, ← Nat.mul_assoc]
    omega

end

mutual

/-- **No operand of an intersection expands to nothing**, at any depth. An intersection is one that
the expansion distributes over: `and` as it is, and `or` negated. -/
def Productive (positive : Bool) : ClassExpression → Prop
  | ofClass _ | nominal _ => True
  | not e => Productive (!positive) e
  | and es => EachProductive positive es ∧ (positive = true → fullSizeAll positive es ≠ 0)
  | or es => EachProductive positive es ∧ (positive = false → fullSizeAll positive es ≠ 0)

/-- Each of the expressions is productive. -/
def EachProductive (positive : Bool) : List ClassExpression → Prop
  | [] => True
  | e :: es => Productive positive e ∧ EachProductive positive es

end

mutual

/-- **What is productive peaks at its full size.** -/
theorem peakSize_eq : ∀ (e : ClassExpression) (positive : Bool), Productive positive e →
    peakSize positive e = fullSize positive e
  | .ofClass c, positive, _ | .nominal i, positive, _ => by simp [fullSize, peakSize]
  | .not e, positive, h => by
    rw [fullSize, peakSize]
    exact peakSize_eq e _ (by simpa [Productive] using h)
  | .and es, positive, h => by
    rw [Productive] at h
    rw [fullSize, peakSize]
    cases positive with
    | true => simpa using peakSizeAll_eq es true 1 h.1 Nat.one_pos (Nat.pos_of_ne_zero (h.2 rfl))
    | false => simpa using peakSizeAny_eq es false 0 h.1
  | .or es, positive, h => by
    rw [Productive] at h
    rw [fullSize, peakSize]
    cases positive with
    | true => simpa using peakSizeAny_eq es true 0 h.1
    | false =>
      simpa using peakSizeAll_eq es false 1 h.1 Nat.one_pos (Nat.pos_of_ne_zero (h.2 rfl))

/-- A sum of productive operands is greatest in the end. -/
theorem peakSizeAny_eq : ∀ (es : List ClassExpression) (positive : Bool) (before : Nat),
    EachProductive positive es →
      peakSizeAny positive before es = before + fullSizeAny positive es
  | [], positive, before, _ => by simp [fullSizeAny, peakSizeAny]
  | e :: es, positive, before, h => by
    rw [EachProductive] at h
    rw [fullSizeAny, peakSizeAny, peakSize_eq e positive h.1, peakSizeAny_eq es positive _ h.2]
    omega

/-- A product of productive operands is greatest in the end. -/
theorem peakSizeAll_eq : ∀ (es : List ClassExpression) (positive : Bool) (found : Nat),
    EachProductive positive es → 0 < found → 0 < fullSizeAll positive es →
      peakSizeAll positive found es = found * fullSizeAll positive es
  | [], positive, found, _, _, _ => by simp [fullSizeAll, peakSizeAll]
  | e :: es, positive, found, h, some_found, all => by
    rw [EachProductive] at h
    rw [fullSizeAll] at all ⊢
    have first := Nat.pos_of_mul_pos_right all
    have later := Nat.pos_of_mul_pos_left all
    rw [peakSizeAll, peakSize_eq e positive h.1, peakSizeAll_eq es positive _ h.2
      (Nat.mul_pos some_found first) later, Nat.mul_assoc]
    -- as no factor is zero, neither what was found nor the next factor passes the product
    have le_found : found ≤ found * (fullSize positive e * fullSizeAll positive es) :=
      Nat.le_mul_of_pos_right _ all
    have le_next : fullSize positive e ≤
        found * (fullSize positive e * fullSizeAll positive es) :=
      Nat.le_trans (Nat.le_mul_of_pos_right _ later) (Nat.le_mul_of_pos_left _ some_found)
    omega

end

/-! ## The order of operands -/

/-- **The same expression up to the order of operands**, at any depth. -/
inductive Reordered : ClassExpression → ClassExpression → Prop
  | refl (e : ClassExpression) : Reordered e e
  | trans {e₁ e₂ e₃ : ClassExpression} : Reordered e₁ e₂ → Reordered e₂ e₃ → Reordered e₁ e₃
  | not {e e' : ClassExpression} : Reordered e e' → Reordered (.not e) (.not e')
  | and {es es' : List ClassExpression} : es.Perm es' → Reordered (.and es) (.and es')
  | or {es es' : List ClassExpression} : es.Perm es' → Reordered (.or es) (.or es')
  | andOperand {e e' : ClassExpression} (before after : List ClassExpression) : Reordered e e' →
    Reordered (.and (before ++ e :: after)) (.and (before ++ e' :: after))
  | orOperand {e e' : ClassExpression} (before after : List ClassExpression) : Reordered e e' →
    Reordered (.or (before ++ e :: after)) (.or (before ++ e' :: after))

/-- The sizes of disjunctions add up. -/
theorem fullSizeAny_append (es es' : List ClassExpression) :
    fullSizeAny positive (es ++ es') = fullSizeAny positive es + fullSizeAny positive es' := by
  induction es with
  | nil => simp [fullSizeAny]
  | cons e es ih => simp [fullSizeAny, ih, Nat.add_assoc]

/-- The sizes of conjunctions multiply. -/
theorem fullSizeAll_append (es es' : List ClassExpression) :
    fullSizeAll positive (es ++ es') = fullSizeAll positive es * fullSizeAll positive es' := by
  induction es with
  | nil => simp [fullSizeAll]
  | cons e es ih => simp [fullSizeAll, ih, Nat.mul_assoc]

theorem eachProductive_iff : EachProductive positive es ↔ ∀ e ∈ es, Productive positive e := by
  induction es with
  | nil => simp [EachProductive]
  | cons e es ih => simp [EachProductive, ih]

theorem eachProductive_append {es es' : List ClassExpression} :
    EachProductive positive (es ++ es') ↔
      EachProductive positive es ∧ EachProductive positive es' := by
  simp [eachProductive_iff, or_imp, forall_and]

/-- Sums and products do not depend on the order. -/
theorem fullSize_perm {es es' : List ClassExpression} (h : es.Perm es') (positive : Bool) :
    fullSizeAny positive es = fullSizeAny positive es' ∧
      fullSizeAll positive es = fullSizeAll positive es' := by
  induction h with
  | nil => exact ⟨rfl, rfl⟩
  | cons e _ ih => simp [fullSizeAny, fullSizeAll, ih]
  | swap e e' es => exact ⟨by simp [fullSizeAny]; omega, by simp [fullSizeAll, Nat.mul_left_comm]⟩
  | trans _ _ ih ih' => exact ⟨ih.1.trans ih'.1, ih.2.trans ih'.2⟩

/-- **Reordering** changes neither the full size nor whether an expression is productive. -/
theorem Reordered.same {e e' : ClassExpression} (h : Reordered e e') : ∀ positive : Bool,
    fullSize positive e = fullSize positive e' ∧
      (Productive positive e ↔ Productive positive e') := by
  induction h with
  | refl e => exact fun _ => ⟨rfl, Iff.rfl⟩
  | trans _ _ ih ih' =>
    intro positive
    exact ⟨(ih positive).1.trans (ih' positive).1, (ih positive).2.trans (ih' positive).2⟩
  | not _ ih =>
    intro positive
    simpa [fullSize, Productive] using ih (!positive)
  | and perm =>
    intro positive
    obtain ⟨sum, product⟩ := fullSize_perm perm positive
    simp [fullSize, Productive, eachProductive_iff, sum, product, perm.mem_iff]
  | or perm =>
    intro positive
    obtain ⟨sum, product⟩ := fullSize_perm perm positive
    simp [fullSize, Productive, eachProductive_iff, sum, product, perm.mem_iff]
  | andOperand before after _ ih =>
    intro positive
    simp [fullSize, Productive, fullSizeAny_append, fullSizeAll_append, eachProductive_append,
      fullSizeAny, fullSizeAll, EachProductive, ih positive]
  | orOperand before after _ ih =>
    intro positive
    simp [fullSize, Productive, fullSizeAny_append, fullSizeAll_append, eachProductive_append,
      fullSizeAny, fullSizeAll, EachProductive, ih positive]

/-! ## The laws -/

/-- The expression is refused for its size. -/
def TooComplex (e : ClassExpression) : Prop := ∃ terms, e.dnf = .error (.tooComplex terms 4096)

/-- The length of the normal form, where there is one. -/
def normalSize? (e : ClassExpression) : Option Nat := e.dnf.toOption.map List.length

/-- An expression is too complex if some size on the way is beyond the limit. -/
theorem tooComplex_iff : e.TooComplex ↔ maxConjuncts < peakSize true e := by
  have sized := expand_sized e true
  unfold TooComplex dnf
  cases h : expand true e with
  | ok cs =>
    rw [h] at sized
    cases sized with
    | answered _ small _ => simp [Nat.not_lt.2 small]
  | error err =>
    rw [h] at sized
    cases sized with
    | refused terms large le =>
      exact iff_of_true ⟨terms, rfl⟩ (Nat.lt_of_lt_of_le large le)

/-- An expression within the limit has a normal form of its size. -/
theorem exists_dnf (small : peakSize true e ≤ maxConjuncts) :
    ∃ cs, e.dnf = .ok cs ∧ cs.length = fullSize true e := by
  have sized := expand_sized e true
  unfold dnf
  cases h : expand true e with
  | ok cs =>
    rw [h] at sized
    cases sized with
    | answered _ _ length => exact ⟨cs, rfl, length⟩
  | error err =>
    rw [h] at sized
    cases sized with
    | refused terms large le => exact absurd (Nat.lt_of_lt_of_le large le) (Nat.not_lt.2 small)

/-- No normal form is beyond the limit. -/
theorem length_le_of_dnf {cs : List Conjunct} (h : e.dnf = .ok cs) : cs.length ≤ maxConjuncts := by
  have sized := expand_sized e true
  rw [dnf] at h
  rw [h] at sized
  cases sized with
  | answered _ small length => exact length ▸ Nat.le_trans (fullSize_le_peakSize e true) small

/-- The size of a normal form is told if there is one. -/
theorem normalSize?_eq (e : ClassExpression) : e.normalSize? =
    if peakSize true e ≤ maxConjuncts then some (fullSize true e) else none := by
  unfold normalSize?
  by_cases small : peakSize true e ≤ maxConjuncts
  · obtain ⟨cs, answered, length⟩ := exists_dnf small
    simp [small, answered, length, Except.toOption]
  · obtain ⟨terms, refused⟩ := tooComplex_iff.2 (Nat.not_le.1 small)
    simp [small, refused, Except.toOption]

/-- **The normal form keeps the meaning.** Whatever the truth of the names, the normal form of an
expression has a true conjunct exactly if the expression is true, that of its negation exactly if
the expression is false, and neither is longer than the bound. -/
theorem dnf_keeps_meaning (e : ClassExpression) (v : Valuation) :
    (∀ cs, e.dnf = .ok cs → ((∃ p ∈ cs, p.Holds v) ↔ e.Holds v) ∧ cs.length ≤ 4096) ∧
    (∀ ds, (ClassExpression.not e).dnf = .ok ds →
      ((∃ p ∈ ds, p.Holds v) ↔ ¬ e.Holds v) ∧ ds.length ≤ 4096) := by
  refine ⟨fun cs h => ⟨dnf_holds h, length_le_of_dnf h⟩, fun ds h => ⟨?_, length_le_of_dnf h⟩⟩
  rw [dnf_holds h, Holds]

/-- Neither a dog, nor a cat other than Tom. -/
def noOtherPet : ClassExpression :=
  .not (.or [.ofClass ⟨"Dog"⟩, .and [.ofClass ⟨"Cat"⟩, .not (.nominal ⟨"tom"⟩)]])

/-- Of a cat that is Tom it is true that it is no other pet, by its normal form and by that of the
negation. -/
theorem noOtherPet_kept :
    let tom : Valuation := { classes := (· = ⟨"Cat"⟩), nominals := (· = ⟨"tom"⟩) }
    ∃ cs ds, noOtherPet.dnf = .ok cs ∧ (ClassExpression.not noOtherPet).dnf = .ok ds ∧
      (∃ p ∈ cs, p.Holds tom) ∧ ¬ ∃ p ∈ ds, p.Holds tom := by
  intro tom
  obtain ⟨cs, answered, -⟩ := exists_dnf (e := noOtherPet) (by decide +kernel)
  obtain ⟨ds, answered', -⟩ := exists_dnf (e := .not noOtherPet) (by decide +kernel)
  obtain ⟨meant, meant'⟩ := dnf_keeps_meaning noOtherPet tom
  have holds : noOtherPet.Holds tom := by simp [noOtherPet, Holds, HoldsAny, HoldsAll, tom]
  exact ⟨cs, ds, answered, answered', (meant cs answered).1.2 holds,
    fun other => (meant' ds answered').1.1 other holds⟩

/-- **The peak decides.** An expression is refused exactly if its peak is beyond the bound, and
otherwise has a normal form of exactly its full size; what is beyond the bound in full is always
refused. Where no operand of an intersection expands to nothing, nothing else is refused, and what
the expression comes to does not depend on the order of operands. -/
theorem dnf_sized (e : ClassExpression) :
    (e.TooComplex ↔ 4096 < peakSize true e) ∧
    (¬ e.TooComplex → ∃ cs, e.dnf = .ok cs ∧ cs.length = fullSize true e) ∧
    (4096 < fullSize true e → e.TooComplex) ∧
    (Productive true e → (e.TooComplex ↔ 4096 < fullSize true e) ∧
      ∀ e', Reordered e e' → (e'.TooComplex ↔ e.TooComplex) ∧ e'.normalSize? = e.normalSize?) := by
  refine ⟨tooComplex_iff, fun small => ?_, fun large => ?_, fun productive => ⟨?_, ?_⟩⟩
  · exact exists_dnf (Nat.not_lt.1 fun large => small (tooComplex_iff.2 large))
  · exact tooComplex_iff.2 (Nat.lt_of_lt_of_le large (fullSize_le_peakSize e true))
  · rw [tooComplex_iff, peakSize_eq e true productive]
    exact Iff.rfl
  · intro e' reordered
    obtain ⟨size, productive'⟩ := reordered.same true
    have peak : peakSize true e' = peakSize true e := by
      rw [peakSize_eq e true productive, peakSize_eq e' true (productive'.1 productive), size]
    exact ⟨by rw [tooComplex_iff, tooComplex_iff, peak],
      by rw [normalSize?_eq, normalSize?_eq, peak, size]⟩

/-- An expression that doubles with each of its operands. -/
def doubling (n : Nat) : ClassExpression :=
  .not (.or (List.replicate n (.and [.ofClass ⟨"A"⟩, .ofClass ⟨"B"⟩])))

/-- Doubled twelve times an expression just keeps to the bound, and doubled once more it is
refused. -/
theorem doubling_sized :
    Productive true (doubling 12) ∧ ¬ (doubling 12).TooComplex ∧
      (∃ cs, (doubling 12).dnf = .ok cs ∧ cs.length = 4096) ∧
      4096 < fullSize true (doubling 13) ∧ (doubling 13).TooComplex := by
  have productive : Productive true (doubling 12) := by
    simp [doubling, Productive, eachProductive_iff, fullSizeAll, fullSizeAny, fullSize,
      List.replicate]
  have size : fullSize true (doubling 12) = 4096 := by decide +kernel
  have large : 4096 < fullSize true (doubling 13) := by decide +kernel
  obtain ⟨-, answers, -, law⟩ := dnf_sized (doubling 12)
  have small : ¬ (doubling 12).TooComplex := by
    rw [(law productive).1, size]
    exact Nat.lt_irrefl _
  exact ⟨productive, small, size ▸ answers small, large, (dnf_sized (doubling 13)).2.2.1 large⟩

/-- Thirteen unions of two, and nothing. -/
def spoiled : ClassExpression :=
  .and (List.replicate 13 (.or [.ofClass ⟨"A"⟩, .ofClass ⟨"B"⟩]) ++ [.or []])

/-- Intersected with nothing, the unions come to nothing, and yet they are refused; if the nothing
stands in front of them, they are not. -/
theorem spoiled_refused :
    ¬ (spoiled.TooComplex ↔ 4096 < fullSize true spoiled) ∧
      ∃ e', Reordered spoiled e' ∧ spoiled.normalSize? = none ∧ e'.normalSize? = some 0 := by
  have refused : spoiled.TooComplex := tooComplex_iff.2 (by decide +kernel)
  refine ⟨fun claimed => ?_,
    .and ([.or []] ++ List.replicate 13 (.or [.ofClass ⟨"A"⟩, .ofClass ⟨"B"⟩])),
    .and List.perm_append_comm, ?_, ?_⟩
  · exact absurd (claimed.1 refused) (by decide +kernel)
  · rw [normalSize?_eq, if_neg (by decide +kernel)]
  · rw [normalSize?_eq, if_pos (by decide +kernel)]
    decide +kernel

end ClassExpression

end OntologyService
