import Mathlib.Logic.Basic
import OntologyService.Proofs.Semantics.Interpretation

/-!
# The normal form keeps the meaning

`expand` works out the disjunctive normal form in one pass that carries the polarity, so its law
has to carry the polarity too: an expansion with `positive` has a true conjunct exactly if the
expression has the truth value `positive` (`expand_holds`). The rule for a negation is then no
rule at all, and De Morgan's rules are the two cases of each connective.

An expansion that is refused has no meaning to keep: every law takes the expansion as given. When
it is refused is the business of the module on the expressions of axioms.
-/

namespace OntologyService

/-- A sequence of two steps succeeds exactly if the first does and the second does after it. -/
theorem bind_eq_ok_iff {ε α β : Type} {x : Except ε α} {f : α → Except ε β} {b : β} :
    (x >>= f) = .ok b ↔ ∃ a, x = .ok a ∧ f a = .ok b := by
  cases x with
  | error e =>
    constructor
    · intro h
      cases h
    · rintro ⟨a, h, -⟩
      cases h
  | ok a =>
    constructor
    · intro h
      exact ⟨a, rfl, h⟩
    · rintro ⟨a', h, h'⟩
      cases h
      exact h'

/-- A sequence of steps fails where its first failing step does. -/
theorem bind_eq_error_iff {ε α β : Type} {x : Except ε α} {f : α → Except ε β} {e : ε} :
    (x >>= f) = .error e ↔ x = .error e ∨ ∃ a, x = .ok a ∧ f a = .error e := by
  cases x with
  | error e' =>
    constructor
    · intro h
      cases h
      exact .inl rfl
    · rintro (h | ⟨a, h, -⟩)
      · cases h
        rfl
      · cases h
  | ok a =>
    constructor
    · intro h
      exact .inr ⟨a, rfl, h⟩
    · rintro (h | ⟨a', h, h'⟩)
      · cases h
      · cases h
        exact h'

/-- A sequence of two steps that both succeed succeeds. -/
theorem bind_answers {ε α β : Type} {x : Except ε α} {f : α → Except ε β}
    (first : ∃ a, x = .ok a) (second : ∀ a, ∃ b, f a = .ok b) : ∃ b, (x >>= f) = .ok b := by
  obtain ⟨a, ha⟩ := first
  obtain ⟨b, hb⟩ := second a
  exact ⟨b, bind_eq_ok_iff.2 ⟨a, ha, hb⟩⟩

namespace Conjunct

variable {v : Valuation}

/-- The conjunct without conditions is true of everything. -/
theorem holds_empty : Holds v {} where
  classes c h := absurd h (SortedSet.not_mem_empty c)
  negatedClasses c h := absurd h (SortedSet.not_mem_empty c)
  nominals i h := absurd h (SortedSet.not_mem_empty i)
  negatedNominals i h := absurd h (SortedSet.not_mem_empty i)

/-- Merging is conjunction. -/
theorem holds_merge {p q : Conjunct} : (p.merge q).Holds v ↔ p.Holds v ∧ q.Holds v := by
  constructor
  · intro h
    constructor
    · exact {
        classes := fun c hc => h.classes c (SortedSet.mem_union.2 (.inl hc))
        negatedClasses := fun c hc => h.negatedClasses c (SortedSet.mem_union.2 (.inl hc))
        nominals := fun i hi => h.nominals i (SortedSet.mem_union.2 (.inl hi))
        negatedNominals := fun i hi => h.negatedNominals i (SortedSet.mem_union.2 (.inl hi)) }
    · exact {
        classes := fun c hc => h.classes c (SortedSet.mem_union.2 (.inr hc))
        negatedClasses := fun c hc => h.negatedClasses c (SortedSet.mem_union.2 (.inr hc))
        nominals := fun i hi => h.nominals i (SortedSet.mem_union.2 (.inr hi))
        negatedNominals := fun i hi => h.negatedNominals i (SortedSet.mem_union.2 (.inr hi)) }
  · rintro ⟨hp, hq⟩
    exact {
      classes := fun c hc => (SortedSet.mem_union.1 hc).elim (hp.classes c) (hq.classes c)
      negatedClasses := fun c hc =>
        (SortedSet.mem_union.1 hc).elim (hp.negatedClasses c) (hq.negatedClasses c)
      nominals := fun i hi => (SortedSet.mem_union.1 hi).elim (hp.nominals i) (hq.nominals i)
      negatedNominals := fun i hi =>
        (SortedSet.mem_union.1 hi).elim (hp.negatedNominals i) (hq.negatedNominals i) }

end Conjunct

namespace ClassExpression

variable {v : Valuation}

/-- The expression has the truth value. -/
def HasValue (v : Valuation) (positive : Bool) (e : ClassExpression) : Prop :=
  e.Holds v ↔ positive = true

/-- The conjunct of a class asks for that class and no more. -/
theorem holds_classConjunct {positive : Bool} {c : ClassName} :
    (classConjunct positive c).Holds v ↔ HasValue v positive (.ofClass c) := by
  unfold HasValue Holds
  cases positive with
  | true =>
    constructor
    · intro h
      have own : c ∈ (classConjunct true c).classes := SortedSet.mem_insert.2 (.inl rfl)
      exact ⟨fun _ => rfl, fun _ => h.classes c own⟩
    · intro h
      refine { Conjunct.holds_empty with classes := fun d hd => ?_ }
      rcases SortedSet.mem_insert.1 hd with rfl | hd
      · exact h.2 rfl
      · exact absurd hd (SortedSet.not_mem_empty d)
  | false =>
    constructor
    · intro h
      have own : c ∈ (classConjunct false c).negatedClasses := SortedSet.mem_insert.2 (.inl rfl)
      exact ⟨fun hc => absurd hc (h.negatedClasses c own), fun e => by cases e⟩
    · intro h
      refine { Conjunct.holds_empty with negatedClasses := fun d hd hv => ?_ }
      rcases SortedSet.mem_insert.1 hd with rfl | hd
      · cases h.1 hv
      · exact absurd hd (SortedSet.not_mem_empty d)

/-- The conjunct of an individual asks for that individual and no more. -/
theorem holds_nominalConjunct {positive : Bool} {i : IndividualName} :
    (nominalConjunct positive i).Holds v ↔ HasValue v positive (.nominal i) := by
  unfold HasValue Holds
  cases positive with
  | true =>
    constructor
    · intro h
      have own : i ∈ (nominalConjunct true i).nominals := SortedSet.mem_insert.2 (.inl rfl)
      exact ⟨fun _ => rfl, fun _ => h.nominals i own⟩
    · intro h
      refine { Conjunct.holds_empty with nominals := fun j hj => ?_ }
      rcases SortedSet.mem_insert.1 hj with rfl | hj
      · exact h.2 rfl
      · exact absurd hj (SortedSet.not_mem_empty j)
  | false =>
    constructor
    · intro h
      have own : i ∈ (nominalConjunct false i).negatedNominals :=
        SortedSet.mem_insert.2 (.inl rfl)
      exact ⟨fun hi => absurd hi (h.negatedNominals i own), fun e => by cases e⟩
    · intro h
      refine { Conjunct.holds_empty with negatedNominals := fun j hj hv => ?_ }
      rcases SortedSet.mem_insert.1 hj with rfl | hj
      · cases h.1 hv
      · exact absurd hj (SortedSet.not_mem_empty j)

/-- Distributing is conjunction of two disjunctions. -/
theorem holds_distribute {left right : List Conjunct} :
    (∃ p ∈ distribute left right, p.Holds v) ↔
      (∃ p ∈ left, p.Holds v) ∧ ∃ q ∈ right, q.Holds v := by
  constructor
  · rintro ⟨p, hp, holds⟩
    obtain ⟨l, hl, hp⟩ := List.mem_flatMap.1 hp
    obtain ⟨q, hq, rfl⟩ := List.mem_map.1 hp
    obtain ⟨holdsL, holdsQ⟩ := Conjunct.holds_merge.1 holds
    exact ⟨⟨l, hl, holdsL⟩, q, hq, holdsQ⟩
  · rintro ⟨⟨l, hl, holdsL⟩, q, hq, holdsQ⟩
    refine ⟨l.merge q, ?_, Conjunct.holds_merge.2 ⟨holdsL, holdsQ⟩⟩
    exact List.mem_flatMap.2 ⟨l, hl, List.mem_map.2 ⟨q, hq, rfl⟩⟩

theorem checkSize_eq_ok_iff {terms : Nat} : checkSize terms = .ok () ↔ terms ≤ maxConjuncts := by
  unfold checkSize
  by_cases h : terms > maxConjuncts
  · rw [if_pos h]
    constructor
    · intro e
      cases e
    · intro le
      exact absurd le (Nat.not_le.2 h)
  · rw [if_neg h]
    exact ⟨fun _ => Nat.not_lt.1 h, fun _ => rfl⟩

/-- A union expands part by part, each within the bound. -/
theorem expandAny_cons_eq_ok_iff {positive : Bool} {before : Nat} {e : ClassExpression}
    {es : List ClassExpression} {cs : List Conjunct} :
    expandAny positive before (e :: es) = .ok cs ↔ ∃ terms later,
      expand positive e = .ok terms ∧ before + terms.length ≤ maxConjuncts ∧
        expandAny positive (before + terms.length) es = .ok later ∧ cs = terms ++ later := by
  rw [expandAny, bind_eq_ok_iff]
  constructor
  · rintro ⟨terms, first, rest⟩
    obtain ⟨_, size, rest⟩ := bind_eq_ok_iff.1 rest
    obtain ⟨later, rest, eq⟩ := bind_eq_ok_iff.1 rest
    exact ⟨terms, later, first, checkSize_eq_ok_iff.1 size, rest, (Except.ok.inj eq).symm⟩
  · rintro ⟨terms, later, first, size, rest, rfl⟩
    refine ⟨terms, first, bind_eq_ok_iff.2 ⟨(), checkSize_eq_ok_iff.2 size, ?_⟩⟩
    exact bind_eq_ok_iff.2 ⟨later, rest, rfl⟩

/-- An intersection is distributed over part by part, each within the bound. -/
theorem expandAll_cons_eq_ok_iff {positive : Bool} {found : List Conjunct} {e : ClassExpression}
    {es : List ClassExpression} {cs : List Conjunct} :
    expandAll positive found (e :: es) = .ok cs ↔ ∃ terms,
      expand positive e = .ok terms ∧ found.length * terms.length ≤ maxConjuncts ∧
        expandAll positive (distribute found terms) es = .ok cs := by
  rw [expandAll, bind_eq_ok_iff]
  constructor
  · rintro ⟨terms, first, rest⟩
    obtain ⟨_, size, rest⟩ := bind_eq_ok_iff.1 rest
    exact ⟨terms, first, checkSize_eq_ok_iff.1 size, rest⟩
  · rintro ⟨terms, first, size, rest⟩
    exact ⟨terms, first, bind_eq_ok_iff.2 ⟨(), checkSize_eq_ok_iff.2 size, rest⟩⟩

/-! ## Meaning -/

mutual

/-- **The normal form keeps the meaning**, with either polarity. -/
theorem expand_holds (v : Valuation) : ∀ (e : ClassExpression) (positive : Bool)
    {cs : List Conjunct}, expand positive e = .ok cs →
    ((∃ p ∈ cs, p.Holds v) ↔ HasValue v positive e)
  | .ofClass c, positive, cs, h => by
    rw [expand] at h
    cases h
    rw [← holds_classConjunct]
    simp only [List.mem_singleton, exists_eq_left]
  | .nominal i, positive, cs, h => by
    rw [expand] at h
    cases h
    rw [← holds_nominalConjunct]
    simp only [List.mem_singleton, exists_eq_left]
  | .not e, positive, cs, h => by
    rw [expand] at h
    rw [expand_holds v e _ h, HasValue, HasValue, Holds]
    cases positive with
    | true => simp only [Bool.not_true, Bool.false_eq_true, iff_false, iff_true]
    | false => simp only [Bool.not_false, Bool.false_eq_true, iff_false, iff_true, not_not]
  | .and es, positive, cs, h => by
    rw [expand] at h
    cases positive with
    | true =>
      rw [if_pos rfl] at h
      rw [expandAll_holds v es true h, HasValue, Holds, holdsAll_iff]
      simp only [HasValue, List.mem_singleton, exists_eq_left, Conjunct.holds_empty, true_and,
        iff_true]
    | false =>
      rw [if_neg Bool.false_ne_true] at h
      -- a conjunction fails where one of its parts does
      rw [expandAny_holds v es false 0 h, HasValue, Holds, holdsAll_iff]
      simp only [HasValue, Bool.false_eq_true, iff_false, not_forall, exists_prop]
  | .or es, positive, cs, h => by
    rw [expand] at h
    cases positive with
    | true =>
      rw [if_pos rfl] at h
      rw [expandAny_holds v es true 0 h, HasValue, Holds, holdsAny_iff]
      simp only [HasValue, iff_true]
    | false =>
      rw [if_neg Bool.false_ne_true] at h
      -- a disjunction fails where all of its parts do
      rw [expandAll_holds v es false h, HasValue, Holds, holdsAny_iff]
      simp only [HasValue, List.mem_singleton, exists_eq_left, Conjunct.holds_empty, true_and,
        Bool.false_eq_true, iff_false, not_exists, not_and]

theorem expandAny_holds (v : Valuation) : ∀ (es : List ClassExpression) (positive : Bool)
    (before : Nat) {cs : List Conjunct}, expandAny positive before es = .ok cs →
    ((∃ p ∈ cs, p.Holds v) ↔ ∃ e ∈ es, HasValue v positive e)
  | [], positive, before, cs, h => by
    rw [expandAny] at h
    cases h
    simp only [List.not_mem_nil, false_and, exists_false]
  | e :: es, positive, before, cs, h => by
    obtain ⟨terms, later, first, -, rest, rfl⟩ := expandAny_cons_eq_ok_iff.1 h
    have here := expand_holds v e positive first
    have there := expandAny_holds v es positive _ rest
    simp only [List.mem_append, List.mem_cons, or_and_right, exists_or, exists_eq_left]
    rw [here, there]

theorem expandAll_holds (v : Valuation) : ∀ (es : List ClassExpression) (positive : Bool)
    {found cs : List Conjunct}, expandAll positive found es = .ok cs →
    ((∃ p ∈ cs, p.Holds v) ↔ (∃ p ∈ found, p.Holds v) ∧ ∀ e ∈ es, HasValue v positive e)
  | [], positive, found, cs, h => by
    rw [expandAll] at h
    cases h
    simp only [List.not_mem_nil, false_implies, implies_true, and_true]
  | e :: es, positive, found, cs, h => by
    obtain ⟨terms, first, -, rest⟩ := expandAll_cons_eq_ok_iff.1 h
    have here := expand_holds v e positive first
    have there := expandAll_holds v es positive rest
    rw [there, holds_distribute, here, List.forall_mem_cons, and_assoc]

end

/-- A normal form has a true conjunct exactly if the expression is true. -/
theorem dnf_holds {e : ClassExpression} {cs : List Conjunct} (h : e.dnf = .ok cs) :
    (∃ p ∈ cs, p.Holds v) ↔ e.Holds v := by
  rw [expand_holds v e true h, HasValue]
  simp only [iff_true]

end ClassExpression

end OntologyService
