import Mathlib.Data.List.Nodup
import Mathlib.Tactic.Ring
import OntologyService.Proofs.Order.Listing
import OntologyService.Proofs.Semantics.NormalForm

/-!
# The expression that refutes an axiom

An axiom holds in an interpretation exactly if nothing in it belongs to the expression of the axiom
(`satisfies_iff`), so an axiom is entailed exactly if its expression is not possible
(`entails_iff_not_possible`). The n-ary forms come down to pairs of classes: ordered pairs for
equivalence, unordered ones for disjointness.

Each pair expands to one conjunct. `Axiom.parts` counts them, and the expansion is refused exactly
if there are more of them than the bound allows (`dnf_ofAxiom_eq_ok`, `dnf_ofAxiom_eq_error`).
-/

namespace OntologyService

/-! ## Pairs of classes -/

namespace Axiom

/-- The distinct pairs of a list are the pairs of classes of it that differ. -/
theorem mem_distinctPairs {cs : List ClassName} {c d : ClassName} :
    (c, d) ∈ distinctPairs cs ↔ c ∈ cs ∧ d ∈ cs ∧ d ≠ c := by
  unfold distinctPairs
  simp only [List.mem_flatMap, List.mem_map, List.mem_filter, decide_eq_true_eq, Prod.mk.injEq]
  constructor
  · rintro ⟨a, ha, b, ⟨hb, ne⟩, rfl, rfl⟩
    exact ⟨ha, hb, ne⟩
  · rintro ⟨hc, hd, ne⟩
    exact ⟨c, hc, d, ⟨hd, ne⟩, rfl, rfl⟩

/-- Each of `n` classes is paired with the `n - 1` others. -/
theorem length_distinctPairs {cs : List ClassName} (distinct : cs.Nodup) :
    (distinctPairs cs).length = cs.length * (cs.length - 1) := by
  have others : ∀ c ∈ cs, ((cs.filter fun b => decide (b ≠ c)).map fun b => (c, b)).length =
      cs.length - 1 := by
    intro c hc
    have erased : cs.filter (fun b => decide (b ≠ c)) = cs.erase c := by
      rw [distinct.erase_eq_filter]
      refine List.filter_congr fun b _ => ?_
      simp only [ne_eq, decide_not, bne, beq_eq_decide]
    rw [List.length_map, erased, List.length_erase_of_mem hc]
  rw [distinctPairs, List.length_flatMap, List.map_congr_left others, List.map_const',
    List.sum_replicate_nat]

end Axiom

namespace ClassExpression

/-- The later pairs of a list are pairs of members of it that differ. -/
theorem mem_of_mem_laterPairs {α : Type} {a b : α} : ∀ {as : List α}, (a, b) ∈ laterPairs as →
    as.Nodup → a ∈ as ∧ b ∈ as ∧ a ≠ b
  | [], h, _ => by cases h
  | c :: cs, h, distinct => by
    rw [List.nodup_cons] at distinct
    rw [laterPairs, List.mem_append] at h
    rcases h with h | h
    · obtain ⟨d, hd, eq⟩ := List.mem_map.1 h
      cases eq
      exact ⟨List.mem_cons_self .., List.mem_cons_of_mem _ hd, fun e => distinct.1 (e ▸ hd)⟩
    · obtain ⟨ha, hb, ne⟩ := mem_of_mem_laterPairs h distinct.2
      exact ⟨List.mem_cons_of_mem _ ha, List.mem_cons_of_mem _ hb, ne⟩

/-- Of two different elements one comes later. -/
theorem mem_laterPairs_or {α : Type} {a b : α} (ne : a ≠ b) : ∀ {as : List α}, a ∈ as → b ∈ as →
    (a, b) ∈ laterPairs as ∨ (b, a) ∈ laterPairs as
  | [], ha, _ => by cases ha
  | c :: cs, ha, hb => by
    rw [laterPairs, List.mem_append, List.mem_append]
    rcases List.mem_cons.1 ha with rfl | ha'
    · have hb' := (List.mem_cons.1 hb).resolve_left (Ne.symm ne)
      exact .inl (.inl (List.mem_map.2 ⟨b, hb', rfl⟩))
    · rcases List.mem_cons.1 hb with rfl | hb'
      · exact .inr (.inl (List.mem_map.2 ⟨a, ha', rfl⟩))
      · rcases mem_laterPairs_or ne ha' hb' with h | h
        · exact .inl (.inr h)
        · exact .inr (.inr h)

/-- There are as many later pairs as ways to choose two. -/
theorem length_laterPairs {α : Type} (as : List α) :
    (laterPairs as).length = as.length * (as.length - 1) / 2 := by
  have twice : (laterPairs as).length * 2 = as.length * (as.length - 1) := by
    induction as with
    | nil => rfl
    | cons a as ih =>
      rw [laterPairs, List.length_append, List.length_map, Nat.add_mul, ih, List.length_cons,
        Nat.add_sub_cancel]
      cases as.length with
      | zero => rfl
      | succ n => rw [Nat.add_sub_cancel]; ring
  rw [← twice, Nat.mul_div_cancel _ Nat.two_pos]

end ClassExpression

/-! ## Meaning -/

namespace Interpretation

variable {m : Interpretation} {x : m.Domain}

/-- To differ is to be in the first class and not in the second. -/
theorem belongs_difference {c d : ClassName} :
    m.Belongs x (.difference c d) ↔ m.instances c x ∧ ¬ m.instances d x := by
  simp only [Belongs, ClassExpression.difference, ClassExpression.Holds, ClassExpression.HoldsAll,
    valuation, and_true]

/-- What belongs to a pair of classes is an instance of both. -/
theorem belongs_both {c d : ClassName} :
    m.Belongs x (.and [.ofClass c, .ofClass d]) ↔ m.instances c x ∧ m.instances d x := by
  simp only [Belongs, ClassExpression.Holds, ClassExpression.HoldsAll, valuation, and_true]

/-- What belongs to a disjunction belongs to one of its members. -/
theorem belongs_or_map {α : Type} {f : α → ClassExpression} {as : List α} :
    m.Belongs x (.or (as.map f)) ↔ ∃ a ∈ as, m.Belongs x (f a) := by
  simp only [Belongs, ClassExpression.Holds, ClassExpression.holdsAny_iff, List.mem_map]
  constructor
  · rintro ⟨_, ⟨a, ha, rfl⟩, h⟩
    exact ⟨a, ha, h⟩
  · rintro ⟨a, ha, h⟩
    exact ⟨_, ⟨a, ha, rfl⟩, h⟩

/-- **An axiom holds** where nothing belongs to its expression. -/
theorem satisfies_iff (m : Interpretation) (a : Axiom) :
    m.Satisfies a ↔ ∀ x, ¬ m.Belongs x (.ofAxiom a) := by
  cases a with
  | subClassOf sub sup =>
    simp only [Satisfies, ClassExpression.ofAxiom, belongs_difference, not_and, not_not]
  | equivalentClasses classes =>
    simp only [Satisfies, ClassExpression.ofAxiom, belongs_or_map, belongs_difference]
    constructor
    · rintro h x ⟨⟨c, d⟩, hp, hc, hd⟩
      obtain ⟨c_mem, d_mem, -⟩ := Axiom.mem_distinctPairs.1 hp
      exact hd ((h c c_mem d d_mem x).1 hc)
    · intro h
      have below : ∀ c ∈ classes, ∀ d ∈ classes, ∀ x, m.instances c x → m.instances d x := by
        intro c hc d hd x hx
        by_contra out
        have ne : d ≠ c := fun e => out (e ▸ hx)
        exact h x ⟨(c, d), Axiom.mem_distinctPairs.2 ⟨hc, hd, ne⟩, hx, out⟩
      exact fun c hc d hd x => ⟨below c hc d hd x, below d hd c hc x⟩
  | disjointClasses classes =>
    simp only [Satisfies, ClassExpression.ofAxiom, belongs_or_map, belongs_both]
    constructor
    · rintro h x ⟨⟨c, d⟩, hp, both⟩
      obtain ⟨hc, hd, ne⟩ := ClassExpression.mem_of_mem_laterPairs hp classes.nodup
      exact h c hc d hd ne x both
    · rintro h c hc d hd ne x ⟨hx, hx'⟩
      rcases ClassExpression.mem_laterPairs_or ne hc hd with hp | hp
      · exact h x ⟨(c, d), hp, hx, hx'⟩
      · exact h x ⟨(d, c), hp, hx', hx⟩
  | classAssertion cls individual =>
    simp only [Satisfies, ClassExpression.ofAxiom, Belongs, ClassExpression.Holds,
      ClassExpression.HoldsAll, valuation, and_true, not_and, not_not, forall_eq']

end Interpretation

/-- **An axiom is entailed** exactly if no model has anything that refutes it. -/
theorem entails_iff_not_possible {γ : Type} [Membership Axiom γ] {axioms : γ} {a : Axiom} :
    Entails axioms a ↔ ¬ Possible axioms (.ofAxiom a) := by
  constructor
  · rintro h ⟨m, model, x, hx⟩
    exact (m.satisfies_iff a).1 (h m model) x hx
  · intro h m model
    exact (m.satisfies_iff a).2 fun x hx => h ⟨m, model, x, hx⟩

/-! ## Size -/

namespace ClassExpression

variable {positive : Bool}

/-- The expression expands to one conjunct. -/
def Single (positive : Bool) (e : ClassExpression) : Prop := ∃ p, expand positive e = .ok [p]

/-- **Parts within the bound** are all expanded. -/
theorem expandAny_singles : ∀ (es : List ClassExpression) (before : Nat),
    (∀ e ∈ es, Single positive e) → before + es.length ≤ maxConjuncts →
    ∃ cs, expandAny positive before es = .ok cs
  | [], _, _, _ => ⟨[], by rw [expandAny]⟩
  | e :: es, before, single, size => by
    obtain ⟨p, hp⟩ := single e (List.mem_cons_self ..)
    rw [List.length_cons] at size
    obtain ⟨later, rest⟩ := expandAny_singles es (before + 1)
      (fun e' he' => single e' (List.mem_cons_of_mem _ he')) (by omega)
    exact ⟨[p] ++ later, expandAny_cons_eq_ok_iff.2 ⟨[p], later, hp, by
      rw [List.length_singleton]; omega, rest, rfl⟩⟩

/-- **Parts beyond the bound** are refused at the first part that passes it. -/
theorem expandAny_too_many : ∀ (es : List ClassExpression) (before : Nat),
    (∀ e ∈ es, Single positive e) → before ≤ maxConjuncts → maxConjuncts < before + es.length →
    expandAny positive before es = .error (.tooComplex (maxConjuncts + 1) maxConjuncts)
  | [], before, _, small, large => by
    rw [List.length_nil, Nat.add_zero] at large
    omega
  | e :: es, before, single, small, large => by
    obtain ⟨p, hp⟩ := single e (List.mem_cons_self ..)
    rw [expandAny, hp]
    show (do
      checkSize (before + 1)
      let later ← expandAny positive (before + 1) es
      return [p] ++ later : Except ReasoningError (List Conjunct)) = _
    by_cases full : before = maxConjuncts
    · have refused : checkSize (before + 1) =
          .error (.tooComplex (maxConjuncts + 1) maxConjuncts) := by
        rw [checkSize, full, if_pos (Nat.lt_succ_self _)]
      rw [refused]
      rfl
    · rw [List.length_cons] at large
      have rest := expandAny_too_many es (before + 1)
        (fun e' he' => single e' (List.mem_cons_of_mem _ he')) (by omega) (by omega)
      rw [checkSize_eq_ok_iff.2 (by omega : before + 1 ≤ maxConjuncts), rest]
      rfl

/-- An intersection of two expressions of one conjunct has one conjunct. -/
theorem single_and {e f : ClassExpression} (he : Single true e) (hf : Single true f) :
    Single true (.and [e, f]) := by
  obtain ⟨p, hp⟩ := he
  obtain ⟨q, hq⟩ := hf
  refine ⟨(Conjunct.merge {} p).merge q, ?_⟩
  rw [expand, if_pos rfl]
  refine expandAll_cons_eq_ok_iff.2 ⟨[p], hp, (by decide : 1 * 1 ≤ maxConjuncts), ?_⟩
  refine expandAll_cons_eq_ok_iff.2 ⟨[q], hq, (by decide : 1 * 1 ≤ maxConjuncts), ?_⟩
  rw [expandAll]
  rfl

/-- A class has a normal form of one conjunction. -/
theorem single_ofClass (positive : Bool) (c : ClassName) : Single positive (.ofClass c) :=
  ⟨classConjunct positive c, by rw [expand]⟩

theorem single_nominal (positive : Bool) (i : IndividualName) : Single positive (.nominal i) :=
  ⟨nominalConjunct positive i, by rw [expand]⟩

theorem single_not {e : ClassExpression} (h : Single false e) : Single true (.not e) := by
  obtain ⟨p, hp⟩ := h
  exact ⟨p, by rw [expand]; exact hp⟩

theorem single_difference (c d : ClassName) : Single true (difference c d) :=
  single_and (single_ofClass true c) (single_not (single_ofClass false d))

end ClassExpression

/-- How many pairs the expression of an axiom has to tell apart, or one if it is none of pairs. -/
def Axiom.parts : Axiom → Nat
  | .equivalentClasses classes => classes.size * (classes.size - 1)
  | .disjointClasses classes => classes.size * (classes.size - 1) / 2
  | .subClassOf _ _ | .classAssertion _ _ => 1

namespace ClassExpression

/-- The expression of an axiom has one conjunct, or is a union of its parts, of one conjunct
each. -/
theorem ofAxiom_singles (a : Axiom) :
    (a.parts = 1 ∧ Single true (ofAxiom a)) ∨
      ∃ es, ofAxiom a = .or es ∧ es.length = a.parts ∧ ∀ e ∈ es, Single true e := by
  cases a with
  | subClassOf sub sup => exact .inl ⟨rfl, single_difference sub sup⟩
  | equivalentClasses classes =>
    refine .inr ⟨_, rfl, ?_, ?_⟩
    · rw [List.length_map, Axiom.length_distinctPairs classes.nodup]
      rfl
    · intro e he
      obtain ⟨p, -, rfl⟩ := List.mem_map.1 he
      exact single_difference p.1 p.2
  | disjointClasses classes =>
    refine .inr ⟨_, rfl, ?_, ?_⟩
    · rw [List.length_map, length_laterPairs]
      rfl
    · intro e he
      obtain ⟨p, -, rfl⟩ := List.mem_map.1 he
      exact single_and (single_ofClass true p.1) (single_ofClass true p.2)
  | classAssertion cls individual =>
    exact .inl ⟨rfl, single_and (single_nominal true individual)
      (single_not (single_ofClass false cls))⟩

/-- The normal form of a disjunction joins those of its members. -/
theorem dnf_or (es : List ClassExpression) : (ClassExpression.or es).dnf = expandAny true 0 es := by
  rw [dnf, expand, if_pos rfl]

/-- **An axiom of few enough parts** has a normal form. -/
theorem dnf_ofAxiom_eq_ok {a : Axiom} (h : a.parts ≤ maxConjuncts) :
    ∃ cs, (ofAxiom a).dnf = .ok cs := by
  rcases ofAxiom_singles a with ⟨-, p, hp⟩ | ⟨es, eq, length, singles⟩
  · exact ⟨[p], hp⟩
  · rw [eq, dnf_or]
    exact expandAny_singles es 0 singles (by omega)

/-- **An axiom of too many parts** is refused, with the number that first passes the bound. -/
theorem dnf_ofAxiom_eq_error {a : Axiom} (h : maxConjuncts < a.parts) :
    (ofAxiom a).dnf = .error (.tooComplex (maxConjuncts + 1) maxConjuncts) := by
  rcases ofAxiom_singles a with ⟨one, -⟩ | ⟨es, eq, length, singles⟩
  · rw [one] at h
    cases (by decide : ¬ maxConjuncts < 1) h
  · rw [eq, dnf_or]
    exact expandAny_too_many es 0 singles (Nat.zero_le _) (by omega)

end ClassExpression

end OntologyService
