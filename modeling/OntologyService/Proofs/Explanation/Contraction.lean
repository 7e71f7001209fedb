import OntologyService.Explanation.Justification
import OntologyService.Proofs.Reasoner.Decision
import OntologyService.Proofs.Semantics.Locality

/-!
# One justification

Axioms **refute** a goal if the goal is not possible under them. `Justification.Minimal` is what a
justification has to be: axioms that refute the goal, while no part of them does. To refute is
monotone, so it is enough that no axiom can be spared (`Minimal.of_erase`).

Contraction tries each axiom once. When an axiom is put back, the goal was possible without it, and
it stays possible without it whatever else is dropped later; when it is dropped, it is gone. So what
is left at the end can spare none of its axioms, and one pass over them is enough
(`contract_spec`).

**The law** (`find?_some`, `find?_none`): what is found is minimal, and nothing is found only where
there is nothing to find. A goal without a normal form is decided by inconsistency alone, and
contraction leaves the inconsistent sets before it is done, so for such a goal nothing is ever found
(`find?_refused`).
-/

namespace OntologyService

theorem Possible.mono {γ δ : Type} [Membership Axiom γ] [Membership Axiom δ] {axioms : γ}
    {fewer : δ} {goal : ClassExpression} (h : Possible axioms goal)
    (sub : ∀ a ∈ fewer, a ∈ axioms) : Possible fewer goal := by
  obtain ⟨m, model, x, hx⟩ := h
  exact ⟨m, model.mono sub, x, hx⟩

/-- No axioms at all have a model. -/
theorem consistent_empty : Consistent (∅ : AxiomSet) :=
  (Reasoner.sound_new "").isConsistent_iff.1 (by decide +kernel)

namespace Justification

variable {ontology : String} {goal : ClassExpression} {axioms kept J : AxiomSet}

/-- **A minimal set** of the axioms that refutes the goal. -/
structure Minimal (goal : ClassExpression) (axioms J : AxiomSet) : Prop where
  within : ∀ a ∈ J, a ∈ axioms
  refutes : ¬ Possible J goal
  least : ∀ K : AxiomSet, (∀ a ∈ K, a ∈ J) → ¬ Possible K goal → K = J

/-- A set that can spare none of its axioms is minimal. -/
theorem Minimal.of_erase (within : ∀ a ∈ J, a ∈ axioms) (refutes : ¬ Possible J goal)
    (needed : ∀ a ∈ J, Possible (J.erase a) goal) : Minimal goal axioms J := by
  refine ⟨within, refutes, fun K sub none => ?_⟩
  refine SortedSet.ext fun a => ⟨sub a, fun ha => ?_⟩
  by_contra out
  refine none ((needed a ha).mono fun b hb => ?_)
  exact SortedSet.mem_erase.2 ⟨sub b hb, fun e => out (e ▸ hb)⟩

/-- A minimal set among more axioms is one among fewer, as long as they hold it. -/
theorem Minimal.of_within {more : AxiomSet} (h : Minimal goal more J)
    (within : ∀ a ∈ J, a ∈ axioms) : Minimal goal axioms J := ⟨within, h.refutes, h.least⟩

/-! ## The test -/

/-- The engine of a set of axioms, where there is one, is sound and holds them. -/
theorem sound_of_ofSet {r : Reasoner} (h : Reasoner.ofSet ontology axioms = .ok r) :
    r.Sound ∧ r.axioms = axioms := by
  rw [Reasoner.ofSet_eq_ofAxioms, Reasoner.ofAxioms] at h
  split at h
  · cases h
  · cases h
    obtain ⟨sound, -, held⟩ := Reasoner.apply_new ontology axioms
    exact ⟨sound, held⟩

/-- The test answers what the engine of the axioms, prepared for the goal, answers. -/
theorem refutes_eq_ok {b : Bool} (h : refutes ontology goal axioms = .ok b) :
    ∃ r : Reasoner, r.Sound ∧ r.axioms = axioms ∧ r.isSatisfiable goal = .ok (!b) := by
  unfold refutes at h
  split at h
  · cases h
  · rename_i r made
    obtain ⟨sound, held⟩ := sound_of_ofSet made
    refine ⟨r.prepare goal, sound.prepare goal, (Reasoner.prepare_axioms r goal).trans held, ?_⟩
    split at h
    · rename_i sat answer
      rw [← Except.ok.inj h, Bool.not_not]
      exact answer
    · cases h

/-- **The test** tells whether the axioms refute the goal. -/
theorem refutes_iff {b : Bool} (h : refutes ontology goal axioms = .ok b) :
    b = true ↔ ¬ Possible axioms goal := by
  obtain ⟨r, sound, held, answer⟩ := refutes_eq_ok h
  rw [← held, ← sound.isSatisfiable_iff answer]
  simp only [Bool.not_eq_true', Bool.not_eq_false]

/-- Without a normal form of the goal, only inconsistent axioms pass the test. -/
theorem refutes_refused {err : ReasoningError} (refused : goal.dnf = .error err) {b : Bool}
    (h : refutes ontology goal axioms = .ok b) : ¬ Consistent axioms := by
  obtain ⟨r, sound, held, answer⟩ := refutes_eq_ok h
  intro model
  rw [sound.isSatisfiable_refused (held ▸ model) refused] at answer
  cases answer

/-- The test of valid axioms is refused for what the normal form of the goal is refused for. -/
theorem dnf_of_refutes_eq_error {err : ReasoningError} (valid : ∀ a ∈ axioms, a.Valid)
    (h : refutes ontology goal axioms = .error err) : goal.dnf = .error err := by
  obtain ⟨r, made, -, -, -⟩ := Reasoner.ofAxioms_built ontology valid
  rw [← Reasoner.ofSet_eq_ofAxioms] at made
  unfold refutes at h
  rw [made] at h
  dsimp only at h
  split at h
  · cases h
  · rename_i err' answer
    cases h
    exact Reasoner.dnf_of_isSatisfiable_eq_error answer

/-- The test of valid axioms answers, for a goal with a normal form. -/
theorem refutes_answers {cs : List Conjunct} (normal : goal.dnf = .ok cs)
    (valid : ∀ a ∈ axioms, a.Valid) : ∃ b, refutes ontology goal axioms = .ok b := by
  obtain ⟨r, made, built, -, -⟩ := Reasoner.ofAxioms_built ontology valid
  rw [← Reasoner.ofSet_eq_ofAxioms] at made
  obtain ⟨b, answer⟩ := ((sound_of_ofSet made).1.prepare goal).isSatisfiable_answers
    fun _ => ⟨cs, normal⟩
  refine ⟨!b, ?_⟩
  unfold refutes
  simp only [made, answer]

/-! ## Contraction -/

/-- One step of contraction: the axiom is dropped, or kept because the goal would be lost. -/
theorem contract_cons_eq_ok {a : Axiom} {as : List Axiom}
    (h : contract ontology goal kept (a :: as) = .ok J) :
    (refutes ontology goal (kept.erase a) = .ok true ∧
        contract ontology goal (kept.erase a) as = .ok J) ∨
      (refutes ontology goal (kept.erase a) = .ok false ∧
        contract ontology goal kept as = .ok J) := by
  rw [contract] at h
  obtain ⟨b, tested, rest⟩ := bind_eq_ok_iff.1 h
  cases b with
  | true => exact .inl ⟨tested, rest⟩
  | false => exact .inr ⟨tested, rest⟩

/-- **Contraction** leaves axioms that still refute the goal, and can spare none of those tried. -/
theorem contract_spec (as : List Axiom) : ∀ {kept : AxiomSet},
    contract ontology goal kept as = .ok J → ¬ Possible kept goal →
    (∀ a ∈ J, a ∈ kept) ∧ ¬ Possible J goal ∧
      ∀ a ∈ as, a ∈ J → Possible (J.erase a) goal := by
  induction as with
  | nil =>
    intro kept h none
    cases h
    exact ⟨fun _ ha => ha, none, fun _ ha => nomatch ha⟩
  | cons a as ih =>
    intro kept h none
    rcases contract_cons_eq_ok h with ⟨tested, rest⟩ | ⟨tested, rest⟩
    · -- dropped: it is not among what is left
      obtain ⟨sub, refuted, needed⟩ := ih rest ((refutes_iff tested).1 rfl)
      refine ⟨fun b hb => (SortedSet.mem_erase.1 (sub b hb)).1, refuted, fun b hb hJ => ?_⟩
      rcases List.mem_cons.1 hb with rfl | hb
      · exact absurd rfl (SortedSet.mem_erase.1 (sub b hJ)).2
      · exact needed b hb hJ
    · -- put back: without it the goal was possible, and it is possible under fewer axioms
      obtain ⟨sub, refuted, needed⟩ := ih rest none
      have lost : Possible (kept.erase a) goal := by
        by_contra none'
        cases (refutes_iff tested).2 none'
      refine ⟨sub, refuted, fun b hb hJ => ?_⟩
      rcases List.mem_cons.1 hb with rfl | hb
      · refine lost.mono fun c hc => ?_
        obtain ⟨hc, ne⟩ := SortedSet.mem_erase.1 hc
        exact SortedSet.mem_erase.2 ⟨sub c hc, ne⟩
      · exact needed b hb hJ

/-- Without a normal form of the goal, contraction of an inconsistent set meets a consistent one,
and is refused there. -/
theorem contract_refused {err : ReasoningError} (refused : goal.dnf = .error err)
    (as : List Axiom) : ∀ {kept : AxiomSet}, ¬ Consistent kept → (∀ a ∈ kept, a ∈ as) →
    contract ontology goal kept as ≠ .ok J := by
  induction as with
  | nil =>
    intro kept none listed _
    have empty : kept = ∅ := SortedSet.ext fun a =>
      ⟨fun ha => (nomatch listed a ha), fun ha => absurd ha (SortedSet.not_mem_empty a)⟩
    exact none (empty ▸ consistent_empty)
  | cons a as ih =>
    intro kept none listed h
    rcases contract_cons_eq_ok h with ⟨tested, rest⟩ | ⟨tested, rest⟩
    · refine ih (refutes_refused refused tested) (fun b hb => ?_) rest
      obtain ⟨hb, ne⟩ := SortedSet.mem_erase.1 hb
      exact (List.mem_cons.1 (listed b hb)).resolve_left ne
    · refine refutes_refused refused tested ?_
      by_contra none'
      have refuted : ¬ Possible (kept.erase a) goal := fun possible => none' possible.consistent
      cases (refutes_iff tested).2 refuted

theorem dnf_of_contract_eq_error {err : ReasoningError} (as : List Axiom) : ∀ {kept : AxiomSet},
    (∀ a ∈ kept, a.Valid) → contract ontology goal kept as = .error err →
      goal.dnf = .error err := by
  induction as with
  | nil =>
    intro kept _ h
    cases h
  | cons a as ih =>
    intro kept valid h
    have valid' : ∀ b ∈ kept.erase a, b.Valid := fun b hb => valid b (SortedSet.mem_erase.1 hb).1
    rw [contract] at h
    rcases bind_eq_error_iff.1 h with tested | ⟨b, -, rest⟩
    · exact dnf_of_refutes_eq_error valid' tested
    · cases b with
      | true => exact ih valid' rest
      | false => exact ih valid rest

theorem contract_answers {cs : List Conjunct} (normal : goal.dnf = .ok cs) (as : List Axiom) :
    ∀ {kept : AxiomSet}, (∀ a ∈ kept, a.Valid) → ∃ J, contract ontology goal kept as = .ok J := by
  induction as with
  | nil => exact fun {kept} _ => ⟨kept, rfl⟩
  | cons a as ih =>
    intro kept valid
    have valid' : ∀ b ∈ kept.erase a, b.Valid := fun b hb => valid b (SortedSet.mem_erase.1 hb).1
    rw [contract]
    refine bind_answers (refutes_answers normal valid') fun b => ?_
    cases b with
    | true => exact ih valid'
    | false => exact ih valid

/-! ## The search for one -/

theorem find?_eq_ok {found : Option Justification}
    (h : find? ontology goal axioms = .ok found) :
    (refutes ontology goal axioms = .ok true ∧
        ∃ J, contract ontology goal axioms axioms.toList = .ok J ∧ found = some J) ∨
      (refutes ontology goal axioms = .ok false ∧ found = none) := by
  unfold find? at h
  obtain ⟨b, tested, rest⟩ := bind_eq_ok_iff.1 h
  cases b with
  | true =>
    obtain ⟨J, contracted, last⟩ := bind_eq_ok_iff.1 rest
    cases last
    exact .inl ⟨tested, J, contracted, rfl⟩
  | false =>
    cases rest
    exact .inr ⟨tested, rfl⟩

/-- **What is found** is a minimal set. -/
theorem find?_some (h : find? ontology goal axioms = .ok (some J)) : Minimal goal axioms J := by
  rcases find?_eq_ok h with ⟨tested, J', contracted, found⟩ | ⟨-, found⟩
  · cases found
    obtain ⟨sub, refuted, needed⟩ :=
      contract_spec axioms.toList contracted ((refutes_iff tested).1 rfl)
    exact .of_erase sub refuted fun a ha => needed a (SortedSet.mem_iff.1 (sub a ha)) ha
  · cases found

/-- **Nothing is found** where the goal is possible. -/
theorem find?_none (h : find? ontology goal axioms = .ok none) : Possible axioms goal := by
  rcases find?_eq_ok h with ⟨-, J, -, found⟩ | ⟨tested, -⟩
  · cases found
  · by_contra none
    cases (refutes_iff tested).2 none

/-- A goal with a normal form gets an answer. -/
theorem find?_answers {cs : List Conjunct} (normal : goal.dnf = .ok cs)
    (valid : ∀ a ∈ axioms, a.Valid) : ∃ found, find? ontology goal axioms = .ok found := by
  unfold find?
  refine bind_answers (refutes_answers normal valid) fun b => ?_
  cases b with
  | true => exact bind_answers (contract_answers normal axioms.toList valid) fun J => ⟨some J, rfl⟩
  | false => exact ⟨none, rfl⟩

/-- A goal without a normal form gives no answer. -/
theorem find?_refused {err : ReasoningError} (refused : goal.dnf = .error err)
    (found : Option Justification) : find? ontology goal axioms ≠ .ok found := by
  intro h
  rcases find?_eq_ok h with ⟨tested, J, contracted, -⟩ | ⟨tested, -⟩
  · exact contract_refused refused axioms.toList (refutes_refused refused tested)
      (fun _ ha => ha) contracted
  · have none := refutes_refused refused tested
    cases (refutes_iff tested).2 fun possible => none possible.consistent

/-- A goal without a normal form is refused for what its normal form was refused for. -/
theorem find?_eq_error {err : ReasoningError} (refused : goal.dnf = .error err)
    (valid : ∀ a ∈ axioms, a.Valid) : find? ontology goal axioms = .error err := by
  cases h : find? ontology goal axioms with
  | ok found => exact absurd h (find?_refused refused found)
  | error err' =>
    have same : goal.dnf = .error err' := by
      unfold find? at h
      rcases bind_eq_error_iff.1 h with tested | ⟨b, -, rest⟩
      · exact dnf_of_refutes_eq_error valid tested
      · cases b with
        | true =>
          rcases bind_eq_error_iff.1 rest with contracted | ⟨J, -, last⟩
          · exact dnf_of_contract_eq_error axioms.toList valid contracted
          · cases last
        | false => cases rest
    cases same.symm.trans refused
    rfl

end Justification

end OntologyService
