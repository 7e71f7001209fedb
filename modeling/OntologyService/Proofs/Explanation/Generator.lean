import OntologyService.Explanation.Generator
import OntologyService.Proofs.Explanation.HittingSet
import OntologyService.Proofs.Explanation.Relevance

/-!
# The justifications of a statement

What a generator answers, against the engine alone. Axioms **support** a statement if an engine
made of them answers that it is entailed, and a set of them **justifies** it if the set supports it
and no proper part of the set does.

A generator works with one reasoner, and the two change together (`Paired`): requests are served,
statements explained, answers forgotten, both disposed of. All this time what the generator
remembers at the present revision is what it would work out now (`paired_invariant`), so that a
remembered answer and a fresh one are the same answer.

**The law** (`mem_explain_iff`): it is known exactly which statements a generator answers, and
whenever it answers without a limit, the answer is the set of all sets of axioms of the reasoner
that justify the statement. The restriction to relevant axioms is no restriction: a minimal set
entails the statement by its relevant part, and so is that part.
-/

namespace OntologyService

/-- An engine made of the axioms answers that the statement is entailed. -/
def Supports (ontology : String) (axioms : AxiomSet) (x : Axiom) : Prop :=
  ∃ r, Reasoner.ofAxioms ontology axioms.toList = .ok r ∧ r.isEntailed x = .ok true

/-- **Some of the axioms justify the statement**: they support it, and no proper part does. -/
structure Justifies (ontology : String) (axioms : AxiomSet) (x : Axiom) (J : Justification) :
    Prop where
  within : ∀ a ∈ J, a ∈ axioms
  supports : Supports ontology J x
  least : ∀ K : AxiomSet, (∀ a ∈ K, a ∈ J) → K ≠ J → ¬ Supports ontology K x

section

variable {ontology : String} {axioms J : AxiomSet} {x : Axiom}

/-- To support is to entail, for valid axioms and a statement that can be decided. -/
theorem supports_iff (valid : ∀ a ∈ axioms, a.Valid) (valid_x : x.Valid)
    (small : ¬ x.TooManyPairs) : Supports ontology axioms x ↔ Entails axioms x := by
  obtain ⟨r, made, built, -, held⟩ := Reasoner.ofAxioms_built ontology valid
  have same : r.axioms = axioms := SortedSet.ext held
  have sound := (Reasoner.built_invariant built).1
  constructor
  · rintro ⟨r', made', answer⟩
    cases made.symm.trans made'
    exact same ▸ (sound.isEntailed_iff answer).1 rfl
  · intro h
    obtain ⟨b, answer⟩ := sound.isEntailed_eq_ok valid_x fun large => small large.2
    have yes := (sound.isEntailed_iff answer).2 (same ▸ h)
    exact ⟨r, made, yes ▸ answer⟩

/-- **To justify is to be minimal** among the sets that refute the expression of the statement. -/
theorem justifies_iff (valid : ∀ a ∈ axioms, a.Valid) (valid_x : x.Valid)
    (small : ¬ x.TooManyPairs) :
    Justifies ontology axioms x J ↔ Justification.Minimal (.ofAxiom x) axioms J := by
  have decided : ∀ K : AxiomSet, (∀ a ∈ K, a ∈ axioms) →
      (Supports ontology K x ↔ ¬ Possible K (.ofAxiom x)) := by
    intro K sub
    rw [← entails_iff_not_possible]
    exact supports_iff (fun a ha => valid a (sub a ha)) valid_x small
  constructor
  · rintro ⟨within, supports, least⟩
    refine ⟨within, (decided J within).1 supports, fun K sub refutes => ?_⟩
    by_contra ne
    exact least K sub ne ((decided K fun a ha => within a (sub a ha)).2 refutes)
  · rintro ⟨within, refutes, least⟩
    refine ⟨within, (decided J within).2 refutes, fun K sub ne supports => ne ?_⟩
    exact least K sub ((decided K fun a ha => within a (sub a ha)).1 supports)

/-- A minimal set among the axioms of a reasoner is one among the relevant axioms. -/
theorem minimal_relevant_iff {r : Reasoner} (sound : r.Sound) (valid : x.Valid) :
    Justification.Minimal (.ofAxiom x) (r.relevant (.ofAxiom x)) J ↔
      Justification.Minimal (.ofAxiom x) r.axioms J := by
  constructor
  · exact fun h => h.of_within fun a ha => Reasoner.mem_of_mem_relevant (h.within a ha)
  · intro h
    refine h.of_within fun a ha => ?_
    have entailed := entails_iff_not_possible.2 h.refutes
    have part := entails_iff_not_possible.1
      (Reasoner.entails_relevant sound valid h.within entailed)
    rw [← h.least _ (fun b hb => (SortedSet.mem_filter.1 hb).1) part] at ha
    exact of_decide_eq_true (SortedSet.mem_filter.1 ha).2

end

namespace Generator

variable {g : Generator} {r s : Reasoner} {x : Axiom}

/-! ## Remembering -/

/-- Reasoners that are alike are worked on alike. -/
theorem work_congr (h : r.Alike s) (a : Axiom) (limit : Nat) : work r a limit = work s a limit := by
  unfold work Reasoner.relevant
  rw [h.isConsistent_eq, h.axioms, h.ontology]

/-- **The memo is coherent**: no answer is from a later revision, and one from this revision is
what working it out now would give. -/
def Coherent (g : Generator) (r : Reasoner) : Prop :=
  ∀ key revision es, g.memo.get? key = some (revision, es) →
    revision ≤ r.revision ∧ (revision = r.revision → work r key.1 key.2 = .ok es)

theorem coherent_empty {g : Generator} (h : g.memo = ∅) (r : Reasoner) : g.Coherent r := by
  intro key revision es remembered
  rw [h, Table.get?_empty] at remembered
  cases remembered

theorem remembered?_eq_some {revision : Nat} {key : Axiom × Nat} {es : Explanations}
    (h : g.remembered? revision key = some es) : g.memo.get? key = some (revision, es) := by
  unfold remembered? at h
  split at h
  · rename_i at' es' remembered
    split at h
    · rename_i same
      cases h
      rw [remembered, same]
    · cases h
  · cases h

/-- **What a generator remembers** once it has explained a statement: what it remembered before, and
the answer that it worked out, if it had to. -/
theorem get?_explain {requested revision : Nat} {key : Axiom × Nat} {es : Explanations}
    (h : (g.explain r x requested).2.memo.get? key = some (revision, es)) :
    g.memo.get? key = some (revision, es) ∨
      key = (x, g.policy.effective requested) ∧ revision = r.revision ∧
        work r key.1 key.2 = .ok es := by
  unfold explain at h
  split at h
  · exact .inl h
  · split at h
    · exact .inl h
    · dsimp only at h
      split at h
      · exact .inl h
      · split at h
        · exact .inl h
        · rename_i worked
          by_cases e : key = (x, g.policy.effective requested)
          · rw [e, Table.get?_insert_self] at h
            cases h
            exact .inr ⟨e, rfl, by rw [e]; exact worked⟩
          · rw [Table.get?_insert_of_ne e] at h
            exact .inl h

namespace Coherent

/-- A request that is served leaves the memo coherent. -/
theorem serve (h : g.Coherent r) (sound : r.Sound) {q : Reasoner.Request} (kept : q ≠ .dispose) :
    g.Coherent (r.serve q).2 := by
  intro key revision es remembered
  obtain ⟨old, known⟩ := h key revision es remembered
  rcases sound.serve_revision kept with later | ⟨same, axioms⟩
  · exact ⟨by omega, fun e => by omega⟩
  · obtain ⟨sound', name, -⟩ := sound.serve q
    have alike : r.Alike (r.serve q).2 := ⟨sound, sound', name.symm, axioms.symm⟩
    rw [same, ← work_congr alike]
    exact ⟨old, known⟩

/-- Explaining a statement leaves the memo coherent. -/
theorem explain (h : g.Coherent r) (x : Axiom) (requested : Nat) :
    (g.explain r x requested).2.Coherent r := by
  intro key revision es remembered
  rcases get?_explain remembered with old | ⟨rfl, rfl, worked⟩
  · exact h key revision es old
  · exact ⟨Nat.le_refl _, fun _ => worked⟩

end Coherent

/-- **A generator and its reasoner**, from the start on: every change that the one goes through is
one that the other goes through with it. -/
inductive Paired : Reasoner → Generator → Prop
  | new (ontology : String) (policy : LimitPolicy) : Paired (.new ontology) { policy }
  | serve {r : Reasoner} {g : Generator} {q : Reasoner.Request} :
    Paired r g → q.Valid → q ≠ .dispose → Paired (r.serve q).2 g
  | explain {r : Reasoner} {g : Generator} (x : Axiom) (requested : Nat) :
    Paired r g → Paired r (g.explain r x requested).2
  | invalidate {r : Reasoner} {g : Generator} : Paired r g → Paired r g.invalidate
  | dispose {r : Reasoner} {g : Generator} : Paired r g → Paired r.dispose g.dispose

/-- What is paired is built and coherent. -/
theorem paired_invariant (h : Paired r g) : r.Built ∧ g.Coherent r := by
  induction h with
  | new ontology policy => exact ⟨.new ontology, coherent_empty rfl _⟩
  | serve _ valid kept ih =>
    obtain ⟨built, coherent⟩ := ih
    exact ⟨built.serve valid, coherent.serve (Reasoner.built_invariant built).1 kept⟩
  | explain x requested _ ih => exact ⟨ih.1, ih.2.explain x requested⟩
  | invalidate _ ih => exact ⟨ih.1, coherent_empty rfl _⟩
  | dispose _ ih => exact ⟨.serve (q := .dispose) ih.1 trivial, coherent_empty rfl _⟩

/-! ## Answers -/

/-- An answer is remembered or worked out, by a live generator for a statement without a defect. -/
theorem explain_eq_ok_cases {requested : Nat} {es : Explanations}
    (answer : (g.explain r x requested).1 = .ok es) :
    g.disposed = false ∧ x.Valid ∧
      (g.memo.get? (x, g.policy.effective requested) = some (r.revision, es) ∨
        work r x (g.policy.effective requested) = .ok es) := by
  unfold explain at answer
  split at answer
  · cases answer
  · rename_i live
    split at answer
    · cases answer
    · rename_i passed
      refine ⟨Bool.eq_false_iff.2 live, Reasoner.validate_eq_ok_iff.1 passed, ?_⟩
      dsimp only at answer
      split at answer
      · rename_i es' remembered
        cases answer
        exact .inl (remembered?_eq_some remembered)
      · split at answer
        · cases answer
        · rename_i es' worked
          cases answer
          exact .inr worked

/-- Where the memo is coherent, an answer is what is worked out now. -/
theorem explain_eq_ok (h : g.Coherent r) {requested : Nat} {es : Explanations}
    (answer : (g.explain r x requested).1 = .ok es) :
    g.disposed = false ∧ x.Valid ∧ work r x (g.policy.effective requested) = .ok es := by
  obtain ⟨live, valid, remembered | worked⟩ := explain_eq_ok_cases answer
  · exact ⟨live, valid, (h _ _ _ remembered).2 rfl⟩
  · exact ⟨live, valid, worked⟩

/-- What can be worked out is answered. -/
theorem explain_answers (live : g.disposed = false) (valid : x.Valid) {requested : Nat}
    {es : Explanations} (worked : work r x (g.policy.effective requested) = .ok es) :
    ∃ es', (g.explain r x requested).1 = .ok es' := by
  unfold explain
  rw [if_neg (Bool.eq_false_iff.1 live), Reasoner.validate_eq_ok_iff.2 valid]
  dsimp only
  split
  · exact ⟨_, rfl⟩
  · rw [worked]
    exact ⟨es, rfl⟩

/-- Explaining a statement does not dispose of the generator. -/
theorem explain_disposed (g : Generator) (r : Reasoner) (x : Axiom) (requested : Nat) :
    (g.explain r x requested).2.disposed = g.disposed := by
  unfold explain
  split
  · rfl
  · split
    · rfl
    · dsimp only
      split
      · rfl
      · split <;> rfl

/-- Explaining a statement leaves the policy alone. -/
theorem explain_policy (g : Generator) (r : Reasoner) (x : Axiom) (requested : Nat) :
    (g.explain r x requested).2.policy = g.policy := by
  unfold explain
  split
  · rfl
  · split
    · rfl
    · dsimp only
      split
      · rfl
      · split <;> rfl

/-- A statement of too many pairs is never worked out. -/
theorem small_of_work {limit : Nat} {es : Explanations} (worked : work r x limit = .ok es) :
    ¬ x.TooManyPairs := fun large =>
  Search.run_refused (ClassExpression.dnf_ofAxiom_eq_error (Axiom.tooManyPairs_iff.1 large)) es
    worked

theorem work_answers (held : ∀ a ∈ r.axioms, a.Valid) (small : ¬ x.TooManyPairs) (limit : Nat) :
    ∃ es, work r x limit = .ok es := by
  obtain ⟨cs, normal⟩ := Axiom.normal_of_small small
  unfold work
  exact Search.run_answers normal fun a ha => held a (Reasoner.mem_of_mem_relevant ha)

/-- A live generator that is coherent gives to a valid statement what working it out gives. -/
theorem explain_eq_work (h : g.Coherent r) (live : g.disposed = false) (valid : x.Valid)
    (requested : Nat) : (g.explain r x requested).1 = work r x (g.policy.effective requested) := by
  cases worked : work r x (g.policy.effective requested) with
  | ok es =>
    obtain ⟨es', answer⟩ := explain_answers live valid worked
    rw [answer, ← (explain_eq_ok h answer).2.2, worked]
  | error e =>
    cases answer : (g.explain r x requested).1 with
    | ok es =>
      rw [(explain_eq_ok h answer).2.2] at worked
      cases worked
    | error e' =>
      unfold explain at answer
      rw [if_neg (Bool.eq_false_iff.1 live), Reasoner.validate_eq_ok_iff.2 valid] at answer
      dsimp only at answer
      split at answer
      · cases answer
      · rw [worked] at answer
        exact answer.symm

/-- A statement of too many pairs is refused for them, consistent axioms or not. -/
theorem work_eq_error (held : ∀ a ∈ r.axioms, a.Valid) (large : x.TooManyPairs) (limit : Nat) :
    work r x limit = .error (.tooComplex 4097 4096) := by
  unfold work
  exact Search.run_eq_error (ClassExpression.dnf_ofAxiom_eq_error (Axiom.tooManyPairs_iff.1 large))
    fun a ha => held a (Reasoner.mem_of_mem_relevant ha)

/-- **What is worked out is empty** exactly if the statement is not entailed, whatever the limit. -/
theorem eq_empty_of_work_iff (sound : r.Sound) (valid : x.Valid) {limit : Nat} {es : Explanations}
    (worked : work r x limit = .ok es) : es = ∅ ↔ ¬ Entails r.axioms x := by
  rw [Search.run_eq_empty_iff worked, ← Reasoner.entails_relevant_iff sound valid,
    entails_iff_not_possible, not_not]

/-- **The answer without a limit** is the set of all justifications. A generator paired with a
reasoner answers exactly if it is live, and the statement has no defect and not too many pairs; and
whenever it answers, a set is in the answer exactly if it justifies the statement. -/
theorem mem_explain_iff (paired : Paired r g) {requested : Nat}
    (unlimited : g.policy.effective requested = 0) :
    ((∃ es, (g.explain r x requested).1 = .ok es) ↔
      g.disposed = false ∧ x.Valid ∧ ¬ x.TooManyPairs) ∧
    ∀ es, (g.explain r x requested).1 = .ok es →
      ∀ (ontology : String) (J : Justification), J ∈ es ↔ Justifies ontology r.axioms x J := by
  obtain ⟨built, coherent⟩ := paired_invariant paired
  obtain ⟨sound, held⟩ := Reasoner.built_invariant built
  refine ⟨⟨?_, ?_⟩, ?_⟩
  · rintro ⟨es, answer⟩
    obtain ⟨live, valid, worked⟩ := explain_eq_ok coherent answer
    exact ⟨live, valid, small_of_work worked⟩
  · rintro ⟨live, valid, small⟩
    obtain ⟨es, worked⟩ := work_answers held small (g.policy.effective requested)
    exact explain_answers live valid worked
  · intro es answer ontology J
    obtain ⟨-, valid, worked⟩ := explain_eq_ok coherent answer
    rw [Search.mem_run_iff unlimited worked, minimal_relevant_iff sound valid,
      justifies_iff held valid (small_of_work worked)]

/-- Two ways from one class to another. -/
def diamond : List Axiom :=
  [ .subClassOf ⟨"A"⟩ ⟨"B"⟩, .subClassOf ⟨"B"⟩ ⟨"D"⟩, .subClassOf ⟨"A"⟩ ⟨"C"⟩,
    .subClassOf ⟨"C"⟩ ⟨"D"⟩ ]

/-- Each way justifies the statement, and all the ways together do not. -/
theorem diamond_explained :
    let r := ((Reasoner.new "diamond").serve (.apply diamond [])).2
    let x := Axiom.subClassOf ⟨"A"⟩ ⟨"D"⟩
    Paired r { policy := .forward } ∧ LimitPolicy.forward.effective 0 = 0 ∧
      Justifies "diamond" r.axioms x (.ofList (diamond.take 2)) ∧
      Justifies "diamond" r.axioms x (.ofList (diamond.drop 2)) ∧
      ¬ Justifies "diamond" r.axioms x r.axioms := by
  intro r x
  have paired : Paired r { policy := .forward } :=
    .serve (q := .apply diamond []) (.new "diamond" .forward)
      (by decide +kernel : ∀ a ∈ diamond, a.Valid) (fun e => nomatch e)
  have unlimited : LimitPolicy.forward.effective 0 = 0 := rfl
  obtain ⟨answers, law⟩ := mem_explain_iff (x := x) paired unlimited
  obtain ⟨es, answer⟩ := answers.2 ⟨rfl, by decide +kernel, id⟩
  have computed : ((explain { policy := .forward } r x 0).1).toOption =
      some (.ofList [.ofList (diamond.take 2), .ofList (diamond.drop 2)]) := by decide +kernel
  rw [answer] at computed
  have listed := law es answer "diamond"
  rw [Option.some.inj computed] at listed
  refine ⟨paired, unlimited, (listed _).1 (by decide +kernel), (listed _).1 (by decide +kernel),
    fun h => ?_⟩
  exact absurd ((listed _).2 h) (by decide +kernel)

end Generator

end OntologyService
