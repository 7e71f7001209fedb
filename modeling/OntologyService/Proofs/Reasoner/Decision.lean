import OntologyService.Proofs.Reasoner.History
import OntologyService.Proofs.Semantics.Canonical

/-!
# What the engine decides

The answers of a sound reasoner, against the meaning of its axioms. Consistency is having a model
(`Sound.isConsistent_iff`), satisfiability is having an element in some model
(`Sound.isSatisfiable_iff`), and entailment is truth in all of them (`Sound.isEntailed_iff`).

An answer may be refused. An inconsistent ontology is told apart before anything is expanded, so
there nothing is refused; elsewhere it is the normal form that decides, and for the expression of an
axiom it is known from the number of pairs.

**The laws** (`ofAxioms_decides`, `isEntailed_decides`): an engine over valid axioms decides
consistency and satisfiability, and one that is built from valid axioms decides entailment, except
of an axiom of too many pairs in an ontology that has a model.
-/

namespace OntologyService

/-- The axiom relates more pairs of classes than a normal form may have conjuncts: ordered pairs for
equivalence, unordered ones for disjointness. -/
def Axiom.TooManyPairs : Axiom → Prop
  | .equivalentClasses classes => 4096 < classes.size * (classes.size - 1)
  | .disjointClasses classes => 4096 < classes.size * (classes.size - 1) / 2
  | .subClassOf _ _ | .classAssertion _ _ => False

/-- An axiom is about too many pairs if and only if its refutation has more parts than are checked.
-/
theorem Axiom.tooManyPairs_iff {a : Axiom} :
    a.TooManyPairs ↔ ClassExpression.maxConjuncts < a.parts := by
  cases a with
  | equivalentClasses classes => exact Iff.rfl
  | disjointClasses classes => exact Iff.rfl
  | subClassOf sub sup => exact ⟨False.elim, fun h => by cases (by decide : ¬ 4096 < 1) h⟩
  | classAssertion cls individual =>
    exact ⟨False.elim, fun h => by cases (by decide : ¬ 4096 < 1) h⟩

/-- The expression of an axiom of few enough pairs has a normal form. -/
theorem Axiom.normal_of_small {a : Axiom} (small : ¬ a.TooManyPairs) :
    ∃ cs, (ClassExpression.ofAxiom a).dnf = .ok cs :=
  ClassExpression.dnf_ofAxiom_eq_ok (Nat.le_of_not_lt fun more => small (tooManyPairs_iff.2 more))

/-- Axioms without a model make nothing possible. -/
theorem Possible.consistent {γ : Type} [Membership Axiom γ] {axioms : γ} {e : ClassExpression}
    (h : Possible axioms e) : Consistent axioms := by
  obtain ⟨m, model, -⟩ := h
  exact ⟨m, model⟩

/-- What is possible depends on which axioms there are, and not on how they are collected. -/
theorem models_congr {γ δ : Type} [Membership Axiom γ] [Membership Axiom δ] {axioms : γ}
    {axioms' : δ} (h : ∀ a, a ∈ axioms ↔ a ∈ axioms') (m : Interpretation) :
    m.Models axioms ↔ m.Models axioms' := by
  simp only [Interpretation.Models, h]

namespace Reasoner

variable {r : Reasoner}

namespace Sound

/-- **The reasoner is consistent** exactly if its axioms have a model. -/
theorem isConsistent_iff (h : r.Sound) : r.isConsistent = true ↔ Consistent r.axioms := by
  rw [isConsistent_of_sound h]
  exact Taxonomy.isConsistent_iff h.taxonomy

/-- Over axioms without a model nothing is satisfiable. -/
theorem isSatisfiable_of_inconsistent (h : r.Sound) (none : ¬ Consistent r.axioms)
    (e : ClassExpression) : r.isSatisfiable e = .ok false := by
  have bit := mt h.isConsistent_iff.1 none
  rw [isSatisfiable, if_neg bit]

/-- Over axioms with a model, an expression is satisfiable if one of its conjuncts can hold. -/
theorem isSatisfiable_of_dnf (h : r.Sound) (model : Consistent r.axioms) {e : ClassExpression}
    {cs : List Conjunct} (hcs : e.dnf = .ok cs) :
    r.isSatisfiable e = .ok (cs.any (canHold r.taxonomy)) := by
  rw [isSatisfiable, if_pos (h.isConsistent_iff.2 model), hcs]

/-- An expression without a normal form is refused with the error of its expansion. -/
theorem isSatisfiable_refused (h : r.Sound) (model : Consistent r.axioms) {e : ClassExpression}
    {err : ReasoningError} (refused : e.dnf = .error err) : r.isSatisfiable e = .error err := by
  rw [isSatisfiable, if_pos (h.isConsistent_iff.2 model), refused]

/-- An expression gets an answer if it has a normal form, or the axioms have no model. -/
theorem isSatisfiable_answers (h : r.Sound) {e : ClassExpression}
    (normal : Consistent r.axioms → ∃ cs, e.dnf = .ok cs) : ∃ b, r.isSatisfiable e = .ok b := by
  by_cases model : Consistent r.axioms
  · obtain ⟨cs, hcs⟩ := normal model
    exact ⟨_, h.isSatisfiable_of_dnf model hcs⟩
  · exact ⟨_, h.isSatisfiable_of_inconsistent model e⟩

/-- An expression that gets an answer has a normal form. -/
theorem normal_of_isSatisfiable (h : r.Sound) {e : ClassExpression} {b : Bool}
    (answer : r.isSatisfiable e = .ok b) (model : Consistent r.axioms) :
    ∃ cs, e.dnf = .ok cs := by
  cases hd : e.dnf with
  | ok cs => exact ⟨cs, rfl⟩
  | error err =>
    rw [h.isSatisfiable_refused model hd] at answer
    cases answer

/-- A conjunct of the normal form can hold exactly if the expression is possible. -/
theorem any_canHold_iff (h : r.Sound) (model : Consistent r.axioms) {e : ClassExpression}
    {cs : List Conjunct} (hcs : e.dnf = .ok cs) :
    cs.any (canHold r.taxonomy) = true ↔ Possible r.axioms e := by
  rw [List.any_eq_true]
  constructor
  · rintro ⟨p, hp, can⟩
    obtain ⟨m, hm, x, holds⟩ := (canHold_iff h.taxonomy model).1 can
    exact ⟨m, hm, x, (ClassExpression.dnf_holds hcs).1 ⟨p, hp, holds⟩⟩
  · rintro ⟨m, hm, x, belongs⟩
    obtain ⟨p, hp, holds⟩ := (ClassExpression.dnf_holds hcs).2 belongs
    exact ⟨p, hp, (canHold_iff h.taxonomy model).2 ⟨m, hm, x, holds⟩⟩

/-- **An answer on satisfiability** is right whenever there is one. -/
theorem isSatisfiable_iff (h : r.Sound) {e : ClassExpression} {b : Bool}
    (answer : r.isSatisfiable e = .ok b) : b = true ↔ Possible r.axioms e := by
  by_cases model : Consistent r.axioms
  · obtain ⟨cs, hcs⟩ := h.normal_of_isSatisfiable answer model
    rw [h.isSatisfiable_of_dnf model hcs] at answer
    rw [← Except.ok.inj answer]
    exact h.any_canHold_iff model hcs
  · rw [h.isSatisfiable_of_inconsistent model] at answer
    rw [← Except.ok.inj answer]
    exact ⟨fun yes => (by cases yes), fun possible => absurd possible.consistent model⟩

/-- **An answer on entailment** is right whenever there is one. -/
theorem isEntailed_iff (h : r.Sound) {x : Axiom} {b : Bool} (answer : r.isEntailed x = .ok b) :
    b = true ↔ Entails r.axioms x := by
  unfold isEntailed at answer
  cases hv : x.validate with
  | error err =>
    rw [hv] at answer
    cases answer
  | ok =>
    rw [hv] at answer
    cases hs : r.isSatisfiable (.ofAxiom x) with
    | error err =>
      rw [hs] at answer
      cases answer
    | ok sat =>
      rw [hs] at answer
      rw [← Except.ok.inj answer, Bool.not_eq_true', ← Bool.not_eq_true, h.isSatisfiable_iff hs]
      exact entails_iff_not_possible.symm

end Sound

/-- Satisfiability is refused for what the normal form of the expression is refused for. -/
theorem dnf_of_isSatisfiable_eq_error {e : ClassExpression} {err : ReasoningError}
    (answer : r.isSatisfiable e = .error err) : e.dnf = .error err := by
  unfold isSatisfiable at answer
  split at answer
  · split at answer
    · cases answer
    · rename_i err' refused
      cases answer
      exact refused
  · cases answer

/-- A valid axiom is put to the test of satisfiability. -/
theorem isEntailed_of_valid {x : Axiom} (valid : x.Valid) (r : Reasoner) :
    r.isEntailed x = (r.isSatisfiable (.ofAxiom x)).map (!·) := by
  unfold isEntailed
  rw [validate_eq_ok_iff.2 valid]
  cases r.isSatisfiable (.ofAxiom x) with
  | ok b => rfl
  | error err => rfl

/-- An axiom of few enough pairs, or put to an ontology without a model, gets an answer. -/
theorem Sound.isEntailed_eq_ok (h : r.Sound) {x : Axiom} (valid : x.Valid)
    (small : ¬ (Consistent r.axioms ∧ x.TooManyPairs)) : ∃ b, r.isEntailed x = .ok b := by
  have answered : ∃ b, r.isSatisfiable (.ofAxiom x) = .ok b := by
    by_cases large : x.TooManyPairs
    · exact ⟨false, h.isSatisfiable_of_inconsistent (fun model => small ⟨model, large⟩) _⟩
    · obtain ⟨cs, normal⟩ := Axiom.normal_of_small large
      exact h.isSatisfiable_answers fun _ => ⟨cs, normal⟩
  obtain ⟨b, hb⟩ := answered
  rw [isEntailed_of_valid valid, hb]
  exact ⟨!b, rfl⟩

/-- **The engine decides** consistency and satisfiability. Over any list of valid axioms it is
consistent exactly if they have a model. It answers on an expression exactly if the expression has a
normal form or the axioms have no model, and an answer tells whether some model of them has an
element that belongs to it. -/
theorem ofAxioms_decides (ontology : String) {axioms : List Axiom}
    (valid : ∀ a ∈ axioms, a.Valid) :
    ∃ r, ofAxioms ontology axioms = .ok r ∧ (r.isConsistent = true ↔ Consistent axioms) ∧
      ∀ e : ClassExpression,
        ((∃ b, r.isSatisfiable e = .ok b) ↔ (Consistent axioms → ∃ cs, e.dnf = .ok cs)) ∧
        ∀ b, r.isSatisfiable e = .ok b → (b = true ↔ Possible axioms e) := by
  obtain ⟨r, made, built, -, held⟩ := ofAxioms_built ontology valid
  have sound := (built_invariant built).1
  have same := models_congr held
  have consistent : Consistent r.axioms ↔ Consistent axioms := by simp only [Consistent, same]
  refine ⟨r, made, sound.isConsistent_iff.trans consistent, fun e => ⟨?_, fun b answer => ?_⟩⟩
  · rw [← consistent]
    constructor
    · rintro ⟨b, answer⟩
      exact sound.normal_of_isSatisfiable answer
    · exact sound.isSatisfiable_answers
  · rw [sound.isSatisfiable_iff answer]
    simp only [Possible, same]

/-- A cat named Felix, where cats are mammals and no mammal is a bird. -/
def pets : List Axiom :=
  [ .subClassOf ⟨"Cat"⟩ ⟨"Mammal"⟩, .disjointClasses (.ofList [⟨"Mammal"⟩, ⟨"Bird"⟩]),
    .classAssertion ⟨"Cat"⟩ ⟨"felix"⟩ ]

/-- There can be pets, and none of them is a cat and a bird. -/
theorem pets_decided : (∀ a ∈ pets, a.Valid) ∧ Consistent pets ∧
    ¬ Possible pets (.and [.ofClass ⟨"Cat"⟩, .ofClass ⟨"Bird"⟩]) := by
  have valid : ∀ a ∈ pets, a.Valid := by decide +kernel
  obtain ⟨r, made, consistent, satisfiable⟩ := ofAxioms_decides "pets" valid
  have bit : (ofAxioms "pets" pets).toOption.map isConsistent = some true := by decide +kernel
  have answer : (ofAxioms "pets" pets).toOption.bind (fun r =>
      (r.isSatisfiable (.and [.ofClass ⟨"Cat"⟩, .ofClass ⟨"Bird"⟩])).toOption) = some false := by
    decide +kernel
  rw [made] at bit answer
  refine ⟨valid, consistent.1 (Option.some.inj bit), fun possible => ?_⟩
  cases hs : r.isSatisfiable (.and [.ofClass ⟨"Cat"⟩, .ofClass ⟨"Bird"⟩]) with
  | ok b =>
    simp only [Except.toOption, Option.bind_some, hs, Option.some.injEq] at answer
    have yes := ((satisfiable _).2 b hs).2 possible
    rw [answer] at yes
    cases yes
  | error err => simp only [Except.toOption, Option.bind_some, hs, reduceCtorEq] at answer

/-- **The engine decides entailment**: built from valid axioms, it refuses a valid axiom exactly if
its axioms have a model and the axiom is one of too many pairs, and answers every other rightly. -/
theorem isEntailed_decides (built : r.Built) {x : Axiom} (valid : x.Valid) :
    (∀ err, r.isEntailed x = .error err ↔
      err = .tooComplex 4097 4096 ∧ Consistent r.axioms ∧ x.TooManyPairs) ∧
    (¬ (Consistent r.axioms ∧ x.TooManyPairs) →
      ∃ b, r.isEntailed x = .ok b ∧ (b = true ↔ Entails r.axioms x)) := by
  have sound := (built_invariant built).1
  by_cases refused : Consistent r.axioms ∧ x.TooManyPairs
  · have large := ClassExpression.dnf_ofAxiom_eq_error (Axiom.tooManyPairs_iff.1 refused.2)
    have tested := isEntailed_of_valid valid r
    rw [sound.isSatisfiable_refused refused.1 large] at tested
    refine ⟨fun err => ?_, fun h => absurd refused h⟩
    rw [tested]
    exact ⟨fun e => ⟨(Except.error.inj e).symm, refused⟩, fun h => by rw [h.1]; rfl⟩
  · obtain ⟨b, answer⟩ := sound.isEntailed_eq_ok valid refused
    refine ⟨fun err => ?_, fun _ => ⟨b, answer, sound.isEntailed_iff answer⟩⟩
    rw [answer]
    exact ⟨fun e => (by cases e), fun h => absurd h.2 refused⟩

/-- That Felix is a mammal follows, and that he is a bird does not. -/
theorem pets_entailed :
    let r := ((new "pets").serve (.apply pets [])).2
    r.Built ∧ Entails r.axioms (.classAssertion ⟨"Mammal"⟩ ⟨"felix"⟩) ∧
      ¬ Entails r.axioms (.classAssertion ⟨"Bird"⟩ ⟨"felix"⟩) := by
  intro r
  have built : r.Built :=
    .serve (q := .apply pets []) (.new "pets") (by decide +kernel : ∀ a ∈ pets, a.Valid)
  have decides (c : ClassName) (valid : (Axiom.classAssertion c ⟨"felix"⟩).Valid) :=
    (isEntailed_decides built valid).2 fun h => h.2
  obtain ⟨b, hb, mammal⟩ := decides ⟨"Mammal"⟩ (by decide +kernel)
  obtain ⟨b', hb', bird⟩ := decides ⟨"Bird"⟩ (by decide +kernel)
  have yes : (r.isEntailed (.classAssertion ⟨"Mammal"⟩ ⟨"felix"⟩)).toOption = some true := by
    decide +kernel
  have no : (r.isEntailed (.classAssertion ⟨"Bird"⟩ ⟨"felix"⟩)).toOption = some false := by
    decide +kernel
  rw [hb] at yes
  rw [hb'] at no
  refine ⟨built, mammal.1 (Option.some.inj yes), fun follows => ?_⟩
  rw [bird.2 follows] at no
  cases no

end Reasoner

end OntologyService
