import Mathlib.Logic.Function.Basic
import OntologyService.Proofs.Semantics.Interpretation

/-!
# Axioms that cannot matter

Entailment is monotone (`Entails.mono`), so what a set of axioms entails its supersets entail. This
module is about the way back: which axioms can be left out.

Two interpretations can be joined. The domain is the product, a class of the signature is read in
the first component and every other class in the second (`Interpretation.join`). An axiom whose
classes lie in the signature then says what it says of the first, and one whose classes lie outside
says what it says of the second, so axioms on the two sides do not interact.

**The law** (`Entails.of_apart`): where the axioms have a model, those whose classes lie outside a
signature take no part in entailing an axiom inside it. A model of the rest that refutes the axiom
would join with a model of all to a model of all that refutes it. Without a model of all there is
nothing to join with, and the law fails.
-/

namespace OntologyService

/-- The classes that an axiom mentions as entities are those that it holds. -/
theorem Axiom.ofClass_mem_mentioned {a : Axiom} {c : ClassName} :
    Entity.ofClass c ∈ a.mentioned ↔ c ∈ a.classes := by
  cases a <;> simp [mentioned, classes]

theorem Interpretation.Models.mono {γ δ : Type} [Membership Axiom γ] [Membership Axiom δ]
    {axioms : γ} {fewer : δ} {m : Interpretation} (h : m.Models axioms)
    (sub : ∀ a ∈ fewer, a ∈ axioms) : m.Models fewer := fun a ha => h a (sub a ha)

section

variable {γ δ : Type} [Membership Axiom γ] [Membership Axiom δ] {axioms : γ} {fewer : δ}

/-- What fewer axioms entail is entailed. -/
theorem Entails.mono {x : Axiom} (h : Entails fewer x) (sub : ∀ a ∈ fewer, a ∈ axioms) :
    Entails axioms x := fun m model => h m (model.mono sub)

theorem Consistent.mono (h : Consistent axioms) (sub : ∀ a ∈ fewer, a ∈ axioms) :
    Consistent fewer := by
  obtain ⟨m, model⟩ := h
  exact ⟨m, model.mono sub⟩

end

namespace Interpretation

section

variable (sig : ClassName → Prop) (m k : Interpretation) (thing : sig ClassName.thing)
  (nothing : sig ClassName.nothing)

/-- **Two interpretations joined**: the classes of the signature as in the first, all others as in
the second. -/
def join : Interpretation where
  Domain := m.Domain × k.Domain
  instances c x := (sig c ∧ m.instances c x.1) ∨ (¬ sig c ∧ k.instances c x.2)
  denotes i := (m.denotes i, k.denotes i)
  inhabited := by
    obtain ⟨x⟩ := m.inhabited
    obtain ⟨y⟩ := k.inhabited
    exact ⟨(x, y)⟩
  thing x := .inl ⟨thing, m.thing x.1⟩
  nothing x h := h.elim (fun h => m.nothing x.1 h.2) fun h => h.1 nothing
  unique i j h := m.unique (congrArg Prod.fst h)

variable {sig m k thing nothing}

/-- A class of the signature has the instances of the one model. -/
theorem join_instances {c : ClassName} (h : sig c) (x : m.Domain × k.Domain) :
    (join sig m k thing nothing).instances c x ↔ m.instances c x.1 := by
  simp only [join, h, true_and, not_true_eq_false, false_and, or_false]

/-- Any other class has those of the other. -/
theorem join_instances_of_not {c : ClassName} (h : ¬ sig c) (x : m.Domain × k.Domain) :
    (join sig m k thing nothing).instances c x ↔ k.instances c x.2 := by
  simp only [join, h, false_and, not_false_eq_true, true_and, false_or]

end

/-- Where the instances of the mentioned classes are read through a map onto another domain, which
keeps the individuals, an axiom is true in both or in neither. -/
theorem satisfies_of_image {n m : Interpretation} {f : n.Domain → m.Domain}
    (onto : Function.Surjective f) (names : ∀ i, f (n.denotes i) = m.denotes i) {a : Axiom}
    (same : ∀ c ∈ a.classes, ∀ x, n.instances c x ↔ m.instances c (f x)) :
    n.Satisfies a ↔ m.Satisfies a := by
  cases a with
  | subClassOf sub sup =>
    have at_sub := same sub (List.mem_cons_self ..)
    have at_sup := same sup (List.mem_cons_of_mem _ (List.mem_cons_self ..))
    simp only [Satisfies, at_sub, at_sup, onto.forall]
  | equivalentClasses classes =>
    constructor
    · intro h c hc d hd x
      -- every element of the image comes from one, where the classes are the same
      obtain ⟨y, rfl⟩ := onto x
      rw [← same c hc, ← same d hd]
      exact h c hc d hd y
    · intro h c hc d hd y
      rw [same c hc, same d hd]
      exact h c hc d hd (f y)
  | disjointClasses classes =>
    constructor
    · intro h c hc d hd ne x
      obtain ⟨y, rfl⟩ := onto x
      rw [← same c hc, ← same d hd]
      exact h c hc d hd ne y
    · intro h c hc d hd ne y
      rw [same c hc, same d hd]
      exact h c hc d hd ne (f y)
  | classAssertion cls individual =>
    rw [Satisfies, same cls (List.mem_cons_self ..), names]
    rfl

section

variable {sig : ClassName → Prop} {m k : Interpretation} {thing : sig ClassName.thing}
  {nothing : sig ClassName.nothing} {a : Axiom}

/-- An axiom of the signature says of the joined interpretation what it says of the first. -/
theorem join_satisfies (h : ∀ c ∈ a.classes, sig c) :
    (join sig m k thing nothing).Satisfies a ↔ m.Satisfies a := by
  obtain ⟨y⟩ := k.inhabited
  let first : (join sig m k thing nothing).Domain → m.Domain := Prod.fst
  exact satisfies_of_image (f := first) (fun x => ⟨(x, y), rfl⟩) (fun _ => rfl)
    fun c hc => join_instances (h c hc)

/-- An axiom off the signature says of the joined interpretation what it says of the second. -/
theorem join_satisfies_of_not (h : ∀ c ∈ a.classes, ¬ sig c) :
    (join sig m k thing nothing).Satisfies a ↔ k.Satisfies a := by
  obtain ⟨x⟩ := m.inhabited
  let second : (join sig m k thing nothing).Domain → k.Domain := Prod.snd
  exact satisfies_of_image (f := second) (fun y => ⟨(x, y), rfl⟩) (fun _ => rfl)
    fun c hc => join_instances_of_not (h c hc)

end

end Interpretation

/-- **Axioms apart from a signature** take no part in entailing an axiom of the signature, given
that the axioms have a model. -/
theorem Entails.of_apart {axioms fewer : AxiomSet} {x : Axiom} (sig : ClassName → Prop)
    (thing : sig ClassName.thing) (nothing : sig ClassName.nothing)
    (consistent : Consistent axioms) (at_x : ∀ c ∈ x.classes, sig c)
    (within : ∀ a ∈ fewer, ∀ c ∈ a.classes, sig c)
    (apart : ∀ a ∈ axioms, a ∉ fewer → ∀ c ∈ a.classes, ¬ sig c) (h : Entails axioms x) :
    Entails fewer x := by
  intro m model
  obtain ⟨k, all⟩ := consistent
  have joined : (Interpretation.join sig m k thing nothing).Models axioms := by
    intro a ha
    by_cases kept : a ∈ fewer
    · exact (Interpretation.join_satisfies (within a kept)).2 (model a kept)
    · exact (Interpretation.join_satisfies_of_not (apart a ha kept)).2 (all a ha)
  exact (Interpretation.join_satisfies at_x).1 (h _ joined)

end OntologyService
