import OntologyService.Ontology.Expression

/-!
# What axioms and expressions mean

An interpretation reads the names: each class has its instances in some domain, and each individual
is a thing of the domain. That the domain has an element, that `owl:Thing` is all of it and
`owl:Nothing` none of it, and that different individuals are different things, is part of being an
interpretation and never a premise of a theorem.

Expressions are read at one element at a time. At an element every class name is true or false, and
so is being a given individual, so an expression is a propositional formula over a `Valuation` of
the names. The meaning of an expression in an interpretation is its truth under the valuation of
each element.

Nothing here looks at how the engine decides. These definitions are the other side of every law of
soundness and completeness.
-/

namespace OntologyService

/-- Which class names and which individuals are true of something. -/
structure Valuation where
  classes : ClassName → Prop
  nominals : IndividualName → Prop

namespace ClassExpression

mutual

/-- The truth of an expression under a valuation. -/
def Holds (v : Valuation) : ClassExpression → Prop
  | ofClass c => v.classes c
  | nominal i => v.nominals i
  | not e => ¬ Holds v e
  | and es => HoldsAll v es
  | or es => HoldsAny v es

/-- All of the expressions are true. -/
def HoldsAll (v : Valuation) : List ClassExpression → Prop
  | [] => True
  | e :: es => Holds v e ∧ HoldsAll v es

/-- One of the expressions is true. -/
def HoldsAny (v : Valuation) : List ClassExpression → Prop
  | [] => False
  | e :: es => Holds v e ∨ HoldsAny v es

end

/-- All of a list hold if and only if each member does. -/
theorem holdsAll_iff {v : Valuation} : ∀ {es : List ClassExpression},
    HoldsAll v es ↔ ∀ e ∈ es, Holds v e
  | [] => by simp only [HoldsAll, List.not_mem_nil, false_implies, implies_true]
  | e :: es => by rw [HoldsAll, holdsAll_iff, List.forall_mem_cons]

/-- One of a list holds if and only if some member does. -/
theorem holdsAny_iff {v : Valuation} : ∀ {es : List ClassExpression},
    HoldsAny v es ↔ ∃ e ∈ es, Holds v e
  | [] => by simp only [HoldsAny, List.not_mem_nil, false_and, exists_false]
  | e :: es => by simp only [HoldsAny, holdsAny_iff, List.mem_cons, exists_eq_or_imp]

end ClassExpression

/-- The truth of a conjunct: all its positive names are true, and no negated one. -/
structure Conjunct.Holds (v : Valuation) (p : Conjunct) : Prop where
  classes : ∀ c ∈ p.classes, v.classes c
  negatedClasses : ∀ c ∈ p.negatedClasses, ¬ v.classes c
  nominals : ∀ i ∈ p.nominals, v.nominals i
  negatedNominals : ∀ i ∈ p.negatedNominals, ¬ v.nominals i

/-- **An interpretation** of the class and individual names. -/
structure Interpretation where
  Domain : Type
  /-- The element is an instance of the class. -/
  instances : ClassName → Domain → Prop
  /-- What the individual is. -/
  denotes : IndividualName → Domain
  inhabited : Nonempty Domain
  thing : ∀ x, instances ClassName.thing x
  nothing : ∀ x, ¬ instances ClassName.nothing x
  /-- Different individuals are different things. -/
  unique : Function.Injective denotes

namespace Interpretation

/-- What is true of an element. -/
def valuation (m : Interpretation) (x : m.Domain) : Valuation where
  classes c := m.instances c x
  nominals i := m.denotes i = x

/-- The element belongs to the expression. -/
def Belongs (m : Interpretation) (x : m.Domain) (e : ClassExpression) : Prop :=
  e.Holds (m.valuation x)

/-- The axiom is true in the interpretation. -/
def Satisfies (m : Interpretation) : Axiom → Prop
  | .subClassOf sub sup => ∀ x, m.instances sub x → m.instances sup x
  | .equivalentClasses classes =>
    ∀ c ∈ classes, ∀ d ∈ classes, ∀ x, m.instances c x ↔ m.instances d x
  | .disjointClasses classes =>
    ∀ c ∈ classes, ∀ d ∈ classes, c ≠ d → ∀ x, ¬ (m.instances c x ∧ m.instances d x)
  | .classAssertion cls individual => m.instances cls (m.denotes individual)

/-- **A model** of some axioms: each of them is true in it. -/
def Models {γ : Type} [Membership Axiom γ] (m : Interpretation) (axioms : γ) : Prop :=
  ∀ a ∈ axioms, m.Satisfies a

end Interpretation

section

variable {γ : Type} [Membership Axiom γ]

/-- The axioms have a model. -/
def Consistent (axioms : γ) : Prop := ∃ m : Interpretation, m.Models axioms

/-- The axiom is true in every model of the axioms. -/
def Entails (axioms : γ) (a : Axiom) : Prop :=
  ∀ m : Interpretation, m.Models axioms → m.Satisfies a

/-- Some model of the axioms has an element that belongs to the expression. -/
def Possible (axioms : γ) (e : ClassExpression) : Prop :=
  ∃ m : Interpretation, m.Models axioms ∧ ∃ x : m.Domain, m.Belongs x e

end

end OntologyService
