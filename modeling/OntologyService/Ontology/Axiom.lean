import OntologyService.Ontology.Entity
import OntologyService.Failure.Reasoning

/-!
# Axioms

The statements of the supported fragment of OWL: one class below another, several classes equal,
several classes pairwise disjoint, an individual in a class. The n-ary forms hold a set of
classes, so neither order nor repetition can make two statements of the same thing.

`defect?` says what makes an axiom one that the engine cannot hold: an empty name, or an n-ary
form over fewer than two classes. Axioms are ordered by form and then by the names they hold.
-/

namespace OntologyService

/-- A statement about classes and individuals. -/
inductive Axiom where
  /-- Every instance of `sub` is an instance of `sup`. -/
  | subClassOf (sub sup : ClassName)
  /-- All the classes have the same instances. -/
  | equivalentClasses (classes : ClassSet)
  /-- No two of the classes share an instance. -/
  | disjointClasses (classes : ClassSet)
  /-- The individual is an instance of the class. -/
  | classAssertion (cls : ClassName) (individual : IndividualName)
deriving DecidableEq

namespace Axiom

/-- By form, then by the names that the axiom holds. -/
def key : Axiom → Nat × List String
  | subClassOf sub sup => (0, [sub.text, sup.text])
  | equivalentClasses classes => (1, classes.toList.map ClassName.text)
  | disjointClasses classes => (2, classes.toList.map ClassName.text)
  | classAssertion cls individual => (3, [cls.text, individual.text])

private theorem map_text_injective : ∀ {as bs : List ClassName},
    as.map ClassName.text = bs.map ClassName.text → as = bs
  | [], [], _ => rfl
  | [], _ :: _, h => by cases h
  | _ :: _, [], h => by cases h
  | ⟨_⟩ :: as, ⟨_⟩ :: bs, h => by
    simp only [List.map_cons, List.cons.injEq] at h
    rw [h.1, map_text_injective h.2]

/-- Axioms with equal keys are equal. -/
theorem key_injective : ∀ {a b : Axiom}, a.key = b.key → a = b
  | subClassOf ⟨_⟩ ⟨_⟩, subClassOf ⟨_⟩ ⟨_⟩, h => by cases h; rfl
  | equivalentClasses _, equivalentClasses _, h => by
    rw [SortedSet.toList_injective (map_text_injective (Prod.mk.inj h).2)]
  | disjointClasses _, disjointClasses _, h => by
    rw [SortedSet.toList_injective (map_text_injective (Prod.mk.inj h).2)]
  | classAssertion ⟨_⟩ ⟨_⟩, classAssertion ⟨_⟩ ⟨_⟩, h => by cases h; rfl
  | subClassOf .., equivalentClasses _, h | subClassOf .., disjointClasses _, h
  | subClassOf .., classAssertion .., h | equivalentClasses _, subClassOf .., h
  | equivalentClasses _, disjointClasses _, h | equivalentClasses _, classAssertion .., h
  | disjointClasses _, subClassOf .., h | disjointClasses _, equivalentClasses _, h
  | disjointClasses _, classAssertion .., h | classAssertion .., subClassOf .., h
  | classAssertion .., equivalentClasses _, h | classAssertion .., disjointClasses _, h => by
    cases (Prod.mk.inj h).1

instance : Ranked Axiom := Ranked.comap key key_injective

end Axiom

/-- A batch of axioms, in order and without repetition. -/
abbrev AxiomSet := SortedSet Axiom

namespace Axiom

/-- The classes side by side, separated by blanks. -/
def renderClasses (classes : ClassSet) : String :=
  " ".intercalate (classes.toList.map ClassName.text)

/-- The axiom in functional style. -/
def render : Axiom → String
  | subClassOf sub sup => "SubClassOf(" ++ sub.text ++ " " ++ sup.text ++ ")"
  | equivalentClasses classes => "EquivalentClasses(" ++ renderClasses classes ++ ")"
  | disjointClasses classes => "DisjointClasses(" ++ renderClasses classes ++ ")"
  | classAssertion cls individual =>
    "ClassAssertion(" ++ cls.text ++ " " ++ individual.text ++ ")"

/-- The classes that the axiom mentions, in the order in which it holds them. -/
def classes : Axiom → List ClassName
  | subClassOf sub sup => [sub, sup]
  | equivalentClasses cs | disjointClasses cs => cs.toList
  | classAssertion cls _ => [cls]

/-- The entities that the axiom mentions, in the order in which it holds them. -/
def mentioned : Axiom → List Entity
  | subClassOf sub sup => [.ofClass sub, .ofClass sup]
  | equivalentClasses cs | disjointClasses cs => cs.toList.map .ofClass
  | classAssertion cls individual => [.ofClass cls, .ofIndividual individual]

/-- Every ordered pair of different classes of the list. -/
def distinctPairs (classes : List ClassName) : List (ClassName × ClassName) :=
  classes.flatMap fun a => (classes.filter fun b => decide (b ≠ a)).map fun b => (a, b)

/-- The subsumptions that the axiom states outright, each as a class and one above it. -/
def edges : Axiom → List (ClassName × ClassName)
  | subClassOf sub sup => [(sub, sup)]
  | equivalentClasses classes => distinctPairs classes.toList
  | disjointClasses _ | classAssertion _ _ => []

/-- The pairs that the axiom declares disjoint, in both directions. -/
def conflicts : Axiom → List (ClassName × ClassName)
  | disjointClasses classes => distinctPairs classes.toList
  | subClassOf _ _ | equivalentClasses _ | classAssertion _ _ => []

/-- The memberships that the axiom asserts. -/
def memberships : Axiom → List (IndividualName × ClassName)
  | classAssertion cls individual => [(individual, cls)]
  | subClassOf _ _ | equivalentClasses _ | disjointClasses _ => []

/-- What keeps an axiom out of the engine. -/
inductive Defect where
  | emptyClassName
  | fewerThanTwoClasses
  | emptyName
deriving DecidableEq

/-- The defect in words. -/
def Defect.message : Defect → String
  | emptyClassName => "class names must not be empty"
  | fewerThanTwoClasses => "at least two distinct classes are required"
  | emptyName => "class and individual names must not be empty"

/-- The defect of an n-ary form: too few classes, or else an empty name among them. -/
def groupDefect? (classes : ClassSet) : Option Defect :=
  if classes.size < 2 then some .fewerThanTwoClasses
  else if classes.toList.any fun c => c.text = "" then some .emptyClassName
  else none

/-- The defect of an axiom, if it has one. -/
def defect? : Axiom → Option Defect
  | subClassOf sub sup => if sub.text = "" ∨ sup.text = "" then some .emptyClassName else none
  | equivalentClasses classes | disjointClasses classes => groupDefect? classes
  | classAssertion cls individual =>
    if cls.text = "" ∨ individual.text = "" then some .emptyName else none

/-- The engine can hold the axiom. -/
def Valid (a : Axiom) : Prop := a.defect? = none

instance (a : Axiom) : Decidable a.Valid := inferInstanceAs (Decidable (a.defect? = none))

/-- Refuses an axiom that has a defect. -/
def validate (a : Axiom) : Except ReasoningError Unit :=
  match a.defect? with
  | none => .ok ()
  | some d => .error (.malformedAxiom a.render d.message)

/-- Refuses a batch at its first axiom that has a defect. -/
def validateAll : List Axiom → Except ReasoningError Unit
  | [] => .ok ()
  | a :: rest =>
    match a.validate with
    | .ok () => validateAll rest
    | .error e => .error e

end Axiom

end OntologyService
