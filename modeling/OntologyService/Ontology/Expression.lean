import OntologyService.Ontology.Axiom

/-!
# Class expressions and their disjunctive normal form

An axiom is decided by refutation: `ofAxiom` builds an expression that has an instance in exactly
those models in which the axiom fails. Whether an expression can have an instance is decided on
its disjunctive normal form, a list of `Conjunct`s of which one has to hold.

The normal form is built by De Morgan's rules in one pass that carries the polarity. A union
appends, an intersection distributes; the expansion stops as soon as a list would pass
`maxConjuncts`.
-/

namespace OntologyService

/-- An expression over named classes and individuals. -/
inductive ClassExpression where
  | ofClass (name : ClassName)
  /-- The class whose one instance is the individual. -/
  | nominal (name : IndividualName)
  | not (inner : ClassExpression)
  /-- Intersection; of no expressions, everything. -/
  | and (items : List ClassExpression)
  /-- Union; of no expressions, nothing. -/
  | or (items : List ClassExpression)

/-- An intersection of named classes and individuals, each as it is or negated. -/
structure Conjunct where
  classes : ClassSet := ∅
  negatedClasses : ClassSet := ∅
  nominals : SortedSet IndividualName := ∅
  negatedNominals : SortedSet IndividualName := ∅
deriving DecidableEq

/-- The intersection of two conjuncts. -/
def Conjunct.merge (p q : Conjunct) : Conjunct where
  classes := p.classes ∪ q.classes
  negatedClasses := p.negatedClasses ∪ q.negatedClasses
  nominals := p.nominals ∪ q.nominals
  negatedNominals := p.negatedNominals ∪ q.negatedNominals

namespace ClassExpression

/-- What distinguishes two classes: something in the first and not in the second. -/
def difference (a b : ClassName) : ClassExpression := .and [.ofClass a, .not (.ofClass b)]

/-- The pairs of an element with a later one. -/
def laterPairs {α : Type} : List α → List (α × α)
  | [] => []
  | a :: as => as.map (fun b => (a, b)) ++ laterPairs as

/-- An expression that has an instance in a model exactly if the axiom fails in it. -/
def ofAxiom : Axiom → ClassExpression
  | .subClassOf sub sup => difference sub sup
  | .equivalentClasses classes =>
    .or ((Axiom.distinctPairs classes.toList).map fun p => difference p.1 p.2)
  | .disjointClasses classes =>
    .or ((laterPairs classes.toList).map fun p => .and [.ofClass p.1, .ofClass p.2])
  | .classAssertion cls individual => .and [.nominal individual, .not (.ofClass cls)]

mutual

/-- The entities that the expression mentions, added to those already met. -/
def mentionedOnto (seen : SortedSet Entity) : ClassExpression → SortedSet Entity
  | ofClass c => seen.insert (.ofClass c)
  | nominal i => seen.insert (.ofIndividual i)
  | not e => mentionedOnto seen e
  | and es | or es => mentionedInOnto seen es

/-- The entities that the expressions mention, added to those already met. -/
def mentionedInOnto (seen : SortedSet Entity) : List ClassExpression → SortedSet Entity
  | [] => seen
  | e :: es => mentionedInOnto (mentionedOnto seen e) es

end

/-- The entities that the expression mentions. -/
def signature (e : ClassExpression) : SortedSet Entity := mentionedOnto ∅ e

/-- The most conjuncts that a normal form may have. -/
def maxConjuncts : Nat := 4096

/-- Refuses a number of conjuncts beyond the bound. -/
def checkSize (terms : Nat) : Except ReasoningError Unit :=
  if terms > maxConjuncts then .error (.tooComplex terms maxConjuncts) else .ok ()

/-- The conjunct of a class, as it is or negated. -/
def classConjunct (positive : Bool) (c : ClassName) : Conjunct :=
  if positive then { classes := SortedSet.insert c ∅ }
  else { negatedClasses := SortedSet.insert c ∅ }

/-- The conjunct of an individual, as it is or negated. -/
def nominalConjunct (positive : Bool) (i : IndividualName) : Conjunct :=
  if positive then { nominals := SortedSet.insert i ∅ }
  else { negatedNominals := SortedSet.insert i ∅ }

/-- Every way to meet a conjunct of the left list and one of the right list at once. -/
def distribute (left right : List Conjunct) : List Conjunct :=
  left.flatMap fun p => right.map fun q => p.merge q

mutual

/-- The normal form of the expression, or with `positive = false` that of its complement. -/
def expand (positive : Bool) : ClassExpression → Except ReasoningError (List Conjunct)
  | ofClass c => .ok [classConjunct positive c]
  | nominal i => .ok [nominalConjunct positive i]
  | not e => expand (!positive) e
  | and es => if positive then expandAll positive [{}] es else expandAny positive 0 es
  | or es => if positive then expandAny positive 0 es else expandAll positive [{}] es

/-- Joins the normal forms, and checks the length after each; `before` conjuncts precede them. -/
def expandAny (positive : Bool) (before : Nat) :
    List ClassExpression → Except ReasoningError (List Conjunct)
  | [] => .ok []
  | e :: es => do
    let terms ← expand positive e
    let upTo := before + terms.length
    checkSize upTo
    let later ← expandAny positive upTo es
    return terms ++ later

/-- Distributes the normal forms one by one, and checks the length before each. -/
def expandAll (positive : Bool) (found : List Conjunct) :
    List ClassExpression → Except ReasoningError (List Conjunct)
  | [] => .ok found
  | e :: es => do
    let terms ← expand positive e
    checkSize (found.length * terms.length)
    expandAll positive (distribute found terms) es

end

/-- The disjunctive normal form: the expression has an instance exactly if a conjunct does. -/
def dnf (e : ClassExpression) : Except ReasoningError (List Conjunct) := expand true e

end ClassExpression

end OntologyService
