import OntologyService.Ontology.Expression
import OntologyService.Taxonomy.Hierarchy

/-!
# The incremental reasoner

A `Reasoner` holds the axioms of one ontology and the taxonomy told by them. Changes come in
batches and move both together; the revision counts the batches that changed anything.

Answers are functions of the reasoner. That a read also leaves something behind, memoised
closures and the consistency bit, is what `serve` adds: it prepares the reasoner for the request,
answers from what it prepared, and returns both. `Request` and `Reply` list everything that can be
asked of a reasoner, so a list of requests is a history.
-/

namespace OntologyService

/-- The engine over one ontology. -/
structure Reasoner where
  ontology : String
  axioms : AxiomSet := ∅
  taxonomy : Taxonomy := {}
  /-- Whether the axioms are consistent, once somebody asked. -/
  consistent : Option Bool := none
  /-- How many batches changed the axioms. -/
  revision : Nat := 0

namespace Reasoner

/-! ## Changes -/

/-- Takes in axioms one by one and counts those that were new. -/
def addAll (r : Reasoner) : List Axiom → Reasoner × Nat
  | [] => (r, 0)
  | a :: as =>
    if a ∈ r.axioms then r.addAll as
    else
      let (r', n) := addAll { r with axioms := r.axioms.insert a, taxonomy := r.taxonomy.insert a } as
      (r', n + 1)

/-- Takes back axioms one by one and counts those that were there. -/
def removeAll (r : Reasoner) : List Axiom → Reasoner × Nat
  | [] => (r, 0)
  | a :: as =>
    if a ∈ r.axioms then
      let (r', n) :=
        removeAll { r with axioms := r.axioms.erase a, taxonomy := r.taxonomy.remove a } as
      (r', n + 1)
    else r.removeAll as

/-- What a batch changed. -/
structure Change where
  added : Nat
  removed : Nat
deriving DecidableEq

/-- Whether the batch changed anything. -/
def Change.effective (c : Change) : Bool := decide (c.added + c.removed > 0)

/-- Applies the additions, then the removals. -/
def apply (r : Reasoner) (additions removals : List Axiom) : Reasoner × Change :=
  let (r₁, added) := r.addAll additions
  let (r₂, removed) := r₁.removeAll removals
  let change : Change := ⟨added, removed⟩
  if change.effective then ({ r₂ with consistent := none, revision := r.revision + 1 }, change)
  else (r₂, change)

/-- An engine without axioms. -/
def new (ontology : String) : Reasoner := { ontology }

/-- An engine over the listed axioms, unless one of them has a defect. -/
def ofAxioms (ontology : String) (axioms : List Axiom) : Except ReasoningError Reasoner :=
  match Axiom.validateAll axioms with
  | .error e => .error e
  | .ok () => .ok ((new ontology).apply axioms []).1

/-- An engine over a set of axioms, unless one of them has a defect. -/
def ofSet (ontology : String) (axioms : AxiomSet) : Except ReasoningError Reasoner :=
  match Axiom.validateAll axioms.toList with
  | .error e => .error e
  | .ok () => .ok {
      ontology, axioms, taxonomy := axioms.toList.foldl Taxonomy.insert {},
      revision := if axioms.isEmpty then 0 else 1 }

/-- Adding distinct axioms that are not held folds them in and counts every one. -/
theorem addAll_of_new : ∀ (as : List Axiom) (r : Reasoner), as.Nodup → (∀ a ∈ as, a ∉ r.axioms) →
    r.addAll as = ({ r with
      axioms := as.foldl (fun s a => s.insert a) r.axioms
      taxonomy := as.foldl Taxonomy.insert r.taxonomy }, as.length)
  | [], _, _, _ => rfl
  | a :: as, r, distinct, new => by
    rw [List.nodup_cons] at distinct
    have later : ∀ b ∈ as, b ∉ r.axioms.insert a := by
      intro b hb
      rw [SortedSet.mem_insert]
      rintro (rfl | h)
      · exact distinct.1 hb
      · exact new b (List.mem_cons_of_mem _ hb) h
    rw [addAll, if_neg (new a (List.mem_cons_self ..))]
    rw [addAll_of_new as _ distinct.2 later]
    rfl

/-- A set of axioms gives the engine that its listing gives. -/
theorem ofSet_eq_ofAxioms (ontology : String) (axioms : AxiomSet) :
    ofSet ontology axioms = ofAxioms ontology axioms.toList := by
  have distinct : axioms.toList.Nodup := axioms.sorted.imp Ranked.Before.ne
  have same : axioms.toList.foldl (fun s a => s.insert a) ∅ = axioms := SortedSet.ofList_toList axioms
  unfold ofSet ofAxioms
  split
  · rfl
  · have added := addAll_of_new axioms.toList (new ontology) distinct fun a _ =>
      SortedSet.not_mem_empty a
    simp only [new] at added
    rw [same] at added
    simp only [apply, new, added, removeAll, Change.effective, SortedSet.isEmpty]
    by_cases h : axioms.toList = []
    · simp [h]
    · simp [h, List.length_pos_iff]

/-- Memoises every closure. -/
def classify (r : Reasoner) : Reasoner := { r with taxonomy := r.taxonomy.classify }

/-- Drops the axioms and everything derived from them. -/
def dispose (r : Reasoner) : Reasoner := { r with axioms := ∅, taxonomy := {}, consistent := none }

/-! ## Answers -/

/-- Whether the axioms have a model. -/
def isConsistent (r : Reasoner) : Bool := r.consistent.getD r.taxonomy.isConsistent

/-- Whether a conjunct can have an instance. Different individuals are different things, so two
of them have no instance in common. -/
def canHold (t : Taxonomy) (p : Conjunct) : Bool :=
  let supers := p.nominals.toList.foldl (fun acc i => acc ∪ t.types i)
    (t.jointClosure p.classes.toList)
  decide (p.nominals.size ≤ 1) && p.nominals.disjoint p.negatedNominals &&
    !t.isClash supers && p.negatedClasses.disjoint supers

/-- Whether the expression has an instance in some model; without a model, nothing has. -/
def isSatisfiable (r : Reasoner) (e : ClassExpression) : Except ReasoningError Bool :=
  if r.isConsistent then
    match e.dnf with
    | .ok conjuncts => .ok (conjuncts.any (canHold r.taxonomy))
    | .error err => .error err
  else .ok false

/-- Whether the axiom holds in every model. -/
def isEntailed (r : Reasoner) (a : Axiom) : Except ReasoningError Bool :=
  match a.validate with
  | .error err => .error err
  | .ok () =>
    match r.isSatisfiable (.ofAxiom a) with
    | .ok b => .ok (!b)
    | .error err => .error err

/-- The answer to a query. -/
def query (r : Reasoner) (kind : QueryKind) (e : Entity) : Except ReasoningError NodeSet :=
  if !r.isConsistent then .error (.inconsistent r.ontology)
  else
    match kind, e with
    | .aboutClass q, .ofClass c =>
      if r.taxonomy.hasClass c then .ok (r.taxonomy.classQuery q c)
      else .error (.unknownEntity e.render)
    | .aboutIndividual direct, .ofIndividual i =>
      if r.taxonomy.hasIndividual i then .ok (r.taxonomy.typeQuery direct i)
      else .error (.unknownEntity e.render)
    | .aboutClass _, .ofIndividual _ | .aboutIndividual _, .ofClass _ =>
      .error (.invalidQuery kind.name e.render)

/-- The individuals with an asserted class. -/
def individuals (r : Reasoner) : SortedSet IndividualName := r.taxonomy.individuals

/-! ## Histories -/

/-- What can be asked of a reasoner. -/
inductive Request where
  | apply (additions removals : List Axiom)
  | classify
  | dispose
  | consistent
  | satisfiable (e : ClassExpression)
  | entailed (a : Axiom)
  | query (kind : QueryKind) (e : Entity)

/-- What a reasoner answers. -/
inductive Reply where
  | change (c : Change)
  | done
  | truth (b : Bool)
  | nodes (ns : NodeSet)
  | refused (e : ReasoningError)

/-- The reply of a call that may refuse. -/
def Reply.ofExcept {α : Type} (answer : α → Reply) : Except ReasoningError α → Reply
  | .ok a => answer a
  | .error e => .refused e

/-- Memoises the closures of some classes. -/
def remember (r : Reasoner) (cs : List ClassName) : Reasoner :=
  { r with taxonomy := r.taxonomy.rememberAll cs }

/-- Finds out whether the axioms are consistent, and keeps the closures met on the way. -/
def settle (r : Reasoner) : Reasoner :=
  match r.consistent with
  | some _ => r
  | none =>
    let r := r.remember
      (ClassName.thing :: r.individuals.toList.flatMap r.taxonomy.asserted.targets)
    { r with consistent := some r.isConsistent }

/-- The classes whose closures decide about an expression. -/
def classesFor (r : Reasoner) (e : ClassExpression) : List ClassName :=
  e.signature.toList.flatMap fun
    | .ofClass c => [c]
    | .ofIndividual i => r.taxonomy.asserted.targets i

/-- Works out beforehand what decides about an expression. -/
def prepare (r : Reasoner) (e : ClassExpression) : Reasoner := r.settle.remember (r.classesFor e)

/-- Answers a request, and keeps what was worked out for it. -/
def serve (r : Reasoner) : Request → Reply × Reasoner
  | .apply additions removals =>
    let (r', c) := r.apply additions removals
    (.change c, r')
  | .classify => (.done, r.classify)
  | .dispose => (.done, r.dispose)
  | .consistent =>
    let r' := r.settle
    (.truth r'.isConsistent, r')
  | .satisfiable e =>
    let r' := r.prepare e
    (.ofExcept .truth (r'.isSatisfiable e), r')
  | .entailed a =>
    let r' := r.prepare (.ofAxiom a)
    (.ofExcept .truth (r'.isEntailed a), r')
  | .query kind e =>
    let r' := r.settle.classify
    (.ofExcept .nodes (r'.query kind e), r')

end Reasoner

end OntologyService
