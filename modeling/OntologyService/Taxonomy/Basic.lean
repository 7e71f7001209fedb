import OntologyService.Taxonomy.Tally
import OntologyService.Ontology.Axiom

/-!
# The told taxonomy

The index that answers are read from. It holds what the axioms state outright: subsumption edges,
disjoint pairs, asserted memberships and the classes in use, each with the number of axioms that
support it. Everything else follows from `closure`, the set of classes reached from a class and
from `owl:Thing` along the edges.

Closures are memoised. A change at an edge evicts the memoised closures that contain the edge's
lower class, and only if the edge appears or disappears; every other closure is still right,
because a path that uses the edge passes through its lower class.

Reading never needs the memo to be filled: `closure` answers from the memo where it can and
follows the edges where it cannot, and `remember` is the one operation that fills it.
-/

namespace OntologyService

/-- What the axioms state outright, with the number of supports of each fact. -/
structure Taxonomy where
  /-- From each class to the classes stated to be above it. -/
  supers : Links ClassName := ∅
  /-- Declared disjointness, in both directions. -/
  disjoint : Links ClassName := ∅
  /-- From each individual to the classes it is asserted to be in. -/
  asserted : Links IndividualName := ∅
  /-- The classes in use, with the number of their occurrences. -/
  inUse : Tally ClassName := ∅
  /-- Closures computed earlier and not evicted since. -/
  closures : Table ClassName ClassSet := ∅

namespace Taxonomy

/-! ## Closures -/

/-- Adds everything that the queue reaches. A class is expanded when it is first met, so the walk
takes at most one step per class of the first queue and one per edge. -/
def follow (supers : Links ClassName) :
    Nat → Table ClassName Unit → List ClassName → Table ClassName Unit
  | 0, seen, _ => seen
  | _ + 1, seen, [] => seen
  | steps + 1, seen, c :: queue =>
    if seen.contains c then follow supers steps seen queue
    else follow supers steps (seen.insert c ()) (supers.targets c ++ queue)

/-- The classes reached from the class and from `owl:Thing` along the edges, themselves included. -/
def reach (t : Taxonomy) (c : ClassName) : ClassSet :=
  (follow t.supers (t.supers.count + 2) ∅ [c, ClassName.thing]).keySet

/-- The classes that subsume the class, from the memo where it has them. -/
def closure (t : Taxonomy) (c : ClassName) : ClassSet :=
  match t.closures.get? c with
  | some known => known
  | none => t.reach c

/-- Memoises the closure of a class. -/
def remember (t : Taxonomy) (c : ClassName) : Taxonomy :=
  { t with closures := t.closures.insert c (t.closure c) }

/-- Memoises the closures of several classes. -/
def rememberAll (t : Taxonomy) (cs : List ClassName) : Taxonomy := cs.foldl remember t

/-- Forgets the memoised closures that contain the class. -/
def evict (t : Taxonomy) (c : ClassName) : Taxonomy :=
  { t with closures := t.closures.filter fun _ closure => decide (c ∉ closure) }

/-! ## Changes -/

/-- One support more for an edge; closures go stale only when the edge is new. -/
def addEdge (t : Taxonomy) (e : ClassName × ClassName) : Taxonomy :=
  let t' := { t with supers := t.supers.support e.1 e.2 }
  if t.supers.linked e.1 e.2 then t' else t'.evict e.1

/-- One support less for an edge; closures go stale only when it was the last. -/
def removeEdge (t : Taxonomy) (e : ClassName × ClassName) : Taxonomy :=
  let t' := { t with supers := t.supers.retract e.1 e.2 }
  if t.supers.linked e.1 e.2 && !t'.supers.linked e.1 e.2 then t'.evict e.1 else t'

/-- Takes in what an axiom states. -/
def insert (t : Taxonomy) (a : Axiom) : Taxonomy :=
  let t' := a.edges.foldl addEdge t
  { t' with
    disjoint := a.conflicts.foldl (fun ls p => ls.support p.1 p.2) t'.disjoint
    asserted := a.memberships.foldl (fun ls p => ls.support p.1 p.2) t'.asserted
    inUse := a.classes.foldl (fun m c => m.increment c) t'.inUse }

/-- Takes back what an axiom states. -/
def remove (t : Taxonomy) (a : Axiom) : Taxonomy :=
  let t' := a.edges.foldl removeEdge t
  { t' with
    disjoint := a.conflicts.foldl (fun ls p => ls.retract p.1 p.2) t'.disjoint
    asserted := a.memberships.foldl (fun ls p => ls.retract p.1 p.2) t'.asserted
    inUse := a.classes.foldl (fun m c => m.decrement c) t'.inUse }

/-! ## Reading -/

/-- The classes in use, and the two reserved ones. -/
def classes (t : Taxonomy) : ClassSet :=
  (t.inUse.keySet.insert ClassName.thing).insert ClassName.nothing

/-- Whether the class is reserved or in use. -/
def hasClass (t : Taxonomy) (c : ClassName) : Bool :=
  decide (c = ClassName.thing) || decide (c = ClassName.nothing) || t.inUse.contains c

/-- The individuals with an asserted class. -/
def individuals (t : Taxonomy) : SortedSet IndividualName := t.asserted.keySet

/-- Whether the individual has an asserted class. -/
def hasIndividual (t : Taxonomy) (i : IndividualName) : Bool := t.asserted.contains i

/-- The union of the closures of several classes and of `owl:Thing`. -/
def jointClosure (t : Taxonomy) (cs : List ClassName) : ClassSet :=
  cs.foldl (fun acc c => acc ∪ t.closure c) (t.closure ClassName.thing)

/-- The classes that an individual is known to be in. -/
def types (t : Taxonomy) (i : IndividualName) : ClassSet := t.jointClosure (t.asserted.targets i)

/-- Whether nothing can be in all the classes: one of them is `owl:Nothing`, or two of them are
declared disjoint. -/
def isClash (t : Taxonomy) (s : ClassSet) : Bool :=
  decide (ClassName.nothing ∈ s) ||
    s.toList.any fun c => (t.disjoint.targets c).any fun d => decide (d ∈ s)

/-- Whether something can be in the class. -/
def isSatisfiable (t : Taxonomy) (c : ClassName) : Bool := !t.isClash (t.closure c)

/-- Whether there can be anything at all, and each individual can be what it is asserted to be. -/
def isConsistent (t : Taxonomy) : Bool :=
  t.isSatisfiable ClassName.thing &&
    t.individuals.toList.all fun i => !t.isClash (t.types i)

/-- Memoises the closure of every class. -/
def classify (t : Taxonomy) : Taxonomy := t.rememberAll t.classes.toList

end Taxonomy

end OntologyService
