import OntologyService.Taxonomy.Basic
import OntologyService.Reasoner.Query

/-!
# The class hierarchy

Queries answered from the closures. A class that cannot have instances lies below every class, and
all such classes are equivalent to one another and to `owl:Nothing`; `isBelow` and `equivalents`
say so, and every other query is built from the two. Results are sets of whole equivalence
classes, and the direct forms keep the nodes with nothing of the result strictly between.
-/

namespace OntologyService

namespace Taxonomy

/-- The first class lies below the second, or is empty. -/
def isBelow (t : Taxonomy) (sub sup : ClassName) : Bool :=
  !t.isSatisfiable sub || decide (sup ∈ t.closure sub)

/-- The classes with the same instances as the class, itself included. -/
def equivalents (t : Taxonomy) (c : ClassName) : ClassSet :=
  if t.isSatisfiable c then
    (t.closure c).filter fun d => decide (d = c) || decide (c ∈ t.closure d)
  else
    (t.classes.filter fun d => !t.isSatisfiable d).insert c

/-- Collects the equivalence classes of the listed classes, one node for each. -/
def groupFrom (t : Taxonomy) (covered : ClassSet) (nodes : NodeSet) : List ClassName → NodeSet
  | [] => nodes
  | c :: cs =>
    if c ∈ covered then groupFrom t covered nodes cs
    else
      let own := t.equivalents c
      groupFrom t (covered ∪ own) (nodes.insert (Node.ofClasses own)) cs

/-- The nodes of some classes. -/
def group (t : Taxonomy) (cs : ClassSet) : NodeSet := t.groupFrom ∅ ∅ cs.toList

/-- The nodes of a result, each with the class that stands for it. -/
def represented (ns : NodeSet) : List (Node × ClassName) :=
  ns.toList.filterMap fun n => n.representative?.map fun c => (n, c)

/-- The nodes with no other node of the result below them. -/
def mostSpecific (t : Taxonomy) (ns : NodeSet) : NodeSet :=
  let reps := represented ns
  .ofList ((reps.filter fun p =>
    !reps.any fun q => decide (q.1 ≠ p.1) && t.isBelow q.2 p.2).map Prod.fst)

/-- The nodes with no other node of the result above them. -/
def mostGeneral (t : Taxonomy) (ns : NodeSet) : NodeSet :=
  let reps := represented ns
  .ofList ((reps.filter fun p =>
    !reps.any fun q => decide (q.1 ≠ p.1) && t.isBelow p.2 q.2).map Prod.fst)

/-- The nodes above a class. -/
def superNodes (t : Taxonomy) (c : ClassName) : NodeSet :=
  let own := t.equivalents c
  let above := if t.isSatisfiable c then t.closure c else t.classes
  t.group (above.filter fun d => decide (d ∉ own))

/-- The nodes below a class. -/
def subNodes (t : Taxonomy) (c : ClassName) : NodeSet :=
  let own := t.equivalents c
  t.group (t.classes.filter fun d => decide (d ∉ own) && t.isBelow d c)

/-- The nodes that share no instance with a class. -/
def disjointNodes (t : Taxonomy) (c : ClassName) : NodeSet :=
  t.group (t.classes.filter fun d => t.isClash (t.closure c ∪ t.closure d))

/-- The individuals known to be in a class, each a node of its own. -/
def instanceNodes (t : Taxonomy) (c : ClassName) : NodeSet :=
  (t.individuals.filter fun i => decide (c ∈ t.types i)).image
    fun i => SortedSet.insert (Entity.ofIndividual i) ∅

/-- The nodes of the classes that an individual is known to be in. -/
def typeNodes (t : Taxonomy) (i : IndividualName) : NodeSet := t.group (t.types i)

/-- The answer to a question about a class. -/
def classQuery (t : Taxonomy) (q : ClassQuery) (c : ClassName) : NodeSet :=
  match q with
  | .equivalentClasses => SortedSet.insert (Node.ofClasses (t.equivalents c)) ∅
  | .superClasses false => t.superNodes c
  | .superClasses true => t.mostSpecific (t.superNodes c)
  | .subClasses false => t.subNodes c
  | .subClasses true => t.mostGeneral (t.subNodes c)
  | .disjointClasses => t.disjointNodes c
  | .instances => t.instanceNodes c

/-- The answer to a question about an individual. -/
def typeQuery (t : Taxonomy) (direct : Bool) (i : IndividualName) : NodeSet :=
  if direct then t.mostSpecific (t.typeNodes i) else t.typeNodes i

end Taxonomy

end OntologyService
