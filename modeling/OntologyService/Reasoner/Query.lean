import OntologyService.Ontology.Entity

/-!
# Queries and their answers

A query asks about one entity: five kinds of question about a class, two of which come with a
direct form, and one about an individual, with a direct form. An answer is a set of nodes, and a
node is a set of entities that are equivalent to one another.
-/

namespace OntologyService

/-- A question about a class. -/
inductive ClassQuery where
  | equivalentClasses
  | superClasses (direct : Bool)
  | subClasses (direct : Bool)
  | disjointClasses
  | instances
deriving DecidableEq

/-- A question about an entity, and so about which kind of entity it is. -/
inductive QueryKind where
  | aboutClass (q : ClassQuery)
  /-- The types of an individual, or only its most specific ones. -/
  | aboutIndividual (direct : Bool)
deriving DecidableEq

namespace QueryKind

/-- Every kind of query. -/
def all : List QueryKind :=
  [ aboutClass .equivalentClasses, aboutClass (.superClasses false),
    aboutClass (.superClasses true), aboutClass (.subClasses false),
    aboutClass (.subClasses true), aboutClass .disjointClasses, aboutClass .instances,
    aboutIndividual false, aboutIndividual true ]

/-- The name by which requests and messages refer to the kind. -/
def name : QueryKind → String
  | aboutClass .equivalentClasses => "equivalent_classes"
  | aboutClass (.superClasses false) => "super_classes"
  | aboutClass (.superClasses true) => "direct_super_classes"
  | aboutClass (.subClasses false) => "sub_classes"
  | aboutClass (.subClasses true) => "direct_sub_classes"
  | aboutClass .disjointClasses => "disjoint_classes"
  | aboutClass .instances => "instances"
  | aboutIndividual false => "types"
  | aboutIndividual true => "direct_types"

/-- The kind with the name, which has to be spelled exactly. -/
def ofName? (s : String) : Option QueryKind := all.find? fun k => decide (k.name = s)

/-- What is said of a name that no kind has. -/
def unknownName (s : String) : String := s!"unknown query kind \"{s}\""

/-- Whether the query is about a class. -/
def takesClass : QueryKind → Bool
  | aboutClass _ => true
  | aboutIndividual _ => false

end QueryKind

/-- Entities that are equivalent to one another. -/
abbrev Node := SortedSet Entity

/-- The answer to a query. -/
abbrev NodeSet := SortedSet Node

namespace Node

/-- The node of some classes. -/
def ofClasses (cs : ClassSet) : Node := cs.image Entity.ofClass

/-- The first class of a node, which stands for it in comparisons. -/
def representative? (n : Node) : Option ClassName :=
  n.toList.findSome? fun
    | .ofClass c => some c
    | .ofIndividual _ => none

end Node

namespace NodeSet

/-- Every entity of every node. -/
def entities (ns : NodeSet) : SortedSet Entity :=
  ns.toList.foldl (fun acc n => acc ∪ n) ∅

/-- Whether some node has the entity. -/
def containsEntity (ns : NodeSet) (e : Entity) : Bool := ns.toList.any fun n => decide (e ∈ n)

end NodeSet

end OntologyService
