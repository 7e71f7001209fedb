import OntologyService.Json.Decode
import OntologyService.Ontology.Expression
import OntologyService.Reasoner.Query
import OntologyService.Explanation.Generator

/-!
# The ontology on the wire

How names, entities, axioms, expressions and the answers about them are written as JSON and read
back. Sets are written in order and without repetitions and read in any order and with any; a
variant is an object with its tag for a key.
-/

namespace OntologyService

variable {α : Type}

/-- A set as the array of its elements. -/
def SortedSet.toJson [Ranked α] (item : α → Json) (s : SortedSet α) : Json :=
  .arr (s.toList.map item)

namespace ClassName

/-- A class by its name. -/
def toJson (c : ClassName) : Json := .str c.text

/-- Reads a class by its name. -/
def decode : Decoder ClassName := fun room j => (Decoder.string room j).map ClassName.mk

end ClassName

namespace IndividualName

/-- An individual by its name. -/
def toJson (i : IndividualName) : Json := .str i.text

/-- Reads an individual by its name. -/
def decode : Decoder IndividualName := fun room j =>
  (Decoder.string room j).map IndividualName.mk

end IndividualName

namespace Entity

/-- An entity under the tag of its kind. -/
def toJson : Entity → Json
  | ofClass c => .obj [("class", c.toJson)]
  | ofIndividual i => .obj [("individual", i.toJson)]

/-- Reads an entity under the tag of its kind. -/
def decode : Decoder Entity := fun room j =>
  match Decoder.variant room j with
  | some ("class", some s) => (s.required 0 ClassName.decode).map ofClass
  | some ("individual", some s) => (s.required 0 IndividualName.decode).map ofIndividual
  | _ => none

end Entity

namespace Axiom

/-- The record of an n-ary form. -/
def classesJson (classes : ClassSet) : Json := .obj [("classes", classes.toJson ClassName.toJson)]

/-- An axiom as a record under the tag of its form. -/
def toJson : Axiom → Json
  | subClassOf sub sup =>
    .obj [("sub_class_of", .obj [("sub", sub.toJson), ("sup", sup.toJson)])]
  | equivalentClasses classes => .obj [("equivalent_classes", classesJson classes)]
  | disjointClasses classes => .obj [("disjoint_classes", classesJson classes)]
  | classAssertion cls individual =>
    .obj [("class_assertion", .obj [("class", cls.toJson), ("individual", individual.toJson)])]

/-- Reads the two classes of a subsumption. -/
def decodeSubClassOf : Decoder Axiom := fun room j => do
  let s ← Decoder.record ["sub", "sup"] room j
  return subClassOf (← s.required 0 ClassName.decode) (← s.required 1 ClassName.decode)

/-- Reads the classes of an n-ary form. -/
def decodeClasses : Decoder ClassSet := fun room j => do
  let s ← Decoder.record ["classes"] room j
  s.required 0 (Decoder.set ClassName.decode)

/-- Reads the class and the individual of an assertion. -/
def decodeAssertion : Decoder Axiom := fun room j => do
  let s ← Decoder.record ["class", "individual"] room j
  return classAssertion (← s.required 0 ClassName.decode) (← s.required 1 IndividualName.decode)

/-- Reads an axiom. -/
def decode : Decoder Axiom := fun room j =>
  match Decoder.variant room j with
  | some ("sub_class_of", some s) => s.required 0 decodeSubClassOf
  | some ("equivalent_classes", some s) => (s.required 0 decodeClasses).map equivalentClasses
  | some ("disjoint_classes", some s) => (s.required 0 decodeClasses).map disjointClasses
  | some ("class_assertion", some s) => s.required 0 decodeAssertion
  | _ => none

end Axiom

namespace AxiomSet

/-- A batch as an array. -/
def toJson (as : AxiomSet) : Json := SortedSet.toJson Axiom.toJson as

/-- Reads a batch. -/
def decode : Decoder AxiomSet := Decoder.set Axiom.decode

end AxiomSet

namespace ClassExpression

mutual

/-- An expression under the tag of its operator. -/
def toJson : ClassExpression → Json
  | ofClass c => .obj [("class", c.toJson)]
  | nominal i => .obj [("nominal", i.toJson)]
  | not e => .obj [("not", toJson e)]
  | and es => .obj [("and", .arr (toJsonAll es))]
  | or es => .obj [("or", .arr (toJsonAll es))]

/-- The operands of an operator. -/
def toJsonAll : List ClassExpression → List Json
  | [] => []
  | e :: es => toJson e :: toJsonAll es

end

/-- Reads an expression. The tag uses a level of nesting, and a list of operands another. -/
def decode : Decoder ClassExpression
  | room + 1, .obj [(tag, j)] =>
    match tag with
    | "class" => (ClassName.decode room j).map ofClass
    | "nominal" => (IndividualName.decode room j).map nominal
    | "not" => (decode room j).map not
    | "and" => (operands room j).map and
    | "or" => (operands room j).map or
    | _ => none
  | _, _ => none
where
  /-- Reads the operands of an operator. -/
  operands : Nat → Json → Option (List ClassExpression)
    | room + 1, .arr items => items.mapM (decode room)
    | _, _ => none

end ClassExpression

namespace QueryKind

/-- A kind of query by its name. -/
def toJson (k : QueryKind) : Json := .str k.name

/-- Reads a kind of query. -/
def decode : Decoder QueryKind := Decoder.tagOnly ofName?

end QueryKind

namespace LimitPolicy

/-- A policy by its name. -/
def toJson (p : LimitPolicy) : Json := .str p.name

/-- Reads a policy. -/
def decode : Decoder LimitPolicy := Decoder.tagOnly ofName?

end LimitPolicy

namespace NodeSet

/-- The nodes as arrays of entities. -/
def toJson (ns : NodeSet) : Json := SortedSet.toJson (SortedSet.toJson Entity.toJson) ns

/-- Reads nodes. -/
def decode : Decoder NodeSet := Decoder.set (Decoder.set Entity.decode)

end NodeSet

namespace Explanations

/-- The justifications as arrays of axioms. -/
def toJson (es : Explanations) : Json := SortedSet.toJson AxiomSet.toJson es

/-- Reads justifications. -/
def decode : Decoder Explanations := Decoder.set AxiomSet.decode

end Explanations

end OntologyService
