import OntologyService.Order.SortedSet

/-!
# Names and entities

Classes and individuals are known by name only, and the two kinds of name are kept apart. Two
class names are reserved: `owl:Thing` for the class of everything and `owl:Nothing` for the empty
class. An `Entity` is either kind of name; every class comes before every individual.
-/

namespace OntologyService

/-- The name of a class. -/
structure ClassName where
  text : String
deriving DecidableEq

/-- The name of an individual. -/
structure IndividualName where
  text : String
deriving DecidableEq

instance : Ranked ClassName := Ranked.comap ClassName.text fun {a b} h => by cases a; cases b; cases h; rfl

instance : Ranked IndividualName :=
  Ranked.comap IndividualName.text fun {a b} h => by cases a; cases b; cases h; rfl

/-- A set of classes. -/
abbrev ClassSet := SortedSet ClassName

namespace ClassName

/-- The class of everything, which subsumes every class. -/
def thing : ClassName := ⟨"owl:Thing"⟩

/-- The empty class, to which every unsatisfiable class is equivalent. -/
def nothing : ClassName := ⟨"owl:Nothing"⟩

end ClassName

/-- What a query can be asked about. -/
inductive Entity where
  | ofClass (name : ClassName)
  | ofIndividual (name : IndividualName)
deriving DecidableEq

namespace Entity

/-- Classes before individuals, then by name. -/
def key : Entity → Nat × String
  | ofClass c => (0, c.text)
  | ofIndividual i => (1, i.text)

/-- Entities with equal keys are equal. -/
theorem key_injective : ∀ {a b : Entity}, a.key = b.key → a = b
  | ofClass ⟨_⟩, ofClass ⟨_⟩, h => by cases h; rfl
  | ofIndividual ⟨_⟩, ofIndividual ⟨_⟩, h => by cases h; rfl
  | ofClass _, ofIndividual _, h => by cases h
  | ofIndividual _, ofClass _, h => by cases h

instance : Ranked Entity := Ranked.comap key key_injective

/-- The entity in words, as messages and listings show it. -/
def render : Entity → String
  | ofClass c => "class " ++ c.text
  | ofIndividual i => "individual " ++ i.text

end Entity

end OntologyService
