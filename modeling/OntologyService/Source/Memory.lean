import OntologyService.Source.Catalog
import OntologyService.Order.Table

/-!
# A source in memory

Ontologies that the process publishes itself. Publishing a name again raises its version; a name
that was withdrawn starts over.
-/

namespace OntologyService

/-- Published ontologies: for each name how often it was published, and its axioms. -/
structure MemorySource where
  docs : Table String (Nat × AxiomSet) := ∅

namespace MemorySource

/-- What the source says of itself. -/
def description : String := "in-memory source"

/-- Publishes an ontology, in place of an earlier one of the name. -/
def publish (s : MemorySource) (name : String) (axioms : AxiomSet) : MemorySource :=
  let version := match s.docs.get? name with
    | some (n, _) => n + 1
    | none => 1
  { s with docs := s.docs.insert name (version, axioms) }

/-- Whether an ontology of the name is published. -/
def publishes (s : MemorySource) (name : String) : Bool := s.docs.contains name

/-- Withdraws an ontology. -/
def remove (s : MemorySource) (name : String) : MemorySource :=
  { s with docs := s.docs.erase name }

/-- What the source publishes now, by name. -/
def load (s : MemorySource) : Catalog where
  documents := s.docs.toList.map fun (name, version, axioms) =>
    { name, version := "v" ++ toString version, axioms }

end MemorySource

end OntologyService
