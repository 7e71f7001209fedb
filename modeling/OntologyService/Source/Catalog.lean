import OntologyService.Ontology.Axiom
import OntologyService.Failure.Service

/-!
# Catalogs

What a source of ontologies publishes at one moment. Each document carries a version, and as long
as the version of a name stays the same, its axioms are taken to be the same too. A document that
cannot be read is listed with the reason, apart from the others.
-/

namespace OntologyService

/-- One ontology as it is published. -/
structure Document where
  name : String
  version : String
  axioms : AxiomSet
deriving DecidableEq

/-- A document that could not be read. -/
structure Rejection where
  name : String
  error : SourceError
deriving DecidableEq

/-- What a source publishes at one moment. -/
structure Catalog where
  documents : List Document := []
  rejected : List Rejection := []
deriving DecidableEq

end OntologyService
