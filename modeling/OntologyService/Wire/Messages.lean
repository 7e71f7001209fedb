import OntologyService.Wire.Ontology
import OntologyService.State.Holder

/-!
# Requests and responses on the wire

The messages that clients and the service exchange. Every message is a record; a field that may be
left out of a request says what its absence means.
-/

namespace OntologyService

namespace UpdateSummary

/-- Writes what an update did. -/
def toJson (s : UpdateSummary) : Json :=
  .obj [("added", .nat s.added), ("removed", .nat s.removed), ("revision", .nat s.revision)]

/-- Reads what an update did. -/
def decode : Decoder UpdateSummary := fun room j => do
  let s ← Decoder.record ["added", "removed", "revision"] room j
  return {
    added := ← s.required 0 Decoder.word
    removed := ← s.required 1 Decoder.word
    revision := ← s.required 2 Decoder.word }

end UpdateSummary

namespace OntologySummary

/-- Writes an entry of the listing. -/
def toJson (s : OntologySummary) : Json :=
  .obj [("name", .str s.name), ("version", .str s.version), ("axioms", .nat s.axioms),
    ("revision", .nat s.revision)]

/-- Reads an entry of the listing. -/
def decode : Decoder OntologySummary := fun room j => do
  let s ← Decoder.record ["name", "version", "axioms", "revision"] room j
  return {
    name := ← s.required 0 Decoder.string
    version := ← s.required 1 Decoder.string
    axioms := ← s.required 2 Decoder.word
    revision := ← s.required 3 Decoder.word }

end OntologySummary

/-- Answers that the service is up, and with what. -/
structure HealthResponse where
  status : String
  version : String
  generation : Nat
  loadedAt : Nat
  ontologies : Nat
deriving DecidableEq

namespace HealthResponse

/-- Writes the answer. -/
def toJson (h : HealthResponse) : Json :=
  .obj [("status", .str h.status), ("version", .str h.version), ("generation", .nat h.generation),
    ("loaded_at", .nat h.loadedAt), ("ontologies", .nat h.ontologies)]

/-- Reads the answer. -/
def decode : Decoder HealthResponse := fun room j => do
  let s ← Decoder.record ["status", "version", "generation", "loaded_at", "ontologies"] room j
  return {
    status := ← s.required 0 Decoder.string
    version := ← s.required 1 Decoder.string
    generation := ← s.required 2 Decoder.word
    loadedAt := ← s.required 3 Decoder.word
    ontologies := ← s.required 4 Decoder.word }

end HealthResponse

/-- Asks a query about an entity. -/
structure QueryRequest where
  kind : QueryKind
  entity : Entity
deriving DecidableEq

namespace QueryRequest

/-- Writes the request. -/
def toJson (r : QueryRequest) : Json :=
  .obj [("kind", r.kind.toJson), ("entity", r.entity.toJson)]

/-- Reads the request. -/
def decode : Decoder QueryRequest := fun room j => do
  let s ← Decoder.record ["kind", "entity"] room j
  return {
    kind := ← s.required 0 QueryKind.decode
    entity := ← s.required 1 Entity.decode }

end QueryRequest

/-- Asks whether an axiom is entailed. -/
structure EntailsRequest where
  statement : Axiom
deriving DecidableEq

namespace EntailsRequest

/-- Writes the request. -/
def toJson (r : EntailsRequest) : Json := .obj [("axiom", r.statement.toJson)]

/-- Reads the request. -/
def decode : Decoder EntailsRequest := fun room j => do
  let s ← Decoder.record ["axiom"] room j
  return ⟨← s.required 0 Axiom.decode⟩

end EntailsRequest

/-- Asks for justifications of an axiom, at most so many; for all if it does not say how many. -/
structure ExplainRequest where
  statement : Axiom
  limit : Nat := 0
deriving DecidableEq

namespace ExplainRequest

/-- Writes the request. -/
def toJson (r : ExplainRequest) : Json :=
  .obj [("axiom", r.statement.toJson), ("limit", .nat r.limit)]

/-- Reads the request. -/
def decode : Decoder ExplainRequest := fun room j => do
  let s ← Decoder.record ["axiom", "limit"] room j
  return {
    statement := ← s.required 0 Axiom.decode
    limit := ← s.optional 1 0 Decoder.word }

end ExplainRequest

/-- Asks for a batch to be applied; a side that is left out is empty. -/
structure UpdateRequest where
  additions : AxiomSet := ∅
  removals : AxiomSet := ∅
deriving DecidableEq

namespace UpdateRequest

/-- Writes the request. -/
def toJson (r : UpdateRequest) : Json :=
  .obj [("additions", AxiomSet.toJson r.additions), ("removals", AxiomSet.toJson r.removals)]

/-- Reads the request. -/
def decode : Decoder UpdateRequest := fun room j => do
  let s ← Decoder.record ["additions", "removals"] room j
  return {
    additions := ← s.optional 0 ∅ AxiomSet.decode
    removals := ← s.optional 1 ∅ AxiomSet.decode }

end UpdateRequest

/-- Answers whether an axiom is entailed. -/
structure EntailsResponse where
  entailed : Bool
deriving DecidableEq

namespace EntailsResponse

/-- Writes the answer. -/
def toJson (r : EntailsResponse) : Json := .obj [("entailed", .bool r.entailed)]

/-- Reads the answer. -/
def decode : Decoder EntailsResponse := fun room j => do
  let s ← Decoder.record ["entailed"] room j
  return ⟨← s.required 0 Decoder.bool⟩

end EntailsResponse

/-- Answers with justifications. -/
structure ExplainResponse where
  justifications : Explanations
deriving DecidableEq

namespace ExplainResponse

/-- Writes the answer. -/
def toJson (r : ExplainResponse) : Json :=
  .obj [("justifications", Explanations.toJson r.justifications)]

/-- Reads the answer. -/
def decode : Decoder ExplainResponse := fun room j => do
  let s ← Decoder.record ["justifications"] room j
  return ⟨← s.required 0 Explanations.decode⟩

end ExplainResponse

/-- Answers with the listing of the ontologies. -/
structure OntologyListResponse where
  ontologies : List OntologySummary
deriving DecidableEq

namespace OntologyListResponse

/-- Writes the answer. -/
def toJson (r : OntologyListResponse) : Json :=
  .obj [("ontologies", .arr (r.ontologies.map OntologySummary.toJson))]

/-- Reads the answer. -/
def decode : Decoder OntologyListResponse := fun room j => do
  let s ← Decoder.record ["ontologies"] room j
  return ⟨← s.required 0 (Decoder.list OntologySummary.decode)⟩

end OntologyListResponse

/-- Reports a failure: its identifier and its wording. -/
structure ErrorBody where
  code : String
  message : String
deriving DecidableEq

namespace ErrorBody

/-- Writes the report. -/
def toJson (b : ErrorBody) : Json := .obj [("error", .str b.code), ("message", .str b.message)]

/-- Reads the report. -/
def decode : Decoder ErrorBody := fun room j => do
  let s ← Decoder.record ["error", "message"] room j
  return {
    code := ← s.required 0 Decoder.string
    message := ← s.required 1 Decoder.string }

end ErrorBody

/-- The report of a failure. -/
def ServiceError.body (e : ServiceError) : ErrorBody := ⟨e.code, e.message⟩

end OntologyService
