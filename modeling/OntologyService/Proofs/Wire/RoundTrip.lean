import OntologyService.Proofs.Json.Reading
import OntologyService.Proofs.Wire.Exact
import OntologyService.Proofs.Wire.Shapes

/-!
# What is written is read back

A `Codec` is how a type goes over the wire: how it is written and read, where its values have sets,
and which of them can be written at all. `WireType` lists the types that do go over it.

Two things make a codec faithful. Reading undoes writing, on texts as well as on octets, exactly as
long as the nesting stays within the limit of the reader; beyond it nothing is read, so no other
value ever is. And texts that differ in the order of fields, or in the order and the repetition of
the items of sets, are read as the same value.

**The law** (`WireType.faithful`) puts together three that do not know of each other: texts are read
back as the JSON values that they were printed from (`Json.read_text`), decoders get back the values
from what was written of them (`Decoder.Exact`), and they respect the shapes of their types
(`Decoder.Respects`).
-/

namespace OntologyService

/-- How a type goes over the wire. -/
structure Codec (α : Type) where
  write : α → Json
  decode : Decoder α
  /-- Where the values have sets. -/
  shape : Shape
  /-- The values whose counts can be written. -/
  Fits : α → Prop := fun _ => True

namespace Codec

variable {α : Type}

/-- **Reading undoes writing**, and does not depend on what says nothing. -/
structure Faithful (c : Codec α) : Prop where
  /-- A value is read back from its text if the nesting is within the limit, and nothing is read
  otherwise. -/
  undoes : ∀ v, c.Fits v → c.decode.text (c.write v).text
    = if (c.write v).depth ≤ Decoder.maxDepth then some v else none
  /-- The same in UTF-8. -/
  undoesOctets : ∀ v, c.Fits v → c.decode.octets (Utf8.encode (c.write v).print)
    = if (c.write v).depth ≤ Decoder.maxDepth then some v else none
  /-- Texts of values that are the same but for the order of fields, and the order and the
  repetition of the items of sets, are read alike. -/
  indifferent : ∀ s s' j j', Json.read s = some j → Json.read s' = some j' →
    Json.Rearranged c.shape j j' → c.decode.text s = c.decode.text s'

end Codec

/-- The types that go over the wire. -/
inductive WireType where
  | statement | batch | entity | expression
  | queryKind | limitPolicy | nodeSet | explanations
  | document
  | queryRequest | entailsRequest | explainRequest | updateRequest
  | entailsResponse | explainResponse | healthResponse | listing | updateSummary | errorBody
deriving DecidableEq

namespace WireType

/-- The values of the type. -/
def Carrier : WireType → Type
  | statement => Axiom
  | batch => AxiomSet
  | entity => Entity
  | expression => ClassExpression
  | queryKind => QueryKind
  | limitPolicy => LimitPolicy
  | nodeSet => NodeSet
  | explanations => Explanations
  | document => DocumentFile
  | queryRequest => QueryRequest
  | entailsRequest => EntailsRequest
  | explainRequest => ExplainRequest
  | updateRequest => UpdateRequest
  | entailsResponse => EntailsResponse
  | explainResponse => ExplainResponse
  | healthResponse => HealthResponse
  | listing => OntologyListResponse
  | updateSummary => UpdateSummary
  | errorBody => ErrorBody

/-- How the values of the type are written and read. -/
def codec : (t : WireType) → Codec t.Carrier
  | statement => { write := Axiom.toJson, decode := Axiom.decode, shape := Axiom.shape }
  | batch => { write := AxiomSet.toJson, decode := AxiomSet.decode, shape := AxiomSet.shape }
  | entity => { write := Entity.toJson, decode := Entity.decode, shape := .plain }
  | expression =>
    { write := ClassExpression.toJson, decode := ClassExpression.decode, shape := .plain }
  | queryKind => { write := QueryKind.toJson, decode := QueryKind.decode, shape := .plain }
  | limitPolicy => { write := LimitPolicy.toJson, decode := LimitPolicy.decode, shape := .plain }
  | nodeSet => { write := NodeSet.toJson, decode := NodeSet.decode, shape := NodeSet.shape }
  | explanations =>
    { write := Explanations.toJson, decode := Explanations.decode, shape := Explanations.shape }
  | document =>
    { write := DocumentFile.toJson, decode := DocumentFile.decode, shape := DocumentFile.shape }
  | queryRequest =>
    { write := QueryRequest.toJson, decode := QueryRequest.decode, shape := QueryRequest.shape }
  | entailsRequest =>
    { write := EntailsRequest.toJson, decode := EntailsRequest.decode
      shape := EntailsRequest.shape }
  | explainRequest =>
    { write := ExplainRequest.toJson, decode := ExplainRequest.decode
      shape := ExplainRequest.shape, Fits := fun r => r.limit < UInt64.size }
  | updateRequest =>
    { write := UpdateRequest.toJson, decode := UpdateRequest.decode, shape := UpdateRequest.shape }
  | entailsResponse =>
    { write := EntailsResponse.toJson, decode := EntailsResponse.decode
      shape := EntailsResponse.shape }
  | explainResponse =>
    { write := ExplainResponse.toJson, decode := ExplainResponse.decode
      shape := ExplainResponse.shape }
  | healthResponse =>
    { write := HealthResponse.toJson, decode := HealthResponse.decode
      shape := HealthResponse.shape, Fits := HealthResponse.Fits }
  | listing =>
    { write := OntologyListResponse.toJson, decode := OntologyListResponse.decode
      shape := OntologyListResponse.shape, Fits := fun r => ∀ s ∈ r.ontologies, s.Fits }
  | updateSummary =>
    { write := UpdateSummary.toJson, decode := UpdateSummary.decode
      shape := UpdateSummary.shape, Fits := UpdateSummary.Fits }
  | errorBody => { write := ErrorBody.toJson, decode := ErrorBody.decode, shape := ErrorBody.shape }

/-- What was written of a value is decoded to it, given room for its nesting. -/
theorem exact (t : WireType) (v : t.Carrier) (fits : t.codec.Fits v) :
    t.codec.decode.Exact v (t.codec.write v) := by
  cases t with
  | statement => exact Axiom.exact v
  | batch => exact AxiomSet.exact v
  | entity => exact Entity.exact v
  | expression => exact ClassExpression.exact v
  | queryKind => exact QueryKind.exact v
  | limitPolicy => exact LimitPolicy.exact v
  | nodeSet => exact NodeSet.exact v
  | explanations => exact Explanations.exact v
  | document => exact DocumentFile.exact v
  | queryRequest => exact QueryRequest.exact v
  | entailsRequest => exact EntailsRequest.exact v
  | explainRequest => exact ExplainRequest.exact v fits
  | updateRequest => exact UpdateRequest.exact v
  | entailsResponse => exact EntailsResponse.exact v
  | explainResponse => exact ExplainResponse.exact v
  | healthResponse => exact HealthResponse.exact v fits
  | listing => exact OntologyListResponse.exact v fits
  | updateSummary => exact UpdateSummary.exact v fits
  | errorBody => exact ErrorBody.exact v

/-- No decoder looks at the order of fields, or at the order and the repetition in sets. -/
theorem respects (t : WireType) : t.codec.decode.Respects t.codec.shape := by
  cases t with
  | statement => exact Axiom.respects
  | batch => exact AxiomSet.respects
  | entity => exact Entity.respects
  | expression => exact ClassExpression.respects
  | queryKind => exact QueryKind.respects
  | limitPolicy => exact LimitPolicy.respects
  | nodeSet => exact NodeSet.respects
  | explanations => exact Explanations.respects
  | document => exact DocumentFile.respects
  | queryRequest => exact QueryRequest.respects
  | entailsRequest => exact EntailsRequest.respects
  | explainRequest => exact ExplainRequest.respects
  | updateRequest => exact UpdateRequest.respects
  | entailsResponse => exact EntailsResponse.respects
  | explainResponse => exact ExplainResponse.respects
  | healthResponse => exact HealthResponse.respects
  | listing => exact OntologyListResponse.respects
  | updateSummary => exact UpdateSummary.respects
  | errorBody => exact ErrorBody.respects

/-- **The law of the wire**: every type that goes over it is read back as it was written, whatever
the order of fields and of the items of sets. -/
theorem faithful (t : WireType) : t.codec.Faithful where
  undoes v fits := (t.exact v fits).text_eq
  undoesOctets v fits := (t.exact v fits).octets_eq
  indifferent s s' j j' left right same := by
    rw [Decoder.text, Decoder.text, left, right]
    exact t.respects Decoder.maxDepth j j' same

end WireType

end OntologyService
