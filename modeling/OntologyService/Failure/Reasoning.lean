/-!
# Why a reasoning call has no answer

One constructor per cause. The wording is in `message`, the stable identifier that clients match
on in `code`, and the advice in `help`; nothing else in the library spells any of the three.
-/

namespace OntologyService

/-- A cause for which a reasoning call has no answer. -/
inductive ReasoningError where
  /-- No interpretation satisfies the ontology, so a query about it says nothing. -/
  | inconsistent (ontology : String)
  /-- The entity, in words, occurs in no axiom of the ontology. -/
  | unknownEntity (entity : String)
  /-- No ontology of that name is loaded. -/
  | unknownOntology (name : String)
  /-- The axiom, in functional style, is not one the engine can hold. -/
  | malformedAxiom (statement reason : String)
  /-- The query asks about the other kind of entity. -/
  | invalidQuery (kind entity : String)
  /-- The normal form has more conjuncts than the bound allows. -/
  | tooComplex (terms max : Nat)
  /-- The knowledge base was closed. -/
  | closed (ontology : String)
deriving DecidableEq

namespace ReasoningError

/-- The identifier that clients match on. -/
def code : ReasoningError → String
  | inconsistent _ => "schemad::reasoning::inconsistent"
  | unknownEntity _ => "schemad::reasoning::unknown_entity"
  | unknownOntology _ => "schemad::reasoning::unknown_ontology"
  | malformedAxiom _ _ => "schemad::reasoning::malformed_axiom"
  | invalidQuery _ _ => "schemad::reasoning::invalid_query"
  | tooComplex _ _ => "schemad::reasoning::too_complex"
  | closed _ => "schemad::reasoning::closed"

/-- The cause in one sentence. -/
def message : ReasoningError → String
  | inconsistent ontology => s!"knowledge base \"{ontology}\" is inconsistent"
  | unknownEntity entity => s!"unknown {entity}"
  | unknownOntology name => s!"unknown ontology \"{name}\""
  | malformedAxiom statement reason => s!"malformed axiom {statement}: {reason}"
  | invalidQuery kind entity => s!"query {kind} does not apply to {entity}"
  | tooComplex terms max =>
    s!"expression expands to {terms} conjuncts, more than the limit of {max}"
  | closed ontology => s!"knowledge base \"{ontology}\" has been closed"

/-- What the caller can do about it. -/
def help : ReasoningError → String
  | inconsistent _ =>
    "Some individual is asserted into classes that cannot share instances. " ++
      "Use the explain endpoint on any axiom to see the conflicting assertions, " ++
      "then remove one of them with an update."
  | unknownEntity _ =>
    "The entity does not occur in any axiom of this ontology. Check the spelling."
  | unknownOntology _ => "List the loaded ontologies with `GET /ontologies`."
  | malformedAxiom _ _ =>
    "Fix the axiom and resend the batch. No axiom of a rejected batch is applied."
  | invalidQuery _ _ =>
    "Class queries (equivalent/sub/super/disjoint classes, instances) take a class; " ++
      "type queries take an individual."
  | tooComplex _ _ => "Split the statement into smaller ones."
  | closed _ => "The service is shutting down or the ontology was unloaded. Retry later."

end ReasoningError

end OntologyService
