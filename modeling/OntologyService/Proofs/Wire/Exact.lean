import OntologyService.Proofs.Json.Decoding
import OntologyService.Source.Directory
import OntologyService.Wire.Messages

/-!
# Every type of the wire is read back

One lemma for each type: what is written of a value is decoded to the value, given room for its
nesting, and to nothing with less (`Decoder.Exact`). The decoders are put together from records,
variants, lists and sets, and so are the lemmas. Expressions are the one recursive type, and their
lemma recurses as they do.

Counts are written as they are and read as numbers of 64 bits, so the types that carry counts say
that theirs fit (`HealthResponse.Fits` and the like).
-/

namespace OntologyService

open Decoder

/-- A class is read from its name. -/
theorem ClassName.exact (c : ClassName) : decode.Exact c c.toJson :=
  (exact_string c.text).map ClassName.mk

/-- An individual is read from its name. -/
theorem IndividualName.exact (i : IndividualName) : decode.Exact i i.toJson :=
  (exact_string i.text).map IndividualName.mk

/-- An entity is read from its name under the tag of its kind. -/
theorem Entity.exact (e : Entity) : decode.Exact e e.toJson := by
  cases e with
  | ofClass c => exact exact_tagged (c.exact.map ofClass) rfl fun _ => rfl
  | ofIndividual i => exact exact_tagged (i.exact.map ofIndividual) rfl fun _ => rfl

namespace Axiom

/-- The two classes of a subclass axiom are read by their fields. -/
theorem exact_subClassOf (sub sup : ClassName) :
    decodeSubClassOf.Exact (subClassOf sub sup)
      (.obj [("sub", sub.toJson), ("sup", sup.toJson)]) :=
  exact_record (by decide) rfl fun _ =>
    Slots.required_bind rfl sub.exact (Slots.required_bind rfl sup.exact (Slots.done _))

/-- The classes of an axiom about several are read as a set. -/
theorem exact_classes (classes : ClassSet) : decodeClasses.Exact classes (classesJson classes) :=
  exact_record (by decide) rfl fun _ =>
    Slots.required_last rfl (exact_set fun c _ => c.exact)

/-- The class and the individual of an assertion are read by their fields. -/
theorem exact_assertion (cls : ClassName) (individual : IndividualName) :
    decodeAssertion.Exact (classAssertion cls individual)
      (.obj [("class", cls.toJson), ("individual", individual.toJson)]) :=
  exact_record (by decide) rfl fun _ =>
    Slots.required_bind rfl cls.exact (Slots.required_bind rfl individual.exact (Slots.done _))

/-- An axiom is read from its fields under the tag of its kind. -/
theorem exact (a : Axiom) : decode.Exact a a.toJson := by
  cases a with
  | subClassOf sub sup => exact exact_tagged (exact_subClassOf sub sup) rfl fun _ => rfl
  | equivalentClasses classes =>
    exact exact_tagged ((exact_classes classes).map equivalentClasses) rfl fun _ => rfl
  | disjointClasses classes =>
    exact exact_tagged ((exact_classes classes).map disjointClasses) rfl fun _ => rfl
  | classAssertion cls individual =>
    exact exact_tagged (exact_assertion cls individual) rfl fun _ => rfl

end Axiom

/-- A set of axioms is read from its elements in order. -/
theorem AxiomSet.exact (as : AxiomSet) : AxiomSet.decode.Exact as (AxiomSet.toJson as) :=
  exact_set fun a _ => a.exact

namespace ClassExpression

/-- Operands are written one by one. -/
theorem toJsonAll_eq_map (es : List ClassExpression) : toJsonAll es = es.map toJson := by
  induction es with
  | nil => rfl
  | cons e es ih => rw [toJsonAll, ih, List.map_cons]

/-- Operands are read one by one if each of them is read. -/
theorem exact_operands {es : List ClassExpression} (h : ∀ e ∈ es, decode.Exact e e.toJson) :
    Decoder.Exact decode.operands es (.arr (toJsonAll es)) := by
  intro room
  rw [toJsonAll_eq_map]
  cases room with
  | zero => rfl
  | succ room =>
    rw [decode.operands, mapM_exact es h, Json.depth]
    simp only [Nat.add_le_add_iff_right]

mutual

/-- An expression is read back, operator by operator. -/
theorem exact : ∀ e : ClassExpression, decode.Exact e e.toJson
  | ofClass c => exact_tagged (c.exact.map ofClass) rfl fun _ => rfl
  | nominal i => exact_tagged (i.exact.map nominal) rfl fun _ => rfl
  | not e => exact_tagged ((exact e).map not) rfl fun _ => rfl
  | and es => exact_tagged ((exact_operands (exact_all es)).map and) rfl fun _ => rfl
  | or es => exact_tagged ((exact_operands (exact_all es)).map or) rfl fun _ => rfl

/-- Every one of several expressions is read. -/
theorem exact_all : ∀ es : List ClassExpression, ∀ e ∈ es, decode.Exact e e.toJson
  | [], _, member => absurd member List.not_mem_nil
  | e :: es, e', member =>
    (List.mem_cons.1 member).elim (fun same => same ▸ exact e) (exact_all es e')

end

end ClassExpression

/-- A kind of query is read from its name. -/
theorem QueryKind.exact (k : QueryKind) : decode.Exact k k.toJson := by
  refine .of_flat rfl fun room => ?_
  rcases k with (_ | (_ | _) | (_ | _) | _ | _) | (_ | _) <;> rfl

/-- A policy is read from its name. -/
theorem LimitPolicy.exact (p : LimitPolicy) : decode.Exact p p.toJson := by
  refine .of_flat rfl fun room => ?_
  cases p <;> rfl

/-- Nodes are read with their elements in order. -/
theorem NodeSet.exact (ns : NodeSet) : NodeSet.decode.Exact ns (NodeSet.toJson ns) :=
  exact_set fun _ _ => exact_set fun e _ => e.exact

/-- Justifications are read with their axioms in order. -/
theorem Explanations.exact (es : Explanations) :
    Explanations.decode.Exact es (Explanations.toJson es) :=
  exact_set fun as _ => AxiomSet.exact as

/-- A document is read, also one without axioms. -/
theorem DocumentFile.exact (d : DocumentFile) : decode.Exact d d.toJson :=
  exact_record (by decide) rfl fun _ =>
    Slots.optional_bind rfl (AxiomSet.exact d.axioms) (Slots.done _)

/-- A query is read as it is written. -/
theorem QueryRequest.exact (r : QueryRequest) : decode.Exact r r.toJson :=
  exact_record (by decide) rfl fun _ =>
    Slots.required_bind rfl r.kind.exact (Slots.required_bind rfl r.entity.exact (Slots.done _))

/-- A request about entailment is read as it is written. -/
theorem EntailsRequest.exact (r : EntailsRequest) : decode.Exact r r.toJson :=
  exact_record (by decide) rfl fun _ =>
    Slots.required_bind rfl r.statement.exact (Slots.done _)

/-- A request for justifications is read if its limit has 64 bits. -/
theorem ExplainRequest.exact (r : ExplainRequest) (small : r.limit < UInt64.size) :
    decode.Exact r r.toJson :=
  exact_record (by decide) rfl fun _ =>
    Slots.required_bind rfl r.statement.exact
      (Slots.optional_bind rfl (exact_word small) (Slots.done _))

/-- An update is read as it is written. -/
theorem UpdateRequest.exact (r : UpdateRequest) : decode.Exact r r.toJson :=
  exact_record (by decide) rfl fun _ =>
    Slots.optional_bind rfl (AxiomSet.exact r.additions)
      (Slots.optional_bind rfl (AxiomSet.exact r.removals) (Slots.done _))

theorem EntailsResponse.exact (r : EntailsResponse) : decode.Exact r r.toJson :=
  exact_record (by decide) rfl fun _ =>
    Slots.required_bind rfl (exact_bool r.entailed) (Slots.done _)

theorem ExplainResponse.exact (r : ExplainResponse) : decode.Exact r r.toJson :=
  exact_record (by decide) rfl fun _ =>
    Slots.required_bind rfl (Explanations.exact r.justifications) (Slots.done _)

/-- The counts of an answer are numbers of 64 bits. -/
structure HealthResponse.Fits (h : HealthResponse) : Prop where
  generation : h.generation < UInt64.size
  loadedAt : h.loadedAt < UInt64.size
  ontologies : h.ontologies < UInt64.size

/-- The state of the service is read if its counts have 64 bits. -/
theorem HealthResponse.exact (h : HealthResponse) (fits : h.Fits) : decode.Exact h h.toJson :=
  exact_record (by decide) rfl fun _ =>
    Slots.required_bind rfl (exact_string h.status)
      (Slots.required_bind rfl (exact_string h.version)
        (Slots.required_bind rfl (exact_word fits.generation)
          (Slots.required_bind rfl (exact_word fits.loadedAt)
            (Slots.required_bind rfl (exact_word fits.ontologies) (Slots.done _)))))

/-- The counts of an entry are numbers of 64 bits. -/
structure OntologySummary.Fits (s : OntologySummary) : Prop where
  axioms : s.axioms < UInt64.size
  revision : s.revision < UInt64.size

/-- The summary of an ontology is read if its counts have 64 bits. -/
theorem OntologySummary.exact (s : OntologySummary) (fits : s.Fits) : decode.Exact s s.toJson :=
  exact_record (by decide) rfl fun _ =>
    Slots.required_bind rfl (exact_string s.name)
      (Slots.required_bind rfl (exact_string s.version)
        (Slots.required_bind rfl (exact_word fits.axioms)
          (Slots.required_bind rfl (exact_word fits.revision) (Slots.done _))))

/-- A listing is read if its summaries are. -/
theorem OntologyListResponse.exact (r : OntologyListResponse)
    (fits : ∀ s ∈ r.ontologies, s.Fits) : decode.Exact r r.toJson :=
  exact_record (by decide) rfl fun _ =>
    Slots.required_bind rfl (exact_list fun s member => s.exact (fits s member)) (Slots.done _)

/-- The counts of an update are numbers of 64 bits. -/
structure UpdateSummary.Fits (s : UpdateSummary) : Prop where
  added : s.added < UInt64.size
  removed : s.removed < UInt64.size
  revision : s.revision < UInt64.size

/-- What an update did is read if its counts have 64 bits. -/
theorem UpdateSummary.exact (s : UpdateSummary) (fits : s.Fits) : decode.Exact s s.toJson :=
  exact_record (by decide) rfl fun _ =>
    Slots.required_bind rfl (exact_word fits.added)
      (Slots.required_bind rfl (exact_word fits.removed)
        (Slots.required_bind rfl (exact_word fits.revision) (Slots.done _)))

theorem ErrorBody.exact (b : ErrorBody) : decode.Exact b b.toJson :=
  exact_record (by decide) rfl fun _ =>
    Slots.required_bind rfl (exact_string b.code)
      (Slots.required_bind rfl (exact_string b.message) (Slots.done _))

end OntologyService
