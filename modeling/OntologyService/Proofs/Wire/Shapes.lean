import OntologyService.Proofs.Json.Rearrangement
import OntologyService.Source.Directory
import OntologyService.Wire.Messages

/-!
# Where the types of the wire have sets

The shape of every type, which follows its records and variants down to the arrays that stand for
sets, and the law that its decoder respects it (`Decoder.Respects`): fields may come in any order,
and the items of sets in any order and with any repetitions.

The operands of an expression are a list and not a set, so expressions have no set at all.
-/

namespace OntologyService

open Decoder

variable {s : Shape}

/-- A name is a plain text, in which nothing can be moved. -/
theorem ClassName.respects (s : Shape) : ClassName.decode.Respects s :=
  (respects_string s).map ClassName.mk

theorem IndividualName.respects (s : Shape) : IndividualName.decode.Respects s :=
  (respects_string s).map IndividualName.mk

namespace Entity

/-- An entity under any other tag is not read. -/
theorem decode_of_unknown {tag : String} (notClass : tag ≠ "class")
    (notIndividual : tag ≠ "individual") (room : Nat) (j : Json) :
    decode (room + 1) (.obj [(tag, j)]) = none := by
  unfold decode
  split
  · next same => cases same; exact absurd rfl notClass
  · next same => cases same; exact absurd rfl notIndividual
  · rfl

/-- An entity is one tagged name. -/
theorem respects : decode.Respects .plain := by
  refine respects_variant (fun _ => Shape.noConfusion) ?_ ?_
  · intro room i j same
    unfold decode
    rw [same]
  · intro room tag i j same
    by_cases isClass : tag = "class"
    · subst isClass
      exact congrArg (Option.map ofClass) (ClassName.respects _ room i j same)
    by_cases isIndividual : tag = "individual"
    · subst isIndividual
      exact congrArg (Option.map ofIndividual) (IndividualName.respects _ room i j same)
    rw [decode_of_unknown isClass isIndividual, decode_of_unknown isClass isIndividual]

end Entity

namespace Axiom

/-- The shape of a subsumption. -/
def subClassOfShape : Shape := .object [("sub", .plain), ("sup", .plain)]

/-- The shape of an n-ary form, whose classes are a set. -/
def classesShape : Shape := .object [("classes", .set .plain)]

/-- The shape of an assertion. -/
def assertionShape : Shape := .object [("class", .plain), ("individual", .plain)]

/-- The shape of an axiom, form by form. -/
def shape : Shape :=
  .object [("sub_class_of", subClassOfShape), ("equivalent_classes", classesShape),
    ("disjoint_classes", classesShape), ("class_assertion", assertionShape)]

/-- The two fields of a subclass axiom may change places. -/
theorem respects_subClassOf : decodeSubClassOf.Respects subClassOfShape := by
  refine respects_record (fun x y alike => ?_) (by decide) rfl
  rw [alike.required (i := 0) rfl (ClassName.respects _),
    alike.required (i := 1) rfl (ClassName.respects _)]

/-- The classes of an axiom may be listed in any order, and more than once. -/
theorem respects_classes : decodeClasses.Respects classesShape := by
  refine respects_record (fun x y alike => ?_) (by decide) rfl
  exact alike.required (i := 0) rfl (respects_set (ClassName.respects _))

/-- The two fields of an assertion may change places. -/
theorem respects_assertion : decodeAssertion.Respects assertionShape := by
  refine respects_record (fun x y alike => ?_) (by decide) rfl
  rw [alike.required (i := 0) rfl (ClassName.respects _),
    alike.required (i := 1) rfl (IndividualName.respects _)]

/-- An axiom under any other tag is not read. -/
theorem decode_of_unknown {tag : String} (noSub : tag ≠ "sub_class_of")
    (noEquivalent : tag ≠ "equivalent_classes") (noDisjoint : tag ≠ "disjoint_classes")
    (noAssertion : tag ≠ "class_assertion") (room : Nat) (j : Json) :
    decode (room + 1) (.obj [(tag, j)]) = none := by
  unfold decode
  split
  · next same => cases same; exact absurd rfl noSub
  · next same => cases same; exact absurd rfl noEquivalent
  · next same => cases same; exact absurd rfl noDisjoint
  · next same => cases same; exact absurd rfl noAssertion
  · rfl

/-- An axiom may be rearranged as the fields under its tag may be. -/
theorem respects : decode.Respects shape := by
  refine respects_variant (fun _ => Shape.noConfusion) ?_ ?_
  · intro room i j same
    unfold decode
    rw [same]
  · intro room tag i j same
    by_cases sub : tag = "sub_class_of"
    · subst sub
      exact respects_subClassOf room i j same
    by_cases equivalent : tag = "equivalent_classes"
    · subst equivalent
      exact congrArg (Option.map equivalentClasses) (respects_classes room i j same)
    by_cases disjoint : tag = "disjoint_classes"
    · subst disjoint
      exact congrArg (Option.map disjointClasses) (respects_classes room i j same)
    by_cases assertion : tag = "class_assertion"
    · subst assertion
      exact respects_assertion room i j same
    rw [decode_of_unknown sub equivalent disjoint assertion,
      decode_of_unknown sub equivalent disjoint assertion]

end Axiom

/-- A set of axioms. -/
def AxiomSet.shape : Shape := .set Axiom.shape

/-- Axioms may be listed in any order, and more than once. -/
theorem AxiomSet.respects : AxiomSet.decode.Respects AxiomSet.shape :=
  respects_set Axiom.respects

namespace ClassExpression

/-- An expression under any other tag is not read. -/
theorem decode_of_unknown {tag : String} (noClass : tag ≠ "class") (noNominal : tag ≠ "nominal")
    (noNot : tag ≠ "not") (noAnd : tag ≠ "and") (noOr : tag ≠ "or") (room : Nat) (j : Json) :
    decode (room + 1) (.obj [(tag, j)]) = none := by
  unfold decode
  split
  · exact absurd rfl noClass
  · exact absurd rfl noNominal
  · exact absurd rfl noNot
  · exact absurd rfl noAnd
  · exact absurd rfl noOr
  · rfl

/-- Nothing but an object with one field is an expression. -/
theorem decode_perm {fs gs : List (String × Json)} (perm : fs.Perm gs) (room : Nat) :
    decode room (.obj fs) = decode room (.obj gs) := by
  match room, fs, gs, perm.length_eq with
  | _, [], [], _ => rfl
  | _, [f], [g], _ =>
    obtain rfl : f = g := List.mem_singleton.1 (perm.mem_iff.1 List.mem_cons_self)
    rfl
  | 0, _ :: _ :: _, _ :: _ :: _, _ | _ + 1, _ :: _ :: _, _ :: _ :: _, _ => rfl

/-- What stands under the tag of an expression is read as a name, an expression, or operands. -/
theorem decode_tagged_congr {i j : Json}
    (text : ∀ room, Decoder.string room i = Decoder.string room j)
    (expression : ∀ room, decode room i = decode room j)
    (operands : ∀ room, decode.operands room i = decode.operands room j) (room : Nat)
    (tag : String) :
    decode (room + 1) (.obj [(tag, i)]) = decode (room + 1) (.obj [(tag, j)]) := by
  by_cases noClass : tag = "class"
  · subst noClass
    exact congrArg (fun name => (name.map ClassName.mk).map ofClass) (text room)
  by_cases noNominal : tag = "nominal"
  · subst noNominal
    exact congrArg (fun name => (name.map IndividualName.mk).map nominal) (text room)
  by_cases noNot : tag = "not"
  · subst noNot
    exact congrArg (Option.map not) (expression room)
  by_cases noAnd : tag = "and"
  · subst noAnd
    exact congrArg (Option.map and) (operands room)
  by_cases noOr : tag = "or"
  · subst noOr
    exact congrArg (Option.map or) (operands room)
  rw [decode_of_unknown noClass noNominal noNot noAnd noOr,
    decode_of_unknown noClass noNominal noNot noAnd noOr]

/-- **An expression and its operands** are read alike from what differs in the order of fields
only. -/
theorem respects_both {s : Shape} {i j : Json} (same : Json.Rearranged s i j) (plain : s = .plain) :
    (∀ room, decode room i = decode room j) ∧
      ∀ room, decode.operands room i = decode.operands room j := by
  induction same with
  | refl => exact ⟨fun _ => rfl, fun _ => rfl⟩
  | trans _ _ ih ih' =>
    obtain ⟨left, left'⟩ := ih plain
    obtain ⟨right, right'⟩ := ih' plain
    exact ⟨fun room => (left room).trans (right room), fun room => (left' room).trans (right' room)⟩
  | members _ => cases plain
  | fields perm => exact ⟨decode_perm perm, fun room => by cases room <;> rfl⟩
  | field front back inner ih =>
    obtain ⟨expression, operands⟩ := ih (by rw [plain]; rfl)
    refine ⟨fun room => ?_, fun room => by cases room <;> rfl⟩
    match room, front, back with
    | 0, _, _ => rfl
    | room + 1, [], [] =>
      exact decode_tagged_congr (fun room => respects_string _ room _ _ inner) expression operands
        room _
    | _ + 1, [], _ :: _ | _ + 1, [_], _ | _ + 1, _ :: _ :: _, _ => rfl
  | item front back _ ih =>
    obtain ⟨expression, -⟩ := ih (by rw [plain]; rfl)
    refine ⟨fun room => by cases room <;> rfl, fun room => ?_⟩
    cases room with
    | zero => rfl
    | succ room => exact congrArg id (mapM_swap (expression room) front back)

/-- An expression has no set in it, since its operands are a list. -/
theorem respects : decode.Respects .plain := fun room _ _ same => (respects_both same rfl).1 room

end ClassExpression

theorem QueryKind.respects : QueryKind.decode.Respects .plain := respects_tagOnly _

theorem LimitPolicy.respects : LimitPolicy.decode.Respects .plain := respects_tagOnly _

/-- A set of sets. -/
def NodeSet.shape : Shape := .set (.set .plain)

/-- Nodes and their elements may be listed in any order, and more than once. -/
theorem NodeSet.respects : NodeSet.decode.Respects NodeSet.shape :=
  respects_set (respects_set Entity.respects)

/-- A set of sets of axioms. -/
def Explanations.shape : Shape := .set AxiomSet.shape

/-- Justifications and their axioms may be listed in any order, and more than once. -/
theorem Explanations.respects : Explanations.decode.Respects Explanations.shape :=
  respects_set AxiomSet.respects

/-! ## Messages

A record has the shapes of its fields. -/

def DocumentFile.shape : Shape := .object [("axioms", AxiomSet.shape)]

/-- The axioms of a document may be listed in any order, and more than once. -/
theorem DocumentFile.respects : DocumentFile.decode.Respects DocumentFile.shape := by
  refine respects_record (fun x y alike => ?_) (by decide) rfl
  rw [alike.optional (i := 0) rfl AxiomSet.respects]

def QueryRequest.shape : Shape := .object [("kind", .plain), ("entity", .plain)]

/-- The fields of a query may change places. -/
theorem QueryRequest.respects : QueryRequest.decode.Respects QueryRequest.shape := by
  refine respects_record (fun x y alike => ?_) (by decide) rfl
  rw [alike.required (i := 0) rfl QueryKind.respects, alike.required (i := 1) rfl Entity.respects]

def EntailsRequest.shape : Shape := .object [("axiom", Axiom.shape)]

/-- A request about entailment is read whatever the order of its fields. -/
theorem EntailsRequest.respects : EntailsRequest.decode.Respects EntailsRequest.shape := by
  refine respects_record (fun x y alike => ?_) (by decide) rfl
  rw [alike.required (i := 0) rfl Axiom.respects]

def ExplainRequest.shape : Shape := .object [("axiom", Axiom.shape), ("limit", .plain)]

/-- The fields of a request for justifications may change places. -/
theorem ExplainRequest.respects : ExplainRequest.decode.Respects ExplainRequest.shape := by
  refine respects_record (fun x y alike => ?_) (by decide) rfl
  rw [alike.required (i := 0) rfl Axiom.respects, alike.optional (i := 1) rfl (respects_word _)]

def UpdateRequest.shape : Shape :=
  .object [("additions", AxiomSet.shape), ("removals", AxiomSet.shape)]

/-- Both batches of an update may be listed in any order, and more than once. -/
theorem UpdateRequest.respects : UpdateRequest.decode.Respects UpdateRequest.shape := by
  refine respects_record (fun x y alike => ?_) (by decide) rfl
  rw [alike.optional (i := 0) rfl AxiomSet.respects, alike.optional (i := 1) rfl AxiomSet.respects]

def EntailsResponse.shape : Shape := .object [("entailed", .plain)]

theorem EntailsResponse.respects : EntailsResponse.decode.Respects EntailsResponse.shape := by
  refine respects_record (fun x y alike => ?_) (by decide) rfl
  rw [alike.required (i := 0) rfl (respects_bool _)]

def ExplainResponse.shape : Shape := .object [("justifications", Explanations.shape)]

theorem ExplainResponse.respects : ExplainResponse.decode.Respects ExplainResponse.shape := by
  refine respects_record (fun x y alike => ?_) (by decide) rfl
  rw [alike.required (i := 0) rfl Explanations.respects]

def HealthResponse.shape : Shape :=
  .object [("status", .plain), ("version", .plain), ("generation", .plain), ("loaded_at", .plain),
    ("ontologies", .plain)]

/-- The fields of the state of the service may change places. -/
theorem HealthResponse.respects : HealthResponse.decode.Respects HealthResponse.shape := by
  refine respects_record (fun x y alike => ?_) (by decide) rfl
  rw [alike.required (i := 0) rfl (respects_string _),
    alike.required (i := 1) rfl (respects_string _), alike.required (i := 2) rfl (respects_word _),
    alike.required (i := 3) rfl (respects_word _), alike.required (i := 4) rfl (respects_word _)]

def OntologySummary.shape : Shape :=
  .object [("name", .plain), ("version", .plain), ("axioms", .plain), ("revision", .plain)]

/-- The fields of a summary may change places. -/
theorem OntologySummary.respects : OntologySummary.decode.Respects OntologySummary.shape := by
  refine respects_record (fun x y alike => ?_) (by decide) rfl
  rw [alike.required (i := 0) rfl (respects_string _),
    alike.required (i := 1) rfl (respects_string _), alike.required (i := 2) rfl (respects_word _),
    alike.required (i := 3) rfl (respects_word _)]

def OntologyListResponse.shape : Shape := .object [("ontologies", .list OntologySummary.shape)]

/-- The fields of every summary in a listing may change places. -/
theorem OntologyListResponse.respects :
    OntologyListResponse.decode.Respects OntologyListResponse.shape := by
  refine respects_record (fun x y alike => ?_) (by decide) rfl
  rw [alike.required (i := 0) rfl (respects_list OntologySummary.respects)]

def UpdateSummary.shape : Shape :=
  .object [("added", .plain), ("removed", .plain), ("revision", .plain)]

theorem UpdateSummary.respects : UpdateSummary.decode.Respects UpdateSummary.shape := by
  refine respects_record (fun x y alike => ?_) (by decide) rfl
  rw [alike.required (i := 0) rfl (respects_word _), alike.required (i := 1) rfl (respects_word _),
    alike.required (i := 2) rfl (respects_word _)]

def ErrorBody.shape : Shape := .object [("error", .plain), ("message", .plain)]

/-- The fields of the report of a failure may change places. -/
theorem ErrorBody.respects : ErrorBody.decode.Respects ErrorBody.shape := by
  refine respects_record (fun x y alike => ?_) (by decide) rfl
  rw [alike.required (i := 0) rfl (respects_string _),
    alike.required (i := 1) rfl (respects_string _)]

end OntologyService
