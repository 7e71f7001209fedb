import OntologyService.Client.Address
import OntologyService.Proofs.Routing.Lookup
import OntologyService.Routing.KnowledgeBaseRoutes

/-!
# The routes of the operations

The path of an operation on an ontology has one part that varies, the name of the ontology, between
two that are spelled out. It matches the pattern of its own operation with the name as it is written
in the path, and the pattern of no other route of the service (`match?_of_other`), so it leads to
the handler of its operation (`Router.find_operation`), provided that the routes that a server adds
to those of the service keep off the path.
-/

namespace OntologyService

open PathPattern

namespace Route

/-- The pattern of the path of an operation. -/
def operationPattern (operation : String) : PathPattern :=
  literal "/ontologies/".toList ++ .segment "name" :: literal ('/' :: operation.toList)

variable {operation segment : String}

/-- The path of an operation, character by character. -/
theorem toList_operationPath (operation : String) :
    (operationPath operation).toList = "/ontologies/".toList ++
      '\x7b' :: ("name".toList ++ '\x7d' :: '/' :: operation.toList) := by
  have front : "/ontologies/\x7bname\x7d/".toList
      = "/ontologies/".toList ++ '\x7b' :: ("name".toList ++ ['\x7d', '/']) := rfl
  refine (String.toList_append ..).trans ?_
  rw [front, List.append_assoc, List.cons_append, List.append_assoc]
  rfl

/-- The path of an operation with a plain name reads as its pattern. -/
theorem ofString_operationPath (spelled : Spelled operation.toList) :
    ofString (operationPath operation) = operationPattern operation := by
  rw [ofString, toList_operationPath, parts_marks_of_named (by decide) (by decide)]
  · rfl
  · exact List.forall_mem_cons.2 ⟨by decide, spelled⟩

/-- The path of an operation has a parameter. -/
theorem contains_operationPath (operation : String) :
    (operationPath operation).contains '\x7b' = true := by
  rw [String.contains_char_eq, toList_operationPath]
  exact decide_eq_true (List.mem_append_right _ List.mem_cons_self)

/-- The path a client asks for, character by character. -/
theorem toList_clientPath (segment operation : String) :
    (Client.operationPath segment operation).toList
      = "/ontologies/".toList ++ (segment.toList ++ '/' :: operation.toList) := by
  rw [Client.operationPath, String.toList_append, String.toList_append, String.toList_append,
    List.append_assoc, List.append_assoc]
  rfl

/-- An operation has one path for each way to write the name. -/
theorem clientPath_inj {segment' : String}
    (same : Client.operationPath segment operation = Client.operationPath segment' operation) :
    segment = segment' := by
  have spelled := congrArg String.toList same
  rw [toList_clientPath, toList_clientPath] at spelled
  exact String.toList_inj.1 (List.append_cancel_right (List.append_cancel_left spelled))

/-- The path of an operation matches the pattern of the operation, and of no other one. -/
theorem match?_operationPattern (single : '/' ∉ segment.toList) (other : String) :
    (operationPattern other).match? (Client.operationPath segment operation).toList
      = if other = operation then some [("name", segment)] else none := by
  rw [operationPattern, toList_clientPath, match?_literal_append, match?_segment_append single,
    String.ofList_toList]
  split
  · next same => rw [same, match?_literal]; rfl
  · next differ =>
    cases matched : match? (literal ('/' :: other.toList)) ('/' :: operation.toList) with
    | none => rfl
    | some parts =>
      have same := (List.cons.inj (eq_of_match?_literal matched)).2
      exact absurd (String.toList_inj.1 same).symm differ

/-- What matches the pattern of an operation is the path of the operation. -/
theorem exists_of_match?_operationPattern {path : List Char} {parts : List (String × String)}
    (matched : (operationPattern operation).match? path = some parts) :
    ∃ segment : String, '/' ∉ segment.toList ∧
      path = (Client.operationPath segment operation).toList ∧ parts = [("name", segment)] := by
  obtain ⟨rest, front, matched⟩ := exists_of_match?_literal_append matched
  obtain ⟨value, single, behind, read⟩ := exists_of_match?_segment matched
  have spelled : (String.ofList value).toList = value := String.toList_ofList
  refine ⟨String.ofList value, by rwa [spelled], ?_, read⟩
  rw [front, behind, toList_clientPath, spelled]

/-- The path of an operation is not one that is written out without a name. -/
theorem match?_of_literal {path : String} (spelled : Spelled path.toList)
    (short : path.toList.take 12 ≠ "/ontologies/".toList) :
    (ofString path).match? (Client.operationPath segment operation).toList = none := by
  rw [ofString_of_spelled spelled]
  cases matched : (literal path.toList).match? (Client.operationPath segment operation).toList with
  | none => rfl
  | some parts =>
    have same := eq_of_match?_literal matched
    rw [toList_clientPath] at same
    rw [← same] at short
    exact absurd rfl short

/-- **Among the routes of the service** the path of an operation leads to that operation only. -/
theorem match?_of_other {path : String} (known : path ∈ ofKnowledgeBases.map Route.path)
    (other : path ≠ operationPath operation) (single : '/' ∉ segment.toList) :
    (ofString path).match? (Client.operationPath segment operation).toList = none := by
  have differ (op : String) (spelled : Spelled op.toList) (at_op : path = operationPath op) :
      (ofString path).match? (Client.operationPath segment operation).toList = none := by
    rw [at_op, ofString_operationPath spelled, match?_operationPattern single, if_neg]
    rintro rfl
    exact other at_op
  simp only [ofKnowledgeBases, List.map_cons, List.map_nil, List.mem_cons, List.not_mem_nil,
    or_false] at known
  rcases known with health | listing | query | entails | explain | update
  · rw [health]
    exact match?_of_literal (by decide) (by decide)
  · rw [listing]
    exact match?_of_literal (by decide) (by decide)
  · exact differ _ (by decide) query
  · exact differ _ (by decide) entails
  · exact differ _ (by decide) explain
  · exact differ _ (by decide) update

theorem get?_name (name : String) : (Table.ofList [("name", name)]).get? "name" = some name :=
  Table.get?_insert_self "name" name ∅

/-- The name in the path leads to a knowledge base of the generation. -/
theorem base_eq {r : RouteRequest} {name : String} {g : Generation} {id : BaseId}
    (params : r.params = Table.ofList [("name", name)]) (state : r.state = some g)
    (known : g.find name = .ok id) : base r = .ok id := by
  have generation : r.generation = .ok g := by rw [RouteRequest.generation, state]
  rw [base, RouteRequest.param, params, get?_name, generation]
  simp only [bind, Except.bind, known]

end Route

namespace Router

open Route

variable {t : Router} {rows : List Row} {operation segment name : String} {handler : Handler}

/-- A parameter that decodes is read. -/
theorem readParams_of_decoded (decoded : Percent.decodeText? segment = some name) (key : String) :
    readParams [(key, segment)] = .ok (Table.ofList [(key, name)]) := by
  rw [readParams, List.mapM_cons, readParam, decoded]
  rfl

/-- A part of a path is read as the text that is written. -/
theorem exists_of_readParams {params : Table String String}
    (read : readParams [(name, segment)] = .ok params) :
    ∃ text, Percent.decodeText? segment = some text ∧ params = Table.ofList [(name, text)] := by
  rw [readParams, List.mapM_cons, readParam] at read
  cases decoded : Percent.decodeText? segment with
  | none => rw [decoded] at read; cases read
  | some text => rw [decoded] at read; cases read; exact ⟨text, rfl, rfl⟩

/-- **A post to the path of an operation** leads to the handler of the operation, with the name of
the ontology, if the path matches the pattern of no other row. -/
theorem find_operation (h : t.Holds rows) (distinct : Distinct rows)
    (row : ⟨"POST", operationPath operation, .handler handler⟩ ∈ rows)
    (spelled : Spelled operation.toList) (single : '/' ∉ segment.toList)
    (decoded : Percent.decodeText? segment = some name)
    (apart : ∀ r ∈ rows, r.path ≠ operationPath operation →
      (ofString r.path).match? (Client.operationPath segment operation).toList = none) :
    t.find "POST" (Client.operationPath segment operation)
      = .endpoint (.handler handler) (Table.ofList [("name", name)]) := by
  have endpoints : Row.endpointsAt rows (operationPath operation) ≠ [] :=
    List.ne_nil_of_mem (Row.mem_endpointsAt (p := ("POST", .handler handler)).2 row)
  have entry : t.entry? (Client.operationPath segment operation)
      = some (Row.entry (operationPath operation)
          (Row.endpointsAt rows (operationPath operation)), [("name", segment)]) := by
    refine entry?_eq (h.present _ endpoints) ?_ fun k e ps other held matched => ?_
    · show (ofString (operationPath operation)).match? _ = _
      rw [ofString_operationPath spelled, match?_operationPattern single, if_pos rfl]
    · -- every other row that takes the path would be one that does not
      exfalso
      rw [h.eq_entry held] at matched
      obtain ⟨p, member⟩ := List.exists_mem_of_ne_nil (Row.endpointsAt rows k) fun none' => by
        rw [h.absent k none'] at held
        cases held
      have nowhere := apart _ (Row.mem_endpointsAt.1 member) other
      rw [show (Row.entry k (Row.endpointsAt rows k)).pattern = ofString k from rfl, nowhere]
        at matched
      cases matched
  have varies : (Row.entry (operationPath operation)
      (Row.endpointsAt rows (operationPath operation))).varies = true :=
    contains_operationPath operation
  rw [find, entry]
  simp only [endpoint?_of_mem distinct row, varies, readParams_of_decoded decoded]

end Router

end OntologyService
