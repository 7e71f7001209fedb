import OntologyService.Proofs.Wire.RoundTrip

/-!
# What goes over the wire is flat

Arrays and objects add a level to what is in them, and the types of the wire are put together from
few of them: an answer with justifications nests deepest, an object of an array of arrays of axioms.
So a reader never meets its limit, and what is written of a value is read back without a condition
(`WireType.octets_written`). Expressions are the exception, because they hold expressions.
-/

namespace OntologyService

namespace Json

variable {n : Nat}

/-- An array is one deeper than its items. -/
theorem depth_arr_le {items : List Json} (flat : ∀ j ∈ items, j.depth ≤ n) :
    (arr items).depth ≤ n + 1 := by
  refine Nat.succ_le_succ ?_
  induction items with
  | nil => exact Nat.zero_le n
  | cons j js ih =>
    obtain ⟨first, others⟩ := List.forall_mem_cons.1 flat
    exact Nat.max_le.2 ⟨first, ih others⟩

/-- An object is one deeper than its fields. -/
theorem depth_obj_le {fields : List (String × Json)} (flat : ∀ f ∈ fields, f.2.depth ≤ n) :
    (obj fields).depth ≤ n + 1 := by
  refine Nat.succ_le_succ ?_
  induction fields with
  | nil => exact Nat.zero_le n
  | cons f fs ih =>
    obtain ⟨first, others⟩ := List.forall_mem_cons.1 flat
    exact Nat.max_le.2 ⟨first, ih others⟩

/-- A set is one deeper than its members. -/
theorem depth_set_le {α : Type} [Ranked α] {item : α → Json} (flat : ∀ a, (item a).depth ≤ n)
    (s : SortedSet α) : (SortedSet.toJson item s).depth ≤ n + 1 := by
  refine depth_arr_le fun j member => ?_
  obtain ⟨a, -, rfl⟩ := List.mem_map.1 member
  exact flat a

end Json

open Json

/-! ## Type by type -/

theorem Entity.depth_le (e : Entity) : e.toJson.depth ≤ 1 := by
  cases e <;> exact Nat.le_refl 1

namespace Axiom

theorem depth_classes_le (classes : ClassSet) : (classesJson classes).depth ≤ 2 :=
  depth_obj_le (List.forall_mem_singleton.2 (depth_set_le (fun _ => Nat.le_refl 0) classes))

/-- An axiom nests deepest with a list of classes, under the name of its field and its tag. -/
theorem depth_le (a : Axiom) : a.toJson.depth ≤ 3 := by
  cases a with
  | subClassOf sub sup => exact Nat.le_succ 2
  | equivalentClasses classes =>
    exact depth_obj_le (List.forall_mem_singleton.2 (depth_classes_le classes))
  | disjointClasses classes =>
    exact depth_obj_le (List.forall_mem_singleton.2 (depth_classes_le classes))
  | classAssertion cls individual => exact Nat.le_succ 2

end Axiom

/-- A set of axioms nests one deeper than its axioms do. -/
theorem AxiomSet.depth_le (as : AxiomSet) : (AxiomSet.toJson as).depth ≤ 4 :=
  depth_set_le Axiom.depth_le as

/-- A set of nodes is an array of arrays of entities. -/
theorem NodeSet.depth_le (ns : NodeSet) : (NodeSet.toJson ns).depth ≤ 3 :=
  depth_set_le (depth_set_le Entity.depth_le) ns

theorem Explanations.depth_le (es : Explanations) : (Explanations.toJson es).depth ≤ 5 :=
  depth_set_le AxiomSet.depth_le es

theorem OntologySummary.depth_le (s : OntologySummary) : s.toJson.depth ≤ 1 := Nat.le_refl 1

namespace WireType

/-- **Nothing on the wire nests deeper** than an answer with justifications, but for expressions. -/
theorem depth_le {t : WireType} (flat : t ≠ expression) (v : t.Carrier) :
    (t.codec.write v).depth ≤ 6 := by
  cases t with
  | expression => exact absurd rfl flat
  | statement => exact (Axiom.depth_le v).trans (by decide)
  | batch => exact (AxiomSet.depth_le v).trans (by decide)
  | entity => exact (Entity.depth_le v).trans (by decide)
  | queryKind => exact Nat.zero_le 6
  | limitPolicy => exact Nat.zero_le 6
  | nodeSet => exact (NodeSet.depth_le v).trans (by decide)
  | explanations => exact (Explanations.depth_le v).trans (by decide)
  | document =>
    exact depth_obj_le
      (List.forall_mem_singleton.2 ((AxiomSet.depth_le v.axioms).trans (by decide)))
  | queryRequest =>
    refine depth_obj_le (List.forall_mem_cons.2 ⟨Nat.zero_le 5, List.forall_mem_singleton.2 ?_⟩)
    exact (Entity.depth_le v.entity).trans (by decide)
  | entailsRequest =>
    exact depth_obj_le
      (List.forall_mem_singleton.2 ((Axiom.depth_le v.statement).trans (by decide)))
  | explainRequest =>
    refine depth_obj_le (List.forall_mem_cons.2 ⟨?_, List.forall_mem_singleton.2 (Nat.zero_le 5)⟩)
    exact (Axiom.depth_le v.statement).trans (by decide)
  | updateRequest =>
    refine depth_obj_le (List.forall_mem_cons.2 ⟨?_, List.forall_mem_singleton.2 ?_⟩)
    · exact (AxiomSet.depth_le v.additions).trans (by decide)
    · exact (AxiomSet.depth_le v.removals).trans (by decide)
  | entailsResponse => exact Nat.le_add_left 1 5
  | explainResponse =>
    exact depth_obj_le (List.forall_mem_singleton.2 (Explanations.depth_le v.justifications))
  | healthResponse => exact Nat.le_add_left 1 5
  | listing =>
    refine depth_obj_le (List.forall_mem_singleton.2 ?_)
    refine (depth_arr_le (n := 1) fun j member => ?_).trans (by decide)
    obtain ⟨s, -, rfl⟩ := List.mem_map.1 member
    exact s.depth_le
  | updateSummary => exact Nat.le_add_left 1 5
  | errorBody => exact Nat.le_add_left 1 5

/-- **What was written of a value is read back**, unless the value is an expression that nests too
deep. -/
theorem octets_written {t : WireType} (flat : t ≠ expression) {v : t.Carrier}
    (fits : t.codec.Fits v) :
    t.codec.decode.octets (Utf8.encode (t.codec.write v).print) = some v :=
  (t.exact v fits).octets_eq.trans (if_pos ((t.depth_le flat v).trans (by decide)))

end WireType

end OntologyService
