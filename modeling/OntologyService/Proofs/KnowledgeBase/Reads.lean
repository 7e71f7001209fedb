import OntologyService.Proofs.KnowledgeBase.Steps

/-!
# Reads show in no answer

Two knowledge bases are alike (`Alike`) if their engines hold the same axioms and one is closed
exactly if the other is; what each of them remembers may be anything. Everything that can be asked
without changing the axioms is answered alike by the two (`Alike.serve_eq`).

A knowledge base is like itself after any number of reads (`Kept.after_reads_alike`), so whoever
reads it leaves the answers of everybody else as they were.
-/

namespace OntologyService

namespace KnowledgeBase

variable {kb kb' : KnowledgeBase} {c : Call}

/-- **Two knowledge bases are alike**: kept, of one name and one policy, with the same axioms, and
both open or both closed. -/
structure Alike (kb kb' : KnowledgeBase) : Prop where
  left : kb.Kept
  right : kb'.Kept
  name : kb.name = kb'.name
  closed : kb.closed = kb'.closed
  engines : kb.reasoner.Alike kb'.reasoner
  policy : kb.explainer.policy = kb'.explainer.policy

namespace Alike

theorem refl (h : kb.Kept) : kb.Alike kb := ⟨h, h, rfl, rfl, ⟨h.sound, h.sound, rfl, rfl⟩, rfl⟩

theorem trans {kb'' : KnowledgeBase} (h : kb.Alike kb') (h' : kb'.Alike kb'') :
    kb.Alike kb'' where
  left := h.left
  right := h'.right
  name := h.name.trans h'.name
  closed := h.closed.trans h'.closed
  engines := ⟨h.engines.left, h'.engines.right, h.engines.ontology.trans h'.engines.ontology,
    h.engines.axioms.trans h'.engines.axioms⟩
  policy := h.policy.trans h'.policy

/-- What explains a valid statement is worked out alike. -/
theorem explain_eq (h : kb.Alike kb') (live : kb.closed = false) {a : Axiom} (valid : a.Valid)
    (limit : Nat) : (kb.explain a limit).1 = (kb'.explain a limit).1 := by
  rw [h.left.explain_eq live valid, h.right.explain_eq (h.closed.symm.trans live) valid,
    Generator.work_congr h.engines, h.policy]

/-- Knowledge bases that are alike explain alike while they live. -/
theorem serve_explain_eq (h : kb.Alike kb') (live : kb.closed = false) (a : Axiom) (limit : Nat) :
    (kb.serve (.explain a limit)).1 = (kb'.serve (.explain a limit)).1 := by
  cases checked : a.validate with
  | ok _ =>
    have valid := Reasoner.validate_eq_ok_iff.1 checked
    exact congrArg (Except.map Answer.justifications) (h.explain_eq live valid limit)
  | error e =>
    rw [h.left.serve_explain_defect live checked,
      h.right.serve_explain_defect (h.closed.symm.trans live) checked]

/-- **Knowledge bases that are alike** answer alike. -/
theorem serve_eq (h : kb.Alike kb') (reads : c.Reads) : (kb.serve c).1 = (kb'.serve c).1 := by
  cases live : kb.closed with
  | true =>
    rw [serve_of_closed live, serve_of_closed (h.closed.symm.trans live), h.name]
  | false =>
    have live' : kb'.closed = false := h.closed.symm.trans live
    cases c with
    | query kind e =>
      rw [serve_query live, serve_query live']
      exact congrArg (Except.map Answer.nodes) (h.engines.settle.classify.query_eq kind e)
    | entailed a =>
      rw [serve_entailed live, serve_entailed live']
      exact congrArg (Except.map Answer.truth) ((h.engines.prepare (.ofAxiom a)).isEntailed_eq a)
    | explain a limit => exact h.serve_explain_eq live a limit
    | update additions removals => exact reads.elim
    | close => exact reads.elim

end Alike

namespace Kept

/-- A read leaves a knowledge base alike, at the revision that it had. -/
theorem serve_alike (h : kb.Kept) (reads : c.Reads) :
    (kb.serve c).2.Alike kb ∧ (kb.serve c).2.revision = kb.revision := by
  cases live : kb.closed with
  | true =>
    rw [serve_of_closed live]
    exact ⟨.refl h, rfl⟩
  | false =>
    obtain ⟨kept, name, -⟩ := h.serve c
    obtain ⟨r, g, state, -, -, axioms, revision⟩ := h.serve_read live reads
    have engine : (kb.serve c).2.reasoner = r := by rw [state]
    have kept_by : (kb.serve c).2.reasoner.ontology = kb.reasoner.ontology ∧
        (kb.serve c).2.explainer.policy = kb.explainer.policy := by
      cases c with
      | query kind e =>
        rw [serve_query live]
        exact ⟨Reasoner.settle_ontology _, rfl⟩
      | entailed a =>
        rw [serve_entailed live]
        exact ⟨Reasoner.settle_ontology _, rfl⟩
      | explain a limit =>
        rw [serve_explain live]
        exact ⟨Reasoner.settle_ontology _, Generator.explain_policy _ _ _ _⟩
      | update additions removals => exact reads.elim
      | close => exact reads.elim
    refine ⟨⟨kept, h, name, ?_, ⟨kept.sound, h.sound, kept_by.1, ?_⟩, kept_by.2⟩, ?_⟩
    · rw [state]
    · exact (congrArg Reasoner.axioms engine).trans axioms
    · exact (congrArg Reasoner.revision engine).trans revision

/-- **Any number of reads** leaves a knowledge base alike, at the revision that it had. -/
theorem after_reads_alike (reads : List Call) : ∀ {kb : KnowledgeBase}, kb.Kept →
    (∀ c ∈ reads, c.Reads) →
      (kb.after reads).Alike kb ∧ (kb.after reads).revision = kb.revision := by
  induction reads with
  | nil => intro kb h _; exact ⟨.refl h, rfl⟩
  | cons c reads ih =>
    intro kb h all
    obtain ⟨first, rest⟩ := List.forall_mem_cons.1 all
    obtain ⟨alike, same⟩ := h.serve_alike first
    obtain ⟨alike', same'⟩ := ih alike.left rest
    exact ⟨alike'.trans alike, same'.trans same⟩

end Kept

end KnowledgeBase

end OntologyService
