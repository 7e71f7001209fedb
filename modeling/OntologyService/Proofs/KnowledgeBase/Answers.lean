import OntologyService.Proofs.KnowledgeBase.History

/-!
# What an open knowledge base answers

An open knowledge base answers from its axioms alone: what it remembers, of closures as of
explanations, shows in no answer (`Kept.isEntailed_eq`, `Kept.explain_eq`). Two laws follow.

**To explain is to entail** (`agrees_after`). A statement has a justification exactly if it is
entailed, under any limit, and a statement that is too complex for the one call is too complex for
the other. There is one exception. Axioms without a model entail everything, and entailment stops
there; but to explain is to test ever fewer axioms, until they have a model, and those tests need
the normal form of the statement. So there a statement of too many pairs is entailed, and its
explanation is refused (`not_agrees_of_crowd`).

**To assert is to entail, until it is taken back** (`asserted_after`). A new axiom is entailed as
soon as it was added, and once it was taken back the answer is the one from before, whatever was
read in between. Here too an axiom of too many pairs is refused where there is a model
(`refused_of_crowd`).
-/

namespace OntologyService

namespace KnowledgeBase

variable {kb kb' : KnowledgeBase} {x : Axiom}

/-! ## Answers and axioms -/

namespace Kept

/-- A knowledge base holds valid axioms only. -/
theorem valid (h : kb.Kept) : ∀ a ∈ kb.axioms, a.Valid :=
  (Reasoner.built_invariant (Generator.paired_invariant h.paired).1).2

/-- **Entailment** is answered as the engine answers it, prepared or not. -/
theorem isEntailed_eq (h : kb.Kept) (live : kb.closed = false) (x : Axiom) :
    (kb.isEntailed x).1 = kb.reasoner.isEntailed x := by
  have alike : (kb.reasoner.prepare (.ofAxiom x)).Alike kb.reasoner :=
    ⟨h.sound.prepare _, h.sound, Reasoner.prepare_ontology _ _, Reasoner.prepare_axioms _ _⟩
  rw [isEntailed, live, if_neg Bool.false_ne_true]
  exact alike.isEntailed_eq x

/-- **An explanation** is what it takes to work it out from the engine, remembered or not. -/
theorem explain_eq (h : kb.Kept) (live : kb.closed = false) (valid : x.Valid) (limit : Nat) :
    (kb.explain x limit).1 =
      Generator.work kb.reasoner x (kb.explainer.policy.effective limit) := by
  have settled : Generator.Paired kb.reasoner.settle kb.explainer :=
    .serve (q := .consistent) h.paired trivial (fun e => nomatch e)
  have alike : kb.reasoner.settle.Alike kb.reasoner :=
    ⟨h.sound.settle, h.sound, Reasoner.settle_ontology _, Reasoner.settle_axioms _⟩
  rw [explain, live, if_neg Bool.false_ne_true, ← Generator.work_congr alike]
  exact Generator.explain_eq_work (Generator.paired_invariant settled).2
    (h.disposed.trans live) valid limit

section

variable (h : kb.Kept) (live : kb.closed = false) (valid : x.Valid)
include h live valid

/-- Over consistent axioms, a statement about too many pairs of classes is refused. -/
theorem isEntailed_refused (model : Consistent kb.axioms) (large : x.TooManyPairs) :
    (kb.isEntailed x).1 = .error (.tooComplex 4097 4096) := by
  have refused := ClassExpression.dnf_ofAxiom_eq_error (Axiom.tooManyPairs_iff.1 large)
  rw [h.isEntailed_eq live, Reasoner.isEntailed_of_valid valid,
    h.sound.isSatisfiable_refused model refused]
  rfl

/-- Any other statement gets an answer, which is whether it is entailed. -/
theorem isEntailed_answers (small : ¬ (Consistent kb.axioms ∧ x.TooManyPairs)) :
    ∃ b, (kb.isEntailed x).1 = .ok b ∧ (b = true ↔ Entails kb.axioms x) := by
  obtain ⟨b, answer⟩ := h.sound.isEntailed_eq_ok valid small
  exact ⟨b, (h.isEntailed_eq live x).trans answer, h.sound.isEntailed_iff answer⟩

/-- Axioms without a model entail whatever they are asked. -/
theorem isEntailed_of_inconsistent (none : ¬ Consistent kb.axioms) :
    (kb.isEntailed x).1 = .ok true := by
  obtain ⟨b, answer, verdict⟩ := h.isEntailed_answers live valid fun usual => none usual.1
  rw [answer, verdict.2 fun m model => absurd ⟨m, model⟩ none]

/-- **Knowledge bases of the same axioms** answer alike on entailment. -/
theorem isEntailed_congr (h' : kb'.Kept) (live' : kb'.closed = false)
    (same : kb.axioms = kb'.axioms) : (kb.isEntailed x).1 = (kb'.isEntailed x).1 := by
  by_cases large : Consistent kb.axioms ∧ x.TooManyPairs
  · rw [h.isEntailed_refused live valid large.1 large.2,
      h'.isEntailed_refused live' valid (same ▸ large.1) large.2]
  · obtain ⟨b, answer, verdict⟩ := h.isEntailed_answers live valid large
    obtain ⟨b', answer', verdict'⟩ := h'.isEntailed_answers live' valid (same ▸ large)
    rw [answer, answer', Bool.eq_iff_iff.2 (verdict.trans (same ▸ verdict'.symm))]

/-- A statement about too many pairs is never explained. -/
theorem explain_refused (large : x.TooManyPairs) (limit : Nat) :
    (kb.explain x limit).1 = .error (.tooComplex 4097 4096) := by
  rw [h.explain_eq live valid]
  exact Generator.work_eq_error h.valid large _

/-- Any other gets an answer, which is empty if and only if it is not entailed. -/
theorem explain_answers (small : ¬ x.TooManyPairs) (limit : Nat) :
    ∃ es, (kb.explain x limit).1 = .ok es ∧ (es = ∅ ↔ ¬ Entails kb.axioms x) := by
  obtain ⟨es, worked⟩ := Generator.work_answers h.valid small
    (kb.explainer.policy.effective limit)
  exact ⟨es, (h.explain_eq live valid limit).trans worked,
    Generator.eq_empty_of_work_iff h.sound valid worked⟩

end

end Kept

/-! ## Explanation and entailment -/

/-- **Explanation and entailment agree** on a statement: it has a justification exactly if it is
entailed, and is refused by the one exactly if it is refused, for the same cause, by the other. -/
structure Agrees (kb : KnowledgeBase) (x : Axiom) (limit : Nat) : Prop where
  justified : (∃ es, (kb.explain x limit).1 = .ok es ∧ es ≠ ∅) ↔ (kb.isEntailed x).1 = .ok true
  unjustified : (kb.explain x limit).1 = .ok ∅ ↔ (kb.isEntailed x).1 = .ok false
  refused : ∀ e, (kb.explain x limit).1 = .error e ↔ (kb.isEntailed x).1 = .error e

/-- Two answers that say the same agree. -/
theorem agrees_of_ok {limit : Nat} {es : Explanations} {b : Bool}
    (explained : (kb.explain x limit).1 = .ok es) (answered : (kb.isEntailed x).1 = .ok b)
    (verdict : es = ∅ ↔ b = false) : kb.Agrees x limit := by
  refine ⟨?_, ?_, fun e => ?_⟩
  · rw [explained, answered]
    simp [verdict]
  · rw [explained, answered]
    simp [verdict]
  · rw [explained, answered]
    simp

/-- Two refusals with the same error agree. -/
theorem agrees_of_error {limit : Nat} {e : ReasoningError}
    (explained : (kb.explain x limit).1 = .error e) (answered : (kb.isEntailed x).1 = .error e) :
    kb.Agrees x limit := by
  refine ⟨?_, ?_, fun e' => ?_⟩
  · rw [explained, answered]
    simp
  · rw [explained, answered]
    simp
  · rw [explained, answered]
    simp

/-- They agree on every statement whose size does not come between them. -/
theorem Kept.agrees (h : kb.Kept) (live : kb.closed = false) (valid : x.Valid) (limit : Nat)
    (usual : ¬ (¬ Consistent kb.axioms ∧ x.TooManyPairs)) : kb.Agrees x limit := by
  by_cases large : x.TooManyPairs
  · have model : Consistent kb.axioms := by
      by_contra none
      exact usual ⟨none, large⟩
    exact agrees_of_error (h.explain_refused live valid large limit)
      (h.isEntailed_refused live valid model large)
  · obtain ⟨es, explained, empty⟩ := h.explain_answers live valid large limit
    obtain ⟨b, answered, verdict⟩ := h.isEntailed_answers live valid fun both => large both.2
    refine agrees_of_ok explained answered ?_
    rw [empty, ← verdict, Bool.not_eq_true]

/-- **To explain is to entail.** Valid axioms open a knowledge base in which, after any history that
does not close it, explanation and entailment agree on every valid statement under every limit. The
exception are statements of too many pairs where the axioms have no model: those are entailed, and
their explanation is refused. -/
theorem agrees_after (name : String) {axioms : AxiomSet} (policy : LimitPolicy)
    (valid : ∀ a ∈ axioms, a.Valid) :
    ∃ kb₀, KnowledgeBase.new name axioms policy = .ok kb₀ ∧
      ∀ history : List Call, Call.close ∉ history → ∀ x : Axiom, x.Valid → ∀ limit : Nat,
        let kb := kb₀.after history
        (¬ (¬ Consistent kb.axioms ∧ x.TooManyPairs) → kb.Agrees x limit) ∧
        (¬ Consistent kb.axioms ∧ x.TooManyPairs → (kb.isEntailed x).1 = .ok true ∧
          (kb.explain x limit).1 = .error (.tooComplex 4097 4096)) := by
  obtain ⟨kb₀, made, kept₀, live₀, -⟩ := Kept.new name policy valid
  refine ⟨kb₀, made, fun history never x valid_x limit => ?_⟩
  obtain ⟨kept, live⟩ := kept₀.after_open live₀ never
  exact ⟨kept.agrees live valid_x limit, fun odd =>
    ⟨kept.isEntailed_of_inconsistent live valid_x odd.1,
      kept.explain_refused live valid_x odd.2 limit⟩⟩

/-- Something that is an instance of nothing. -/
def paradox : AxiomSet := .ofList [.classAssertion ClassName.nothing ⟨"a"⟩]

/-- The paradox has no model. -/
theorem not_consistent_paradox : ¬ Consistent paradox := by
  rintro ⟨m, model⟩
  exact m.nothing _ (model (.classAssertion ClassName.nothing ⟨"a"⟩) (by decide +kernel))

/-- So many classes that are said to be equal that their pairs are too many. -/
def crowd : Axiom := .equivalentClasses (.ofList ((List.range 65).map fun n => ⟨toString n⟩))

/-- The crowd is a valid axiom about more pairs of classes than are checked. -/
theorem crowd_tooManyPairs : crowd.Valid ∧ crowd.TooManyPairs := by
  have size : (SortedSet.ofList ((List.range 65).map fun n => ClassName.mk (toString n))).size =
      65 := by decide +kernel
  refine ⟨by decide +kernel, ?_⟩
  show 4096 < _ * (_ - 1)
  rw [size]
  decide

/-- In a paradox a small statement is entailed and explained. -/
theorem paradox_explained :
    let x := Axiom.subClassOf ⟨"A"⟩ ⟨"B"⟩
    (∀ a ∈ paradox, a.Valid) ∧ Call.close ∉ [Call.entailed x] ∧ x.Valid ∧
      ¬ (¬ Consistent paradox ∧ x.TooManyPairs) ∧
      ∃ kb₀, KnowledgeBase.new "paradox" paradox .forward = .ok kb₀ ∧
        ∃ es, ((kb₀.after [.entailed x]).explain x 1).1 = .ok es ∧ es ≠ ∅ := by
  intro x
  have valid : ∀ a ∈ paradox, a.Valid := by decide +kernel
  have never : Call.close ∉ [Call.entailed x] := by simp
  have valid_x : x.Valid := by decide +kernel
  obtain ⟨kb₀, made, law⟩ := agrees_after "paradox" .forward valid
  obtain ⟨-, kept₀, live₀, -, axioms₀⟩ := Kept.of_new made
  obtain ⟨kept, live, held, -⟩ := kept₀.after_reads [.entailed x] live₀ (by simp [Call.Reads])
  have agrees := (law [.entailed x] never x valid_x 1).1 fun odd => odd.2
  have yes := kept.isEntailed_of_inconsistent live valid_x
    (held.trans axioms₀ ▸ not_consistent_paradox)
  exact ⟨valid, never, valid_x, fun odd => odd.2, kb₀, made, agrees.justified.2 yes⟩

/-- In a paradox the crowd is entailed, and not explained. -/
theorem not_agrees_of_crowd :
    crowd.Valid ∧ ∃ kb, KnowledgeBase.new "paradox" paradox .forward = .ok kb ∧
      kb.closed = false ∧ (kb.isEntailed crowd).1 = .ok true ∧
      (kb.explain crowd 0).1 = .error (.tooComplex 4097 4096) ∧ ¬ kb.Agrees crowd 0 := by
  have valid : ∀ a ∈ paradox, a.Valid := by decide +kernel
  obtain ⟨valid_x, large⟩ := crowd_tooManyPairs
  obtain ⟨kb, made, kept, live, -, axioms⟩ := Kept.new "paradox" .forward valid
  have yes := kept.isEntailed_of_inconsistent live valid_x (axioms ▸ not_consistent_paradox)
  have refused := kept.explain_refused live valid_x large 0
  refine ⟨valid_x, kb, made, live, yes, refused, fun agrees => ?_⟩
  have no := (agrees.refused _).1 refused
  rw [yes] at no
  cases no

/-! ## To assert and to retract -/

/-- The knowledge base once the axiom was added, and after what was read since. -/
def assert (kb : KnowledgeBase) (x : Axiom) (reads : List Call) : KnowledgeBase :=
  (kb.update (.ofList [x]) ∅).2.after reads

/-- The knowledge base once the axiom was taken back, and after what was read since. -/
def retract (kb : KnowledgeBase) (x : Axiom) (reads : List Call) : KnowledgeBase :=
  (kb.update ∅ (.ofList [x])).2.after reads

/-- A valid axiom alone is a valid batch to add. -/
theorem validBatch_add (valid : x.Valid) : ValidBatch (.ofList [x]) ∅ :=
  ⟨by simp [valid], by simp⟩

/-- A valid axiom alone is a valid batch to remove. -/
theorem validBatch_remove (valid : x.Valid) : ValidBatch ∅ (.ofList [x]) :=
  ⟨by simp, by simp [valid]⟩

namespace Kept

section

variable (h : kb.Kept) (live : kb.closed = false) (valid : x.Valid)
include h live valid

/-- Adding one axiom that is not held counts one addition and moves the revision on. -/
theorem update_add (new : x ∉ kb.axioms) : (kb.update (.ofList [x]) ∅).1 =
    .ok { added := 1, removed := 0, revision := kb.revision + 1 } := by
  obtain ⟨kb', updated, -, -, -, -, revision⟩ := h.update_of_valid live (validBatch_add valid)
  have alone : (SortedSet.ofList [x]).sdiff kb.axioms = .ofList [x] := by
    refine SortedSet.ext fun a => ?_
    simp only [SortedSet.mem_sdiff, SortedSet.mem_ofList, List.mem_singleton]
    exact ⟨And.left, fun same => ⟨same, same ▸ new⟩⟩
  have none : (∅ : AxiomSet).inter (kb.axioms ∪ .ofList [x]) = ∅ :=
    SortedSet.ext fun a => by simp
  rw [alone, none] at updated revision
  rw [updated, revision]
  rfl

/-- Removing one that is held counts one removal and moves the revision on. -/
theorem update_remove (held : x ∈ kb.axioms) : (kb.update ∅ (.ofList [x])).1 =
    .ok { added := 0, removed := 1, revision := kb.revision + 1 } := by
  obtain ⟨kb', updated, -, -, -, -, revision⟩ := h.update_of_valid live (validBatch_remove valid)
  have none : (∅ : AxiomSet).sdiff kb.axioms = ∅ := SortedSet.ext fun a => by simp
  have alone : (SortedSet.ofList [x]).inter (kb.axioms ∪ ∅) = .ofList [x] := by
    refine SortedSet.ext fun a => ?_
    simp only [SortedSet.mem_inter, SortedSet.mem_ofList, List.mem_singleton, SortedSet.mem_union]
    exact ⟨And.left, fun same => ⟨same, .inl (same ▸ held)⟩⟩
  rw [none, alone] at updated revision
  rw [updated, revision]
  rfl

/-- Asserting an axiom, with any reads between, leaves a live knowledge base with the axiom in it.
-/
theorem assert {reads : List Call} (all : ∀ c ∈ reads, c.Reads) :
    (kb.assert x reads).Kept ∧ (kb.assert x reads).closed = false ∧
      (kb.assert x reads).axioms = kb.axioms.insert x := by
  obtain ⟨kb', updated, kept, live', -, axioms, -⟩ :=
    h.update_of_valid live (validBatch_add valid)
  obtain ⟨kept', live'', held, -⟩ := kept.after_reads reads live' all
  rw [KnowledgeBase.assert, updated]
  refine ⟨kept', live'', held.trans (axioms.trans (SortedSet.ext fun a => ?_))⟩
  simp [or_comm]

/-- Retracting it, with any reads between, leaves a live knowledge base without it. -/
theorem retract {reads : List Call} (all : ∀ c ∈ reads, c.Reads) :
    (kb.retract x reads).Kept ∧ (kb.retract x reads).closed = false ∧
      (kb.retract x reads).axioms = kb.axioms.erase x := by
  obtain ⟨kb', updated, kept, live', -, axioms, -⟩ :=
    h.update_of_valid live (validBatch_remove valid)
  obtain ⟨kept', live'', held, -⟩ := kept.after_reads reads live' all
  rw [KnowledgeBase.retract, updated]
  refine ⟨kept', live'', held.trans (axioms.trans (SortedSet.ext fun a => ?_))⟩
  simp [and_comm]

end

end Kept

/-- **What it does to assert an axiom**, whatever is read in between. It is entailed from then on,
and once it was taken back it is entailed exactly if it was before. The exception is an axiom of too
many pairs beside which there is a model: whether it is entailed is refused. -/
structure AssertLaw (kb : KnowledgeBase) (x : Axiom) : Prop where
  adds : (kb.update (.ofList [x]) ∅).1 =
    .ok { added := 1, removed := 0, revision := kb.revision + 1 }
  entails : ∀ reads, (∀ c ∈ reads, c.Reads) →
    ¬ (Consistent (kb.axioms.insert x) ∧ x.TooManyPairs) →
      ((kb.assert x reads).isEntailed x).1 = .ok true
  refuses : ∀ reads, (∀ c ∈ reads, c.Reads) →
    Consistent (kb.axioms.insert x) ∧ x.TooManyPairs →
      ((kb.assert x reads).isEntailed x).1 = .error (.tooComplex 4097 4096)
  removes : ∀ reads, (∀ c ∈ reads, c.Reads) →
    ((kb.assert x reads).update ∅ (.ofList [x])).1 =
      .ok { added := 0, removed := 1, revision := (kb.assert x reads).revision + 1 }
  restores : ∀ reads reads', (∀ c ∈ reads, c.Reads) → (∀ c ∈ reads', c.Reads) →
    let back := (kb.assert x reads).retract x reads'
    back.axioms = kb.axioms ∧ (back.isEntailed x).1 = (kb.isEntailed x).1

/-- An axiom that is not held and asserted obeys the law of assertion. -/
theorem Kept.assertLaw (h : kb.Kept) (live : kb.closed = false) (valid : x.Valid)
    (new : x ∉ kb.axioms) : kb.AssertLaw x where
  adds := h.update_add live valid new
  entails reads all small := by
    obtain ⟨kept, live', held⟩ := h.assert live valid all
    obtain ⟨b, answered, verdict⟩ := kept.isEntailed_answers live' valid (held ▸ small)
    rw [answered, verdict.2 fun m model => model x (by simp [held])]
  refuses reads all odd := by
    obtain ⟨kept, live', held⟩ := h.assert live valid all
    exact kept.isEntailed_refused live' valid (held ▸ odd.1) odd.2
  removes reads all := by
    obtain ⟨kept, live', held⟩ := h.assert live valid all
    exact kept.update_remove live' valid (by simp [held])
  restores reads reads' all all' := by
    obtain ⟨kept, live', held⟩ := h.assert live valid all
    obtain ⟨kept', live'', left⟩ := kept.retract live' valid all'
    -- an axiom that was held all along is not the new one
    have same : ((kb.assert x reads).retract x reads').axioms = kb.axioms := by
      rw [left, held]
      refine SortedSet.ext fun a => ?_
      simp only [SortedSet.mem_erase, SortedSet.mem_insert]
      exact ⟨fun both => both.1.resolve_left both.2,
        fun ha => ⟨.inr ha, fun is => new (is ▸ ha)⟩⟩
    exact ⟨same, kept'.isEntailed_congr live'' valid h live same⟩

/-- **To assert is to entail, until it is taken back.** Valid axioms open a knowledge base in which,
after any history that does not close it, every valid axiom it does not hold can be asserted. -/
theorem asserted_after (name : String) {axioms : AxiomSet} (policy : LimitPolicy)
    (valid : ∀ a ∈ axioms, a.Valid) :
    ∃ kb₀, KnowledgeBase.new name axioms policy = .ok kb₀ ∧
      ∀ history : List Call, Call.close ∉ history →
        ∀ x : Axiom, x.Valid → x ∉ (kb₀.after history).axioms →
          (kb₀.after history).AssertLaw x := by
  obtain ⟨kb₀, made, kept₀, live₀, -⟩ := Kept.new name policy valid
  refine ⟨kb₀, made, fun history never x valid_x new => ?_⟩
  obtain ⟨kept, live⟩ := kept₀.after_open live₀ never
  exact kept.assertLaw live valid_x new

/-- That mammals are animals holds among pets once it was asserted, and no longer once it was taken
back. -/
theorem pets_asserted :
    let x := Axiom.subClassOf ⟨"Mammal"⟩ ⟨"Animal"⟩
    (∀ a ∈ SortedSet.ofList Reasoner.pets, a.Valid) ∧ x.Valid ∧
      ∃ kb₀, KnowledgeBase.new "pets" (.ofList Reasoner.pets) .forward = .ok kb₀ ∧
        Call.close ∉ [Call.entailed x] ∧ x ∉ (kb₀.after [.entailed x]).axioms ∧
        (((kb₀.after [.entailed x]).assert x [.entailed x]).isEntailed x).1 = .ok true := by
  intro x
  have valid : ∀ a ∈ SortedSet.ofList Reasoner.pets, a.Valid := by decide +kernel
  have valid_x : x.Valid := by decide +kernel
  have never : Call.close ∉ [Call.entailed x] := by simp
  have reads : ∀ c ∈ [Call.entailed x], c.Reads := by simp [Call.Reads]
  obtain ⟨kb₀, made, law⟩ := asserted_after "pets" .forward valid
  obtain ⟨-, kept₀, live₀, -, axioms₀⟩ := Kept.of_new made
  obtain ⟨-, -, held, -⟩ := kept₀.after_reads [.entailed x] live₀ reads
  have new : x ∉ (kb₀.after [.entailed x]).axioms := by
    rw [held, axioms₀]
    decide +kernel
  have asserted := law [.entailed x] never x valid_x new
  exact ⟨valid, valid_x, kb₀, made, never, new,
    asserted.entails [.entailed x] reads fun odd => odd.2⟩

/-- Where every class but the one of nothing is the class of all things, the crowd is equal. -/
theorem consistent_crowd : Consistent ((∅ : AxiomSet).insert crowd) := by
  refine ⟨{ Domain := IndividualName
            instances := fun c _ => c ≠ ClassName.nothing
            denotes := id
            inhabited := ⟨⟨"a"⟩⟩
            thing := fun _ => by decide +kernel
            nothing := fun _ absurd => absurd rfl
            unique := Function.injective_id }, fun a ha => ?_⟩
  obtain rfl : a = crowd := by simpa using ha
  have named : ∀ c ∈ SortedSet.ofList ((List.range 65).map fun n => ClassName.mk (toString n)),
      c ≠ ClassName.nothing := by decide +kernel
  exact fun c hc d hd _ => iff_of_true (named c hc) (named d hd)

/-- Where nothing else is held, the crowd can be asserted, and whether it is entailed is refused. -/
theorem refused_of_crowd :
    crowd.Valid ∧ ∃ kb, KnowledgeBase.new "empty" ∅ .forward = .ok kb ∧ kb.closed = false ∧
      crowd ∉ kb.axioms ∧
      (kb.update (.ofList [crowd]) ∅).1 =
        .ok { added := 1, removed := 0, revision := kb.revision + 1 } ∧
      ((kb.assert crowd []).isEntailed crowd).1 = .error (.tooComplex 4097 4096) := by
  obtain ⟨valid, large⟩ := crowd_tooManyPairs
  have none : ∀ a ∈ (∅ : AxiomSet), a.Valid := by simp
  obtain ⟨kb, made, kept, live, -, axioms⟩ := Kept.new "empty" .forward none
  have new : crowd ∉ kb.axioms := by simp [axioms]
  have law := kept.assertLaw live valid new
  refine ⟨valid, kb, made, live, new, law.adds, law.refuses [] (by simp) ⟨?_, large⟩⟩
  rw [axioms]
  exact consistent_crowd

end KnowledgeBase

end OntologyService
