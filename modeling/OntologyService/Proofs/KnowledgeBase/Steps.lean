import OntologyService.KnowledgeBase.Sharing
import OntologyService.Proofs.KnowledgeBase.Answers

/-!
# Calls, step by step

A party that shares a knowledge base takes its call in steps, and other parties come in between.
Here the steps are put together again, for as long as nobody comes in between.

Whatever is asked, an answer is worked out from an engine that may remember other closures than the
knowledge base it stands for, and with explanations that may have been let go of (`Whole`). The
steps keep it so, and where they end, they end with the answer of that knowledge base, or with a
refusal because the explanations are gone (`Whole.advance`).

A batch is taken in axiom by axiom. At every moment the rest of it leads where all of it leads from
the engine that it started on (`Midway`), so the last step leaves what the batch leaves
(`Midway.conclude`).
-/

namespace OntologyService

namespace Reasoner

variable {r : Reasoner}

/-! ## A batch, axiom by axiom -/

/-- A batch of additions is its first axiom, then the rest. -/
theorem addAll_cons (r : Reasoner) (a : Axiom) (as : List Axiom) :
    r.addAll (a :: as) = (((r.addAll [a]).1.addAll as).1,
      (r.addAll [a]).2 + ((r.addAll [a]).1.addAll as).2) := by
  by_cases held : a ∈ r.axioms
  · rw [addAll_held held, addAll_held held, addAll, Nat.zero_add]
  · rw [addAll_new held, addAll_new held, addAll, Nat.zero_add, Nat.add_comm]

/-- A batch of removals is its first axiom, then the rest. -/
theorem removeAll_cons (r : Reasoner) (a : Axiom) (as : List Axiom) :
    r.removeAll (a :: as) = (((r.removeAll [a]).1.removeAll as).1,
      (r.removeAll [a]).2 + ((r.removeAll [a]).1.removeAll as).2) := by
  by_cases held : a ∈ r.axioms
  · rw [removeAll_held held, removeAll_held held, removeAll, Nat.zero_add, Nat.add_comm]
  · rw [removeAll_absent held, removeAll_absent held, removeAll, Nat.zero_add]

/-- **A batch that is being taken in**, from the engine `r₀` on: the rest of it leads where all of
it leads from there, in axioms and in counts. -/
structure Midway (r₀ : Reasoner) (additions removals : List Axiom) (r : Reasoner)
    (as bs : List Axiom) (c : Change) : Prop where
  engine : ((r.addAll as).1.removeAll bs).1 = ((r₀.addAll additions).1.removeAll removals).1
  added : c.added + (r.addAll as).2 = (r₀.addAll additions).2
  removed : c.removed + ((r.addAll as).1.removeAll bs).2 =
    ((r₀.addAll additions).1.removeAll removals).2

namespace Midway

variable {r₀ : Reasoner} {additions removals as bs : List Axiom} {a : Axiom} {c : Change}

/-- Before its first step an update is midway with nothing done. -/
theorem start (r : Reasoner) (additions removals : List Axiom) :
    Midway r additions removals r additions removals ⟨0, 0⟩ :=
  ⟨rfl, Nat.zero_add _, Nat.zero_add _⟩

/-- Adding one axiom of a batch is a step on the way. -/
theorem add (h : Midway r₀ additions removals r (a :: as) bs c) :
    Midway r₀ additions removals (r.addAll [a]).1 as bs
      { c with added := c.added + (r.addAll [a]).2 } := by
  have engine := h.engine
  have added := h.added
  have removed := h.removed
  rw [addAll_cons] at engine added removed
  exact ⟨engine, (Nat.add_assoc ..).trans added, removed⟩

/-- Removing one is a step on the way, once the additions are done. -/
theorem remove (h : Midway r₀ additions removals r [] (a :: bs) c) :
    Midway r₀ additions removals (r.removeAll [a]).1 [] bs
      { c with removed := c.removed + (r.removeAll [a]).2 } := by
  have engine := h.engine
  have removed := h.removed
  rw [addAll, removeAll_cons] at engine removed
  exact ⟨engine, h.added, (Nat.add_assoc ..).trans removed⟩

/-- **The end of a batch** is what the batch leaves. -/
theorem conclude (h : Midway r₀ additions removals r [] [] c) :
    (r.conclude c, c) = r₀.apply additions removals := by
  have engine : r = ((r₀.addAll additions).1.removeAll removals).1 := h.engine
  have change : c = ⟨(r₀.addAll additions).2, ((r₀.addAll additions).1.removeAll removals).2⟩ := by
    rw [← h.added, ← h.removed]
    rfl
  have revision : r.revision = r₀.revision := by
    rw [engine, (removeAll_spec removals _).2.1, (addAll_spec additions _).2.1]
  have applied : r₀.apply additions removals =
      if c.effective then ({ r with consistent := none, revision := r₀.revision + 1 }, c)
      else (r, c) := by
    rw [engine, change]
    rfl
  rw [applied, Reasoner.conclude, revision]
  split <;> rfl

end Midway

/-- Reasoners that are alike take in a batch alike, with equal counts. -/
theorem Alike.apply {s : Reasoner} (h : r.Alike s) (additions removals : List Axiom) :
    (r.apply additions removals).1.Alike (s.apply additions removals).1 ∧
      (r.apply additions removals).2 = (s.apply additions removals).2 := by
  obtain ⟨left, name, axioms⟩ := h.left.apply additions removals
  obtain ⟨right, name', axioms'⟩ := h.right.apply additions removals
  refine ⟨⟨left, right, ?_, ?_⟩, ?_⟩
  · rw [name, name', h.ontology]
  · rw [axioms, axioms', h.axioms]
  · have replied := h.reply_eq (.apply additions removals)
    simpa [serve] using replied

end Reasoner

namespace KnowledgeBase

/-! ## Answers, step by step -/

/-- **An engine and explanations stand for a knowledge base**: they answer as it does, up to what is
remembered. -/
structure Whole (r : Reasoner) (g : Generator) (s : KnowledgeBase) : Prop where
  alike : r.Alike s.reasoner
  revision : r.revision = s.reasoner.revision
  coherent : g.Coherent r

variable {r : Reasoner} {g : Generator} {s kb : KnowledgeBase} {additions removals : AxiomSet}

namespace Whole

/-- An engine that serves a request without a change of its axioms still stands for its knowledge
base. -/
theorem serve (h : Whole r g s) {q : Reasoner.Request} (axioms : (r.serve q).2.axioms = r.axioms)
    (revision : (r.serve q).2.revision = r.revision) (kept : q ≠ .dispose) :
    Whole (r.serve q).2 g s := by
  obtain ⟨sound, name, -⟩ := h.alike.left.serve q
  exact ⟨⟨sound, h.alike.right, name.trans h.alike.ontology, axioms.trans h.alike.axioms⟩,
    revision.trans h.revision, h.coherent.serve h.alike.left kept⟩

/-- So does an engine that settles whether its axioms are consistent. -/
theorem settle (h : Whole r g s) : Whole r.settle g s :=
  h.serve (q := .consistent) (Reasoner.settle_axioms r) (Reasoner.settle_revision r)
    (by simp)

/-- Explanations that were let go of stand for any. -/
theorem forget (h : Whole r g s) {g' : Generator} (empty : g'.memo = ∅) : Whole r g' s :=
  ⟨h.alike, h.revision, Generator.coherent_empty empty r⟩

/-- The engine and the knowledge base work out the same justifications. -/
theorem work_eq (h : Whole r g s) (a : Axiom) (limit : Nat) :
    Generator.work r a limit = Generator.work s.reasoner a limit :=
  Generator.work_congr h.alike a limit

/-- What is remembered at the revision of the engine is what its knowledge base would work out. -/
theorem remembered (h : Whole r g s) {key : Axiom × Nat} {es : Explanations}
    (found : g.remembered? r.revision key = some es) :
    Generator.work s.reasoner key.1 key.2 = .ok es := by
  rw [← h.work_eq]
  exact (h.coherent key r.revision es (Generator.remembered?_eq_some found)).2 rfl

/-- So do explanations that remember what was worked out. -/
theorem remember (h : Whole r g s) (key : Axiom × Nat) {es : Explanations}
    (worked : Generator.work s.reasoner key.1 key.2 = .ok es) :
    Whole r { g with memo := g.memo.insert key (r.revision, es) } s := by
  refine ⟨h.alike, h.revision, fun key' revision es' held => ?_⟩
  by_cases same : key' = key
  · rw [same, Table.get?_insert_self] at held
    cases held
    exact ⟨Nat.le_refl _, fun _ => by rw [same, h.work_eq]; exact worked⟩
  · rw [Table.get?_insert_of_ne same] at held
    exact h.coherent key' revision es' held

/-- A batch leaves whole what it found whole. -/
theorem apply (h : Whole r g s) (live : s.closed = false) (valid : ValidBatch additions removals) :
    Whole (r.apply additions.toList removals.toList).1 g
        (s.serve (.update additions removals)).2 ∧
      (s.serve (.update additions removals)).1 =
        .ok (.summary {
          added := (r.apply additions.toList removals.toList).2.added
          removed := (r.apply additions.toList removals.toList).2.removed
          revision := (r.apply additions.toList removals.toList).1.revision }) := by
  obtain ⟨alike, counts⟩ := h.alike.apply additions.toList removals.toList
  obtain ⟨-, -, grown⟩ := r.apply_counts additions removals
  obtain ⟨-, -, grown'⟩ := s.reasoner.apply_counts additions removals
  have revision : (r.apply additions.toList removals.toList).1.revision =
      (s.reasoner.apply additions.toList removals.toList).1.revision := by
    rw [grown, grown', h.revision, counts]
  obtain ⟨f, told⟩ := announce_eq (s.takeIn additions removals).2 (s.takeIn additions removals).1
  have reasoner : (s.serve (.update additions removals)).2.reasoner =
      (s.reasoner.apply additions.toList removals.toList).1 := by
    rw [KnowledgeBase.serve, update_eq_ok live valid, told]
    rfl
  refine ⟨⟨reasoner ▸ alike, reasoner ▸ revision, ?_⟩, ?_⟩
  · exact h.coherent.serve (q := .apply additions.toList removals.toList) h.alike.left
      (by simp)
  · rw [KnowledgeBase.serve, update_eq_ok live valid, takeIn_fst, counts, revision]
    rfl

end Whole

/-- What was found out on the way to an answer. -/
def Progress.Fits (s : KnowledgeBase) : Question → Progress → Prop
  | .explain a _, .admitted | .explain a _, .missed => a.Valid
  | .explain a limit, .worked es =>
    a.Valid ∧ Generator.work s.reasoner a (s.explainer.policy.effective limit) = .ok es
  | _, _ => True

/-- What a step to an answer comes to: more of it found out, or the result. Only where the
explanations are gone, that is a refusal. -/
def Next (kb s : KnowledgeBase) (q : Question) : Progress ⊕ Result → Prop
  | .inl progress => progress.Fits s q
  | .inr result => kb.explainer.disposed = true ∧ result = .error (.closed s.reasoner.ontology) ∨
    result = (s.serve q.call).1

/-- A live knowledge base explains a valid axiom with what the search finds, within its effective
limit. -/
theorem Kept.serve_explain_valid (h : s.Kept) (live : s.closed = false) {a : Axiom}
    (valid : a.Valid) (limit : Nat) : (s.serve (.explain a limit)).1 =
      (Generator.work s.reasoner a (s.explainer.policy.effective limit)).map
        Answer.justifications := by
  show (s.explain a limit).1.map Answer.justifications = _
  rw [h.explain_eq live valid]

/-- It refuses a malformed one with the defect. -/
theorem Kept.serve_explain_defect (h : s.Kept) (live : s.closed = false) {a : Axiom}
    {e : ReasoningError} (defective : a.validate = .error e) (limit : Nat) :
    (s.serve (.explain a limit)).1 = .error e := by
  have awake : ¬ s.explainer.disposed = true := by rw [h.disposed, live]; exact Bool.false_ne_true
  rw [serve_explain live, readExplanations, Generator.explain, if_neg awake, defective]
  rfl

/-- A step to an answer touches nothing but what is remembered. -/
theorem advance_keeps (q : Question) (kb : KnowledgeBase) (progress : Progress) :
    (q.advance kb progress).1.name = kb.name ∧ (q.advance kb progress).1.closed = kb.closed ∧
      (q.advance kb progress).1.explainer.policy = kb.explainer.policy ∧
      (q.advance kb progress).1.explainer.disposed = kb.explainer.disposed := by
  cases q with
  | query kind e => exact ⟨rfl, rfl, rfl, rfl⟩
  | entailed a => exact ⟨rfl, rfl, rfl, rfl⟩
  | explain a limit =>
    cases progress with
    | asked =>
      simp only [Question.advance]
      split
      · exact ⟨rfl, rfl, rfl, rfl⟩
      · split <;> exact ⟨rfl, rfl, rfl, rfl⟩
    | admitted =>
      simp only [Question.advance]
      split <;> exact ⟨rfl, rfl, rfl, rfl⟩
    | missed =>
      simp only [Question.advance]
      split <;> exact ⟨rfl, rfl, rfl, rfl⟩
    | worked es => exact ⟨rfl, rfl, rfl, rfl⟩

/-- **A step to an answer** keeps engine and explanations whole, and leads to what the knowledge
base that they stand for answers, unless the explanations are gone. -/
theorem Whole.advance (h : Whole kb.reasoner kb.explainer s) (kept : s.Kept)
    (live : s.closed = false) (policy : kb.explainer.policy = s.explainer.policy) {q : Question}
    {progress : Progress} (fits : progress.Fits s q) :
    Whole (q.advance kb progress).1.reasoner (q.advance kb progress).1.explainer s ∧
      Next kb s q (q.advance kb progress).2 := by
  cases q with
  | query kind e =>
    refine ⟨h.serve (q := .query kind e) (Reasoner.settle_axioms _) (Reasoner.settle_revision _)
      (by simp), .inr ?_⟩
    show _ = (s.serve (.query kind e)).1
    rw [serve_query live]
    show _ = ((s.reasoner.settle.classify.query kind e).map .nodes : Result)
    rw [← h.alike.settle.classify.query_eq]
  | entailed a =>
    refine ⟨h.serve (q := .entailed a) (Reasoner.settle_axioms _) (Reasoner.settle_revision _)
      (by simp), .inr ?_⟩
    show _ = (s.serve (.entailed a)).1
    rw [serve_entailed live]
    show _ = (((s.reasoner.prepare (.ofAxiom a)).isEntailed a).map .truth : Result)
    rw [← (h.alike.prepare (.ofAxiom a)).isEntailed_eq]
    rfl
  | explain a limit =>
    cases progress with
    | asked =>
      simp only [Question.advance]
      split
      · next gone =>
        -- the explanations went between the second look at the flag and now
        exact ⟨h.settle, .inl ⟨gone, by rw [Reasoner.settle_ontology, h.alike.ontology]⟩⟩
      · split
        · next defective =>
          exact ⟨h.settle, .inr (kept.serve_explain_defect live defective limit).symm⟩
        · next passed => exact ⟨h.settle, Reasoner.validate_eq_ok_iff.1 passed⟩
    | admitted =>
      simp only [Question.advance]
      split
      · next es found =>
        have worked := h.remembered found
        rw [policy] at worked
        refine ⟨h, .inr ?_⟩
        rw [Question.call, kept.serve_explain_valid live fits, worked]
        rfl
      · exact ⟨h, fits⟩
    | missed =>
      simp only [Question.advance, h.work_eq, policy]
      split
      · next refused =>
        refine ⟨h, .inr ?_⟩
        rw [Question.call, kept.serve_explain_valid live fits, refused]
        rfl
      · next worked => exact ⟨h, fits, worked⟩
    | worked es =>
      obtain ⟨valid, worked⟩ := fits
      refine ⟨h.remember (a, _) ?_, .inr ?_⟩
      · rw [policy]
        exact worked
      · rw [Question.call, kept.serve_explain_valid live valid, worked]
        rfl

/-- A question is answered with no summary. -/
theorem serve_question_ne_summary (kb : KnowledgeBase) (q : Question) (s : UpdateSummary) :
    (kb.serve q.call).1 ≠ .ok (.summary s) := by
  cases q with
  | query kind e =>
    show (kb.query kind e).1.map Answer.nodes ≠ _
    cases (kb.query kind e).1 <;> simp [Except.map]
  | entailed a =>
    show (kb.isEntailed a).1.map Answer.truth ≠ _
    cases (kb.isEntailed a).1 <;> simp [Except.map]
  | explain a limit =>
    show (kb.explain a limit).1.map Answer.justifications ≠ _
    cases (kb.explain a limit).1 <;> simp [Except.map]

/-! ## Updates, one after another -/

/-- It refuses a batch with a malformed axiom, and nothing changes. -/
theorem serve_update_defect (live : kb.closed = false) {e : ReasoningError}
    (defective : Axiom.validateAll (additions.toList ++ removals.toList) = .error e) :
    kb.serve (.update additions removals) = (.error e, kb) := by
  rw [serve, update, live, if_neg Bool.false_ne_true, defective]
  rfl

/-- The call changes the axioms. -/
def Call.Updates : Call → Prop
  | .update _ _ => True
  | .query _ _ | .entailed _ | .explain _ _ | .close => False

/-- The knowledge base is open, and its engine goes by its name. -/
structure Opened (kb : KnowledgeBase) : Prop where
  kept : kb.Kept
  live : kb.closed = false
  named : kb.reasoner.ontology = kb.name

/-- A new knowledge base is open. -/
theorem Opened.new {name : String} {axioms : AxiomSet} {policy : LimitPolicy}
    (made : KnowledgeBase.new name axioms policy = .ok kb) : kb.Opened := by
  obtain ⟨valid, kept, live, named, -⟩ := Kept.of_new made
  refine ⟨kept, live, ?_⟩
  unfold KnowledgeBase.new Reasoner.ofAxioms at made
  rw [Reasoner.validateAll_eq_ok valid] at made
  cases made
  exact ((Reasoner.sound_new name).apply axioms.toList []).2.1

/-- An update leaves open what is open, and does not touch name and limits. -/
theorem Opened.update (h : kb.Opened) (additions removals : AxiomSet) :
    let kb' := (kb.serve (.update additions removals)).2
    kb'.Opened ∧ kb'.name = kb.name ∧ kb'.explainer.policy = kb.explainer.policy := by
  intro kb'
  obtain ⟨kept, name, closed⟩ := h.kept.serve (.update additions removals)
  have live : kb'.closed = false := Bool.eq_false_iff.2 fun e => by simpa [h.live] using closed.1 e
  by_cases valid : ValidBatch additions removals
  · obtain ⟨f, told⟩ := announce_eq (kb.takeIn additions removals).2
      (kb.takeIn additions removals).1
    have left : kb' = { (kb.takeIn additions removals).2 with changes := f } := by
      rw [← told]
      exact congrArg Prod.snd (update_eq_ok h.live valid)
    refine ⟨⟨kept, live, ?_⟩, name, ?_⟩
    · rw [name, ← h.named, left]
      exact (h.kept.sound.apply additions.toList removals.toList).2.1
    · rw [left, takeIn_snd]
      dsimp only
      split <;> rfl
  · obtain ⟨_, a, _, d, -, -, -, refused⟩ := update_eq_error h.live valid
    have left : kb' = kb := congrArg Prod.snd refused
    rw [left]
    exact ⟨h, rfl, rfl⟩

/-- Updates leave an open knowledge base open, with its name and its policy. -/
theorem Opened.after (history : List Call) : ∀ {kb : KnowledgeBase}, kb.Opened →
    (∀ c ∈ history, c.Updates) → (kb.after history).Opened ∧ (kb.after history).name = kb.name ∧
      (kb.after history).explainer.policy = kb.explainer.policy := by
  induction history with
  | nil => intro kb h _; exact ⟨h, rfl, rfl⟩
  | cons c history ih =>
    intro kb h all
    obtain ⟨first, rest⟩ := List.forall_mem_cons.1 all
    cases c with
    | update additions removals =>
      obtain ⟨opened, name, policy⟩ := h.update additions removals
      obtain ⟨opened', name', policy'⟩ := ih opened rest
      exact ⟨opened', name'.trans name, policy'.trans policy⟩
    | query _ _ | entailed _ | explain _ _ | close => exact first.elim

/-- The last call of a history acts on what the calls before it left. -/
theorem after_snoc (kb : KnowledgeBase) (history : List Call) (c : Call) :
    kb.after (history ++ [c]) = ((kb.after history).serve c).2 := by
  rw [KnowledgeBase.after, List.foldl_append]
  rfl

end KnowledgeBase

end OntologyService
