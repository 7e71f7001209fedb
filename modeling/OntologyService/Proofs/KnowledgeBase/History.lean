import OntologyService.KnowledgeBase.Basic
import OntologyService.Proofs.Explanation.Generator

/-!
# Histories of a knowledge base

A knowledge base takes calls in any order until it is closed, and is closed for good after that.
`Kept` says what holds between two calls: its engine and its explanations have gone through the
same changes, the listening flag is down, and a closed one holds nothing. Every call keeps it
(`Kept.serve`), whether it is answered, refused, or does nothing.

**The law** (`laws_after`): any set of valid axioms opens a knowledge base, and after any history of
calls it is open or closed by whether it was told to close. While open it takes batches by set
algebra, counts what they changed, and refuses a batch with a defective axiom by its first one,
which leaves it exactly as it was (`OpenLaw`). Once closed it is the same empty knowledge base for
ever (`ClosedLaw`).
-/

namespace OntologyService

namespace KnowledgeBase

variable {kb : KnowledgeBase} {additions removals : AxiomSet}

/-- The knowledge base that a list of calls leaves, answered one after another. -/
def after (kb : KnowledgeBase) (history : List Call) : KnowledgeBase :=
  history.foldl (fun kb c => (kb.serve c).2) kb

/-- The call asks, and changes nothing. -/
def Call.Reads : Call → Prop
  | .query _ _ | .entailed _ | .explain _ _ => True
  | .update _ _ | .close => False

/-- No axiom of the batch has a defect. -/
def ValidBatch (additions removals : AxiomSet) : Prop :=
  (∀ a ∈ additions, a.Valid) ∧ ∀ a ∈ removals, a.Valid

/-- Every axiom of a valid batch is valid. -/
theorem ValidBatch.valid (h : ValidBatch additions removals) :
    ∀ a ∈ additions.toList ++ removals.toList, a.Valid := fun a ha =>
  (List.mem_append.1 ha).elim (h.1 a) (h.2 a)

/-- What the subscribers of a knowledge base are told of an update. -/
def noticeOf (kb : KnowledgeBase) (s : UpdateSummary) : ModelChange :=
  { ontology := kb.name, revision := s.revision, added := s.added, removed := s.removed }

/-- Subscribers are told of an update that counts anything. -/
theorem announce_changes (kb : KnowledgeBase) (s : UpdateSummary) :
    kb.announce s = { kb with
      changes := if s.added + s.removed > 0 then kb.changes.send (kb.noticeOf s)
        else kb.changes } := by
  unfold announce
  split <;> rfl

/-- Telling the subscribers leaves everything else alone. -/
theorem announce_eq (kb : KnowledgeBase) (s : UpdateSummary) :
    ∃ f, kb.announce s = { kb with changes := f } := ⟨_, announce_changes kb s⟩

theorem takeIn_fst : (kb.takeIn additions removals).1 =
    { added := (kb.reasoner.apply additions.toList removals.toList).2.added
      removed := (kb.reasoner.apply additions.toList removals.toList).2.removed
      revision := (kb.reasoner.apply additions.toList removals.toList).1.revision } := rfl

theorem takeIn_snd : (kb.takeIn additions removals).2 =
    { kb with
      reasoner := (kb.reasoner.apply additions.toList removals.toList).1
      explainer := if (kb.reasoner.apply additions.toList removals.toList).2.effective
        then kb.explainer.invalidate else kb.explainer
      listening := false } := rfl

/-- A live knowledge base takes a valid batch in and tells its listeners. -/
theorem update_eq_ok (live : kb.closed = false) (valid : ValidBatch additions removals) :
    kb.update additions removals = (.ok (kb.takeIn additions removals).1,
      (kb.takeIn additions removals).2.announce (kb.takeIn additions removals).1) := by
  rw [update, live, if_neg Bool.false_ne_true, Reasoner.validateAll_eq_ok valid.valid]

/-- **What shows of a batch** that an open knowledge base takes in: additions come first, what they
and the removals change is counted, and a batch that counts anything is a revision and is told. -/
theorem update_shows (live : kb.closed = false) (valid : ValidBatch additions removals) :
    let added := (additions.sdiff kb.axioms).size
    let removed := (removals.inter (kb.axioms ∪ additions)).size
    let kb' := (kb.update additions removals).2
    (kb.update additions removals).1 = .ok ⟨added, removed, kb'.revision⟩ ∧
      kb'.axioms = (kb.axioms ∪ additions).sdiff removals ∧
      kb'.revision = kb.revision + (if added + removed > 0 then 1 else 0) ∧
      kb'.changes = if added + removed > 0
        then kb.changes.send (kb.noticeOf ⟨added, removed, kb'.revision⟩) else kb.changes := by
  intro added removed
  obtain ⟨hadded, hremoved, hrevision⟩ := kb.reasoner.apply_counts additions removals
  have held := kb.reasoner.apply_axioms additions.toList removals.toList
  simp only [Reasoner.Request.change, SortedSet.ofList_toList] at held
  simp only [Reasoner.Change.effective, hadded, hremoved, decide_eq_true_eq] at hrevision
  have summary : (kb.takeIn additions removals).1 =
      ⟨added, removed, (kb.takeIn additions removals).2.revision⟩ := by
    rw [takeIn_fst, hadded, hremoved]
    rfl
  rw [update_eq_ok live valid, summary, announce_changes]
  exact ⟨rfl, held, hrevision, rfl⟩

/-- **A batch with a defect** is refused by the first axiom that has one, and changes nothing. -/
theorem update_eq_error (live : kb.closed = false) (invalid : ¬ ValidBatch additions removals) :
    ∃ before a rest d, additions.toList ++ removals.toList = before ++ a :: rest ∧
      (∀ b ∈ before, b.Valid) ∧ a.defect? = some d ∧
      kb.update additions removals = (.error (.malformedAxiom a.render d.message), kb) := by
  rcases Reasoner.valid_or_first_defect (additions.toList ++ removals.toList) with
    valid | ⟨before, a, rest, d, batch, first, defective⟩
  · refine absurd ⟨fun a ha => valid a ?_, fun a ha => valid a ?_⟩ invalid
    · exact List.mem_append_left _ ha
    · exact List.mem_append_right _ ha
  · refine ⟨before, a, rest, d, batch, first, defective, ?_⟩
    rw [update, live, if_neg Bool.false_ne_true, batch,
      Reasoner.validateAll_eq_error first defective]

/-- What passes the check is valid. -/
theorem ValidBatch.of_validateAll
    (passed : Axiom.validateAll (additions.toList ++ removals.toList) = .ok ()) :
    ValidBatch additions removals := by
  rcases Reasoner.valid_or_first_defect (additions.toList ++ removals.toList) with
    valid | ⟨before, a, rest, d, batch, first, defective⟩
  · exact ⟨fun a ha => valid a (List.mem_append_left _ ha),
      fun a ha => valid a (List.mem_append_right _ ha)⟩
  · rw [batch, Reasoner.validateAll_eq_error first defective] at passed
    cases passed

/-- An update that is refused leaves everything as it is. -/
theorem update_of_error {e : ReasoningError}
    (refused : (kb.update additions removals).1 = .error e) :
    (kb.update additions removals).2 = kb := by
  unfold update at refused ⊢
  split
  · rfl
  · next live =>
    rw [if_neg live] at refused
    split
    · rfl
    · next passed =>
      rw [passed] at refused
      cases refused

/-- An update that is answered finds the knowledge base open, and its batch without defects. -/
theorem of_update_eq_ok {s : UpdateSummary} (updated : (kb.update additions removals).1 = .ok s) :
    kb.closed = false ∧ ValidBatch additions removals := by
  unfold update at updated
  split at updated
  · cases updated
  · next live =>
    split at updated
    · cases updated
    · next passed => exact ⟨Bool.eq_false_iff.2 live, .of_validateAll passed⟩

/-! ## Calls, open and closed -/

section

variable (live : kb.closed = false)
include live

theorem serve_query (kind : QueryKind) (e : Entity) :
    kb.serve (.query kind e) = (kb.readQuery kind e).map (·.map .nodes) id := by
  rw [serve, query, live, if_neg Bool.false_ne_true]

theorem serve_entailed (a : Axiom) :
    kb.serve (.entailed a) = (kb.readEntailed a).map (·.map .truth) id := by
  rw [serve, isEntailed, live, if_neg Bool.false_ne_true]

theorem serve_explain (a : Axiom) (limit : Nat) :
    kb.serve (.explain a limit) = (kb.readExplanations a limit).map (·.map .justifications) id := by
  rw [serve, explain, live, if_neg Bool.false_ne_true]

/-- Closing raises the flag, then disposes of the explainer and of the reasoner. -/
theorem close_eq : kb.close = kb.raiseClosed.disposeExplainer.disposeReasoner := by
  rw [close, live, if_neg Bool.false_ne_true]

end

/-- **A closed knowledge base** stays as it is, whatever it is asked, and refuses it, unless it is
told to close once more. -/
theorem serve_of_closed (closed : kb.closed = true) (c : Call) :
    kb.serve c = (match c with
      | .close => .ok .done
      | .query _ _ | .entailed _ | .explain _ _ | .update _ _ => .error (.closed kb.name), kb) := by
  cases c with
  | query kind e => rw [serve, query, if_pos closed]; rfl
  | entailed a => rw [serve, isEntailed, if_pos closed]; rfl
  | explain a limit => rw [serve, explain, if_pos closed]; rfl
  | update additions removals => rw [serve, update, if_pos closed]; rfl
  | close => rw [serve, close, if_pos closed]

/-! ## What holds between two calls -/

/-- **What a knowledge base keeps**: its engine and its explanations are changed together, the flag
is down, and what is closed has let go of everything. -/
structure Kept (kb : KnowledgeBase) : Prop where
  paired : Generator.Paired kb.reasoner kb.explainer
  quiet : kb.listening = false
  disposed : kb.explainer.disposed = kb.closed
  emptied : kb.closed = true → kb.axioms = ∅

namespace Kept

/-- The reasoner of a knowledge base stays within its own invariant. -/
theorem sound (h : kb.Kept) : kb.reasoner.Sound :=
  (Reasoner.built_invariant (Generator.paired_invariant h.paired).1).1

/-- Valid axioms open a knowledge base that holds them. -/
theorem new (name : String) {axioms : AxiomSet} (policy : LimitPolicy)
    (valid : ∀ a ∈ axioms, a.Valid) :
    ∃ kb, KnowledgeBase.new name axioms policy = .ok kb ∧ kb.Kept ∧ kb.closed = false ∧
      kb.name = name ∧ kb.axioms = axioms := by
  have paired : Generator.Paired ((Reasoner.new name).apply axioms.toList []).1.classify
      { policy } := by
    refine .serve (q := .classify) ?_ trivial (fun e => nomatch e)
    exact .serve (q := .apply axioms.toList []) (.new name policy) valid (fun e => nomatch e)
  have made : KnowledgeBase.new name axioms policy = .ok
      { name, reasoner := ((Reasoner.new name).apply axioms.toList []).1.classify,
        explainer := { policy } } := by
    unfold KnowledgeBase.new Reasoner.ofAxioms
    rw [Reasoner.validateAll_eq_ok valid]
  exact ⟨_, made, ⟨paired, rfl, rfl, fun e => nomatch e⟩, rfl, rfl,
    (Reasoner.apply_new name axioms).2.2⟩

/-- Taking in a valid batch keeps the invariant. -/
theorem takeIn (h : kb.Kept) (live : kb.closed = false) (valid : ValidBatch additions removals) :
    (kb.takeIn additions removals).2.Kept := by
  have served : Generator.Paired (kb.reasoner.apply additions.toList removals.toList).1
      kb.explainer :=
    .serve (q := .apply additions.toList removals.toList) h.paired valid.1 (fun e => nomatch e)
  rw [takeIn_snd]
  refine ⟨?_, rfl, ?_, fun closed => absurd closed (by rw [live]; exact Bool.false_ne_true)⟩
  · dsimp only
    split
    · exact served.invalidate
    · exact served
  · dsimp only
    split
    · exact h.disposed
    · exact h.disposed

/-- What was opened holds what it was opened over, and that is valid. -/
theorem of_new {name : String} {axioms : AxiomSet} {policy : LimitPolicy}
    (made : KnowledgeBase.new name axioms policy = .ok kb) :
    (∀ a ∈ axioms, a.Valid) ∧ kb.Kept ∧ kb.closed = false ∧ kb.name = name ∧
      kb.axioms = axioms := by
  rcases Reasoner.valid_or_first_defect axioms.toList with
    valid | ⟨before, a, rest, d, listed, first, defective⟩
  · obtain ⟨kb', made', kept⟩ := Kept.new name policy valid
    cases made.symm.trans made'
    exact ⟨valid, kept⟩
  · unfold KnowledgeBase.new Reasoner.ofAxioms at made
    rw [listed, Reasoner.validateAll_eq_error first defective] at made
    cases made

/-- **A valid batch** is taken in, additions first. -/
theorem update_of_valid (h : kb.Kept) (live : kb.closed = false)
    (valid : ValidBatch additions removals) :
    let added := (additions.sdiff kb.axioms).size
    let removed := (removals.inter (kb.axioms ∪ additions)).size
    ∃ kb', kb.update additions removals = (.ok ⟨added, removed, kb'.revision⟩, kb') ∧ kb'.Kept ∧
      kb'.closed = false ∧ kb'.name = kb.name ∧
      kb'.axioms = (kb.axioms ∪ additions).sdiff removals ∧
      kb'.revision = kb.revision + if added + removed > 0 then 1 else 0 := by
  intro added removed
  obtain ⟨answer, axioms, revision, -⟩ := update_shows live valid
  obtain ⟨f, told⟩ := announce_eq (kb.takeIn additions removals).2
    (kb.takeIn additions removals).1
  have left : (kb.update additions removals).2 =
      { (kb.takeIn additions removals).2 with changes := f } := by
    rw [update_eq_ok live valid, told]
  have kept := h.takeIn live valid
  refine ⟨(kb.update additions removals).2, Prod.ext answer rfl, ?_, ?_, ?_, axioms, revision⟩
  · rw [left]
    exact ⟨kept.paired, kept.quiet, kept.disposed, kept.emptied⟩
  · rw [left]
    exact live
  · rw [left]
    rfl

/-- **A read** changes the engine and the explanations by what they remember, and nothing else. -/
theorem serve_read (h : kb.Kept) (live : kb.closed = false) {c : Call} (reads : c.Reads) :
    ∃ r g, (kb.serve c).2 = { kb with reasoner := r, explainer := g } ∧ Generator.Paired r g ∧
      g.disposed = kb.explainer.disposed ∧ r.axioms = kb.axioms ∧ r.revision = kb.revision := by
  cases c with
  | query kind e =>
    refine ⟨_, kb.explainer, congrArg Prod.snd (serve_query live kind e), ?_, rfl,
      Reasoner.settle_axioms _, Reasoner.settle_revision _⟩
    exact .serve (q := .query kind e) h.paired trivial (fun e => nomatch e)
  | entailed a =>
    refine ⟨_, kb.explainer, congrArg Prod.snd (serve_entailed live a), ?_, rfl,
      Reasoner.settle_axioms _, Reasoner.settle_revision _⟩
    exact .serve (q := .entailed a) h.paired trivial (fun e => nomatch e)
  | explain a limit =>
    refine ⟨_, _, congrArg Prod.snd (serve_explain live a limit), ?_,
      Generator.explain_disposed _ _ _ _, Reasoner.settle_axioms _, Reasoner.settle_revision _⟩
    exact .explain a limit (.serve (q := .consistent) h.paired trivial (fun e => nomatch e))
  | update additions removals => exact reads.elim
  | close => exact reads.elim

/-- So does closing. -/
theorem close (h : kb.Kept) (live : kb.closed = false) : kb.close.Kept := by
  rw [close_eq live]
  exact ⟨h.paired.dispose, h.quiet, rfl, fun _ => rfl⟩

/-- **Every call** keeps it, and the name with it; only a call to close closes it. -/
theorem serve (h : kb.Kept) (c : Call) :
    (kb.serve c).2.Kept ∧ (kb.serve c).2.name = kb.name ∧
      ((kb.serve c).2.closed = true ↔ kb.closed = true ∨ c = .close) := by
  cases live : kb.closed with
  | true =>
    rw [serve_of_closed live]
    exact ⟨h, rfl, ⟨fun _ => .inl rfl, fun _ => live⟩⟩
  | false =>
    -- all reads are alike here: only what is remembered is another
    have read : c.Reads → (kb.serve c).2.Kept ∧ (kb.serve c).2.name = kb.name ∧
        (kb.serve c).2.closed = false := by
      intro reads
      obtain ⟨r, g, state, paired, disposed, -, -⟩ := h.serve_read live reads
      rw [state]
      refine ⟨⟨paired, h.quiet, disposed.trans h.disposed, fun closed => ?_⟩, rfl, live⟩
      exact absurd closed (by simp [live])
    cases c with
    | query kind e =>
      obtain ⟨kept, name, live'⟩ := read trivial
      exact ⟨kept, name, by simp [live']⟩
    | entailed a =>
      obtain ⟨kept, name, live'⟩ := read trivial
      exact ⟨kept, name, by simp [live']⟩
    | explain a limit =>
      obtain ⟨kept, name, live'⟩ := read trivial
      exact ⟨kept, name, by simp [live']⟩
    | update additions removals =>
      by_cases valid : ValidBatch additions removals
      · obtain ⟨kb', updated, kept, live', name, -⟩ := h.update_of_valid live valid
        rw [KnowledgeBase.serve, updated]
        exact ⟨kept, name, by simp [live']⟩
      · obtain ⟨_, a, _, d, -, -, -, refused⟩ := update_eq_error live valid
        rw [KnowledgeBase.serve, refused]
        exact ⟨h, rfl, by simp [live]⟩
    | close =>
      refine ⟨h.close live, ?_, ?_⟩
      · show kb.close.name = kb.name
        rw [close_eq live]
        rfl
      · show kb.close.closed = true ↔ _
        rw [close_eq live]
        exact ⟨fun _ => .inr rfl, fun _ => rfl⟩

/-- **Any history** keeps it; it is closed exactly if the history closed it. -/
theorem after (history : List Call) : ∀ {kb : KnowledgeBase}, kb.Kept →
    (kb.after history).Kept ∧ (kb.after history).name = kb.name ∧
      ((kb.after history).closed = true ↔ kb.closed = true ∨ Call.close ∈ history) := by
  induction history with
  | nil => intro kb h; exact ⟨h, rfl, by simp [KnowledgeBase.after]⟩
  | cons c history ih =>
    -- the calls that are left start from what the first one leaves, which is kept again
    intro kb h
    obtain ⟨kept, name, closes⟩ := h.serve c
    obtain ⟨kept', name', closes'⟩ := ih kept
    refine ⟨kept', name'.trans name, closes'.trans ?_⟩
    rw [closes, List.mem_cons, or_assoc, @eq_comm _ c]

/-- A history without a close leaves a live knowledge base live. -/
theorem after_open (h : kb.Kept) (live : kb.closed = false) {history : List Call}
    (never : Call.close ∉ history) :
    (kb.after history).Kept ∧ (kb.after history).closed = false := by
  obtain ⟨kept, -, closed⟩ := h.after history
  rw [live] at closed
  refine ⟨kept, Bool.eq_false_iff.2 fun h => ?_⟩
  exact (closed.1 h).elim Bool.false_ne_true never

/-- **Reads**, any number of them, leave open what is open, with the axioms it had. -/
theorem after_reads (reads : List Call) : ∀ {kb : KnowledgeBase}, kb.Kept → kb.closed = false →
    (∀ c ∈ reads, c.Reads) → (kb.after reads).Kept ∧ (kb.after reads).closed = false ∧
      (kb.after reads).axioms = kb.axioms ∧ (kb.after reads).revision = kb.revision := by
  induction reads with
  | nil => intro kb h live _; exact ⟨h, live, rfl, rfl⟩
  | cons c reads ih =>
    intro kb h live all
    obtain ⟨first, rest⟩ := List.forall_mem_cons.1 all
    obtain ⟨r, g, state, -, -, axioms, revision⟩ := h.serve_read live first
    have live' : (kb.serve c).2.closed = false := state ▸ live
    have same : (kb.serve c).2.axioms = kb.axioms ∧ (kb.serve c).2.revision = kb.revision :=
      state ▸ ⟨axioms, revision⟩
    obtain ⟨kept, open', axioms', revision'⟩ := ih (h.serve c).1 live' rest
    exact ⟨kept, open', axioms'.trans same.1, revision'.trans same.2⟩

end Kept

/-! ## The law -/

/-- **What an open knowledge base does with each call**. A valid batch is answered with what it
adds and removes and is a revision if that is anything; a batch with a first defective axiom is
refused by it; reads leave axioms and revision alone; and closing lets go of the axioms. -/
structure OpenLaw (kb : KnowledgeBase) : Prop where
  accepts : ∀ additions removals, ValidBatch additions removals →
    let added := (additions.sdiff kb.axioms).size
    let removed := (removals.inter (kb.axioms ∪ additions)).size
    ∃ kb', kb.serve (.update additions removals) =
        (.ok (.summary { added, removed, revision := kb'.revision }), kb') ∧
      kb'.axioms = (kb.axioms ∪ additions).sdiff removals ∧
      kb'.revision = kb.revision + if added + removed > 0 then 1 else 0
  rejects : ∀ additions removals, ¬ ValidBatch additions removals →
    ∃ before a rest d, additions.toList ++ removals.toList = before ++ a :: rest ∧
      (∀ b ∈ before, b.Valid) ∧ a.defect? = some d ∧
      kb.serve (.update additions removals) = (.error (.malformedAxiom a.render d.message), kb)
  reads : ∀ c : Call, c.Reads →
    (kb.serve c).2.axioms = kb.axioms ∧ (kb.serve c).2.revision = kb.revision
  closes : (kb.serve .close).1 = .ok .done ∧ (kb.serve .close).2.axioms = ∅ ∧
    (kb.serve .close).2.revision = kb.revision

/-- **What a closed knowledge base does with each call**. It holds nothing, every call leaves it
exactly as it is, and every call but one to close is refused. -/
structure ClosedLaw (name : String) (kb : KnowledgeBase) : Prop where
  holds : kb.axioms = ∅
  stays : ∀ c : Call, (kb.serve c).2 = kb
  refuses : ∀ c : Call, c ≠ .close → (kb.serve c).1 = .error (.closed name)

/-- A live knowledge base within its invariant obeys the laws of the living. -/
theorem Kept.openLaw (h : kb.Kept) (live : kb.closed = false) : kb.OpenLaw where
  accepts additions removals valid := by
    intro added removed
    obtain ⟨kb', updated, -, -, -, axioms, revision⟩ := h.update_of_valid live valid
    refine ⟨kb', ?_, axioms, revision⟩
    rw [KnowledgeBase.serve, updated]
    rfl
  rejects additions removals invalid := by
    obtain ⟨before, a, rest, d, batch, first, defective, refused⟩ := update_eq_error live invalid
    refine ⟨before, a, rest, d, batch, first, defective, ?_⟩
    rw [KnowledgeBase.serve, refused]
    rfl
  reads c reads := by
    obtain ⟨r, g, state, -, -, axioms, revision⟩ := h.serve_read live reads
    rw [state]
    exact ⟨axioms, revision⟩
  closes := by
    rw [KnowledgeBase.serve, close_eq live]
    exact ⟨rfl, rfl, rfl⟩

/-- A closed one obeys the laws of the closed. -/
theorem Kept.closedLaw (h : kb.Kept) (closed : kb.closed = true) : kb.ClosedLaw kb.name where
  holds := h.emptied closed
  stays c := by rw [serve_of_closed closed]
  refuses c other := by
    rw [serve_of_closed closed]
    cases c with
    | close => exact absurd rfl other
    | query kind e => rfl
    | entailed a => rfl
    | explain a limit => rfl
    | update additions removals => rfl

/-- **The life of a knowledge base.** Valid axioms open one that holds them. After any history of
calls the listening flag is down, and as long as none of them was to close, every call is served by
the law of open knowledge bases; from the first call to close on, by the law of closed ones. -/
theorem laws_after (name : String) {axioms : AxiomSet} (policy : LimitPolicy)
    (valid : ∀ a ∈ axioms, a.Valid) :
    ∃ kb₀, KnowledgeBase.new name axioms policy = .ok kb₀ ∧ kb₀.axioms = axioms ∧
      ∀ history : List Call,
        (kb₀.after history).listening = false ∧
        (Call.close ∉ history → (kb₀.after history).OpenLaw) ∧
        (Call.close ∈ history → (kb₀.after history).ClosedLaw name) := by
  obtain ⟨kb₀, made, kept₀, live₀, name₀, axioms₀⟩ := Kept.new name policy valid
  refine ⟨kb₀, made, axioms₀, fun history => ?_⟩
  obtain ⟨kept, same, closed⟩ := kept₀.after history
  rw [live₀] at closed
  refine ⟨kept.quiet, fun never => kept.openLaw ?_, fun once => ?_⟩
  · rw [← Bool.not_eq_true, closed]
    exact fun h => h.elim Bool.false_ne_true never
  · rw [← name₀, ← same]
    exact kept.closedLaw (closed.2 (.inr once))

/-- Of a batch that adds a new axiom and one that is held, and takes the new one back at once, one
axiom is counted each way, and the axioms are what they were. -/
theorem pets_updated :
    let cat := Axiom.subClassOf ⟨"Cat"⟩ ⟨"Mammal"⟩
    let bird := Axiom.subClassOf ⟨"Bird"⟩ ⟨"Animal"⟩
    (∀ a ∈ SortedSet.ofList Reasoner.pets, a.Valid) ∧
      ∃ kb₀, KnowledgeBase.new "pets" (.ofList Reasoner.pets) .forward = .ok kb₀ ∧
        (∃ kb', kb₀.serve (.update (.ofList [cat, bird]) (.ofList [bird])) =
            (.ok (.summary { added := 1, removed := 1, revision := kb'.revision }), kb') ∧
          kb'.axioms = .ofList Reasoner.pets ∧ kb'.revision = kb₀.revision + 1) ∧
        (kb₀.after [.entailed bird, .close, .entailed bird]).ClosedLaw "pets" := by
  intro cat bird
  have valid : ∀ a ∈ SortedSet.ofList Reasoner.pets, a.Valid := by decide +kernel
  obtain ⟨kb₀, made, axioms, laws⟩ := laws_after "pets" .forward valid
  obtain ⟨kb', served, axioms', revision⟩ := ((laws []).2.1 List.not_mem_nil).accepts
    (.ofList [cat, bird]) (.ofList [bird]) (by unfold ValidBatch; decide +kernel)
  obtain ⟨-, -, closed⟩ := laws [.entailed bird, .close, .entailed bird]
  simp only [after, List.foldl_nil, axioms] at served axioms' revision
  have added : ((SortedSet.ofList [cat, bird]).sdiff (.ofList Reasoner.pets)).size = 1 := by
    decide +kernel
  have removed : ((SortedSet.ofList [bird]).inter
      (.ofList Reasoner.pets ∪ .ofList [cat, bird])).size = 1 := by decide +kernel
  have back : (SortedSet.ofList Reasoner.pets ∪ .ofList [cat, bird]).sdiff (.ofList [bird]) =
      .ofList Reasoner.pets := by decide +kernel
  rw [added, removed] at served revision
  exact ⟨valid, kb₀, made, ⟨kb', served, axioms'.trans back, revision⟩, closed (by simp)⟩

end KnowledgeBase

end OntologyService
