import OntologyService.Proofs.KnowledgeBase.Afresh

/-!
# Undoing an update

The inverse of a batch removes what the batch added and adds what it removed. Sent after it, the
inverse gives back the axioms exactly if every axiom of the batch made a difference (`Strict`): an
axiom that was held already is taken away by the inverse, and one that was never held is brought in
(`restored_iff`).

A strict batch counts all of its axioms (`Opened.update_of_strict`). The inverse is always strict by
the time it is sent (`strict_inverse`), so the counts of the two are each other's, swapped. What
else an update moves, counts of occurrences, closures, the consistency bit and the explanations,
need not be followed there and back: open knowledge bases of the same axioms are alike
(`Opened.alike`).

**The law** (`undone_after`): strictness decides whether the axioms come back, and where they do, so
does every answer.
-/

namespace OntologyService

namespace KnowledgeBase

variable {kb : KnowledgeBase} {additions removals : AxiomSet}

/-- The knowledge base once a batch was sent to it, and after what was read since. -/
def changed (kb : KnowledgeBase) (additions removals : AxiomSet) (reads : List Call) :
    KnowledgeBase :=
  (kb.update additions removals).2.after reads

/-- **The batch is strict**: each of its axioms makes a difference. Nothing that it adds is held,
and everything that it removes is. -/
def Strict (kb : KnowledgeBase) (additions removals : AxiomSet) : Prop :=
  (∀ a ∈ additions, a ∉ kb.axioms) ∧ ∀ a ∈ removals, a ∈ kb.axioms

/-- The inverse of a valid batch is valid. -/
theorem ValidBatch.inverse (h : ValidBatch additions removals) : ValidBatch removals additions :=
  h.symm

/-- What a batch and its inverse make of a set of axioms is that set exactly if the batch adds
none of it and removes nothing else. -/
theorem restored_iff {axioms : AxiomSet} (apart : ∀ a ∈ additions, a ∉ removals) :
    ((axioms ∪ additions).sdiff removals ∪ removals).sdiff additions = axioms ↔
      (∀ a ∈ additions, a ∉ axioms) ∧ ∀ a ∈ removals, a ∈ axioms := by
  have mem : ∀ a, a ∈ ((axioms ∪ additions).sdiff removals ∪ removals).sdiff additions ↔
      (a ∈ axioms ∨ a ∈ removals) ∧ a ∉ additions := by
    intro a
    simp only [SortedSet.mem_sdiff, SortedSet.mem_union]
    grind
  constructor
  · intro restored
    refine ⟨fun a added held => ?_, fun a removed => ?_⟩
    · rw [← restored, mem] at held
      exact held.2 added
    · rw [← restored, mem]
      exact ⟨.inr removed, fun added => apart a added removed⟩
  · rintro ⟨new, held⟩
    refine SortedSet.ext fun a => (mem a).trans ⟨?_, fun ha => ?_⟩
    · rintro ⟨ha | ha, -⟩
      · exact ha
      · exact held a ha
    · exact ⟨.inl ha, fun added => new a added ha⟩

/-! ## One batch -/

/-- How much a batch of so many axioms adds to the revision. -/
def step (additions removals : AxiomSet) : Nat :=
  if additions.size + removals.size > 0 then 1 else 0

section

variable (h : kb.Opened) (valid : ValidBatch additions removals)
include h valid

/-- A valid batch leaves open what is open, with the axioms of set algebra, and so do reads. -/
theorem Opened.changed {reads : List Call} (all : ∀ c ∈ reads, c.Reads) :
    (kb.changed additions removals reads).Opened ∧
      (kb.changed additions removals reads).name = kb.name ∧
      (kb.changed additions removals reads).explainer.policy = kb.explainer.policy ∧
      (kb.changed additions removals reads).axioms = (kb.axioms ∪ additions).sdiff removals ∧
      (kb.changed additions removals reads).revision =
        (kb.update additions removals).2.revision := by
  obtain ⟨opened, name, policy⟩ := h.update additions removals
  obtain ⟨kb', updated, -, -, -, axioms, -⟩ := h.kept.update_of_valid h.live valid
  obtain ⟨alike, revision⟩ := opened.kept.after_reads_alike reads all
  have held : (kb.update additions removals).2.axioms = (kb.axioms ∪ additions).sdiff removals := by
    rw [updated, axioms]
  exact ⟨alike.opened opened, alike.name.trans name, alike.policy.trans policy,
    alike.engines.axioms.trans held, revision⟩

/-- **A strict batch** counts all of its axioms. -/
theorem Opened.update_of_strict (strict : kb.Strict additions removals) :
    (kb.update additions removals).1 =
        .ok ⟨additions.size, removals.size, kb.revision + step additions removals⟩ ∧
      (kb.update additions removals).2.revision = kb.revision + step additions removals := by
  obtain ⟨kb', updated, -, -, -, -, revision⟩ := h.kept.update_of_valid h.live valid
  have added : additions.sdiff kb.axioms = additions := by
    refine SortedSet.ext fun a => SortedSet.mem_sdiff.trans ?_
    exact ⟨And.left, fun ha => ⟨ha, strict.1 a ha⟩⟩
  have removed : removals.inter (kb.axioms ∪ additions) = removals := by
    refine SortedSet.ext fun a => SortedSet.mem_inter.trans ?_
    exact ⟨And.left, fun ha => ⟨ha, SortedSet.mem_union.2 (.inl (strict.2 a ha))⟩⟩
  rw [added, removed] at updated revision
  rw [updated, revision]
  exact ⟨rfl, rfl⟩

end

/-- Once a batch was taken in its inverse is strict, whether or not the batch was. -/
theorem strict_inverse {kb' : KnowledgeBase} (apart : ∀ a ∈ additions, a ∉ removals)
    (held : kb'.axioms = (kb.axioms ∪ additions).sdiff removals) :
    kb'.Strict removals additions := by
  simp only [Strict, held, SortedSet.mem_sdiff, SortedSet.mem_union]
  exact ⟨fun a ha both => both.2 ha, fun a ha => ⟨.inr ha, apart a ha⟩⟩

/-! ## The law -/

/-- **What it does to send a batch and then its inverse**, whatever is read in between and after.
The axioms are what they were exactly if the batch was strict. Then the counts are swapped, and
everything that can be asked is answered as before. -/
structure UndoLaw (kb : KnowledgeBase) (additions removals : AxiomSet) : Prop where
  restores : ∀ reads reads', (∀ c ∈ reads, c.Reads) → (∀ c ∈ reads', c.Reads) →
    (((kb.changed additions removals reads).changed removals additions reads').axioms = kb.axioms ↔
      kb.Strict additions removals)
  swaps : kb.Strict additions removals → ∀ reads, (∀ c ∈ reads, c.Reads) →
    let once := kb.revision + step additions removals
    (kb.update additions removals).1 = .ok ⟨additions.size, removals.size, once⟩ ∧
      ((kb.changed additions removals reads).update removals additions).1 =
        .ok ⟨removals.size, additions.size, once + step removals additions⟩
  answers : kb.Strict additions removals → ∀ reads reads', (∀ c ∈ reads, c.Reads) →
    (∀ c ∈ reads', c.Reads) → ∀ c, c.Reads →
      (((kb.changed additions removals reads).changed removals additions reads').serve c).1 =
        (kb.serve c).1

/-- An open knowledge base obeys the law of undoing. -/
theorem Opened.undoLaw (h : kb.Opened) (valid : ValidBatch additions removals)
    (apart : ∀ a ∈ additions, a ∉ removals) : kb.UndoLaw additions removals := by
  have restores : ∀ reads reads', (∀ c ∈ reads, c.Reads) → (∀ c ∈ reads', c.Reads) →
      (((kb.changed additions removals reads).changed removals additions reads').axioms =
        kb.axioms ↔ kb.Strict additions removals) := by
    intro reads reads' all all'
    obtain ⟨opened, -, -, held, -⟩ := h.changed valid all
    obtain ⟨-, -, -, held', -⟩ := opened.changed valid.inverse all'
    rw [held', held, restored_iff apart]
    exact Iff.rfl
  refine ⟨restores, ?_, ?_⟩
  · intro strict reads all once
    obtain ⟨opened, -, -, held, revision⟩ := h.changed valid all
    obtain ⟨counted, revision'⟩ := h.update_of_strict valid strict
    have back := opened.update_of_strict valid.inverse (strict_inverse apart held)
    rw [revision, revision'] at back
    exact ⟨counted, back.1⟩
  · intro strict reads reads' all all' c asks
    obtain ⟨opened, name, policy, -⟩ := h.changed valid all
    obtain ⟨opened', name', policy', -⟩ := opened.changed valid.inverse all'
    have same := (restores reads reads' all all').2 strict
    exact (opened'.alike h (name'.trans name) (policy'.trans policy) same).serve_eq asks

/-- **A batch is undone by its inverse** exactly if it was strict. Valid axioms open a knowledge
base in which this holds after any history that does not close it, of every valid batch that does
not add what it removes. -/
theorem undone_after (name : String) {axioms : AxiomSet} (policy : LimitPolicy)
    (valid : ∀ a ∈ axioms, a.Valid) :
    ∃ kb₀, KnowledgeBase.new name axioms policy = .ok kb₀ ∧
      ∀ history : List Call, Call.close ∉ history →
        ∀ additions removals : AxiomSet, ValidBatch additions removals →
          (∀ a ∈ additions, a ∉ removals) → (kb₀.after history).UndoLaw additions removals := by
  obtain ⟨kb₀, made, -⟩ := Kept.new name policy valid
  refine ⟨kb₀, made, fun history never additions removals batch apart => ?_⟩
  exact ((Opened.new made).after_open history never).undoLaw batch apart

/-- Among pets, to say that mammals are animals and no longer that cats are mammals is undone, and
the answer about Felix with it. To say again that cats are mammals is not: the inverse takes away
what was held before. -/
theorem pets_undone :
    let animal := SortedSet.ofList [Axiom.subClassOf ⟨"Mammal"⟩ ⟨"Animal"⟩]
    let cat := SortedSet.ofList [Axiom.subClassOf ⟨"Cat"⟩ ⟨"Mammal"⟩]
    let types := Call.query (.aboutIndividual false) (.ofIndividual ⟨"felix"⟩)
    (∀ a ∈ SortedSet.ofList Reasoner.pets, a.Valid) ∧ Call.close ∉ [types] ∧
      ValidBatch animal cat ∧ (∀ a ∈ animal, a ∉ cat) ∧ ValidBatch cat ∅ ∧
      (∀ a ∈ cat, a ∉ (∅ : AxiomSet)) ∧
      ∃ kb₀, KnowledgeBase.new "pets" (.ofList Reasoner.pets) .forward = .ok kb₀ ∧
        let kb := kb₀.after [types]
        (((kb.changed animal cat [types]).changed cat animal []).axioms = kb.axioms ∧
          (((kb.changed animal cat [types]).changed cat animal []).serve types).1 =
            (kb.serve types).1) ∧
        ((kb.changed cat ∅ []).changed ∅ cat []).axioms ≠ kb.axioms := by
  intro animal cat types
  have valid : ∀ a ∈ SortedSet.ofList Reasoner.pets, a.Valid := by decide +kernel
  have never : Call.close ∉ [types] := by simp [types]
  have batch : ValidBatch animal cat := by unfold ValidBatch; decide +kernel
  have batch' : ValidBatch cat ∅ := by unfold ValidBatch; decide +kernel
  have apart : ∀ a ∈ animal, a ∉ cat := by decide +kernel
  have apart' : ∀ a ∈ cat, a ∉ (∅ : AxiomSet) := by decide +kernel
  have reads : ∀ c ∈ [types], c.Reads := by simp [types, Call.Reads]
  have none : ∀ c ∈ ([] : List Call), c.Reads := by simp
  obtain ⟨kb₀, made, law⟩ := undone_after "pets" .forward valid
  obtain ⟨-, kept₀, live₀, -, axioms₀⟩ := Kept.of_new made
  obtain ⟨-, -, held, -⟩ := kept₀.after_reads [types] live₀ reads
  have undone := law [types] never animal cat batch apart
  have lost := law [types] never cat ∅ batch' apart'
  have strict : (kb₀.after [types]).Strict animal cat := by
    rw [Strict, held, axioms₀]
    decide +kernel
  have loose : ¬ (kb₀.after [types]).Strict cat ∅ := by
    rw [Strict, held, axioms₀]
    decide +kernel
  exact ⟨valid, never, batch, apart, batch', apart', kb₀, made,
    ⟨(undone.restores [types] [] reads none).2 strict,
      undone.answers strict [types] [] reads none types trivial⟩,
    mt (lost.restores [] [] none none).1 loose⟩

end KnowledgeBase

end OntologyService
