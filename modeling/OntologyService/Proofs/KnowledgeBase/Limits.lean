import OntologyService.Proofs.KnowledgeBase.Reads

/-!
# Explanations under a limit

A search with a limit looks at the limit before each child, and a child adds one justification at
most. So it never finds more than it may (`size_le_of_expandAll`). Where it ends because it has
enough, it has found exactly as many as the limit; where it ends because nothing is left to expand,
it has found all there are, and these are no more than the limit. In both cases it has found as many
as the smaller of the two numbers, and all of them are minimal (`Search.run_limited`).

**The law** (`limited_after`): under a policy that forwards the limit, a knowledge base answers a
limit with a part of its unlimited answer, of exactly the size that the limit leaves; under one
that does not, every limit gets the unlimited answer.
-/

namespace OntologyService

namespace Search

variable {task : Task} {s s' : Search} {path : Positions}

/-! ## No more than the limit -/

/-- A search that is not full has found fewer than its limit. -/
theorem size_lt_of_not_full (limited : 0 < task.limit) (wanting : ¬ s.full task = true) :
    s.found.size < task.limit := by
  rw [full, decide_eq_true limited, Bool.true_and, decide_eq_true_eq] at wanting
  omega

/-- A path that is labelled adds one justification at most. -/
theorem size_le_of_label (h : s.label task path = .ok s') :
    s'.found.size ≤ s.found.size + 1 := by
  unfold label at h
  cases hr : s.reusable? path with
  | some known =>
    rw [hr] at h
    cases h
    exact Nat.le_succ _
  | none =>
    rw [hr] at h
    obtain ⟨found, -, rest⟩ := bind_eq_ok_iff.1 h
    cases found with
    | some J =>
      cases rest
      exact Table.size_insert_le ..
    | none =>
      cases rest
      exact Nat.le_succ _

/-- The children of a path keep to the limit, because it is looked at before each of them. -/
theorem size_le_of_extend (limited : 0 < task.limit) (is : List Nat) :
    ∀ {s : Search}, extend task path s is = .ok s' → s.found.size ≤ task.limit →
      s'.found.size ≤ task.limit := by
  induction is with
  | nil =>
    intro s h room
    cases h
    exact room
  | cons i is ih =>
    intro s h room
    rw [extend] at h
    split at h
    · cases h
      exact room
    · rename_i wanting
      have free := size_lt_of_not_full limited wanting
      dsimp only at h
      split at h
      · exact ih h room
      · split at h
        · exact ih h room
        · obtain ⟨s₁, labelled, rest⟩ := bind_eq_ok_iff.1 h
          have grown := size_le_of_label labelled
          exact ih rest (by dsimp only at grown; omega)

/-- **No more than the limit** is ever found. -/
theorem size_le_of_expandAll (limited : 0 < task.limit) : ∀ (n : Nat) {s : Search}
    {es : Explanations}, expandAll task n s = .ok es → s.found.size ≤ task.limit →
      es.size ≤ task.limit
  | 0, s, es, h, room => by
    cases h
    rw [Table.size_keySet]
    exact room
  | n + 1, s, es, h, room => by
    rw [expandAll] at h
    split at h
    · cases h
      rw [Table.size_keySet]
      exact room
    · obtain ⟨s₁, extended, after⟩ := bind_eq_ok_iff.1 h
      have room₁ := size_le_of_extend limited _ extended room
      split at after
      · cases after
        rw [Table.size_keySet]
        exact room₁
      · exact size_le_of_expandAll limited n after room₁

/-- A search within a limit finds no more than that. -/
theorem size_le_of_run (limited : 0 < task.limit) {es : Explanations} (h : run task = .ok es) :
    es.size ≤ task.limit := by
  unfold run at h
  obtain ⟨found, -, rest⟩ := bind_eq_ok_iff.1 h
  cases found with
  | none =>
    cases rest
    exact Nat.zero_le _
  | some root =>
    refine size_le_of_expandAll limited _ rest ?_
    exact (Table.size_insert_le ..).trans limited

/-! ## No less than the limit leaves -/

/-- **A search under a limit** finds minimal sets only, as many as there are or as the limit allows,
whichever is less. -/
theorem run_limited (limited : 0 < task.limit) {es all : Explanations} (h : run task = .ok es)
    (h' : run { task with limit := 0 } = .ok all) :
    (∀ J ∈ es, J ∈ all) ∧ es.size = min task.limit all.size := by
  have minimal : ∀ J, J ∈ all ↔ Justification.Minimal task.goal task.axioms J := fun J =>
    mem_run_iff rfl h'
  have few := size_le_of_run limited h
  rcases run_spec h with ⟨rfl, possible⟩ | ⟨s, ⟨⟨still, sound⟩, done⟩, rfl, -⟩
  · obtain rfl : all = ∅ := (run_eq_empty_iff h').2 possible
    exact ⟨fun J hJ => hJ, (Nat.min_zero _).symm⟩
  · have part : ∀ J ∈ s.found.keySet, J ∈ all := by
      intro J hJ
      obtain ⟨label, found⟩ := Option.isSome_iff_exists.1 (Table.mem_keySet.1 hJ)
      exact (minimal J).2 (sound.found J label found).1
    have within := SortedSet.size_le_of_subset part
    refine ⟨part, ?_⟩
    rcases done with enough | ⟨empty, settled⟩
    · -- it stopped because it had enough
      have reached : task.limit ≤ s.found.size :=
        of_decide_eq_true (Bool.and_eq_true_iff.1 enough).2
      rw [Table.size_keySet] at few within ⊢
      omega
    · -- nothing was left to expand
      have whole : ∀ J ∈ all, J ∈ s.found.keySet := by
        intro J hJ
        rw [Table.mem_keySet, Option.isSome_iff_exists]
        exact found_of_minimal settled empty ((minimal J).1 hJ)
      have covered := SortedSet.size_le_of_subset whole
      omega

end Search

/-- What is worked out under a limit is a part of what is worked out without one. -/
theorem Generator.work_limited {r : Reasoner} {x : Axiom} {all : Explanations} {k : Nat}
    (held : ∀ a ∈ r.axioms, a.Valid) (unlimited : work r x 0 = .ok all) (limited : 0 < k) :
    ∃ es, work r x k = .ok es ∧ (∀ J ∈ es, J ∈ all) ∧ es.size = min k all.size := by
  obtain ⟨es, worked⟩ := work_answers held (small_of_work unlimited) k
  exact ⟨es, worked, Search.run_limited limited worked unlimited⟩

namespace KnowledgeBase

variable {kb : KnowledgeBase} {x : Axiom} {all : Explanations}

/-! ## The law -/

/-- **What the limit of an explanation does**, where the unlimited answer is `all`. Forwarded, it
leaves a part of `all`, of the given size if there are as many, and whole otherwise, and every set
in it justifies the statement. Not forwarded, it does nothing. -/
structure LimitLaw (kb : KnowledgeBase) (policy : LimitPolicy) (x : Axiom) (all : Explanations) :
    Prop where
  forwarded : policy = .forward → ∀ k, 0 < k →
    ∃ es, (kb.explain x k).1 = .ok es ∧ (∀ J ∈ es, J ∈ all) ∧ es.size = min k all.size ∧
      ∀ J ∈ es, ∀ ontology, Justifies ontology kb.axioms x J
  ignored : policy = .unbounded → ∀ k, (kb.explain x k).1 = .ok all

/-- What a knowledge base answers without a limit are the sets that justify the statement. -/
theorem Kept.justifies_of_mem (h : kb.Kept) (valid : x.Valid)
    (answer : Generator.work kb.reasoner x 0 = .ok all) {J : Justification} (hJ : J ∈ all)
    (ontology : String) : Justifies ontology kb.axioms x J := by
  rw [justifies_iff h.valid valid (Generator.small_of_work answer)]
  exact (minimal_relevant_iff h.sound valid).1 ((Search.mem_run_iff rfl answer).1 hJ)

/-- A live knowledge base within its invariant obeys the law of limits. -/
theorem Kept.limitLaw (h : kb.Kept) (live : kb.closed = false) (valid : x.Valid)
    (answer : (kb.explain x 0).1 = .ok all) : kb.LimitLaw kb.explainer.policy x all := by
  have unlimited : Generator.work kb.reasoner x 0 = .ok all := by
    rw [← answer, h.explain_eq live valid]
    cases kb.explainer.policy <;> rfl
  constructor
  · intro forward k limited
    obtain ⟨es, worked, part, size⟩ := Generator.work_limited h.valid unlimited limited
    refine ⟨es, ?_, part, size, fun J hJ => h.justifies_of_mem valid unlimited (part J hJ)⟩
    rw [h.explain_eq live valid, forward]
    exact worked
  · intro unbounded k
    rw [h.explain_eq live valid, unbounded]
    exact unlimited

/-- No call changes the policy. -/
theorem policy_serve (kb : KnowledgeBase) (c : Call) :
    (kb.serve c).2.explainer.policy = kb.explainer.policy := by
  cases live : kb.closed with
  | true => rw [serve_of_closed live]
  | false =>
    cases c with
    | query kind e => rw [serve_query live]; rfl
    | entailed a => rw [serve_entailed live]; rfl
    | explain a limit =>
      rw [serve_explain live]
      exact Generator.explain_policy _ _ _ _
    | update additions removals =>
      by_cases valid : ValidBatch additions removals
      · obtain ⟨f, told⟩ := announce_eq (kb.takeIn additions removals).2
          (kb.takeIn additions removals).1
        rw [serve, update_eq_ok live valid, told]
        show (kb.takeIn additions removals).2.explainer.policy = _
        rw [takeIn_snd]
        dsimp only
        split <;> rfl
      · obtain ⟨_, _, _, _, -, -, -, refused⟩ := update_eq_error live valid
        rw [serve, refused]
        rfl
    | close =>
      show kb.close.explainer.policy = _
      rw [close_eq live]
      rfl

/-- No call changes the policy. -/
theorem policy_after (history : List Call) : ∀ kb : KnowledgeBase,
    (kb.after history).explainer.policy = kb.explainer.policy := by
  induction history with
  | nil => exact fun _ => rfl
  | cons c history ih => exact fun kb => (ih (kb.serve c).2).trans (kb.policy_serve c)

/-- **A limit leaves as many justifications as it says**, or all of them if they are fewer. Valid
axioms open a knowledge base that keeps to the law of its policy after any history that does not
close it, for every valid statement that is explained without a limit, whatever is read between the
unlimited answer and the limited one. -/
theorem limited_after (name : String) {axioms : AxiomSet} (policy : LimitPolicy)
    (valid : ∀ a ∈ axioms, a.Valid) :
    ∃ kb₀, KnowledgeBase.new name axioms policy = .ok kb₀ ∧
      ∀ history : List Call, Call.close ∉ history → ∀ x : Axiom, x.Valid →
        ∀ all, ((kb₀.after history).explain x 0).1 = .ok all →
          ∀ reads : List Call, (∀ c ∈ reads, c.Reads) →
            ((kb₀.after history).after reads).LimitLaw policy x all := by
  obtain ⟨kb₀, made, kept₀, live₀, -⟩ := Kept.new name policy valid
  have policy₀ : kb₀.explainer.policy = policy := by
    unfold KnowledgeBase.new at made
    split at made
    · cases made
    · cases made
      rfl
  refine ⟨kb₀, made, fun history never x valid_x all answer reads reading => ?_⟩
  obtain ⟨kept, live⟩ := kept₀.after_open live₀ never
  obtain ⟨alike, -⟩ := kept.after_reads_alike reads reading
  have live' : ((kb₀.after history).after reads).closed = false := alike.closed.trans live
  have law := alike.left.limitLaw live' valid_x ((alike.explain_eq live' valid_x 0).trans answer)
  rwa [policy_after, policy_after, policy₀] at law

/-- There are two ways through the diamond. Asked for one, the knowledge base gives one, also after
it gave both; asked for three, it gives both. -/
theorem diamond_limited :
    let x := Axiom.subClassOf ⟨"A"⟩ ⟨"D"⟩
    let asked := [Call.explain x 0, Call.explain x 3]
    (∀ a ∈ SortedSet.ofList Generator.diamond, a.Valid) ∧ x.Valid ∧ (∀ c ∈ asked, c.Reads) ∧
      ∃ kb₀ all, KnowledgeBase.new "diamond" (.ofList Generator.diamond) .forward = .ok kb₀ ∧
        Call.close ∉ [Call.entailed x] ∧
        ((kb₀.after [.entailed x]).explain x 0).1 = .ok all ∧ all.size = 2 ∧
          (∃ es, (((kb₀.after [.entailed x]).after asked).explain x 1).1 = .ok es ∧
            es.size = 1) ∧
          ∃ es, (((kb₀.after [.entailed x]).after asked).explain x 3).1 = .ok es ∧
            es.size = 2 := by
  intro x asked
  have valid : ∀ a ∈ SortedSet.ofList Generator.diamond, a.Valid := by decide +kernel
  have valid_x : x.Valid := by decide +kernel
  have reading : ∀ c ∈ asked, c.Reads := by simp [asked, Call.Reads]
  have never : Call.close ∉ [Call.entailed x] := by simp
  obtain ⟨kb₀, made, law⟩ := limited_after "diamond" .forward valid
  have computed : (KnowledgeBase.new "diamond" (.ofList Generator.diamond)
      .forward).toOption.bind (fun kb => ((kb.after [.entailed x]).explain x 0).1.toOption.map
        SortedSet.size) = some 2 := by decide +kernel
  rw [made] at computed
  obtain ⟨all, answer, two⟩ := Option.map_eq_some_iff.1 computed
  have answer : ((kb₀.after [.entailed x]).explain x 0).1 = .ok all := by
    revert answer
    cases ((kb₀.after [.entailed x]).explain x 0).1 with
    | error _ =>
      intro same
      cases same
    | ok es => exact fun same => congrArg Except.ok (Option.some.inj same)
  have limits := law [.entailed x] never x valid_x all answer asked reading
  obtain ⟨es, one, -, size, -⟩ := limits.forwarded rfl 1 (by decide)
  obtain ⟨es', three, -, size', -⟩ := limits.forwarded rfl 3 (by decide)
  rw [two] at size size'
  exact ⟨valid, valid_x, reading, kb₀, all, made, never, answer, two, ⟨es, one, size⟩,
    es', three, size'⟩

end KnowledgeBase

end OntologyService
