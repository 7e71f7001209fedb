import OntologyService.Proofs.KnowledgeBase.Limits

/-!
# Explanations are as good as fresh

A knowledge base that explains a statement may take the answer from its memory, and what it
remembers depends on everything that it was asked before. No answer shows it: after any history, a
knowledge base explains as one that was opened just now over the axioms that it holds
(`Opened.explain_eq_fresh`), because the two are alike and remember nothing that an answer depends
on.

So the same question has the same answer as long as the axioms stay. They stay as long as no update
reports a change: calls without effect leave a knowledge base alike (`Opened.after_idle`).

**The law** (`explained_afresh_after`) puts the two together.
-/

namespace OntologyService

namespace KnowledgeBase

variable {kb kb' : KnowledgeBase} {c : Call}

/-! ## Open knowledge bases -/

/-- What is like an open knowledge base is open. -/
theorem Alike.opened (h : kb.Alike kb') (open' : kb'.Opened) : kb.Opened :=
  ⟨h.left, h.closed.trans open'.live, h.engines.ontology.trans (open'.named.trans h.name.symm)⟩

/-- What is open stays open, unless it is told to close. -/
theorem Opened.serve (h : kb.Opened) (stays : c ≠ .close) : (kb.serve c).2.Opened := by
  have read : c.Reads → (kb.serve c).2.Opened := fun reads =>
    (h.kept.serve_alike reads).1.opened h
  cases c with
  | query kind e => exact read trivial
  | entailed a => exact read trivial
  | explain a limit => exact read trivial
  | update additions removals => exact (h.update additions removals).1
  | close => exact absurd rfl stays

theorem Opened.after_open (history : List Call) : ∀ {kb : KnowledgeBase}, kb.Opened →
    Call.close ∉ history → (kb.after history).Opened := by
  induction history with
  | nil => exact fun h _ => h
  | cons c history ih =>
    intro kb h never
    rw [List.mem_cons, not_or] at never
    exact ih (h.serve (Ne.symm never.1)) never.2

/-- Open knowledge bases of one name and one policy, with the same axioms, are alike. -/
theorem Opened.alike (h : kb.Opened) (h' : kb'.Opened) (name : kb.name = kb'.name)
    (policy : kb.explainer.policy = kb'.explainer.policy) (axioms : kb.axioms = kb'.axioms) :
    kb.Alike kb' where
  left := h.kept
  right := h'.kept
  name := name
  closed := h.live.trans h'.live.symm
  engines := ⟨h.kept.sound, h'.kept.sound, h.named.trans (name.trans h'.named.symm), axioms⟩
  policy := policy

/-- Knowledge bases that are alike explain every statement alike, be it valid or not. -/
theorem Alike.explain_fst_eq (h : kb.Alike kb') (live : kb.closed = false) (x : Axiom)
    (limit : Nat) : (kb.explain x limit).1 = (kb'.explain x limit).1 := by
  have served : (kb.explain x limit).1.map Answer.justifications =
      (kb'.explain x limit).1.map Answer.justifications := h.serve_explain_eq live x limit
  cases left : (kb.explain x limit).1 with
  | error e =>
    cases right : (kb'.explain x limit).1 with
    | error e' => simpa [left, right, Except.map] using served
    | ok es' => simp [left, right, Except.map] at served
  | ok es =>
    cases right : (kb'.explain x limit).1 with
    | error e' => simp [left, right, Except.map] at served
    | ok es' => simpa [left, right, Except.map] using served

/-- What was opened has nothing explained yet. -/
theorem explainer_of_new {name : String} {axioms : AxiomSet} {policy : LimitPolicy}
    (made : KnowledgeBase.new name axioms policy = .ok kb) : kb.explainer = { policy } := by
  unfold KnowledgeBase.new at made
  split at made
  · cases made
  · cases made
    rfl

/-- **What is open explains as what is opened now** over the same axioms, and remembers nothing. -/
theorem Opened.explain_eq_fresh (h : kb.Opened) :
    ∃ fresh, KnowledgeBase.new kb.name kb.axioms kb.explainer.policy = .ok fresh ∧
      fresh.axioms = kb.axioms ∧ fresh.explainer.memo = ∅ ∧
      ∀ x limit, (kb.explain x limit).1 = (fresh.explain x limit).1 := by
  obtain ⟨fresh, made, -, -, name, axioms⟩ := Kept.new kb.name kb.explainer.policy h.kept.valid
  have opened := Opened.new made
  have explainer := explainer_of_new made
  have alike := h.alike opened name.symm (by rw [explainer]) axioms.symm
  exact ⟨fresh, made, axioms, by rw [explainer], fun x limit => alike.explain_fst_eq h.live x limit⟩

/-! ## Calls without effect -/

/-- How many axioms an answer reports as added and removed. -/
def reported : Except ReasoningError Answer → Nat
  | .ok (.summary s) => s.added + s.removed
  | _ => 0

/-- **The calls are without effect**: no answer reports a change. -/
def Idle (kb : KnowledgeBase) : List Call → Prop
  | [] => True
  | c :: calls => reported (kb.serve c).1 = 0 ∧ (kb.serve c).2.Idle calls

instance decidableIdle : (kb : KnowledgeBase) → (calls : List Call) → Decidable (kb.Idle calls)
  | _, [] => .isTrue trivial
  | kb, c :: calls =>
    have := decidableIdle (kb.serve c).2 calls
    inferInstanceAs (Decidable (reported (kb.serve c).1 = 0 ∧ (kb.serve c).2.Idle calls))

/-- A batch that counts nothing leaves the axioms as they were. -/
theorem axioms_of_counts {axioms additions removals : AxiomSet}
    (added : (additions.sdiff axioms).size = 0)
    (removed : (removals.inter (axioms ∪ additions)).size = 0) :
    (axioms ∪ additions).sdiff removals = axioms := by
  have none_new := SortedSet.not_mem_of_size_eq_zero added
  have none_held := SortedSet.not_mem_of_size_eq_zero removed
  refine SortedSet.ext fun a => ?_
  simp only [SortedSet.mem_sdiff, SortedSet.mem_inter, SortedSet.mem_union] at none_new none_held ⊢
  grind

/-- A call without effect leaves what is open alike. -/
theorem Opened.serve_idle (h : kb.Opened) (stays : c ≠ .close)
    (idle : reported (kb.serve c).1 = 0) : (kb.serve c).2.Alike kb := by
  cases c with
  | query kind e => exact (h.kept.serve_alike (c := .query kind e) trivial).1
  | entailed a => exact (h.kept.serve_alike (c := .entailed a) trivial).1
  | explain a limit => exact (h.kept.serve_alike (c := .explain a limit) trivial).1
  | update additions removals =>
    obtain ⟨opened, name, policy⟩ := h.update additions removals
    refine opened.alike h name policy ?_
    by_cases valid : ValidBatch additions removals
    · obtain ⟨kb', updated, -, -, -, axioms, -⟩ := h.kept.update_of_valid h.live valid
      rw [KnowledgeBase.serve, updated] at idle ⊢
      have none : _ + _ = 0 := idle
      exact axioms.trans (axioms_of_counts (Nat.eq_zero_of_add_eq_zero_right none)
        (Nat.eq_zero_of_add_eq_zero_left none))
    · obtain ⟨_, _, _, _, -, -, -, refused⟩ := update_eq_error h.live valid
      rw [KnowledgeBase.serve, refused]
      rfl
  | close => exact absurd rfl stays

/-- **Calls without effect** leave what is open alike. -/
theorem Opened.after_idle (calls : List Call) : ∀ {kb : KnowledgeBase}, kb.Opened →
    Call.close ∉ calls → kb.Idle calls → (kb.after calls).Alike kb := by
  induction calls with
  | nil => exact fun h _ _ => .refl h.kept
  | cons c calls ih =>
    intro kb h never idle
    rw [List.mem_cons, not_or] at never
    obtain ⟨first, rest⟩ := idle
    have stays : c ≠ .close := Ne.symm never.1
    exact (ih (h.serve stays) never.2 rest).trans (h.serve_idle stays first)

/-! ## The law -/

/-- **Explanations are as good as fresh.** Valid axioms open a knowledge base that after any history
explains every statement, under every limit, as one that is opened now does as the first thing it is
asked, over the axioms that are held, by the same name and under the same policy. Asked once more,
after calls without effect, it gives the same answer. -/
theorem explained_afresh_after (name : String) {axioms : AxiomSet} (policy : LimitPolicy)
    (valid : ∀ a ∈ axioms, a.Valid) :
    ∃ kb₀, KnowledgeBase.new name axioms policy = .ok kb₀ ∧
      ∀ history : List Call, Call.close ∉ history →
        let kb := kb₀.after history
        (∃ fresh, KnowledgeBase.new name kb.axioms policy = .ok fresh ∧
          fresh.axioms = kb.axioms ∧ fresh.explainer.memo = ∅ ∧
          ∀ x limit, (kb.explain x limit).1 = (fresh.explain x limit).1) ∧
        ∀ x limit calls, Call.close ∉ calls → (kb.explain x limit).2.Idle calls →
          (((kb.explain x limit).2.after calls).explain x limit).1 = (kb.explain x limit).1 := by
  obtain ⟨kb₀, made, kept₀, -, name₀, -⟩ := Kept.new name policy valid
  refine ⟨kb₀, made, fun history never => ?_⟩
  have opened := (Opened.new made).after_open history never
  refine ⟨?_, fun x limit calls never' idle => ?_⟩
  · have fresh := opened.explain_eq_fresh
    rwa [(kept₀.after history).2.1, name₀, policy_after, explainer_of_new made] at fresh
  · -- the explanation is itself a call that leaves the knowledge base alike
    have asked : ((kb₀.after history).explain x limit).2.Opened :=
      opened.serve (c := .explain x limit) (by simp)
    have alike := (opened.kept.serve_alike (c := .explain x limit) trivial).1
    have later := (asked.after_idle calls never' idle).trans alike
    exact later.explain_fst_eq (asked.after_open calls never').live x limit

/-- Both ways through the diamond were given when one of them is blocked. What is given then is the
other way alone, as by a knowledge base that knew no other; and again after it was told once more
what it holds. -/
theorem diamond_explained_afresh :
    let x := Axiom.subClassOf ⟨"A"⟩ ⟨"D"⟩
    let rest := Generator.diamond.drop 2
    let history := [Call.explain x 0, .update ∅ (.ofList (Generator.diamond.take 1))]
    let calls := [Call.entailed x, .update (.ofList rest) ∅]
    (∀ a ∈ SortedSet.ofList Generator.diamond, a.Valid) ∧ Call.close ∉ history ∧
      Call.close ∉ calls ∧
      ∃ kb₀ fresh, KnowledgeBase.new "diamond" (.ofList Generator.diamond) .forward = .ok kb₀ ∧
        KnowledgeBase.new "diamond" (kb₀.after history).axioms .forward = .ok fresh ∧
        (fresh.explain x 0).1 = ((kb₀.after history).explain x 0).1 ∧
        ((kb₀.after history).explain x 0).1.toOption = some (.ofList [.ofList rest]) ∧
        ((kb₀.after history).explain x 0).2.Idle calls ∧
        ((((kb₀.after history).explain x 0).2.after calls).explain x 0).1 =
          ((kb₀.after history).explain x 0).1 := by
  intro x rest history calls
  have valid : ∀ a ∈ SortedSet.ofList Generator.diamond, a.Valid := by decide +kernel
  have never : Call.close ∉ history := by simp [history]
  have never' : Call.close ∉ calls := by simp [calls]
  obtain ⟨kb₀, made, law⟩ := explained_afresh_after "diamond" .forward valid
  obtain ⟨⟨fresh, made', -, -, alike⟩, again⟩ := law history never
  have computed : ∀ kb ∈ (KnowledgeBase.new "diamond" (.ofList Generator.diamond)
      .forward).toOption, ((kb.after history).explain x 0).1.toOption =
        some (.ofList [.ofList rest]) ∧ ((kb.after history).explain x 0).2.Idle calls := by
    decide +kernel
  rw [made] at computed
  obtain ⟨other, idle⟩ := computed kb₀ rfl
  exact ⟨valid, never, never', kb₀, fresh, made, made', (alike x 0).symm, other, idle,
    again x 0 calls never' idle⟩

end KnowledgeBase

end OntologyService
