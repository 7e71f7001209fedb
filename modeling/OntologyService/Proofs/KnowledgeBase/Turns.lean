import OntologyService.Proofs.KnowledgeBase.Places

/-!
# Sharing in turns

Where nobody else holds the lock, a party that goes on until it is done leaves what its call leaves,
and has the answer that its call has (`leads_serve`). So parties that share a knowledge base and
take turns do to it what their calls do one after another (`leads_after`): to share is nothing else
than to call, but for the steps that others take in between.
-/

namespace OntologyService

namespace KnowledgeBase

namespace Sharing

variable {ι : Type} [DecidableEq ι] {w w' : Sharing ι} {p : ι}

/-- The party gets there if it goes on alone. -/
def Leads (p : ι) (w w' : Sharing ι) : Prop := ∃ n, w.run (List.replicate n p) = w'

theorem Leads.refl (p : ι) (w : Sharing ι) : Leads p w w := ⟨0, rfl⟩

/-- One move of a party and then the rest lead where the rest leads. -/
theorem Leads.step (h : Leads p (w.move p) w') : Leads p w w' := by
  obtain ⟨n, rest⟩ := h
  exact ⟨n + 1, rest⟩

/-- Moves of a party follow one another. -/
theorem Leads.trans {w'' : Sharing ι} (h : Leads p w w') (h' : Leads p w' w'') : Leads p w w'' := by
  obtain ⟨n, rfl⟩ := h
  obtain ⟨m, rfl⟩ := h'
  refine ⟨n + m, ?_⟩
  rw [List.replicate_add, run_append]

/-- Of the places that a party was put in, the last one counts. -/
@[simp] theorem put_again (w : Sharing ι) (p : ι) (party party' : Party) (kb : KnowledgeBase)
    (readers : List ι) (writer : Option ι) (committed : List Call) (disposed : Bool) :
    put ⟨kb, (w.put p party).parties, readers, writer, committed, disposed⟩ p party' =
      put ⟨kb, w.parties, readers, writer, committed, disposed⟩ p party' := by
  unfold put
  congr 1
  funext q
  dsimp only
  split <;> rfl

@[simp] theorem put_put (w : Sharing ι) (p : ι) (party party' : Party) :
    (w.put p party).put p party' = w.put p party' := put_again ..

/-- Putting a party where it is changes nothing. -/
theorem put_self {party : Party} (at_p : w.parties p = party) : w.put p party = w := by
  unfold put
  congr 1
  funext q
  split
  · next same => rw [same, at_p]
  · rfl

/-- A reader moves by its own steps. -/
theorem move_reader (w : Sharing ι) (p : ι) (q : Question) (place : Reader) :
    (w.put p (.reader q place)).move p = (w.put p (.reader q place)).moveReader p q place := by
  rw [move, put_parties_self]

/-- An updater moves by its own steps. -/
theorem move_updater (w : Sharing ι) (p : ι) (additions removals : AxiomSet) (place : Updater) :
    (w.put p (.updater additions removals place)).move p =
      (w.put p (.updater additions removals place)).moveUpdater p additions removals place := by
  rw [move, put_parties_self]

/-- A closer moves by its own steps. -/
theorem move_closer (w : Sharing ι) (p : ι) (place : Closer) :
    (w.put p (.closer place)).move p = (w.put p (.closer place)).moveCloser p place := by
  rw [move, put_parties_self]

/-! ## Answers -/

section

variable {kb kb' : KnowledgeBase} {q : Question} {progress progress' : Progress} {result : Result}

/-- A step of a question that is not its last leaves the reader at work. -/
theorem leads_more (step : q.advance kb progress = (kb', .inl progress'))
    (rest : Leads p ({ w with kb := kb' }.put p (.reader q (.working progress'))) w') :
    Leads p ({ w with kb }.put p (.reader q (.working progress))) w' := by
  refine .step ?_
  rw [move_reader, moveReader, put_kb, step]
  simpa using rest

/-- Its last step leaves the reader with the result. -/
theorem leads_result (step : q.advance kb progress = (kb', .inr result)) :
    Leads p ({ w with kb }.put p (.reader q (.working progress)))
      ({ w with kb := kb' }.put p (.reader q (.leaving result))) := by
  refine .step ?_
  rw [move_reader, moveReader, put_kb, step]
  simp [Leads.refl]

end

/-- The answer to a question, worked out by a party that holds the lock. -/
theorem leads_answer (w : Sharing ι) (p : ι) (kb : KnowledgeBase) (q : Question)
    (live : kb.closed = false) :
    Leads p ({ w with kb }.put p (.reader q (.working .asked)))
      ({ w with kb := (kb.serve q.call).2 }.put p (.reader q (.leaving (kb.serve q.call).1))) := by
  cases q with
  | query kind e =>
    rw [Question.call, serve_query live]
    exact leads_result rfl
  | entailed a =>
    rw [Question.call, serve_entailed live]
    exact leads_result rfl
  | explain a limit =>
    rw [Question.call, serve_explain live, readExplanations, Generator.explain]
    by_cases gone : kb.explainer.disposed
    · rw [if_pos gone]
      exact leads_result (by simp only [Question.advance, if_pos gone]; rfl)
    · rw [if_neg gone]
      cases passed : a.validate with
      | error e =>
        exact leads_result (by simp only [Question.advance, if_neg gone, passed]; rfl)
      | ok _ =>
        refine leads_more (by simp only [Question.advance, if_neg gone, passed]; rfl) ?_
        dsimp only
        cases found : kb.explainer.remembered? kb.reasoner.settle.revision
            (a, kb.explainer.policy.effective limit) with
        | some es => exact leads_result (by simp only [Question.advance, found]; rfl)
        | none =>
          refine leads_more (by simp only [Question.advance, found]; rfl) ?_
          dsimp only
          cases worked : Generator.work kb.reasoner.settle a
              (kb.explainer.policy.effective limit) with
          | error e => exact leads_result (by simp only [Question.advance, worked]; rfl)
          | ok es =>
            refine leads_more (by simp only [Question.advance, worked]; rfl) ?_
            exact leads_result rfl

/-! ## Batches -/

/-- What is left of a batch, taken in by a party that holds the lock. -/
theorem leads_batch (w : Sharing ι) (p : ι) {additions removals : AxiomSet} {r₀ : Reasoner}
    (as : List Axiom) : ∀ {bs : List Axiom} {c : Reasoner.Change} (kb : KnowledgeBase),
      r₀.Midway additions.toList removals.toList kb.reasoner as bs c →
      Leads p ({ w with kb }.put p (.updater additions removals (.applying as bs c)))
        ({ w with
          kb := { kb with reasoner := (r₀.apply additions.toList removals.toList).1 }
          committed := w.committed ++ [Call.update additions removals] }.put p
          (.updater additions removals
            (.applied (r₀.apply additions.toList removals.toList).2))) := by
  induction as with
  | cons a as ih =>
    intro bs c kb midway
    refine .step ?_
    rw [move_updater, moveUpdater]
    simpa using ih _ midway.add
  | nil =>
    intro bs
    induction bs with
    | cons b bs ih =>
      intro c kb midway
      refine .step ?_
      rw [move_updater, moveUpdater]
      simpa using ih _ midway.remove
    | nil =>
      intro c kb midway
      refine .step ?_
      rw [move_updater, moveUpdater, ← midway.conclude]
      simp [Leads.refl]

/-! ## Calls -/

/-- Nobody holds the lock. -/
structure Free (w : Sharing ι) : Prop where
  readers : w.readers = []
  writer : w.writer = none

/-- The call of a party was served, and nothing else happened. -/
structure Served (w : Sharing ι) (p : ι) (w' : Sharing ι) : Prop where
  kb : w'.kb = (w.kb.serve (w.parties p).call).2
  result : (w'.parties p).result? = some (w.kb.serve (w.parties p).call).1
  others : ∀ q, q ≠ p → w'.parties q = w.parties q
  free : w'.Free

/-- A closed knowledge base serves every party by its first step. -/
theorem leads_closed {c : Call} (at_p : w.parties p = .ofCall c) (free : w.Free)
    (closed : w.kb.closed = true) : ∃ w', Leads p w w' ∧ Served w p w' := by
  obtain ⟨party, moved, result⟩ := move_closed closed at_p
  have called : (w.parties p).call = c := by rw [at_p, Party.call_ofCall]
  refine ⟨_, .step (.refl ..), ?_, ?_, (moved_move w p).others, ?_⟩
  · rw [moved, called, serve_of_closed closed, put_kb]
  · rw [moved, called, put_parties_self, result]
  · rw [moved]
    exact ⟨free.readers, free.writer⟩

section

variable (free : w.Free) (live : w.kb.closed = false)
include free live

/-- **A reader left alone is served**: it ends with the answer of the knowledge base as it found it.
-/
theorem leads_reader {q : Question} (at_p : w.parties p = .reader q .called) :
    ∃ w', Leads p w w' ∧ Served w p w' := by
  have called : (w.parties p).call = q.call := by rw [at_p]; rfl
  have enters : Leads p (w.put p (.reader q .called))
      ({ w with readers := [p] }.put p (.reader q (.working .asked))) := by
    refine .step (.step (.step ?_))
    simp [move_reader, moveReader, live, lockToRead, free.writer, free.readers, Leads.refl]
  rw [put_self at_p] at enters
  have leaves := enters.trans (leads_answer { w with readers := [p] } p w.kb q live)
  refine ⟨_, leaves.trans (.step (.refl ..)), ?_, ?_, fun r ne => ?_, ?_⟩
  · rw [called, move_reader]
    rfl
  · rw [called, move_reader, moveReader, put_parties_self]
    rfl
  · rw [(moved_move ..).others r ne, put_parties_of_ne ne]
  · rw [move_reader]
    exact ⟨by simp [moveReader], free.writer⟩

/-- **An updater left alone is served.** -/
theorem leads_updater {additions removals : AxiomSet}
    (at_p : w.parties p = .updater additions removals .called) :
    ∃ w', Leads p w w' ∧ Served w p w' := by
  have called : (w.parties p).call = .update additions removals := by rw [at_p]; rfl
  cases passed : Axiom.validateAll (additions.toList ++ removals.toList) with
  | error e =>
    have refused : Leads p (w.put p (.updater additions removals .called))
        (w.put p (.updater additions removals (.done (.error e)))) := by
      refine .step (.step ?_)
      simp [move_updater, moveUpdater, live, passed, Leads.refl]
    rw [put_self at_p] at refused
    refine ⟨_, refused, ?_, ?_, fun r ne => put_parties_of_ne ne .., ⟨free.readers, free.writer⟩⟩
    · rw [called, serve_update_defect live passed, put_kb]
    · rw [called, serve_update_defect live passed, put_parties_self]
      rfl
  | ok _ =>
    -- the flag is looked at in front of the lock and behind it, and it is down both times
    have enters : Leads p (w.put p (.updater additions removals .called))
        ({ w with kb := { w.kb with listening := true }, writer := some p }.put p
          (.updater additions removals (.applying additions.toList removals.toList ⟨0, 0⟩))) := by
      refine .step (.step (.step (.step ?_)))
      simp [move_updater, moveUpdater, live, passed, lockToChange, free.writer, free.readers,
        Leads.refl]
    rw [put_self at_p] at enters
    have applied := leads_batch { w with writer := some p } p additions.toList
      { w.kb with listening := true } (.start w.kb.reasoner additions.toList removals.toList)
    have told : Leads p w ({ w with
        kb := (w.kb.takeIn additions removals).2.announce (w.kb.takeIn additions removals).1
        committed := w.committed ++ [Call.update additions removals]
        writer := none }.put p (.updater additions removals
          (.done (.ok (.summary (w.kb.takeIn additions removals).1))))) := by
      refine (enters.trans applied).trans (.step (.step (.step ?_)))
      simp only [move_updater, moveUpdater, put_again, put_kb, put_readers, put_writer,
        put_committed, put_disposed]
      exact .refl ..
    have valid := ValidBatch.of_validateAll passed
    refine ⟨_, told, ?_, ?_, fun r ne => put_parties_of_ne ne .., ⟨free.readers, rfl⟩⟩
    · rw [called, serve, update_eq_ok live valid]
      rfl
    · rw [called, serve, update_eq_ok live valid, put_parties_self]
      rfl

/-- **A closer left alone is served.** -/
theorem leads_closer (at_p : w.parties p = .closer .called) :
    ∃ w', Leads p w w' ∧ Served w p w' := by
  have called : (w.parties p).call = .close := by rw [at_p]; rfl
  have done : Leads p (w.put p (.closer .called)) ({ w with
      kb := w.kb.raiseClosed.disposeExplainer.disposeReasoner
      disposed := true
      writer := none }.put p (.closer .done)) := by
    refine .step (.step (.step (.step (.step ?_))))
    simp [move_closer, moveCloser, live, lockToChange, free.writer, free.readers, Leads.refl]
  rw [put_self at_p] at done
  refine ⟨_, done, ?_, ?_, fun r ne => put_parties_of_ne ne .., ⟨free.readers, rfl⟩⟩
  · rw [called, serve, close_eq live]
    rfl
  · rw [called, put_parties_self]
    rfl

end

/-- **A party that goes on alone** comes to what its call comes to, and leaves what it leaves. -/
theorem leads_serve {c : Call} (at_p : w.parties p = .ofCall c) (free : w.Free) :
    ∃ w', Leads p w w' ∧ Served w p w' := by
  cases live : w.kb.closed with
  | true => exact leads_closed at_p free live
  | false =>
    cases c with
    | query kind e => exact leads_reader free live at_p
    | entailed a => exact leads_reader free live at_p
    | explain a limit => exact leads_reader free live at_p
    | update additions removals => exact leads_updater free live at_p
    | close => exact leads_closer free live at_p

/-- **Parties that take turns** leave what their calls leave, one after another, and each has the
answer that its call has when it is its turn. -/
theorem run_turns (calls : ι → Call) (turns : List ι) : ∀ {w : Sharing ι}, w.Free →
    turns.Nodup → (∀ p ∈ turns, w.parties p = .ofCall (calls p)) →
    ∃ moves, (w.run moves).kb = w.kb.after (turns.map calls) ∧
      ∀ before p rest, turns = before ++ p :: rest → ((w.run moves).parties p).result? =
        some ((w.kb.after (before.map calls)).serve (calls p)).1 := by
  induction turns with
  | nil =>
    intro w _ _ _
    exact ⟨[], rfl, fun before p rest turns => absurd turns (by simp)⟩
  | cons q turns ih =>
    -- the first party goes on alone; the others are still about to call, and the lock is free again
    intro w free distinct start
    obtain ⟨fresh, distinct⟩ := List.nodup_cons.1 distinct
    have at_q := start q List.mem_cons_self
    obtain ⟨w', ⟨n, leads⟩, served⟩ := leads_serve at_q free
    have kb := served.kb
    have result := served.result
    rw [at_q, Party.call_ofCall] at kb result
    obtain ⟨moves, left, results⟩ := ih served.free distinct fun p member => by
      rw [served.others p fun same => fresh (same ▸ member)]
      exact start p (List.mem_cons_of_mem _ member)
    refine ⟨List.replicate n q ++ moves, ?_, fun before p rest turns => ?_⟩
    · rw [run_append, leads, left, kb]
      rfl
    · rw [run_append, leads]
      cases before with
      | nil =>
        cases turns
        exact run_result moves w' result
      | cons _ before =>
        cases turns
        rw [results before p rest rfl, kb]
        rfl

end Sharing

end KnowledgeBase

end OntologyService
