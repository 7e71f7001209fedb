import Mathlib.Data.List.Induction
import OntologyService.Proofs.KnowledgeBase.Turns

/-!
# Sharing, in any order of steps

Any number of parties share a knowledge base, and their steps come in any order. Whatever the order,
nobody sees an engine that was let go of, or one that a batch is being taken into.

The lock is why, and the two looks at the flag. A party that works holds the lock, and saw the flag
down while it held it; who lets go of the engine holds the lock too, and raised the flag before. So
the engine is there for as long as somebody works, and between two batches it stands for the
knowledge base that took in the batches committed so far, one call after another (`Upright`). What a
party relies on in the middle of its call, nobody else takes away (`Fine.frame`).

**The law** (`shared_run`) is about every run of any parties. Whoever works finds the engine whole.
Every result is the one that the knowledge base would have given, had it been asked at one moment
during the call with nobody else around, or a refusal because it is closed. Once the engine is gone,
no batch is committed. Who comes after the flag went up is refused at once. And parties that take
turns get what their calls get (`run_turns`), so that not everybody is refused or waits for ever.
-/

namespace OntologyService

namespace KnowledgeBase

namespace Sharing

variable {ι : Type} {kb₀ : KnowledgeBase} {w w' : Sharing ι} {p q : ι} {party old : Party}
  {R R' : ι → Result → Prop} {R₁ R₂ : Result → Prop}

/-! ## What holds in between -/

/-- A result that may be given: a refusal where the flag is up, or one of those that hold. -/
def Allowed (kb₀ : KnowledgeBase) (R : Result → Prop) (w : Sharing ι) (result : Result) : Prop :=
  w.kb.closed = true ∧ result = .error kb₀.refusal ∨ R result

/-- **What a party relies on** at its place, where the results `R` hold. -/
def Fine (kb₀ : KnowledgeBase) (R : Result → Prop) (w : Sharing ι) : Party → Prop
  | .reader q (.working progress) => w.disposed = false ∧ progress.Fits (kb₀.after w.committed) q
  | .reader _ (.leaving result) | .reader _ (.done result) => Allowed kb₀ R w result
  | .updater additions removals .admitted =>
    ∀ e, Axiom.validateAll (additions.toList ++ removals.toList) = .error e → R (.error e)
  | .updater additions removals .waiting | .updater additions removals .entered =>
    ValidBatch additions removals
  | .updater additions removals (.applying as bs c) =>
    ValidBatch additions removals ∧ w.disposed = false ∧
      ∃ r₀, Whole r₀ w.kb.explainer (kb₀.after w.committed) ∧
        r₀.Midway additions.toList removals.toList w.kb.reasoner as bs c
  | .updater _ _ (.applied c) =>
    R (.ok (.summary { added := c.added, removed := c.removed, revision := w.kb.revision }))
  | .updater _ _ (.leaving (.ok s)) | .updater _ _ (.telling s) => R (.ok (.summary s))
  | .updater _ _ (.leaving (.error e)) => w.kb.closed = true ∧ e = kb₀.refusal
  | .updater _ _ (.done result) => Allowed kb₀ R w result
  | .closer .raised | .closer .waiting | .closer .entered | .closer .leaving =>
    w.kb.closed = true
  | _ => True

/-- **What holds of all that is shared.** Engine and explanations are gone only where the flag is
up. Where the engine is there and no batch is being taken in, it stands for the knowledge base that
took in the batches committed so far. -/
structure Upright (kb₀ : KnowledgeBase) (w : Sharing ι) : Prop where
  name : w.kb.name = kb₀.name
  policy : w.kb.explainer.policy = kb₀.explainer.policy
  gone : w.disposed = true → w.kb.closed = true
  forgotten : w.kb.explainer.disposed = true → w.kb.closed = true
  updates : ∀ c ∈ w.committed, c.Updates ∧ ∃ p, (w.parties p).call = c
  whole : w.disposed = false → (∀ p, ¬ (w.parties p).Applying) →
    Whole w.kb.reasoner w.kb.explainer (kb₀.after w.committed)

/-- What holds between two moves, where `R` are the results that hold for each party. -/
structure Invariant (kb₀ : KnowledgeBase) (R : ι → Result → Prop) (w : Sharing ι) : Prop where
  locked : w.Locked
  upright : Upright kb₀ w
  fine : ∀ p, Fine kb₀ (R p) w (w.parties p)

/-- What a party comes to by its own move. -/
structure Lands (kb₀ : KnowledgeBase) (R : Result → Prop) (p : ι) (w : Sharing ι) : Prop where
  upright : Upright kb₀ w
  fine : Fine kb₀ R w (w.parties p)

theorem Allowed.mono {result : Result} (h : Allowed kb₀ R₁ w result)
    (mono : ∀ result, R₁ result → R₂ result) (closed : w.kb.closed = true → w'.kb.closed = true) :
    Allowed kb₀ R₂ w' result := h.imp (And.imp_left closed) (mono result)

/-- Who works has the engine, and the lock to read. -/
theorem Fine.working (h : Fine kb₀ R₁ w party) (working : party.Working) :
    w.disposed = false ∧ party.HoldsToRead ∧ ¬ party.Applying := by
  unfold Party.Working at working
  split at working
  · exact ⟨h.1, trivial, id⟩
  · exact working.elim

/-- Who takes in a batch has the engine. -/
theorem Fine.applying (h : Fine kb₀ R₁ w party) (applying : party.Applying) :
    w.disposed = false := by
  unfold Party.Applying at applying
  split at applying
  · exact h.2.1
  · exact applying.elim

/-- What a call comes to is allowed, unless it is one to close. -/
theorem Fine.result (h : Fine kb₀ R₁ w party) {result : Result}
    (done : party.result? = some result) :
    (party.call = .close → result = .ok .done) ∧ (party.call ≠ .close → Allowed kb₀ R₁ w result) := by
  unfold Party.result? at done
  split at done
  · next q _ =>
    cases done
    refine ⟨fun close => ?_, fun _ => h⟩
    cases q <;> cases close
  · cases done
    exact ⟨fun close => absurd close (by simp [Party.call]), fun _ => h⟩
  · cases done
    exact ⟨fun _ => rfl, fun other => absurd rfl other⟩
  · cases done

/-- **Nobody else takes away** what a party relies on. -/
theorem Fine.frame (h : Fine kb₀ R₁ w party) (mono : ∀ result, R₁ result → R₂ result)
    (closed : w.kb.closed = true → w'.kb.closed = true)
    (calm : party.HoldsToRead ∨ party.HoldsToChange →
      w'.committed = w.committed ∧ w'.disposed = w.disposed)
    (still : party.HoldsToChange → w'.kb.reasoner = w.kb.reasoner ∧
      (w'.kb.explainer = w.kb.explainer ∨ w'.kb.explainer.memo = ∅)) :
    Fine kb₀ R₂ w' party := by
  cases party with
  | reader q place =>
    cases place with
    | called | waiting | entered => trivial
    | working progress =>
      obtain ⟨committed, disposed⟩ := calm (.inl trivial)
      exact ⟨disposed.trans h.1, committed ▸ h.2⟩
    | leaving result | done result => exact Allowed.mono h mono closed
  | updater additions removals place =>
    cases place with
    | called => trivial
    | admitted => exact fun e defective => mono _ (h e defective)
    | waiting | entered => exact h
    | applying as bs c =>
      obtain ⟨valid, live, r₀, whole, midway⟩ := h
      -- while a batch is taken in nobody else commits, and only explanations may be forgotten
      obtain ⟨committed, disposed⟩ := calm (.inr trivial)
      obtain ⟨reasoner, explainer⟩ := still trivial
      refine ⟨valid, disposed.trans live, r₀, ?_, reasoner ▸ midway⟩
      rw [committed]
      rcases explainer with same | empty
      · exact same ▸ whole
      · exact whole.forget empty
    | applied c =>
      obtain ⟨reasoner, -⟩ := still trivial
      have revision : w'.kb.revision = w.kb.revision := congrArg Reasoner.revision reasoner
      rw [Fine, revision]
      exact mono _ h
    | leaving result =>
      cases result with
      | ok s => exact mono _ h
      | error e => exact ⟨closed h.1, h.2⟩
    | telling s => exact mono _ h
    | done result => exact Allowed.mono h mono closed
  | closer place =>
    cases place with
    | called | done => trivial
    | raised | waiting | entered | leaving => exact closed h

namespace Upright

/-- The lock is no part of what a party relies on. -/
theorem lock (h : Upright kb₀ w) (readers : List ι) (writer : Option ι) :
    Upright kb₀ { w with readers, writer } :=
  ⟨h.name, h.policy, h.gone, h.forgotten, h.updates, h.whole⟩

/-- A change of the knowledge base keeps it upright if it agrees with the batches committed. -/
theorem change (h : Upright kb₀ w) {kb : KnowledgeBase} (name : kb.name = w.kb.name)
    (policy : kb.explainer.policy = w.kb.explainer.policy)
    (closed : w.kb.closed = true → kb.closed = true)
    (forgotten : kb.explainer.disposed = true → w.kb.explainer.disposed = true ∨ kb.closed = true)
    (whole : Whole w.kb.reasoner w.kb.explainer (kb₀.after w.committed) →
      Whole kb.reasoner kb.explainer (kb₀.after w.committed)) : Upright kb₀ { w with kb } :=
  ⟨name.trans h.name, policy.trans h.policy, fun gone => closed (h.gone gone),
    fun none => (forgotten none).elim (fun before => closed (h.forgotten before)) id, h.updates,
    fun live none => whole (h.whole live none)⟩

/-- Disposing of an engine behind the flag keeps it upright. -/
theorem dispose (h : Upright kb₀ w) (closed : w.kb.closed = true) :
    Upright kb₀ { w with kb := w.kb.disposeReasoner, disposed := true } :=
  ⟨h.name, h.policy, fun _ => closed, h.forgotten, h.updates, fun live => absurd live (by simp)⟩

/-- While the flag is down, the engine is there. -/
theorem live (h : Upright kb₀ w) (down : ¬ w.kb.closed = true) : w.disposed = false :=
  Bool.eq_false_iff.2 fun gone => down (h.gone gone)

/-- Every refusal is worded alike. -/
theorem refusal (h : Upright kb₀ w) : w.kb.refusal = kb₀.refusal :=
  congrArg ReasoningError.closed h.name

/-- The knowledge base that takes in what was committed is open, under the same name and limits. -/
theorem opened (h : Upright kb₀ w) (opened : kb₀.Opened) :
    (kb₀.after w.committed).Opened ∧ (kb₀.after w.committed).name = kb₀.name ∧
      (kb₀.after w.committed).explainer.policy = kb₀.explainer.policy :=
  opened.after w.committed fun c member => (h.updates c member).1

end Upright

/-- The engine is whole for a party that holds the lock and takes nothing in. -/
theorem Invariant.whole (h : Invariant kb₀ R w) (live : w.disposed = false)
    (holds : (w.parties p).HoldsToRead ∨ (w.parties p).HoldsToChange)
    (calm : ¬ (w.parties p).Applying) :
    Whole w.kb.reasoner w.kb.explainer (kb₀.after w.committed) := by
  refine h.upright.whole live fun q applying => ?_
  rcases holds with reads | changes
  · exact h.locked.not_reads applying.holds p reads
  · exact calm (h.locked.eq_of_changes changes applying.holds ▸ applying)

/-- A party that stays lands where it is. -/
theorem Lands.stay (h : Upright kb₀ w) (at_p : w.parties p = old) (fine : Fine kb₀ R₁ w old) :
    Lands kb₀ R₁ p w := ⟨h, at_p ▸ fine⟩

/-- Before anybody moves, all is in order. -/
theorem Invariant.start (opened : kb₀.Opened) (calls : ι → Call) (R : ι → Result → Prop) :
    Invariant kb₀ R (new kb₀ calls) := by
  have nobody (p : ι) : ¬ ((new kb₀ calls).parties p).HoldsToRead ∧
      ¬ ((new kb₀ calls).parties p).HoldsToChange := by
    show ¬ (Party.ofCall (calls p)).HoldsToRead ∧ ¬ (Party.ofCall (calls p)).HoldsToChange
    cases calls p <;> exact ⟨id, id⟩
  refine ⟨⟨fun p => ?_, fun p => ?_, fun p held => ?_⟩, ?_, fun p => ?_⟩
  · exact iff_of_false List.not_mem_nil (nobody p).1
  · exact iff_of_false (by simp [new]) (nobody p).2
  · exact absurd held (by simp [new])
  · refine ⟨rfl, rfl, fun gone => absurd gone (by simp [new]), opened.kept.disposed.symm.trans,
      ?_, fun _ _ => ?_⟩
    · exact fun c member => absurd member List.not_mem_nil
    · have sound := opened.kept.sound
      exact ⟨⟨sound, sound, rfl, rfl⟩, rfl, (Generator.paired_invariant opened.kept.paired).2⟩
  · show Fine kb₀ (R p) _ (Party.ofCall (calls p))
    cases calls p <;> trivial

variable [DecidableEq ι]

/-! ## One move -/

/-- **A result holds at a step of a party**: the party has none yet, the engine is there, and the
result is what a knowledge base gives that took in the batches committed so far. A result that tells
what a batch changed holds where that batch is committed. -/
structure HoldsAt (kb₀ : KnowledgeBase) (w : Sharing ι) (p : ι) (result : Result) : Prop where
  pending : (w.parties p).result? = none
  live : w.disposed = false
  right : result = ((kb₀.after w.committed).serve (w.parties p).call).1
  commits : ∀ s, result = .ok (.summary s) →
    (w.move p).committed = w.committed ++ [(w.parties p).call]

/-- What is worked out under way is what holds. -/
theorem HoldsAt.worked {question : Question} {progress : Progress} {result : Result}
    (at_p : w.parties p = .reader question (.working progress)) (live : w.disposed = false)
    (right : result = ((kb₀.after w.committed).serve question.call).1) :
    HoldsAt kb₀ w p result := by
  refine ⟨by rw [at_p]; rfl, live, by rw [at_p]; exact right, fun s summed => ?_⟩
  exact absurd (right.symm.trans summed) (serve_question_ne_summary _ question s)

/-- Who called stays among those who called. -/
theorem called_put {c : Call} (at_p : w.parties p = old) (call : party.call = old.call)
    (called : ∃ q, (w.parties q).call = c) : ∃ q, ((w.put p party).parties q).call = c := by
  obtain ⟨q, called⟩ := called
  refine ⟨q, ?_⟩
  by_cases same : q = p
  · rw [same, put_parties_self, call, ← at_p, ← same, called]
  · rw [put_parties_of_ne same, called]

namespace Upright

/-- Moving a party keeps the knowledge base upright, if it keeps its call. -/
theorem put (h : Upright kb₀ w) (at_p : w.parties p = old) (call : party.call = old.call)
    (applying : old.Applying → party.Applying) : Upright kb₀ (w.put p party) := by
  refine ⟨h.name, h.policy, h.gone, h.forgotten, fun c member => ?_, fun live none => ?_⟩
  · exact ⟨(h.updates c member).1, called_put at_p call (h.updates c member).2⟩
  · refine h.whole live fun q => ?_
    have calm := none q
    by_cases same : q = p
    · subst same
      rw [put_parties_self] at calm
      rw [at_p]
      exact fun was => calm (applying was)
    · rwa [put_parties_of_ne same] at calm

/-- While a batch is being taken in, nothing is said about the engine. -/
theorem midway (h : Upright kb₀ w) (at_p : w.parties p = old) (r : Reasoner) (party : Party)
    (call : party.call = old.call) (applying : party.Applying) :
    Upright kb₀ ({ w with kb := { w.kb with reasoner := r } }.put p party) := by
  refine ⟨h.name, h.policy, h.gone, h.forgotten, fun c member => ?_,
    fun _ none => absurd applying ?_⟩
  · obtain ⟨updates, called⟩ := h.updates c member
    exact ⟨updates, called_put at_p call called⟩
  · have calm := none p
    rwa [put_parties_self] at calm

/-- Where a batch is committed, the engine is whole again. -/
theorem commit (h : Upright kb₀ w) (at_p : w.parties p = old) {r : Reasoner}
    (whole : Whole r w.kb.explainer (kb₀.after (w.committed ++ [old.call]))) (party : Party)
    (call : party.call = old.call) (updates : old.call.Updates) :
    Upright kb₀ ({ w with
      kb := { w.kb with reasoner := r }
      committed := w.committed ++ [old.call] }.put p party) := by
  refine ⟨h.name, h.policy, h.gone, h.forgotten, fun c member => ?_, fun _ _ => whole⟩
  rcases List.mem_append.1 member with before | last
  · exact ⟨(h.updates c before).1, called_put at_p call (h.updates c before).2⟩
  · cases List.mem_singleton.1 last
    exact ⟨updates, called_put at_p call ⟨p, congrArg Party.call at_p⟩⟩

end Upright

namespace Lands

/-- A party lands at a place that is fine. -/
theorem put (h : Upright kb₀ w) (at_p : w.parties p = old) (call : party.call = old.call)
    (applying : old.Applying → party.Applying) (fine : Fine kb₀ R₁ w party) :
    Lands kb₀ R₁ p (w.put p party) := by
  refine ⟨h.put at_p call applying, ?_⟩
  rw [put_parties_self]
  exact fine

/-- Who waits for the lock relies on the same before and after. -/
theorem lockToRead (h : Upright kb₀ w) (at_p : w.parties p = old) (call : party.call = old.call)
    (applying : old.Applying → party.Applying) (fine : Fine kb₀ R₁ w party)
    (still : Fine kb₀ R₁ w old) : Lands kb₀ R₁ p (w.lockToRead p party) := by
  unfold Sharing.lockToRead
  split
  · exact .put (h.lock (p :: w.readers) w.writer) at_p call applying fine
  · exact .stay h at_p still

/-- A party lands with the lock to change the engine at a place that is fine. -/
theorem lockToChange (h : Upright kb₀ w) (at_p : w.parties p = old) (call : party.call = old.call)
    (applying : old.Applying → party.Applying) (fine : Fine kb₀ R₁ w party)
    (still : Fine kb₀ R₁ w old) : Lands kb₀ R₁ p (w.lockToChange p party) := by
  unfold Sharing.lockToChange
  split
  · exact .put (h.lock w.readers (some p)) at_p call applying fine
  · exact .stay h at_p still

end Lands

section

variable (h : Invariant kb₀ R w) (opened : kb₀.Opened) (mono : ∀ result, R p result → R₁ result)
  (here : ∀ result, HoldsAt kb₀ w p result → R₁ result)
include h opened mono here

/-- **A reader lands** wherever it moves. -/
theorem reader_lands {question : Question} {place : Reader}
    (at_p : w.parties p = .reader question place) :
    Lands kb₀ R₁ p (w.moveReader p question place) := by
  have fine := h.fine p
  rw [at_p] at fine
  cases place with
  | called =>
    simp only [moveReader]
    split
    · exact .put h.upright at_p rfl id (.inl ⟨‹_›, congrArg Except.error h.upright.refusal⟩)
    · exact .put h.upright at_p rfl id trivial
  | waiting => exact .lockToRead h.upright at_p rfl id trivial trivial
  | entered =>
    simp only [moveReader]
    split
    · exact .put h.upright at_p rfl id (.inl ⟨‹_›, congrArg Except.error h.upright.refusal⟩)
    · next down =>
      exact .put h.upright at_p rfl id ⟨h.upright.live down, by cases question <;> trivial⟩
  | working progress =>
    obtain ⟨live, fits⟩ := fine
    obtain ⟨updated, name, policy⟩ := h.upright.opened opened
    -- no batch is being taken in while somebody reads, so the engine is whole
    have whole := h.whole (p := p) live (.inl (by rw [at_p]; trivial)) (by rw [at_p]; exact id)
    obtain ⟨whole', next⟩ := whole.advance updated.kept updated.live
      (h.upright.policy.trans policy.symm) fits
    obtain ⟨name', closed', policy', disposed'⟩ := advance_keeps question w.kb progress
    rcases step : question.advance w.kb progress with ⟨kb, more | result⟩
    · rw [step] at whole' next name' closed' policy' disposed'
      simp only [moveReader, step]
      refine .put (h.upright.change name' policy' closed'.trans (.inl <| disposed'.symm.trans ·)
        fun _ => whole') at_p rfl id ?_
      exact ⟨live, next⟩
    · rw [step] at whole' next name' closed' policy' disposed'
      simp only [moveReader, step]
      refine .put (h.upright.change name' policy' closed'.trans (.inl <| disposed'.symm.trans ·)
        fun _ => whole') at_p rfl id ?_
      rcases next with ⟨gone, refused⟩ | right
      · refine .inl ⟨closed'.trans (h.upright.forgotten gone), refused.trans ?_⟩
        rw [updated.named, name]
        rfl
      · exact .inr (here result (.worked at_p live right))
  | leaving result =>
    exact .put (h.upright.lock _ w.writer) at_p rfl id (Allowed.mono fine mono id)
  | done result => exact .stay h.upright at_p (Allowed.mono fine mono id)

/-- **An updater lands** wherever it moves. -/
theorem updater_lands {additions removals : AxiomSet} {place : Updater}
    (at_p : w.parties p = .updater additions removals place) :
    Lands kb₀ R₁ p (w.moveUpdater p additions removals place) := by
  have fine := h.fine p
  rw [at_p] at fine
  obtain ⟨updated, -⟩ := h.upright.opened opened
  cases place with
  | called =>
    simp only [moveUpdater]
    split
    · exact .put h.upright at_p rfl id (.inl ⟨‹_›, congrArg Except.error h.upright.refusal⟩)
    · next down =>
      -- the axioms are checked without the lock, maybe when the engine is gone: what is wrong with
      -- them has to be wrong already now
      refine .put h.upright at_p rfl id fun e defective => here _ ?_
      refine ⟨by rw [at_p]; rfl, h.upright.live down, ?_, fun s summed => absurd summed (by simp)⟩
      rw [at_p, Party.call, serve_update_defect updated.live defective]
  | admitted =>
    simp only [moveUpdater]
    split
    · next e defective => exact .put h.upright at_p rfl id (.inr (mono _ (fine e defective)))
    · next passed => exact .put h.upright at_p rfl id (ValidBatch.of_validateAll passed)
  | waiting => exact .lockToChange h.upright at_p rfl id fine fine
  | entered =>
    simp only [moveUpdater]
    split
    · exact .put h.upright at_p rfl id ⟨‹_›, h.upright.refusal⟩
    · next down =>
      have live := h.upright.live down
      have whole := h.whole (p := p) live (.inr (by rw [at_p]; trivial)) (by rw [at_p]; exact id)
      refine .put (h.upright.change rfl rfl id .inl id) at_p rfl (fun _ => trivial) ?_
      exact ⟨fine, live, _, whole, .start ..⟩
  | applying as bs c =>
    obtain ⟨valid, live, r₀, whole, midway⟩ := fine
    cases as with
    | cons a as =>
      refine ⟨h.upright.midway at_p _ (.updater additions removals (.applying as bs _)) rfl
        trivial, ?_⟩
      rw [moveUpdater, put_parties_self]
      exact ⟨valid, live, r₀, whole, midway.add⟩
    | nil =>
      cases bs with
      | cons b bs =>
        refine ⟨h.upright.midway at_p _ (.updater additions removals (.applying [] bs _)) rfl
          trivial, ?_⟩
        rw [moveUpdater, put_parties_self]
        exact ⟨valid, live, r₀, whole, midway.remove⟩
      | nil =>
        -- the last step of a batch is the moment at which all of it happens
        obtain ⟨whole', answer⟩ := whole.apply updated.live valid
        rw [← midway.conclude, ← after_snoc] at whole'
        rw [← midway.conclude] at answer
        refine ⟨h.upright.commit at_p whole' (.updater additions removals (.applied c)) rfl
          trivial, ?_⟩
        rw [moveUpdater, put_parties_self]
        refine here _ ⟨by rw [at_p]; rfl, live, ?_, fun _ _ => ?_⟩
        · rw [at_p]
          exact answer.symm
        · rw [move, at_p]
          rfl
  | applied c =>
    refine .put (h.upright.change rfl ?_ id (fun none => .inl ?_) fun whole => ?_) at_p rfl id
      (mono _ fine)
    · dsimp only
      split <;> rfl
    · dsimp only at none
      split at none <;> exact none
    · dsimp only
      split
      · exact whole.forget rfl
      · exact whole
  | leaving result =>
    cases result with
    | ok s => exact .put (h.upright.lock w.readers none) at_p rfl id (mono _ fine)
    | error e =>
      exact .put (h.upright.lock w.readers none) at_p rfl id
        (.inl ⟨fine.1, congrArg Except.error fine.2⟩)
  | telling s =>
    obtain ⟨f, told⟩ := announce_eq w.kb s
    simp only [moveUpdater, told]
    exact .put (h.upright.change rfl rfl id .inl id) at_p rfl id (.inr (mono _ fine))
  | done result => exact .stay h.upright at_p (Allowed.mono fine mono id)

omit opened mono here

/-- **A closer lands** wherever it moves. -/
theorem closer_lands {place : Closer} (at_p : w.parties p = .closer place) :
    Lands kb₀ R₁ p (w.moveCloser p place) := by
  have fine := h.fine p
  rw [at_p] at fine
  cases place with
  | called =>
    simp only [moveCloser]
    split
    · exact .put h.upright at_p rfl id trivial
    · exact .put (h.upright.change rfl rfl (fun _ => rfl) .inl id) at_p rfl id rfl
  | raised =>
    exact .put (h.upright.change rfl rfl id (fun _ => .inr fine) fun whole => whole.forget rfl)
      at_p rfl id fine
  | waiting => exact .lockToChange h.upright at_p rfl id fine fine
  | entered => exact .put (h.upright.dispose fine) at_p rfl id fine
  | leaving => exact .put (h.upright.lock w.readers none) at_p rfl id trivial
  | done => exact .stay h.upright at_p trivial

end

/-- **Every move** keeps it. The one who moves comes to a place that is fine, and the others stay
where they are, with what they rely on: of those who hold the lock, nobody else can be in the way.
-/
theorem Invariant.move (h : Invariant kb₀ R w) (opened : kb₀.Opened) (q : ι)
    (mono : ∀ p result, R p result → R' p result)
    (here : ∀ result, HoldsAt kb₀ w q result → R' q result) : Invariant kb₀ R' (w.move q) := by
  have lands : Lands kb₀ (R' q) q (w.move q) := by
    unfold Sharing.move
    split
    · next at_q => exact reader_lands h opened (mono q) here at_q
    · next at_q => exact updater_lands h opened (mono q) here at_q
    · next at_q => exact closer_lands h at_q
  obtain ⟨others, -, -, closed, -, commits, calm, still⟩ := moved_move w q
  refine ⟨h.locked.move q, lands.upright, fun p => ?_⟩
  by_cases same : p = q
  · exact same ▸ lands.fine
  · rw [others p same]
    have changes_not : (w.parties p).HoldsToRead ∨ (w.parties p).HoldsToChange →
        ¬ (w.parties q).HoldsToChange := by
      rintro (reads | changes') changes
      · exact h.locked.not_reads changes p reads
      · exact same (h.locked.eq_of_changes changes changes')
    refine (h.fine p).frame (mono p) closed (fun holds => ⟨?_, ?_⟩) fun changes => ?_
    · exact commits fun applying => changes_not holds applying.holds
    · exact calm (changes_not holds)
    · exact still (changes_not (.inr changes)) (h.locked.not_reads changes q)

/-! ## Runs -/

/-- A result held at one of the steps that a party took in a run. -/
def HeldIn (kb₀ : KnowledgeBase) (w : Sharing ι) (moves : List ι) (p : ι) (result : Result) : Prop :=
  ∃ before rest, moves = before ++ p :: rest ∧ HoldsAt kb₀ (w.run before) p result

/-- **Every run** keeps the invariant, with the results that held at a step of the party. -/
theorem Invariant.run (opened : kb₀.Opened) (calls : ι → Call) (moves : List ι) :
    Invariant kb₀ (HeldIn kb₀ (new kb₀ calls) moves) ((new kb₀ calls).run moves) := by
  induction moves using List.reverseRecOn with
  | nil => exact .start opened calls _
  | append_singleton moves q ih =>
    rw [run_append]
    refine ih.move opened q (fun p result held => ?_) fun result holds => ⟨moves, [], rfl, holds⟩
    obtain ⟨before, rest, rfl, holds⟩ := held
    exact ⟨before, rest ++ [q], List.append_assoc .., holds⟩

/-- Once the engine is gone, nobody commits. -/
theorem run_final (opened : kb₀.Opened) (calls : ι → Call) (moves more : List ι)
    (gone : ((new kb₀ calls).run moves).disposed = true) :
    ((new kb₀ calls).run (moves ++ more)).disposed = true ∧
      ((new kb₀ calls).run (moves ++ more)).committed =
        ((new kb₀ calls).run moves).committed := by
  induction more using List.reverseRecOn with
  | nil => rw [List.append_nil]; exact ⟨gone, rfl⟩
  | append_singleton more q ih =>
    have fine := (Invariant.run opened calls (moves ++ more)).fine q
    have moved := moved_move ((new kb₀ calls).run (moves ++ more)) q
    rw [← List.append_assoc, run_append]
    refine ⟨moved.gone ih.1, (moved.commits fun applying => ?_).trans ih.2⟩
    exact absurd ih.1 (by simp [fine.applying applying])

/-- Who comes after the flag went up is refused by the first step. -/
theorem move_refused {c : Call} (closed : w.kb.closed = true) (at_p : w.parties p = .ofCall c)
    (other : c ≠ .close) : ((w.move p).parties p).result? = some (.error w.kb.refusal) := by
  obtain ⟨party, moved, result⟩ := move_closed closed at_p
  rw [moved, put_parties_self, result, serve_of_closed closed]
  cases c with
  | close => exact absurd rfl other
  | query _ _ | entailed _ | explain _ _ | update _ _ => rfl

/-! ## The law -/

/-- **What comes of sharing** a knowledge base that was `kb₀`, after the parties with these calls
took these steps. Who works finds the engine, with the axioms that the batches committed so far
lead to, and none being taken in; who takes one in finds the engine too. What a call comes to is a
refusal, and then the knowledge base is closed, or it held at a step of that call; a call to close
comes to its end. Once the engine is gone, no batch is committed any more. And who takes the first
step when the flag is up is refused. -/
structure Orderly (kb₀ : KnowledgeBase) (calls : ι → Call) (moves : List ι) (w : Sharing ι) :
    Prop where
  works : ∀ p, (w.parties p).Working → w.disposed = false ∧
    (∀ q, ¬ (w.parties q).Applying) ∧ w.kb.axioms = (kb₀.after w.committed).axioms
  takesIn : ∀ p, (w.parties p).Applying → w.disposed = false
  results : ∀ p result, calls p ≠ .close → (w.parties p).result? = some result →
    w.kb.closed = true ∧ result = .error (.closed kb₀.name) ∨
      HeldIn kb₀ (new kb₀ calls) moves p result
  closes : ∀ p result, calls p = .close → (w.parties p).result? = some result → result = .ok .done
  updates : ∀ c ∈ w.committed, c.Updates ∧ ∃ p, calls p = c
  final : w.disposed = true → ∀ more, (w.run more).committed = w.committed
  refuses : w.kb.closed = true → ∀ p, w.parties p = .ofCall (calls p) → calls p ≠ .close →
    ∀ more, ((w.run (p :: more)).parties p).result? = some (.error (.closed kb₀.name))

/-- A run of an open knowledge base is orderly. -/
theorem orderly_run (opened : kb₀.Opened) (calls : ι → Call) (moves : List ι) :
    Orderly kb₀ calls moves ((new kb₀ calls).run moves) := by
  have h := Invariant.run opened calls moves
  have called (p : ι) : (((new kb₀ calls).run moves).parties p).call = calls p :=
    (run_call moves _ p).trans (Party.call_ofCall (calls p))
  refine ⟨fun p works => ?_, fun p => (h.fine p).applying, fun p result other done => ?_,
    fun p result close done => ?_, fun c member => ?_, fun gone more => ?_,
    fun closed p at_p other more => ?_⟩
  · obtain ⟨live, holds, calm⟩ := (h.fine p).working works
    refine ⟨live, fun q applying => ?_, (h.whole live (.inl holds) calm).alike.axioms⟩
    exact h.locked.not_reads applying.holds p holds
  · exact ((h.fine p).result done).2 (by rwa [called])
  · exact ((h.fine p).result done).1 ((called p).trans close)
  · obtain ⟨updates, p, same⟩ := h.upright.updates c member
    exact ⟨updates, p, (called p).symm.trans same⟩
  · rw [← run_append]
    exact (run_final opened calls moves more gone).2
  · refine run_result more _ ?_
    rw [move_refused closed at_p other, h.upright.refusal]
    rfl

/-- **Nobody sees an engine that was let go of, or one that a batch is being taken into.** Valid
axioms open a knowledge base, and whoever shares it, in whatever order their steps come, it is
orderly after every one of them. Those who take turns are served as their calls are, one after
another. -/
theorem shared_run (name : String) {axioms : AxiomSet} (policy : LimitPolicy)
    (valid : ∀ a ∈ axioms, a.Valid) :
    ∃ kb₀, KnowledgeBase.new name axioms policy = .ok kb₀ ∧ kb₀.name = name ∧
      kb₀.axioms = axioms ∧ ∀ (ι : Type) [DecidableEq ι] (calls : ι → Call),
        (∀ moves, Orderly kb₀ calls moves ((new kb₀ calls).run moves)) ∧
        ∀ turns : List ι, turns.Nodup → ∃ moves,
          ((new kb₀ calls).run moves).kb = kb₀.after (turns.map calls) ∧
            ∀ (before : List ι) p rest, turns = before ++ p :: rest →
              (((new kb₀ calls).run moves).parties p).result? =
                some ((kb₀.after (before.map calls)).serve (calls p)).1 := by
  obtain ⟨kb₀, made, -, -, name₀, axioms₀⟩ := Kept.new name policy valid
  refine ⟨kb₀, made, name₀, axioms₀, fun ι _ calls => ⟨orderly_run (.new made) calls, ?_⟩⟩
  exact fun turns distinct => run_turns calls turns ⟨rfl, rfl⟩ distinct fun _ _ => rfl

/-- What a party was told, if that was yes or no. -/
def told? (party : Party) : Option Bool :=
  match party.result? with
  | some (.ok (.truth b)) => some b
  | _ => none

/-- The name of the knowledge base that refused a party. -/
def refuser? (party : Party) : Option String :=
  match party.result? with
  | some (.error (.closed name)) => some name
  | _ => none

/-- What a party was told is its result. -/
theorem told?_eq_some {b : Bool} (h : told? party = some b) :
    party.result? = some (.ok (.truth b)) := by
  unfold told? at h
  split at h
  · next answered => rw [answered, Option.some.inj h]
  · cases h

/-- Whoever refused a party is named in its result. -/
theorem refuser?_eq_some {name : String} (h : refuser? party = some name) :
    party.result? = some (.error (.closed name)) := by
  unfold refuser? at h
  split at h
  · next refused => rw [refused, Option.some.inj h]
  · cases h

/-- Is Felix an animal? The first party asks and waits while an update makes mammals animals, and is
told so. Another one asks and sees the flag down, but before it has the lock, the flag goes up: the
second look finds it, and the party is refused. So is an update that comes later, and when the
engine is gone, nothing else is ever committed. -/
theorem pets_shared :
    let felix := Axiom.classAssertion ⟨"Animal"⟩ ⟨"felix"⟩
    let mammals := SortedSet.ofList [Axiom.subClassOf ⟨"Mammal"⟩ ⟨"Animal"⟩]
    let calls : Fin 5 → Call := fun p =>
      [.entailed felix, .update mammals ∅, .entailed felix, .close, .update ∅ mammals][p]
    let moves : List (Fin 5) :=
      [0] ++ List.replicate 9 1 ++ [0, 0, 0, 0] ++ [2, 3, 2, 2, 2] ++ List.replicate 4 3
    (∀ a ∈ SortedSet.ofList Reasoner.pets, a.Valid) ∧
      ∃ kb₀, KnowledgeBase.new "pets" (.ofList Reasoner.pets) .forward = .ok kb₀ ∧
        let w := (new kb₀ calls).run moves
        (w.parties 0).result? = some (.ok (.truth true)) ∧
          HeldIn kb₀ (new kb₀ calls) moves 0 (.ok (.truth true)) ∧
          (w.parties 2).result? = some (.error (.closed "pets")) ∧
          w.committed.length = 1 ∧ ∀ more, (w.run more).committed = w.committed ∧
            ((w.run (4 :: more)).parties 4).result? = some (.error (.closed "pets")) := by
  intro felix mammals calls moves
  have valid : ∀ a ∈ SortedSet.ofList Reasoner.pets, a.Valid := by decide +kernel
  obtain ⟨kb₀, made, name, -, shared⟩ := shared_run "pets" .forward valid
  have orderly := (shared (Fin 5) calls).1 moves
  have seen : (KnowledgeBase.new "pets" (.ofList Reasoner.pets) .forward).toOption.any (fun kb₀ =>
      let w := (new kb₀ calls).run moves
      told? (w.parties 0) = some true ∧ refuser? (w.parties 2) = some "pets" ∧
        w.disposed = true ∧ w.kb.closed = true ∧ w.committed.length = 1) = true := by
    decide +kernel
  rw [made] at seen
  obtain ⟨told, refused, gone, closed, once⟩ := of_decide_eq_true seen
  have answer := told?_eq_some told
  refine ⟨valid, kb₀, made, answer, ?_, refuser?_eq_some refused, once,
    fun more => ⟨orderly.final gone more, ?_⟩⟩
  · exact (orderly.results 0 _ (by rintro ⟨⟩) answer).resolve_left (by simp)
  · rw [← name]
    exact orderly.refuses closed 4 (run_others moves _ (by decide)) (by rintro ⟨⟩) more

end Sharing

end KnowledgeBase

end OntologyService
