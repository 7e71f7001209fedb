import OntologyService.Proofs.KnowledgeBase.Steps

/-!
# Places and the lock

A party that shares a knowledge base is always at some place of its call, and the place says whether
it holds the lock. What a party can do by one move is said once (`moved_move`): it goes on with the
same call, it passes the lock on in one of a few ways, and it leaves alone what it may not change.
Only one that takes in a batch commits it, only one that holds the lock to change disposes of the
engine, and one that does not hold it at all leaves the engine as it is.

So the lock is held by the parties that are where it has to be held, and by no other, in every run
(`Locked.move`).
-/

namespace OntologyService

namespace KnowledgeBase

/-! ## Places -/

namespace Party

/-- The party holds the lock to read. -/
def HoldsToRead : Party → Prop
  | .reader _ .entered | .reader _ (.working _) | .reader _ (.leaving _) => True
  | _ => False

/-- The party holds the lock to change the engine. -/
def HoldsToChange : Party → Prop
  | .updater _ _ .entered | .updater _ _ (.applying _ _ _) | .updater _ _ (.applied _)
  | .updater _ _ (.leaving _) | .closer .entered | .closer .leaving => True
  | _ => False

/-- The party takes in a batch. -/
def Applying : Party → Prop
  | .updater _ _ (.applying _ _ _) => True
  | _ => False

/-- The party works out an answer. -/
def Working : Party → Prop
  | .reader _ (.working _) => True
  | _ => False

@[simp] theorem call_ofCall (c : Call) : (ofCall c).call = c := by cases c <;> rfl

/-- Whoever takes in a batch holds the lock to change the engine. -/
theorem Applying.holds {party : Party} (h : party.Applying) : party.HoldsToChange := by
  unfold Applying at h
  split at h
  · trivial
  · exact h.elim

end Party

namespace Sharing

variable {ι : Type} {w w' : Sharing ι} {p q : ι} {party old : Party}

/-- **The lock** is held by the parties that are where it has to be held, by one that changes the
engine or by any number that read it. -/
structure Locked (w : Sharing ι) : Prop where
  readers : ∀ p, p ∈ w.readers ↔ (w.parties p).HoldsToRead
  writer : ∀ p, w.writer = some p ↔ (w.parties p).HoldsToChange
  exclusive : ∀ p, w.writer = some p → w.readers = []

/-- While somebody changes the engine, nobody reads it. -/
theorem Locked.not_reads (h : w.Locked) (change : (w.parties p).HoldsToChange) (q : ι) :
    ¬ (w.parties q).HoldsToRead := by
  rw [← h.readers, h.exclusive p ((h.writer p).2 change)]
  exact List.not_mem_nil

/-- One at most changes the engine. -/
theorem Locked.eq_of_changes (h : w.Locked) (change : (w.parties p).HoldsToChange)
    (change' : (w.parties q).HoldsToChange) : q = p :=
  Option.some.inj (((h.writer q).2 change').symm.trans ((h.writer p).2 change))

variable [DecidableEq ι]

@[simp] theorem put_parties_self (w : Sharing ι) (p : ι) (party : Party) :
    (w.put p party).parties p = party := if_pos rfl

theorem put_parties_of_ne (ne : q ≠ p) (w : Sharing ι) (party : Party) :
    (w.put p party).parties q = w.parties q := if_neg ne

@[simp] theorem put_kb (w : Sharing ι) (p : ι) (party : Party) : (w.put p party).kb = w.kb := rfl

@[simp] theorem put_readers (w : Sharing ι) (p : ι) (party : Party) :
    (w.put p party).readers = w.readers := rfl

@[simp] theorem put_writer (w : Sharing ι) (p : ι) (party : Party) :
    (w.put p party).writer = w.writer := rfl

@[simp] theorem put_committed (w : Sharing ι) (p : ι) (party : Party) :
    (w.put p party).committed = w.committed := rfl

@[simp] theorem put_disposed (w : Sharing ι) (p : ι) (party : Party) :
    (w.put p party).disposed = w.disposed := rfl

/-! ## Moves -/

/-- **What becomes of the lock** when a party comes from the place `old` to the place `party`. -/
inductive Passed (w : Sharing ι) (p : ι) (old party : Party) : List ι → Option ι → Prop
  | kept (read : party.HoldsToRead ↔ old.HoldsToRead)
      (change : party.HoldsToChange ↔ old.HoldsToChange) : Passed w p old party w.readers w.writer
  | takenToRead (free : w.writer = none) (read : party.HoldsToRead)
      (change : ¬ party.HoldsToChange) : Passed w p old party (p :: w.readers) w.writer
  | takenToChange (free : w.writer = none) (unread : w.readers = []) (read : ¬ party.HoldsToRead)
      (change : party.HoldsToChange) : Passed w p old party w.readers (some p)
  | given (held : ¬ old.HoldsToChange) (read : ¬ party.HoldsToRead)
      (change : ¬ party.HoldsToChange) : Passed w p old party (w.readers.filter (· ≠ p)) w.writer
  | givenToChange (held : old.HoldsToChange) (read : ¬ party.HoldsToRead)
      (change : ¬ party.HoldsToChange) : Passed w p old party w.readers none

/-- **What a party does by a move** that starts at the place `old`. It goes on with its call, and
the others stay where they are. What is closed stays closed, and what is gone stays gone. Only who
takes in a batch commits it, and only who holds the lock to change disposes of the engine. Who does
not hold the lock at all leaves the engine alone and at most lets go of the explanations. -/
structure Moved (w : Sharing ι) (p : ι) (old : Party) (w' : Sharing ι) : Prop where
  others : ∀ q, q ≠ p → w'.parties q = w.parties q
  call : (w'.parties p).call = old.call
  lock : Passed w p old (w'.parties p) w'.readers w'.writer
  closed : w.kb.closed = true → w'.kb.closed = true
  gone : w.disposed = true → w'.disposed = true
  commits : ¬ old.Applying → w'.committed = w.committed
  calm : ¬ old.HoldsToChange → w'.disposed = w.disposed
  still : ¬ old.HoldsToChange → ¬ old.HoldsToRead → w'.kb.reasoner = w.kb.reasoner ∧
    (w'.kb.explainer = w.kb.explainer ∨ w'.kb.explainer.memo = ∅)

namespace Moved

/-- A party that stays moves nothing. -/
theorem stay (at_p : w.parties p = old) : Moved w p old w := by
  subst at_p
  exact ⟨fun _ _ => rfl, rfl, .kept Iff.rfl Iff.rfl, id, id, fun _ => rfl, fun _ => rfl,
    fun _ _ => ⟨rfl, .inl rfl⟩⟩

/-- Putting a party in its next place says no more than that. -/
theorem of_put (call : party.call = old.call) (lock : Passed w p old party w'.readers w'.writer)
    (parties : w'.parties = w.parties) (closed : w.kb.closed = true → w'.kb.closed = true)
    (gone : w.disposed = true → w'.disposed = true)
    (commits : ¬ old.Applying → w'.committed = w.committed)
    (calm : ¬ old.HoldsToChange → w'.disposed = w.disposed)
    (still : ¬ old.HoldsToChange → ¬ old.HoldsToRead → w'.kb.reasoner = w.kb.reasoner ∧
      (w'.kb.explainer = w.kb.explainer ∨ w'.kb.explainer.memo = ∅)) :
    Moved w p old (w'.put p party) := by
  refine ⟨fun q ne => ?_, ?_, ?_, closed, gone, commits, calm, still⟩
  · rw [put_parties_of_ne ne, parties]
  · rw [put_parties_self, call]
  · rw [put_parties_self]
    exact lock

/-- A move that does not concern the lock. -/
theorem change {kb : KnowledgeBase} (call : party.call = old.call)
    (read : party.HoldsToRead ↔ old.HoldsToRead)
    (change : party.HoldsToChange ↔ old.HoldsToChange)
    (closed : w.kb.closed = true → kb.closed = true)
    (still : ¬ old.HoldsToChange → ¬ old.HoldsToRead → kb.reasoner = w.kb.reasoner ∧
      (kb.explainer = w.kb.explainer ∨ kb.explainer.memo = ∅)) :
    Moved w p old ({ w with kb }.put p party) :=
  .of_put call (.kept read change) rfl closed id (fun _ => rfl) (fun _ => rfl) still

/-- A party that keeps what it holds may be put anywhere. -/
theorem put (call : party.call = old.call) (read : party.HoldsToRead ↔ old.HoldsToRead)
    (change : party.HoldsToChange ↔ old.HoldsToChange) : Moved w p old (w.put p party) :=
  .change call read change id fun _ _ => ⟨rfl, .inl rfl⟩

/-- A move that does not concern anything else. -/
theorem pass {readers : List ι} {writer : Option ι} (call : party.call = old.call)
    (lock : Passed w p old party readers writer) :
    Moved w p old ({ w with readers, writer }.put p party) :=
  .of_put call lock rfl id id (fun _ => rfl) (fun _ => rfl) fun _ _ => ⟨rfl, .inl rfl⟩

/-- A party may take the lock to read. -/
theorem lockToRead (at_p : w.parties p = old) (call : party.call = old.call)
    (read : party.HoldsToRead) (change : ¬ party.HoldsToChange) :
    Moved w p old (w.lockToRead p party) := by
  unfold Sharing.lockToRead
  split
  · next free => exact .pass call (.takenToRead (Option.isNone_iff_eq_none.1 free) read change)
  · exact .stay at_p

/-- A party may take the lock to change the engine. -/
theorem lockToChange (at_p : w.parties p = old) (call : party.call = old.call)
    (read : ¬ party.HoldsToRead) (change : party.HoldsToChange) :
    Moved w p old (w.lockToChange p party) := by
  unfold Sharing.lockToChange
  split
  · next free =>
    obtain ⟨unchanged, unread⟩ := Bool.and_eq_true_iff.1 free
    exact .pass call (.takenToChange (Option.isNone_iff_eq_none.1 unchanged)
      (List.isEmpty_iff.1 unread) read change)
  · exact .stay at_p

end Moved

/-- A reader moves by itself. -/
theorem moved_reader {question : Question} {place : Reader}
    (at_p : w.parties p = .reader question place) :
    Moved w p (.reader question place) (w.moveReader p question place) := by
  cases place with
  | called => simp only [moveReader]; split <;> exact .put rfl Iff.rfl Iff.rfl
  | waiting => exact .lockToRead at_p rfl trivial id
  | entered => simp only [moveReader]; split <;> exact .put rfl Iff.rfl Iff.rfl
  | working progress =>
    obtain ⟨-, closed, -, -⟩ := advance_keeps question w.kb progress
    rcases step : question.advance w.kb progress with ⟨kb, more | result⟩
    · rw [step] at closed
      simp only [moveReader, step]
      exact .change rfl Iff.rfl Iff.rfl closed.trans fun _ free => absurd trivial free
    · rw [step] at closed
      simp only [moveReader, step]
      exact .change rfl Iff.rfl Iff.rfl closed.trans fun _ free => absurd trivial free
  | leaving result => exact .pass rfl (.given id id id)
  | done result => exact .stay at_p

/-- An updater moves by itself. -/
theorem moved_updater {additions removals : AxiomSet} {place : Updater}
    (at_p : w.parties p = .updater additions removals place) :
    Moved w p (.updater additions removals place) (w.moveUpdater p additions removals place) := by
  cases place with
  | called => simp only [moveUpdater]; split <;> exact .put rfl Iff.rfl Iff.rfl
  | admitted => simp only [moveUpdater]; split <;> exact .put rfl Iff.rfl Iff.rfl
  | waiting => exact .lockToChange at_p rfl id trivial
  | entered =>
    simp only [moveUpdater]
    split
    · exact .put rfl Iff.rfl Iff.rfl
    · exact .change rfl Iff.rfl Iff.rfl id fun _ _ => ⟨rfl, .inl rfl⟩
  | applying as bs c =>
    cases as with
    | cons a as =>
      rw [moveUpdater]
      exact .change rfl Iff.rfl Iff.rfl id fun free => absurd trivial free
    | nil =>
      cases bs with
      | cons b bs =>
        rw [moveUpdater]
        exact .change rfl Iff.rfl Iff.rfl id fun free => absurd trivial free
      | nil =>
        exact .of_put rfl (.kept Iff.rfl Iff.rfl) rfl id id (fun free => absurd trivial free)
          (fun _ => rfl) fun free => absurd trivial free
  | applied c => exact .change rfl Iff.rfl Iff.rfl id fun free => absurd trivial free
  | leaving result =>
    cases result with
    | ok s => exact .pass rfl (.givenToChange trivial id id)
    | error e => exact .pass rfl (.givenToChange trivial id id)
  | telling s =>
    obtain ⟨f, told⟩ := announce_eq w.kb s
    simp only [moveUpdater, told]
    exact .change rfl Iff.rfl Iff.rfl id fun _ _ => ⟨rfl, .inl rfl⟩
  | done result => exact .stay at_p

/-- A closer moves by itself. -/
theorem moved_closer {place : Closer} (at_p : w.parties p = .closer place) :
    Moved w p (.closer place) (w.moveCloser p place) := by
  cases place with
  | called =>
    simp only [moveCloser]
    split
    · exact .put rfl Iff.rfl Iff.rfl
    · exact .change rfl Iff.rfl Iff.rfl (fun _ => rfl) fun _ _ => ⟨rfl, .inl rfl⟩
  | raised => exact .change rfl Iff.rfl Iff.rfl id fun _ _ => ⟨rfl, .inr rfl⟩
  | waiting => exact .lockToChange at_p rfl id trivial
  | entered =>
    exact .of_put rfl (.kept Iff.rfl Iff.rfl) rfl id (fun _ => rfl) (fun _ => rfl)
      (fun free => absurd trivial free) fun free => absurd trivial free
  | leaving => exact .pass rfl (.givenToChange trivial id id)
  | done => exact .stay at_p

/-- **What any party does** by any move. -/
theorem moved_move (w : Sharing ι) (p : ι) : Moved w p (w.parties p) (w.move p) := by
  unfold move
  split
  · next at_p => rw [at_p]; exact moved_reader at_p
  · next at_p => rw [at_p]; exact moved_updater at_p
  · next at_p => rw [at_p]; exact moved_closer at_p

/-- Who is done stays where it is. -/
theorem move_of_result {result : Result} (done : (w.parties p).result? = some result) :
    w.move p = w := by
  unfold move
  split
  · next place at_p => rw [at_p] at done; cases place <;> first | rfl | cases done
  · next place at_p => rw [at_p] at done; cases place <;> first | rfl | cases done
  · next place at_p => rw [at_p] at done; cases place <;> first | rfl | cases done

/-- **Where the flag is up**, everybody is served by the first step. -/
theorem move_closed {c : Call} (closed : w.kb.closed = true) (at_p : w.parties p = .ofCall c) :
    ∃ party, w.move p = w.put p party ∧ party.result? = some (w.kb.serve c).1 := by
  rw [serve_of_closed closed, move, at_p]
  cases c with
  | query kind e => exact ⟨.reader (.query kind e) (.done _), if_pos closed, rfl⟩
  | entailed a => exact ⟨.reader (.entailed a) (.done _), if_pos closed, rfl⟩
  | explain a limit => exact ⟨.reader (.explain a limit) (.done _), if_pos closed, rfl⟩
  | update additions removals => exact ⟨.updater additions removals (.done _), if_pos closed, rfl⟩
  | close => exact ⟨.closer .done, if_pos closed, rfl⟩

/-! ## Runs -/

theorem run_append (w : Sharing ι) (moves more : List ι) :
    w.run (moves ++ more) = (w.run moves).run more := List.foldl_append ..

/-- A party keeps its call. -/
theorem run_call (moves : List ι) : ∀ (w : Sharing ι) (p : ι),
    ((w.run moves).parties p).call = (w.parties p).call := by
  induction moves with
  | nil => exact fun _ _ => rfl
  | cons q moves ih =>
    intro w p
    refine (ih (w.move q) p).trans ?_
    by_cases same : p = q
    · rw [same, (moved_move w q).call]
    · rw [(moved_move w q).others p same]

/-- Who does not move stays where it is. -/
theorem run_others (moves : List ι) : ∀ w : Sharing ι, p ∉ moves →
    (w.run moves).parties p = w.parties p := by
  induction moves with
  | nil => exact fun _ _ => rfl
  | cons q moves ih =>
    intro w rests
    refine (ih (w.move q) fun member => rests (List.mem_cons_of_mem q member)).trans ?_
    exact (moved_move w q).others p fun same => rests (same ▸ List.mem_cons_self)

/-- Who is done stays done, with the same result. -/
theorem run_result {result : Result} (moves : List ι) : ∀ w : Sharing ι,
    (w.parties p).result? = some result → ((w.run moves).parties p).result? = some result := by
  induction moves with
  | nil => exact fun _ => id
  | cons q moves ih =>
    intro w done
    refine ih (w.move q) ?_
    by_cases same : p = q
    · rw [← same, move_of_result done, done]
    · rw [(moved_move w q).others p same, done]

/-! ## The lock -/

namespace Locked

/-- It is enough to look at who moved. -/
theorem renew (h : w.Locked) (others : ∀ q, q ≠ p → w'.parties q = w.parties q)
    (reads : p ∈ w'.readers ↔ (w'.parties p).HoldsToRead)
    (changes : w'.writer = some p ↔ (w'.parties p).HoldsToChange)
    (rest : ∀ q, q ≠ p → (q ∈ w'.readers ↔ q ∈ w.readers) ∧
      (w'.writer = some q ↔ w.writer = some q))
    (exclusive : ∀ q, w'.writer = some q → w'.readers = []) : w'.Locked := by
  refine ⟨fun q => ?_, fun q => ?_, exclusive⟩
  · by_cases same : q = p
    · exact same ▸ reads
    · rw [others q same, (rest q same).1, h.readers]
  · by_cases same : q = p
    · exact same ▸ changes
    · rw [others q same, (rest q same).2, h.writer]

/-- **Whatever a party does by itself** keeps the lock. -/
theorem moved (h : w.Locked) (moved : Moved w p (w.parties p) w') : w'.Locked := by
  obtain ⟨others, -, lock, -⟩ := moved
  generalize readers' : w'.readers = readers at lock
  generalize writer' : w'.writer = writer at lock
  cases lock with
  | kept read change =>
    refine h.renew others ?_ ?_ (fun q _ => by rw [readers', writer']; exact ⟨Iff.rfl, Iff.rfl⟩) ?_
    · rw [readers', read, h.readers]
    · rw [writer', change, h.writer]
    · rw [readers', writer']
      exact h.exclusive
  | takenToRead free read change =>
    refine h.renew others ?_ ?_ (fun q ne => ⟨?_, by rw [writer']⟩) fun q held => ?_
    · rw [readers']
      exact iff_of_true List.mem_cons_self read
    · rw [writer', free]
      exact iff_of_false (by simp) change
    · rw [readers', List.mem_cons, or_iff_right ne]
    · rw [writer', free] at held
      cases held
  | takenToChange free unread read change =>
    refine h.renew others ?_ ?_ (fun q ne => ⟨by rw [readers'], ?_⟩) fun _ _ => ?_
    · rw [readers', unread]
      exact iff_of_false List.not_mem_nil read
    · rw [writer']
      exact iff_of_true rfl change
    · rw [writer', free]
      simp [Ne.symm ne]
    · rw [readers', unread]
  | given held read change =>
    refine h.renew others ?_ ?_ (fun q ne => ⟨?_, by rw [writer']⟩) fun q held' => ?_
    · rw [readers']
      exact iff_of_false (by simp) read
    · rw [writer', h.writer]
      exact iff_of_false held change
    · rw [readers', List.mem_filter]
      simp [ne]
    · rw [writer'] at held'
      rw [readers', h.exclusive q held', List.filter_nil]
  | givenToChange held read change =>
    -- whoever holds the lock to change the knowledge base holds it alone
    have unread := h.exclusive p ((h.writer p).2 held)
    refine h.renew others ?_ ?_ (fun q ne => ⟨by rw [readers'], ?_⟩) fun _ _ => ?_
    · rw [readers', unread]
      exact iff_of_false List.not_mem_nil read
    · rw [writer']
      exact iff_of_false (by simp) change
    · rw [writer', (h.writer p).2 held]
      simp [Ne.symm ne]
    · rw [readers', unread]

/-- So does every move. -/
theorem move (h : w.Locked) (p : ι) : (w.move p).Locked := h.moved (moved_move w p)

end Locked

end Sharing

end KnowledgeBase

end OntologyService
