import Mathlib.Data.Finset.Card
import OntologyService.Proofs.State.Captured
import OntologyService.State.Overlap

/-!
# Refreshes and closes in any order of steps

Any number of parties refresh a holder and close it, and their steps come in any order. What a
party can do to the others by one move is said once (`moved_move`): nothing that shows in the
holder, or it installs a generation, or it closes the holder, or it closes one of the knowledge
bases that it took away.

A refresh installs what it put together from the generation that it looked at when it began. That
this one is still current is what the lock is for: as long as the holder is open, nobody but the
party that holds the lock replaces the current generation (`Fine`). So generations are numbered by
the refreshes that installed them (`Counted`), in every run.
-/

namespace OntologyService

open Generation (Stocked)

/-! ## What a document does to the registry -/

namespace Registry

/-- Everything that was there is as it was, and what is new is open. -/
structure Grows (r r' : Registry) : Prop where
  within : r.Within r'
  opened : ∀ id kb, r.get? id = none → r'.get? id = some kb → kb.closed = false

/-- A registry grows into itself. -/
theorem Grows.refl (r : Registry) : r.Grows r where
  within := .refl r
  opened id kb free held := by
    rw [free] at held
    cases held

/-- Adding an open knowledge base is growth. -/
theorem grows_add (r : Registry) {kb : KnowledgeBase} (opened : kb.closed = false) :
    r.Grows (r.add kb).2 where
  within := within_add r kb
  opened id kb' free held := by
    rw [get?, Array.getElem?_eq_none_iff] at free
    simp only [get?, add, Array.getElem?_push] at held
    split at held
    · cases held
      exact opened
    · rw [Array.getElem?_eq_none free] at held
      cases held

end Registry

namespace Merge

/-- Taking in a document is growth. -/
theorem grows_document (policy : LimitPolicy) (previous : Generation) (m : Merge) (d : Document) :
    m.registry.Grows (document policy previous m d).registry := by
  by_cases reused : ∃ old, previous.ontologies.get? d.name = some old ∧ old.version = d.version
  · obtain ⟨old, had, version⟩ := reused
    rw [document_of_reused had version]
    exact .refl _
  · have changed : Changed previous d := fun old had version => reused ⟨old, had, version⟩
    cases made : KnowledgeBase.new d.name d.axioms policy with
    | ok kb =>
      rw [document_of_built changed made]
      exact Registry.grows_add _ (KnowledgeBase.Kept.of_new made).2.2.1
    | error err =>
      rw [document_of_refused changed made, keep_registry]
      exact .refl _

end Merge

namespace Holder

/-! ## Places -/

namespace Party

/-- The party holds the lock on refreshes. -/
def Refreshing : Party → Prop
  | .refresher _ _ .admitted | .refresher _ _ (.loading _) | .refresher _ _ (.merging _ _ _)
  | .refresher _ _ (.built _ _) | .refresher _ _ (.leaving _) => True
  | .refresher _ _ .called | .refresher _ _ (.done _) | .closer _ => False

/-- The party raised the flag. -/
def Closing : Party → Prop
  | .closer (.closing _) | .closer .done => True
  | .closer .called | .refresher _ _ _ => False

/-- What a refresh did that ended refreshed. -/
def summary? (party : Party) : Option RefreshSummary :=
  match party.result? with
  | some (.ok (.refreshed s)) => some s
  | _ => none

end Party

namespace Overlap

variable {ι : Type} {w w' : Overlap ι} {p q : ι} {party old : Party}

/-! ## Moves -/

/-- The party makes what it put together the current generation `g` of an open holder. -/
structure Installs (w : Overlap ι) (p : ι) (old : Party) (w' : Overlap ι)
    (previous g : Generation) (s : RefreshSummary) : Prop where
  place : ∃ now loaded m, old = .refresher now loaded (.built previous m) ∧
    g.ontologies = m.ontologies
  opened : w.holder.closed = false
  holder : w'.holder = { w.holder with current := some g }
  registry : w'.registry = w.registry
  summary : (w'.parties p).summary? = some s
  number : g.number = previous.number + 1
  reported : s.generation = g.number

/-- **What a party does to the others** by a move that starts at the place `old`. -/
inductive Effect (w : Overlap ι) (p : ι) (old : Party) (w' : Overlap ι) : Prop
  | quiet (holder : w'.holder = w.holder) (registry : w.registry.Grows w'.registry)
      (summary : (w'.parties p).summary? = old.summary?)
      (closing : (w'.parties p).Closing ↔ old.Closing)
      (left : ∀ left, w'.parties p = .closer (.closing left) → old = .closer (.closing left))
  | installs {previous g : Generation} {s : RefreshSummary}
      (h : Installs w p old w' previous g s)
  | closes (place : old = .closer .called)
      (holder : w'.holder = { w.holder with current := none, closed := true })
      (registry : w'.registry = w.registry)
      (left : w'.parties p = .closer (.closing
        (match w.holder.current with
          | some g => g.bases
          | none => [])))
  | shuts (base : BaseId) (left : List BaseId) (place : old = .closer (.closing (base :: left)))
      (holder : w'.holder = w.holder) (registry : w'.registry = w.registry.close base)
      (left' : w'.parties p = .closer (.closing left))

/-- **What becomes of the lock** when a party comes from the place `old` to the place `party`. -/
inductive Passed (w : Overlap ι) (p : ι) (old party : Party) : Option ι → Prop
  | kept (same : party.Refreshing ↔ old.Refreshing) : Passed w p old party w.refreshing
  | taken (free : w.refreshing = none) (holds : party.Refreshing) : Passed w p old party (some p)
  | given (held : old.Refreshing) (free : ¬ party.Refreshing) : Passed w p old party none

/-- **A move of a party** that starts at the place `old`. It goes on with its call, and the others
stay where they are. -/
structure Moved (w : Overlap ι) (p : ι) (old : Party) (w' : Overlap ι) : Prop where
  others : ∀ q, q ≠ p → w'.parties q = w.parties q
  call : (w'.parties p).call = old.call
  lock : Passed w p old (w'.parties p) w'.refreshing
  effect : Effect w p old w'

/-- A party that stays where it is has moved nothing. -/
theorem Moved.stay (at_p : w.parties p = old) : Moved w p old w := by
  subst at_p
  exact ⟨fun _ _ => rfl, rfl, .kept Iff.rfl,
    .quiet rfl (.refl _) rfl Iff.rfl fun _ => id⟩

variable [DecidableEq ι]

@[simp] theorem put_parties_self (w : Overlap ι) (p : ι) (party : Party) :
    (w.put p party).parties p = party := if_pos rfl

theorem put_parties_of_ne (ne : q ≠ p) (w : Overlap ι) (party : Party) :
    (w.put p party).parties q = w.parties q := if_neg ne

@[simp] theorem put_holder (w : Overlap ι) (p : ι) (party : Party) :
    (w.put p party).holder = w.holder := rfl

@[simp] theorem put_registry (w : Overlap ι) (p : ι) (party : Party) :
    (w.put p party).registry = w.registry := rfl

@[simp] theorem put_refreshing (w : Overlap ι) (p : ι) (party : Party) :
    (w.put p party).refreshing = w.refreshing := rfl

namespace Moved

/-- Putting a party in its next place says no more than that. -/
theorem of_put (parties : w'.parties = w.parties) (call : party.call = old.call)
    (lock : Passed w p old party w'.refreshing) (effect : Effect w p old (w'.put p party)) :
    Moved w p old (w'.put p party) := by
  refine ⟨fun q ne => ?_, ?_, ?_, effect⟩
  · rw [put_parties_of_ne ne, parties]
  · rwa [put_parties_self]
  · rwa [put_parties_self]

/-- A move that shows to nobody, but for the lock and for what it adds to the registry. -/
theorem of_quiet (holder : w'.holder = w.holder) (grows : w.registry.Grows w'.registry)
    (parties : w'.parties = w.parties) (call : party.call = old.call)
    (lock : Passed w p old party w'.refreshing) (summary : party.summary? = old.summary?)
    (closing : party.Closing ↔ old.Closing) (left : ∀ left, party ≠ .closer (.closing left)) :
    Moved w p old (w'.put p party) := by
  refine .of_put parties call lock (.quiet holder grows ?_ ?_ fun bases place => ?_)
  · rwa [put_parties_self]
  · rwa [put_parties_self]
  · rw [put_parties_self] at place
    exact absurd place (left bases)

end Moved

/-- A refresher moves nothing that it does not say. -/
theorem moved_refresher {now : Nat} {loaded : Except SourceError Catalog} {place : Refresher}
    (at_p : w.parties p = .refresher now loaded place) :
    Moved w p (.refresher now loaded place) (w.moveRefresher p now loaded place) := by
  cases place with
  | called =>
    simp only [moveRefresher]
    split
    · next free =>
      exact .of_quiet rfl (.refl _) rfl rfl (.taken (Option.isNone_iff_eq_none.1 free) trivial) rfl
        Iff.rfl (by rintro _ ⟨⟩)
    · exact .stay at_p
  | admitted =>
    simp only [moveRefresher]
    split
    · exact .of_quiet rfl (.refl _) rfl rfl (.kept Iff.rfl) rfl Iff.rfl (by rintro _ ⟨⟩)
    · exact .of_quiet rfl (.refl _) rfl rfl (.kept Iff.rfl) rfl Iff.rfl (by rintro _ ⟨⟩)
  | loading previous =>
    simp only [moveRefresher]
    split
    · exact .of_quiet rfl (.refl _) rfl rfl (.kept Iff.rfl) rfl Iff.rfl (by rintro _ ⟨⟩)
    · exact .of_quiet rfl (.refl _) rfl rfl (.kept Iff.rfl) rfl Iff.rfl (by rintro _ ⟨⟩)
  | merging previous m left =>
    obtain ⟨ds, rs⟩ := left
    match ds, rs with
    | d :: ds, rs =>
      rw [moveRefresher]
      exact .of_quiet rfl (Merge.grows_document _ _ { m with registry := w.registry } _) rfl rfl
        (.kept Iff.rfl) rfl Iff.rfl (by rintro _ ⟨⟩)
    | [], r :: rs =>
      rw [moveRefresher]
      refine .of_quiet rfl ?_ rfl rfl (.kept Iff.rfl) rfl Iff.rfl (by rintro _ ⟨⟩)
      exact (Merge.keep_registry ..).symm ▸ .refl _
    | [], [] =>
      rw [moveRefresher]
      exact .of_quiet rfl (.refl _) rfl rfl (.kept Iff.rfl) rfl Iff.rfl (by rintro _ ⟨⟩)
  | built previous m =>
    simp only [moveRefresher]
    cases opened : w.holder.closed with
    | true =>
      rw [install, if_pos opened]
      exact .of_quiet rfl (.refl _) rfl rfl (.kept Iff.rfl) rfl Iff.rfl (by rintro _ ⟨⟩)
    | false =>
      rw [install, if_neg (Bool.eq_false_iff.1 opened)]
      refine .of_put rfl rfl (.kept Iff.rfl) (.installs
        (g := { number := previous.number + 1, loadedAt := now, ontologies := m.ontologies })
        (s := { m.summary with generation := previous.number + 1 })
        ⟨⟨now, loaded, m, rfl, rfl⟩, opened, rfl, rfl, ?_, rfl, rfl⟩)
      rw [put_parties_self]
      rfl
  | leaving result =>
    exact .of_quiet rfl (.refl _) rfl rfl (.given trivial id) rfl Iff.rfl (by rintro _ ⟨⟩)
  | done result => exact .stay at_p

/-- Nor does a closer. -/
theorem moved_closer {place : Closer} (at_p : w.parties p = .closer place) :
    Moved w p (.closer place) (w.moveCloser p place) := by
  cases place with
  | called =>
    rw [moveCloser]
    exact .of_put rfl rfl (.kept Iff.rfl) (.closes rfl rfl rfl (put_parties_self ..))
  | closing left =>
    cases left with
    | cons base left =>
      rw [moveCloser]
      exact .of_put rfl rfl (.kept Iff.rfl) (.shuts base left rfl rfl rfl (put_parties_self ..))
    | nil =>
      rw [moveCloser]
      exact .of_quiet rfl (.refl _) rfl rfl (.kept Iff.rfl) rfl Iff.rfl (by rintro _ ⟨⟩)
  | done => exact .stay at_p

/-- **Every move** is one of these. -/
theorem moved_move (w : Overlap ι) (p : ι) : Moved w p (w.parties p) (w.move p) := by
  unfold move
  split
  · next at_p => exact at_p.symm ▸ moved_refresher at_p
  · next at_p => exact at_p.symm ▸ moved_closer at_p

/-! ## What holds in between -/

omit [DecidableEq ι]

/-- **What a party relies on** at its place. While the holder is open, who puts a next generation
together looked at the current one, and has only entries with knowledge bases. Who raised the flag
finds it up. -/
def Fine (w : Overlap ι) : Party → Prop
  | .refresher _ _ (.loading previous) =>
    w.holder.closed = false → w.holder.current = some previous
  | .refresher _ _ (.merging previous m _) | .refresher _ _ (.built previous m) =>
    w.holder.closed = false → w.holder.current = some previous ∧ Stocked m.ontologies w.registry
  | .closer (.closing _) | .closer .done => w.holder.closed = true
  | _ => True

/-- What holds between two moves. -/
structure Invariant (w : Overlap ι) : Prop where
  lock : ∀ p, w.refreshing = some p ↔ (w.parties p).Refreshing
  fine : ∀ p, Fine w (w.parties p)
  opened : w.holder.closed = false →
    ∃ g, w.holder.current = some g ∧ Stocked g.ontologies w.registry
  ended : w.holder.closed = true → w.holder.current = none ∧ ∃ p, (w.parties p).Closing

/-- Who raised the flag finds it up. -/
theorem Fine.closed (h : Fine w party) (closing : party.Closing) : w.holder.closed = true := by
  unfold Party.Closing at closing
  split at closing
  · exact h
  · exact h
  · exact closing.elim
  · exact closing.elim

/-- Nobody else takes away what a party relies on. -/
theorem Fine.frame (h : Fine w party) (closed : w.holder.closed = true → w'.holder.closed = true)
    (calm : w'.holder.closed = false → party.Refreshing → w.holder.closed = false ∧
      w'.holder.current = w.holder.current ∧ w.registry.Within w'.registry) : Fine w' party := by
  cases party with
  | refresher now loaded place =>
    cases place with
    | called | admitted | leaving result | done result => trivial
    | loading previous =>
      intro live
      obtain ⟨live', current, -⟩ := calm live trivial
      exact current.trans (h live')
    | merging previous m left | built previous m =>
      intro live
      obtain ⟨live', current, within⟩ := calm live trivial
      exact ⟨current.trans (h live').1, (h live').2.mono within⟩
  | closer place =>
    cases place with
    | called => trivial
    | closing left | done => exact closed h

/-- **The lock** is passed on to nobody else. -/
theorem Passed.locked {lock : Option ι} (h : Passed w p old (w'.parties p) lock)
    (at_p : w.parties p = old) (others : ∀ q, q ≠ p → w'.parties q = w.parties q)
    (locked : ∀ q, w.refreshing = some q ↔ (w.parties q).Refreshing) (q : ι) :
    lock = some q ↔ (w'.parties q).Refreshing := by
  subst at_p
  by_cases same : q = p
  · subst same
    cases h with
    | kept same => rw [same, locked]
    | taken _ holds => exact iff_of_true rfl holds
    | given _ free => exact iff_of_false (by rintro ⟨⟩) free
  · rw [others q same, ← locked]
    cases h with
    | kept _ => rfl
    | taken free _ =>
      rw [free]
      exact iff_of_false (fun is => same (Option.some.inj is).symm) (by rintro ⟨⟩)
    | given held _ =>
      rw [(locked p).2 held]
      exact iff_of_false (by rintro ⟨⟩) fun is => same (Option.some.inj is).symm

variable [DecidableEq ι]

/-- Who raised the flag goes on from there. -/
theorem Moved.closing (h : Moved w p (w.parties p) w') (closing : (w.parties q).Closing) :
    (w'.parties q).Closing := by
  by_cases same : q = p
  · subst same
    cases h.effect with
    | quiet _ _ _ iff _ => exact iff.2 closing
    | installs h =>
      obtain ⟨_, _, _, place, -⟩ := h.place
      rw [place] at closing
      exact closing.elim
    | closes _ _ _ left => rw [left]; trivial
    | shuts _ _ _ _ _ left => rw [left]; trivial
  · rwa [h.others q same]

namespace Invariant

variable (h : Invariant w)
include h

/-- A party comes to a place that is fine. -/
theorem fine_move (p : ι) : Fine (w.move p) ((w.move p).parties p) := by
  have fine := h.fine p
  unfold move
  split
  · next now loaded place at_p =>
    rw [at_p] at fine
    cases place with
    | called =>
      simp only [moveRefresher]
      split
      · rw [put_parties_self]; trivial
      · rwa [at_p]
    | admitted =>
      simp only [moveRefresher]
      split
      · rw [put_parties_self]; trivial
      · next current => rw [put_parties_self]; exact fun _ => current
    | loading previous =>
      simp only [moveRefresher]
      split
      · rw [put_parties_self]; trivial
      · rw [put_parties_self]; exact fun live => ⟨fine live, .empty _⟩
    | merging previous m left =>
      -- as long as the holder is open, the generation to merge with is still the current one
      have growing : w.holder.closed = false → Stocked previous.ontologies w.registry ∧
          Merge.Growing w.registry { m with registry := w.registry } := fun live => by
        obtain ⟨current, stock⟩ := fine live
        obtain ⟨g, current', stock'⟩ := h.opened live
        cases current.symm.trans current'
        exact ⟨stock', .refl _, stock⟩
      obtain ⟨ds, rs⟩ := left
      match ds, rs with
      | d :: ds, rs =>
        rw [moveRefresher, put_parties_self]
        exact fun live => ⟨(fine live).1, ((growing live).2.document (growing live).1 d).stocked⟩
      | [], r :: rs =>
        rw [moveRefresher, put_parties_self]
        exact fun live => ⟨(fine live).1,
          (((growing live).2.counting _).keep (growing live).1 r.name).stocked⟩
      | [], [] =>
        rw [moveRefresher, put_parties_self]
        exact fine
    | built previous m =>
      simp only [moveRefresher, put_parties_self]
      trivial
    | leaving result => rw [moveRefresher, put_parties_self]; trivial
    | done result => rwa [moveRefresher, at_p]
  · next place at_p =>
    rw [at_p] at fine
    cases place with
    | called => rw [moveCloser, put_parties_self]; exact rfl
    | closing left =>
      cases left with
      | cons base left => rw [moveCloser, put_parties_self]; exact fine
      | nil => rw [moveCloser, put_parties_self]; exact fine
    | done => rwa [moveCloser, at_p]

/-- A closed holder stays closed. -/
theorem closed_move (closed : w.holder.closed = true) (p : ι) :
    (w.move p).holder = w.holder := by
  cases (moved_move w p).effect with
  | quiet holder _ _ _ _ => exact holder
  | installs h' =>
    rw [h'.opened] at closed
    cases closed
  | closes _ holder _ _ =>
    rw [holder, ← closed, ← (h.ended closed).1]
  | shuts _ _ _ holder _ _ => exact holder

omit [DecidableEq ι] in
/-- Who takes a knowledge base to close it finds the flag up. -/
theorem shuts_closed {base : BaseId} {left : List BaseId}
    (place : w.parties p = .closer (.closing (base :: left))) : w.holder.closed = true :=
  (h.fine p).closed (by rw [place]; trivial)

omit [DecidableEq ι] in
/-- **The generation that a refresh installs** takes the place of the one that it looked at. -/
theorem installed {previous g : Generation} {s : RefreshSummary}
    (h' : Installs w p (w.parties p) w' previous g s) :
    (w.parties p).Refreshing ∧ (w.parties p).summary? = none ∧
      w.holder.current = some previous ∧ Stocked g.ontologies w'.registry := by
  obtain ⟨now, loaded, m, place, table⟩ := h'.place
  have fine := h.fine p
  rw [place] at fine ⊢
  obtain ⟨current, stock⟩ := fine h'.opened
  exact ⟨trivial, rfl, current, table ▸ h'.registry ▸ stock⟩

/-- **Every move** keeps what holds in between. -/
theorem move (p : ι) : Invariant (w.move p) := by
  have moved := moved_move w p
  refine ⟨moved.lock.locked rfl moved.others h.lock, fun q => ?_, fun live => ?_, fun gone => ?_⟩
  · by_cases same : q = p
    · exact same ▸ h.fine_move p
    · rw [moved.others q same]
      refine (h.fine q).frame (fun closed => (h.closed_move closed p).symm ▸ closed)
        fun live holds => ?_
      cases moved.effect with
      | quiet holder registry _ _ _ => exact ⟨holder ▸ live, by rw [holder], registry.within⟩
      | installs h' =>
        -- two parties do not hold the lock at once
        have lock := (h.lock p).2 (h.installed h').1
        have lock' := (h.lock q).2 holds
        exact absurd (Option.some.inj (lock'.symm.trans lock)) same
      | closes _ holder _ _ =>
        rw [holder] at live
        cases live
      | shuts _ _ place holder _ _ =>
        rw [holder, h.shuts_closed place] at live
        cases live
  · cases moved.effect with
    | quiet holder registry _ _ _ =>
      rw [holder] at live ⊢
      obtain ⟨g, current, stock⟩ := h.opened live
      exact ⟨g, current, stock.mono registry.within⟩
    | installs h' =>
      rw [h'.holder]
      exact ⟨_, rfl, (h.installed h').2.2.2⟩
    | closes _ holder _ _ =>
      rw [holder] at live
      cases live
    | shuts _ _ place holder _ _ =>
      rw [holder, h.shuts_closed place] at live
      cases live
  · cases closed : w.holder.closed with
    | true =>
      obtain ⟨current, q, closing⟩ := h.ended closed
      rw [h.closed_move closed p]
      exact ⟨current, q, moved.closing closing⟩
    | false =>
      cases moved.effect with
      | quiet holder _ _ _ _ =>
        rw [holder, closed] at gone
        cases gone
      | installs h' =>
        rw [h'.holder, closed] at gone
        cases gone
      | closes _ holder _ left =>
        rw [holder]
        exact ⟨rfl, p, by rw [left]; trivial⟩
      | shuts _ _ _ holder _ _ =>
        rw [holder, closed] at gone
        cases gone

end Invariant

theorem run_append (w : Overlap ι) (moves more : List ι) :
    w.run (moves ++ more) = (w.run moves).run more := List.foldl_append

/-- So does every run. -/
theorem Invariant.run (moves : List ι) :
    ∀ {w : Overlap ι}, Invariant w → Invariant (w.run moves) := by
  induction moves with
  | nil => exact id
  | cons p moves ih => exact fun h => ih (h.move p)

omit [DecidableEq ι] in
/-- An overlap starts within its invariant. -/
theorem Invariant.start {h : Holder} {r : Registry} {g : Generation} (live : h.closed = false)
    (current : h.current = some g) (stock : Stocked g.ontologies r) (calls : ι → Call) :
    Invariant (new h r calls) := by
  have nobody (p : ι) : ¬ ((new h r calls).parties p).Refreshing := by
    show ¬ (Party.ofCall (calls p)).Refreshing
    cases calls p <;> exact id
  refine ⟨fun p => iff_of_false (by rintro ⟨⟩) (nobody p), fun p => ?_,
    fun _ => ⟨g, current, stock⟩, fun gone => ?_⟩
  · show Fine _ (Party.ofCall (calls p))
    cases calls p <;> trivial
  · rw [show (new h r calls).holder.closed = false from live] at gone
    cases gone

/-! ## Numbers -/

/-- **Generations are numbered** by the refreshes that returned refreshed: the first one is followed
by one more for each of them, and each reported the number of its own. -/
structure Counted (w : Overlap ι) (refreshed : Finset ι) : Prop where
  mem_iff : ∀ p, p ∈ refreshed ↔ ∃ s, (w.parties p).summary? = some s
  number : ∀ g, w.holder.current = some g → g.number = 1 + refreshed.card
  reported : ∀ p s, (w.parties p).summary? = some s →
    1 < s.generation ∧ s.generation ≤ 1 + refreshed.card
  distinct : ∀ p q s s', (w.parties p).summary? = some s → (w.parties q).summary? = some s' →
    s.generation = s'.generation → p = q

namespace Counted

variable {refreshed : Finset ι}

omit [DecidableEq ι] in
/-- A move by which no refresh returns refreshed. -/
theorem same (c : Counted w refreshed)
    (summary : ∀ q, (w'.parties q).summary? = (w.parties q).summary?)
    (current : ∀ g, w'.holder.current = some g → w.holder.current = some g) :
    Counted w' refreshed where
  mem_iff q := by rw [summary, c.mem_iff]
  number g held := c.number g (current g held)
  reported q s returned := c.reported q s ((summary q).symm.trans returned)
  distinct q q' s s' returned returned' :=
    c.distinct q q' s s' ((summary q).symm.trans returned) ((summary q').symm.trans returned')

/-- A move by which one does. -/
theorem installed (c : Counted w refreshed) (h : Invariant w)
    (others : ∀ q, q ≠ p → w'.parties q = w.parties q) {previous g : Generation}
    {s : RefreshSummary} (h' : Installs w p (w.parties p) w' previous g s) :
    Counted w' (insert p refreshed) := by
  obtain ⟨-, before, current, -⟩ := h.installed h'
  -- a refresher returns once, so it was not counted before
  have fresh : p ∉ refreshed := fun member => by
    obtain ⟨s, returned⟩ := (c.mem_iff p).1 member
    cases before.symm.trans returned
  have card := Finset.card_insert_of_notMem fresh
  have number : g.number = 1 + (insert p refreshed).card := by
    rw [h'.number, c.number previous current, card]
    rfl
  -- whoever returned before reported a smaller number
  have earlier : ∀ q, q ≠ p → ∀ s', (w'.parties q).summary? = some s' →
      (w.parties q).summary? = some s' ∧ s'.generation < s.generation := fun q ne s' returned => by
    rw [others q ne] at returned
    have := (c.reported q s' returned).2
    exact ⟨returned, by rw [h'.reported, number, card]; omega⟩
  refine ⟨fun q => ?_, fun g' held => ?_, fun q s' returned => ?_,
    fun q q' s₁ s₂ returned returned' same => ?_⟩
  · by_cases own : q = p
    · subst own
      exact iff_of_true (Finset.mem_insert_self ..) ⟨s, h'.summary⟩
    · rw [Finset.mem_insert, others q own, c.mem_iff]
      exact or_iff_right own
  · rw [h'.holder] at held
    cases held
    exact number
  · by_cases own : q = p
    · subst own
      cases h'.summary.symm.trans returned
      rw [h'.reported, number, card]
      omega
    · have := c.reported q s' (earlier q own s' returned).1
      omega
  · by_cases own : q = p
    · by_cases own' : q' = p
      · rw [own, own']
      · subst own
        cases h'.summary.symm.trans returned
        have := (earlier q' own' s₂ returned').2
        omega
    · by_cases own' : q' = p
      · subst own'
        cases h'.summary.symm.trans returned'
        have := (earlier q own s₁ returned).2
        omega
      · exact c.distinct q q' s₁ s₂ (earlier q own s₁ returned).1
          (earlier q' own' s₂ returned').1 same

/-- The refreshes counted are still counted after a move. -/
theorem move (c : Counted w refreshed) (h : Invariant w) (p : ι) :
    ∃ refreshed', Counted (w.move p) refreshed' := by
  have moved := moved_move w p
  have others : ((w.move p).parties p).summary? = (w.parties p).summary? →
      ∀ q, ((w.move p).parties q).summary? = (w.parties q).summary? := fun own q => by
    by_cases same : q = p
    · rw [same, own]
    · rw [moved.others q same]
  cases moved.effect with
  | quiet holder _ summary _ _ =>
    exact ⟨_, c.same (others summary) fun g => by rw [holder]; exact id⟩
  | installs h' => exact ⟨_, c.installed h moved.others h'⟩
  | closes place holder _ left =>
    exact ⟨_, c.same (others (by rw [left, place]; rfl)) fun g => by rw [holder]; rintro ⟨⟩⟩
  | shuts _ _ place holder _ left =>
    exact ⟨_, c.same (others (by rw [left, place]; rfl)) fun g => by rw [holder]; exact id⟩

/-- And after any run. -/
theorem run (moves : List ι) : ∀ {w : Overlap ι} {refreshed : Finset ι}, Counted w refreshed →
    Invariant w → ∃ refreshed', Counted (w.run moves) refreshed' := by
  induction moves with
  | nil => exact fun c _ => ⟨_, c⟩
  | cons p moves ih =>
    intro w refreshed c h
    obtain ⟨refreshed', c'⟩ := c.move h p
    exact ih c' (h.move p)

omit [DecidableEq ι] in
/-- At the start there is none to count. -/
theorem start {h : Holder} (first : ∀ g, h.current = some g → g.number = 1) (r : Registry)
    (calls : ι → Call) : Counted (new h r calls) ∅ := by
  have nobody (p : ι) : ((new h r calls).parties p).summary? = none := by
    show (Party.ofCall (calls p)).summary? = none
    cases calls p <;> rfl
  refine ⟨fun p => iff_of_false (Finset.notMem_empty p) ?_, first, fun p s returned => ?_,
    fun p q s s' returned => ?_⟩
  · rw [nobody]
    rintro ⟨_, ⟨⟩⟩
  · rw [nobody] at returned
    cases returned
  · rw [nobody] at returned
    cases returned

end Counted

end Overlap

end Holder

end OntologyService
