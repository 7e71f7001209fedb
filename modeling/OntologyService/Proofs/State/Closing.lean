import OntologyService.Proofs.Server.Cycles
import OntologyService.Proofs.State.Overlap

/-!
# Closing a holder for good

A close may come at any step of a refresh. What the refresh comes to is decided by then, unless it
is about to ask its source (`Refresher.verdict`), and no step of anybody changes that
(`Invariant.verdict_move`). The party whose close came first has the knowledge bases of the last
generation to close, and nobody else closes any: a refresh only adds to the registry, and who closes
later finds nothing to take away (`Shutting`).

Where nobody comes in between, a party does what `Holder.refresh` and `Holder.close` do in one call
(`leads_refresh`, `leads_close`). That a party gets to the end of its call if it is let go on is
also why nobody waits for ever: so can the one that holds the lock (`leads_done`).

**The law** (`governed_run`) is about every run of any parties over a holder that was loaded.
-/

namespace OntologyService

/-! ## Registries in which some were closed -/

/-- To close twice is to close once. -/
theorem KnowledgeBase.close_close (kb : KnowledgeBase) : kb.close.close = kb.close := by
  rw [KnowledgeBase.close, if_pos kb.closed_close]

namespace Registry

variable {r r' r'' : Registry} {shut : List BaseId} {base : BaseId}

/-- The knowledge bases `shut` were closed since the registry was `r`, the others that there were
are as they were, and what is new is open. -/
structure Closes (r : Registry) (shut : List BaseId) (r' : Registry) : Prop where
  old : ∀ id kb, r.get? id = some kb → r'.get? id = some (if id ∈ shut then kb.close else kb)
  new : ∀ id kb, r.get? id = none → r'.get? id = some kb → kb.closed = false

/-- Where nothing is closed, nothing changes. -/
theorem Closes.refl (r : Registry) : r.Closes [] r where
  old id kb held := by rw [if_neg List.not_mem_nil, held]
  new id kb free held := by
    rw [free] at held
    cases held

/-- What grows beside it stays open. -/
theorem Closes.grow (h : r.Closes shut r') (grows : r'.Grows r'') : r.Closes shut r'' where
  old id kb held := grows.within _ _ (h.old id kb held)
  new id kb free held := by
    cases before : r'.get? id with
    | none => exact grows.opened id kb before held
    | some kb' =>
      cases (grows.within id kb' before).symm.trans held
      exact h.new id kb free before

/-- One more is closed, which was there. -/
theorem Closes.close (h : r.Closes shut r') (held : r.get? base ≠ none) :
    r.Closes (shut ++ [base]) (r'.close base) where
  old id kb before := by
    rw [get?_close, h.old id kb before]
    by_cases same : base = id
    · subst same
      rw [if_pos rfl, if_pos (List.mem_append_right _ List.mem_cons_self), Option.map_some]
      split
      · rw [KnowledgeBase.close_close]
      · rfl
    · have same' : id ∈ shut ++ [base] ↔ id ∈ shut := by simp [Ne.symm same]
      simp only [if_neg same, same']
  new id kb free held' := by
    have ne : base ≠ id := fun same => held (same ▸ free)
    rw [get?_close, if_neg ne] at held'
    exact h.new id kb free held'

end Registry

namespace Holder

/-- The call of the party came to its end. -/
def Party.Done : Party → Prop
  | .refresher _ _ (.done _) | .closer .done => True
  | _ => False

/-- **What a refresh comes to** once the holder is closed. It is closed, whether the refresh has not
begun or has put all of a next generation together; but where the source is asked and fails, its
error comes first. -/
def Refresher.verdict (loaded : Except SourceError Catalog) : Refresher → Result
  | .loading _ =>
    match loaded with
    | .error e => .error (.source e)
    | .ok _ => .ok .closed
  | .leaving result | .done result => result
  | .called | .admitted | .merging _ _ _ | .built _ _ => .ok .closed

/-- What the refresh of a party comes to once the holder is closed. -/
def Party.verdict? : Party → Option Result
  | .refresher _ loaded place => some (place.verdict loaded)
  | .closer _ => none

/-- Whoever has a result has that for a verdict. -/
theorem Party.verdict?_of_result? {party : Party} {result : Result}
    (decided : party.result? = some result) : party.verdict? = some result := by
  unfold result? at decided
  split at decided
  · exact decided
  · exact decided
  · cases decided

namespace Overlap

variable {ι : Type} [DecidableEq ι] {w w' : Overlap ι} {p q : ι} {party : Party} {now : Nat}
  {loaded : Except SourceError Catalog} {previous : Generation}

/-! ## A party that goes on alone -/

/-- The party gets there if it goes on alone. -/
def Leads (p : ι) (w w' : Overlap ι) : Prop := ∃ n, w.run (List.replicate n p) = w'

theorem Leads.refl (p : ι) (w : Overlap ι) : Leads p w w := ⟨0, rfl⟩

/-- A party that gets there after one move gets there. -/
theorem Leads.step (h : Leads p (w.move p) w') : Leads p w w' := by
  obtain ⟨n, rest⟩ := h
  exact ⟨n + 1, rest⟩

/-- Of the places that a party was put in, the last one counts. -/
@[simp] theorem put_again (w : Overlap ι) (p : ι) (party party' : Party) (holder : Holder)
    (registry : Registry) (refreshing : Option ι) :
    put ⟨holder, registry, (w.put p party).parties, refreshing⟩ p party' =
      put ⟨holder, registry, w.parties, refreshing⟩ p party' := by
  unfold put
  congr 1
  funext q
  dsimp only
  split <;> rfl

@[simp] theorem put_put (w : Overlap ι) (p : ι) (party party' : Party) :
    (w.put p party).put p party' = w.put p party' := put_again ..

/-- Putting a party where it is changes nothing. -/
theorem put_self (at_p : w.parties p = party) : w.put p party = w := by
  unfold put
  congr 1
  funext q
  split
  · next same => rw [same, at_p]
  · rfl

/-- A refresher that moves makes the moves of a refresh. -/
theorem move_refresher (w : Overlap ι) (p : ι) (now : Nat) (loaded : Except SourceError Catalog)
    (place : Refresher) : (w.put p (.refresher now loaded place)).move p =
      (w.put p (.refresher now loaded place)).moveRefresher p now loaded place := by
  rw [move, put_parties_self]

/-- A closer that moves makes the moves of a close. -/
theorem move_closer (w : Overlap ι) (p : ι) (place : Closer) :
    (w.put p (.closer place)).move p = (w.put p (.closer place)).moveCloser p place := by
  rw [move, put_parties_self]

/-- What a refresh leaves that put together a next generation. -/
def finish (w : Overlap ι) (p : ι) (now : Nat) (loaded : Except SourceError Catalog)
    (previous : Generation) (m : Merge) : Overlap ι :=
  { w with
    holder := (w.holder.install previous now m).2
    registry := m.registry
    refreshing := none }.put p
      (.refresher now loaded (.done (.ok (w.holder.install previous now m).1)))

section

variable (p : ι) (now : Nat) (loaded : Except SourceError Catalog) (previous : Generation)

/-- What was put together is installed. -/
theorem leads_built (w : Overlap ι) (m : Merge) :
    Leads p (w.put p (.refresher now loaded (.built previous m)))
      (w.finish p now loaded previous { m with registry := w.registry }) := by
  refine .step (.step ?_)
  simp only [move_refresher, moveRefresher, put_again, put_holder, put_registry]
  exact .refl ..

/-- Rejections are merged one after the other. -/
theorem leads_rejected (rs : List Rejection) : ∀ (w : Overlap ι) (m : Merge),
    Leads p (w.put p (.refresher now loaded (.merging previous m ⟨[], rs⟩)))
      (w.finish p now loaded previous
        ((rs.foldl (Merge.rejection previous) { m with registry := w.registry }).conclude
          previous)) := by
  induction rs with
  | nil =>
    intro w m
    refine .step ?_
    simp only [move_refresher, moveRefresher, put_put]
    exact leads_built p now loaded previous w _
  | cons r rs ih =>
    intro w m
    refine .step ?_
    simp only [move_refresher, moveRefresher, put_again, put_registry, put_refreshing, put_holder]
    exact ih _ _

/-- What is left of a catalog, carried into the next generation by the party that holds the lock. -/
theorem leads_merged (ds : List Document) (rs : List Rejection) : ∀ (w : Overlap ι) (m : Merge),
    Leads p (w.put p (.refresher now loaded (.merging previous m ⟨ds, rs⟩)))
      (w.finish p now loaded previous
        ((rs.foldl (Merge.rejection previous)
          (ds.foldl (Merge.document w.holder.policy previous)
            { m with registry := w.registry })).conclude previous)) := by
  induction ds with
  | nil => exact leads_rejected p now loaded previous rs
  | cons d ds ih =>
    intro w m
    refine .step ?_
    simp only [move_refresher, moveRefresher, put_again, put_registry, put_refreshing, put_holder]
    exact ih _ _

/-- What a refresh comes to that looked at a generation, and what it leaves. -/
theorem leads_loaded (w : Overlap ι) :
    Leads p (w.put p (.refresher now loaded (.loading previous)))
      (match loaded with
        | .error e => { w with refreshing := none }.put p
            (.refresher now loaded (.done (.error (.source e))))
        | .ok c => w.finish p now loaded previous
            (Merge.ofCatalog w.holder.policy previous w.registry c)) := by
  cases loaded with
  | error e =>
    refine .step (.step ?_)
    simp only [move_refresher, moveRefresher, put_again, put_put, put_registry, put_holder]
    exact .refl ..
  | ok c =>
    refine .step ?_
    simp only [move_refresher, moveRefresher, put_put, put_registry]
    exact leads_merged p now _ previous c.documents c.rejected w _

end

/-- **A refresh that goes on alone**, once it holds the lock, comes to what `Holder.refresh` comes
to and leaves what it leaves. -/
theorem leads_admitted (w : Overlap ι) (p : ι) (now : Nat) (loaded : Except SourceError Catalog) :
    Leads p (w.put p (.refresher now loaded .admitted))
      ({ w with
        holder := (w.holder.refresh w.registry now loaded).2.1
        registry := (w.holder.refresh w.registry now loaded).2.2
        refreshing := none }.put p
          (.refresher now loaded (.done (w.holder.refresh w.registry now loaded).1))) := by
  refine .step ?_
  simp only [move_refresher, moveRefresher, put_put, put_holder, refresh]
  cases w.holder.current with
  | none =>
    refine .step ?_
    simp only [move_refresher, moveRefresher, put_again, put_registry, put_holder]
    exact .refl ..
  | some previous =>
    have leads := leads_loaded p now loaded previous w
    cases loaded with
    | error e => exact leads
    | ok c => exact leads

/-- A refresh that nobody is in the way of comes to its end. -/
theorem leads_refresh (at_p : w.parties p = .refresher now loaded .called)
    (free : w.refreshing = none) :
    Leads p w ({ w with
      holder := (w.holder.refresh w.registry now loaded).2.1
      registry := (w.holder.refresh w.registry now loaded).2.2 }.put p
        (.refresher now loaded (.done (w.holder.refresh w.registry now loaded).1))) := by
  rw [← put_self at_p]
  refine .step ?_
  simp only [move_refresher, moveRefresher, put_again, put_refreshing, put_registry, put_holder,
    free, Option.isNone_none, if_true]
  exact leads_admitted { w with refreshing := some p } p now loaded

/-- Whoever holds the lock can go on alone to the end of its call, and gives the lock back. -/
theorem leads_done (holds : (w.parties p).Refreshing) :
    ∃ w', Leads p w w' ∧ w'.refreshing = none ∧ (w'.parties p).Done := by
  have done : ∀ {w' : Overlap ι} {party}, Leads p w (w'.put p party) → w'.refreshing = none →
      party.Done → ∃ w', Leads p w w' ∧ w'.refreshing = none ∧ (w'.parties p).Done :=
    fun leads free done => ⟨_, leads, free, by rwa [put_parties_self]⟩
  cases at_p : w.parties p with
  | closer place =>
    rw [at_p] at holds
    exact holds.elim
  | refresher now loaded place =>
    have start := put_self at_p
    rw [at_p] at holds
    cases place with
    | called | done result => exact holds.elim
    | admitted =>
      have leads := leads_admitted w p now loaded
      rw [start] at leads
      exact done leads rfl trivial
    | loading previous =>
      have leads := leads_loaded p now loaded previous w
      rw [start] at leads
      cases loaded with
      | error e => exact done leads rfl trivial
      | ok c => exact done leads rfl trivial
    | merging previous m left =>
      have leads := leads_merged p now loaded previous left.documents left.rejected w m
      rw [start] at leads
      exact done leads rfl trivial
    | built previous m =>
      have leads := leads_built p now loaded previous w m
      rw [start] at leads
      exact done leads rfl trivial
    | leaving result =>
      have leads : Leads p w
          ({ w with refreshing := none }.put p (.refresher now loaded (.done result))) := by
        refine .step ?_
        rw [move, at_p]
        exact .refl ..
      exact done leads rfl trivial

/-- What is left to close is closed by the party that took it. -/
theorem leads_closed (left : List BaseId) : ∀ w : Overlap ι,
    Leads p (w.put p (.closer (.closing left)))
      ({ w with registry := left.foldl Registry.close w.registry }.put p (.closer .done)) := by
  induction left with
  | nil =>
    intro w
    refine .step ?_
    simp only [move_closer, moveCloser, put_put]
    exact .refl ..
  | cons base left ih =>
    intro w
    refine .step ?_
    simp only [move_closer, moveCloser, put_again, put_registry, put_refreshing, put_holder]
    exact ih _

/-- **A close that goes on alone** leaves what `Holder.close` leaves. -/
theorem leads_close (at_p : w.parties p = .closer .called) :
    Leads p w ({ w with
      holder := (w.holder.close w.registry).1
      registry := (w.holder.close w.registry).2 }.put p (.closer .done)) := by
  rw [← put_self at_p]
  refine .step ?_
  simp only [move_closer, moveCloser, put_again, put_registry, put_refreshing, put_holder]
  unfold Holder.close
  cases w.holder.current with
  | none =>
    exact leads_closed [] { w with holder := { w.holder with current := none, closed := true } }
  | some g =>
    exact leads_closed g.bases
      { w with holder := { w.holder with current := none, closed := true } }

/-! ## Once the holder is closed -/

/-- Who does not move stays where it is. -/
theorem run_others (moves : List ι) : ∀ w : Overlap ι, p ∉ moves →
    (w.run moves).parties p = w.parties p := by
  induction moves with
  | nil => exact fun _ _ => rfl
  | cons q moves ih =>
    intro w absent
    rw [List.mem_cons, not_or] at absent
    exact (ih (w.move q) absent.2).trans ((moved_move w q).others p absent.1)

/-- **A closed holder** stays as it is. -/
theorem Invariant.frozen (more : List ι) : ∀ {w : Overlap ι}, Invariant w →
    w.holder.closed = true → (w.run more).holder = w.holder := by
  induction more with
  | nil => exact fun _ _ => rfl
  | cons p more ih =>
    intro w h closed
    have same := h.closed_move closed p
    exact (ih (h.move p) (same ▸ closed)).trans same

/-- A move changes no verdict. -/
theorem Invariant.verdict_move (h : Invariant w) (closed : w.holder.closed = true) (p q : ι) :
    ((w.move p).parties q).verdict? = (w.parties q).verdict? := by
  by_cases same : q = p
  · subst same
    -- a closed holder has no generation, so a refresher that comes late is told so
    have none := (h.ended closed).1
    unfold Overlap.move
    split
    · next now loaded place at_q =>
      rw [at_q]
      cases place with
      | called =>
        simp only [moveRefresher]
        split
        · rw [put_parties_self]; rfl
        · rw [at_q]
      | admitted =>
        simp only [moveRefresher, none]
        rw [put_parties_self]
        rfl
      | loading previous =>
        cases loaded with
        | error e => rw [moveRefresher, put_parties_self]; rfl
        | ok c => rw [moveRefresher, put_parties_self]; rfl
      | merging previous m left =>
        obtain ⟨_ | ⟨d, ds⟩, _ | ⟨r, rs⟩⟩ := left
        · rw [moveRefresher, put_parties_self]; rfl
        · rw [moveRefresher, put_parties_self]; rfl
        · rw [moveRefresher, put_parties_self]; rfl
        · rw [moveRefresher, put_parties_self]; rfl
      | built previous m =>
        simp only [moveRefresher, install, if_pos closed]
        rw [put_parties_self]
        rfl
      | leaving result => rw [moveRefresher, put_parties_self]; rfl
      | done result => rw [moveRefresher, at_q]
    · next place at_q =>
      have call := (moved_closer at_q).call
      rw [at_q]
      unfold Party.call at call
      split at call
      · cases call
      · next place' at_q' => rw [at_q']; rfl
  · rw [(moved_move w p).others q same]

/-- Once the holder is closed, no move changes a verdict. -/
theorem Invariant.verdict_run (more : List ι) : ∀ {w : Overlap ι}, Invariant w →
    w.holder.closed = true → ∀ q, ((w.run more).parties q).verdict? = (w.parties q).verdict? := by
  induction more with
  | nil => exact fun _ _ _ => rfl
  | cons p more ih =>
    intro w h closed q
    have same := h.closed_move closed p
    exact (ih (h.move p) (same ▸ closed) q).trans (h.verdict_move closed p q)

/-- **Nobody waits for ever**: whatever happened, some further steps bring a party to the end of its
call. -/
theorem Invariant.returns (h : Invariant w) (p : ι) : ∃ more, ((w.run more).parties p).Done := by
  have arrives : ∀ {w w' : Overlap ι}, Leads p w w' → (w'.parties p).Done →
      ∃ more, ((w.run more).parties p).Done := by
    rintro w w' ⟨n, leads⟩ done
    exact ⟨List.replicate n p, leads ▸ done⟩
  have done : ∀ {w : Overlap ι} {party}, party.Done → ((w.put p party).parties p).Done :=
    fun done => by rwa [put_parties_self]
  cases at_p : w.parties p with
  | closer place =>
    cases place with
    | called => exact arrives (leads_close at_p) (done trivial)
    | closing left =>
      have leads := leads_closed (p := p) left w
      rw [put_self at_p] at leads
      exact arrives leads (done trivial)
    | done => exact arrives (.refl p w) (at_p ▸ trivial)
  | refresher now loaded place =>
    by_cases holds : (w.parties p).Refreshing
    · obtain ⟨w', leads, -, ended⟩ := leads_done holds
      exact arrives leads ended
    · rw [at_p] at holds
      cases place with
      | done result => exact arrives (.refl p w) (at_p ▸ trivial)
      | called =>
        cases lock : w.refreshing with
        | none => exact arrives (leads_refresh at_p lock) (done trivial)
        | some q =>
          -- the party that holds the lock comes first
          have holds' := (h.lock q).1 lock
          have ne : q ≠ p := fun same => by rw [same, at_p] at holds'; exact holds'
          obtain ⟨w', ⟨n, leads⟩, free, -⟩ := leads_done holds'
          have stays : w'.parties p = w.parties p := by
            rw [← leads]
            exact run_others _ w fun member => ne (List.eq_of_mem_replicate member).symm
          obtain ⟨more, ended⟩ := arrives (leads_refresh (stays.trans at_p) free) (done trivial)
          exact ⟨List.replicate n q ++ more, by rwa [run_append, leads]⟩
      | admitted | loading _ | merging _ _ _ | built _ _ | leaving _ => exact absurd trivial holds

/-! ## The first close -/

/-- **The close of a party under way.** It took these knowledge bases away when the registry was
`r`; what it shut so far is shut, and nobody else closes anything. -/
structure Shutting (r : Registry) (bases : List BaseId) (p : ι) (w : Overlap ι) : Prop where
  closed : w.holder.closed = true
  place : ∃ shut left, bases = shut ++ left ∧ r.Closes shut w.registry ∧
    (w.parties p = .closer (.closing left) ∨ left = [] ∧ w.parties p = .closer .done)
  others : ∀ q, q ≠ p → ∀ left, w.parties q = .closer (.closing left) → left = []

namespace Shutting

variable {r : Registry} {bases : List BaseId}

/-- The party that closes goes on. -/
theorem move_self (s : Shutting r bases p w) (held : ∀ base ∈ bases, r.get? base ≠ none) :
    Shutting r bases p (w.move p) := by
  obtain ⟨closed, ⟨shut, left, same, shutting, place⟩, others⟩ := s
  have others' : ∀ q, q ≠ p → ∀ left, (w.move p).parties q = .closer (.closing left) → left = [] :=
    fun q ne left at_q => others q ne left (((moved_move w p).others q ne).symm.trans at_q)
  rcases place with at_p | ⟨rfl, at_p⟩
  · cases left with
    | cons base left =>
      have step : w.move p = { w with registry := w.registry.close base }.put p
          (.closer (.closing left)) := by rw [Overlap.move, at_p]; rfl
      refine ⟨by rw [step]; exact closed, ⟨shut ++ [base], left, ?_, ?_, .inl ?_⟩, others'⟩
      · rw [same, List.append_assoc]
        rfl
      · rw [step]
        exact shutting.close (held base (by simp [same]))
      · rw [step, put_parties_self]
    | nil =>
      have step : w.move p = w.put p (.closer .done) := by rw [Overlap.move, at_p]; rfl
      refine ⟨by rw [step]; exact closed, ⟨shut, [], same, ?_, .inr ⟨rfl, ?_⟩⟩, others'⟩
      · rw [step]
        exact shutting
      · rw [step, put_parties_self]
  · have step : w.move p = w := by rw [Overlap.move, at_p]; rfl
    rw [step]
    exact ⟨closed, ⟨shut, [], same, shutting, .inr ⟨rfl, at_p⟩⟩, others⟩

/-- Others add to the registry at most. -/
theorem move_other (s : Shutting r bases p w) (h : Invariant w) (ne : q ≠ p) :
    Shutting r bases p (w.move q) ∧ w.registry.Grows (w.move q).registry := by
  obtain ⟨closed, ⟨shut, left, same, shutting, place⟩, others⟩ := s
  have moved := moved_move w q
  have kept : (∀ left, (w.move q).parties q = .closer (.closing left) → left = []) →
      w.registry.Grows (w.move q).registry →
      Shutting r bases p (w.move q) ∧ w.registry.Grows (w.move q).registry := by
    intro own grows
    refine ⟨⟨(h.closed_move closed q).symm ▸ closed, ⟨shut, left, same, shutting.grow grows, ?_⟩,
      fun q' ne' left at_q' => ?_⟩, grows⟩
    · rwa [moved.others p ne.symm]
    · by_cases self : q' = q
      · exact own left (self ▸ at_q')
      · exact others q' ne' left ((moved.others q' self).symm.trans at_q')
  cases moved.effect with
  | quiet _ registry _ _ left' =>
    exact kept (fun left at_q => others q ne left (left' left at_q)) registry
  | installs h' =>
    rw [h'.opened] at closed
    cases closed
  | closes _ _ registry left' =>
    refine kept (fun left at_q => ?_) (registry ▸ .refl _)
    rw [left', (h.ended closed).1] at at_q
    cases at_q
    rfl
  | shuts base left' place' _ _ _ =>
    cases others q ne _ place'

/-- Whoever is shutting goes on to, whatever the others do. -/
theorem run (held : ∀ base ∈ bases, r.get? base ≠ none) (more : List ι) : ∀ {w : Overlap ι},
    Invariant w → Shutting r bases p w → Shutting r bases p (w.run more) := by
  induction more with
  | nil => exact fun _ s => s
  | cons q more ih =>
    intro w h s
    refine ih (h.move q) ?_
    by_cases same : q = p
    · exact same ▸ s.move_self held
    · exact (s.move_other h same).1

/-- The close takes effect by the first step of the party. -/
theorem start (h : Invariant w) (live : w.holder.closed = false) {g : Generation}
    (current : w.holder.current = some g) (at_p : w.parties p = .closer .called) :
    Shutting w.registry g.bases p (w.move p) := by
  have step : w.move p =
      { w with holder := { w.holder with current := none, closed := true } }.put p
        (.closer (.closing g.bases)) := by
    rw [Overlap.move, at_p]
    simp only [moveCloser, current]
  rw [step]
  refine ⟨rfl, ⟨[], g.bases, rfl, .refl _, .inl (put_parties_self ..)⟩, fun q ne left at_q => ?_⟩
  rw [put_parties_of_ne ne] at at_q
  have closed := (h.fine q).closed (by rw [show w.parties q = _ from at_q]; trivial)
  rw [live] at closed
  cases closed

end Shutting

/-! ## Later closes -/

/-- The party closes, and has nothing to do. -/
def Idle (party : Party) : Prop :=
  party = .closer .called ∨ party = .closer (.closing []) ∨ party = .closer .done

/-- Whoever comes to close a closed holder finds nothing to do. -/
theorem Invariant.idle_move (h : Invariant w) (closed : w.holder.closed = true)
    (idle : Idle (w.parties p)) : Idle ((w.move p).parties p) ∧
      (w.move p).holder = w.holder ∧ (w.move p).registry = w.registry := by
  refine ⟨?_, h.closed_move closed p, ?_⟩
  · rcases idle with at_p | at_p | at_p
    · rw [Overlap.move, at_p]
      simp only [moveCloser, (h.ended closed).1, put_parties_self]
      exact .inr (.inl rfl)
    · rw [Overlap.move, at_p]
      simp only [moveCloser, put_parties_self]
      exact .inr (.inr rfl)
    · have step : w.move p = w := by rw [Overlap.move, at_p]; rfl
      exact step.symm ▸ .inr (.inr at_p)
  · rcases idle with at_p | at_p | at_p
    · rw [Overlap.move, at_p]; rfl
    · rw [Overlap.move, at_p]; rfl
    · rw [Overlap.move, at_p]; rfl

/-- Once the holder is closed, whoever has nothing to do stays so. -/
theorem Invariant.idle_run (more : List ι) : ∀ {w : Overlap ι}, Invariant w →
    w.holder.closed = true → Idle (w.parties p) → Idle ((w.run more).parties p) := by
  induction more with
  | nil => exact fun _ _ => id
  | cons q more ih =>
    intro w h closed idle
    refine ih (h.move q) ((h.closed_move closed q).symm ▸ closed) ?_
    by_cases same : p = q
    · subst same
      exact (h.idle_move closed idle).1
    · rwa [(moved_move w q).others p same]

/-- The first generation has the number one. -/
theorem number_load {registry r : Registry} {policy : LimitPolicy} {h : Holder}
    (made : Holder.load registry policy now loaded = .ok (h, r)) :
    ∀ g, h.current = some g → g.number = 1 := by
  unfold Holder.load at made
  split at made
  · cases made
  · split at made
    · cases made
    · split at made
      · cases made
      · cases made
        rintro g ⟨⟩
        rfl

/-! ## The law -/

/-- As long as a holder is open, every knowledge base stays as it is. -/
theorem Invariant.within_run (more : List ι) : ∀ {w : Overlap ι}, Invariant w →
    (w.run more).holder.closed = false → w.registry.Within (w.run more).registry := by
  induction more with
  | nil => exact fun _ _ => .refl _
  | cons p more ih =>
    intro w h live
    have live' : (w.move p).holder.closed = false := by
      by_contra closed
      have frozen := Invariant.frozen more (h.move p) (Bool.eq_true_of_not_eq_false closed)
      rw [show (w.run (p :: more)).holder = _ from frozen] at live
      exact closed live
    refine Registry.Within.trans ?_ (ih (h.move p) live)
    cases (moved_move w p).effect with
    | quiet _ registry _ _ _ => exact registry.within
    | installs h' => exact h'.registry ▸ .refl _
    | closes _ _ registry _ => exact registry ▸ .refl _
    | shuts _ _ place holder _ _ =>
      rw [holder, h.shuts_closed place] at live'
      cases live'

/-- **What the first close does**, from when the party takes the current generation away: nothing
but to close the knowledge bases of that generation, all of them by the time it is done. -/
structure ShutsDown (g : Generation) (p : ι) (w w' : Overlap ι) : Prop where
  shut : w'.parties p = .closer .done → ∀ base ∈ g.bases, ∃ kb,
    w.registry.get? base = some kb ∧ w'.registry.get? base = some kb.close
  spared : ∀ id kb, id ∉ g.bases → w.registry.get? id = some kb → w'.registry.get? id = some kb
  new : ∀ id kb, w.registry.get? id = none → w'.registry.get? id = some kb → kb.closed = false

omit [DecidableEq ι] in
/-- Whoever comes to the end of shutting has shut all. -/
theorem Shutting.shutsDown {g : Generation} (s : Shutting w.registry g.bases p w')
    (held : ∀ base ∈ g.bases, w.registry.get? base ≠ none) : ShutsDown g p w w' := by
  obtain ⟨-, ⟨shut, left, same, closes, place⟩, -⟩ := s
  refine ⟨fun done base member => ?_, fun id kb other before => ?_, closes.new⟩
  · obtain ⟨kb, before⟩ := Option.ne_none_iff_exists'.1 (held base member)
    refine ⟨kb, before, ?_⟩
    have after := closes.old base kb before
    rcases place with at_p | ⟨rfl, -⟩
    · rw [done] at at_p
      cases at_p
    · rw [List.append_nil] at same
      rwa [if_pos (same ▸ member)] at after
  · have after := closes.old id kb before
    rwa [if_neg fun member => other (same ▸ List.mem_append_left _ member)] at after

/-- **What comes of refreshes and closes** that overlap, after some steps of the parties.

Generations are numbered by the refreshes that returned refreshed. As long as the holder is open
there is a current one, and every knowledge base stays as it is. It is closed from the first step of
a party that closes it. From then on it stays as it is, without a current generation, and every
refresh comes to its verdict. The first close closes the knowledge bases of the generation that is
current at that moment, and no others; a later one changes nothing.

Nobody waits for ever. And a call that nobody comes in between is one call of the holder. -/
structure Governed (w : Overlap ι) : Prop where
  counted : ∃ refreshed, Counted w refreshed
  opened : w.holder.closed = false → ∃ g, w.holder.generation = .ok g
  still : ∀ more, (w.run more).holder.closed = false →
    w.registry.Within (w.run more).registry
  closed_iff : w.holder.closed = true ↔ ∃ p, (w.parties p).Closing
  ended : w.holder.closed = true → ∀ more,
    (w.run more).holder = w.holder ∧ (w.run more).holder.generation = .error .closed
  decided : w.holder.closed = true → ∀ more p result,
    ((w.run more).parties p).result? = some result → (w.parties p).verdict? = some result
  firstClose : w.holder.closed = false → ∀ p, w.parties p = .closer .called →
    ∃ g, w.holder.generation = .ok g ∧ ∀ more, ShutsDown g p w (w.run (p :: more))
  laterClose : w.holder.closed = true → ∀ p, w.parties p = .closer .called → ∀ more,
    ((w.run more).move p).holder = (w.run more).holder ∧
      ((w.run more).move p).registry = (w.run more).registry
  returns : ∀ p, ∃ more, ((w.run more).parties p).Done
  refreshAlone : ∀ p now loaded, w.refreshing = none → w.parties p = .refresher now loaded .called →
    let (result, holder, registry) := w.holder.refresh w.registry now loaded
    Leads p w ({ w with holder, registry }.put p (.refresher now loaded (.done result)))
  closeAlone : ∀ p, w.parties p = .closer .called →
    let (holder, registry) := w.holder.close w.registry
    Leads p w ({ w with holder, registry }.put p (.closer .done))

/-- What holds between two moves is what governs them. -/
theorem Invariant.governed (h : Invariant w) (counted : ∃ refreshed, Counted w refreshed) :
    Governed w := by
  constructor
  case counted => exact counted
  case opened =>
    intro live
    obtain ⟨g, current, -⟩ := h.opened live
    exact ⟨g, by rw [generation, current]⟩
  case still => exact fun more => Invariant.within_run more h
  case closed_iff =>
    exact ⟨fun closed => (h.ended closed).2, fun ⟨p, closing⟩ => (h.fine p).closed closing⟩
  case ended =>
    intro closed more
    have frozen := Invariant.frozen more h closed
    exact ⟨frozen, by rw [frozen, generation, (h.ended closed).1]⟩
  case decided =>
    intro closed more p result decided
    rw [← Invariant.verdict_run more h closed p]
    exact Party.verdict?_of_result? decided
  case firstClose =>
    intro live p at_p
    obtain ⟨g, current, stock⟩ := h.opened live
    -- every base of the current generation is in stock, so the closer finds all of them
    have held : ∀ base ∈ g.bases, w.registry.get? base ≠ none := by
      intro base member
      obtain ⟨holding, listed, rfl⟩ := List.mem_map.1 member
      obtain ⟨⟨name, _⟩, entry, rfl⟩ := List.mem_map.1 listed
      obtain ⟨kb, held, -⟩ := stock name _ (Table.mem_toList.1 entry)
      rw [held]
      rintro ⟨⟩
    refine ⟨g, by rw [generation, current], fun more => ?_⟩
    exact (Shutting.run held more (h.move p) (.start h live current at_p)).shutsDown held
  case laterClose =>
    intro closed p at_p more
    have closed' := (Invariant.frozen more h closed).symm ▸ closed
    exact ((h.run more).idle_move closed' (Invariant.idle_run more h closed (.inl at_p))).2
  case returns => exact h.returns
  case refreshAlone => exact fun p now loaded free at_p => leads_refresh at_p free
  case closeAlone => exact fun p at_p => leads_close at_p

/-- **Refreshing and closing, in any order of steps.** Load a holder, and let any parties refresh it
and close it: it is governed after every run. -/
theorem governed_run {registry r : Registry} {policy : LimitPolicy} {h : Holder}
    (made : Holder.load registry policy now loaded = .ok (h, r)) (calls : ι → Call)
    (moves : List ι) : Governed ((new h r calls).run moves) := by
  cases loaded with
  | error e => cases made
  | ok catalog =>
    have loads : Service.Loads registry catalog ⟨h, r⟩ := ⟨policy, now, made⟩
    obtain ⟨live, g, current, stock⟩ := Service.stocked_load loads
    have start := Invariant.start live current stock calls
    exact (start.run moves).governed
      ((Counted.start (number_load made) r calls).run moves start)

/-- The parties of a menagerie: two refreshes, one of them by a changed catalog, and two closes. -/
def keepers (p : Fin 4) : Call :=
  [.refresh 1 (.ok Service.planted), .refresh 2 (.ok Service.menagerie), .close, .close][p]

/-- The first refresh ends refreshed. The second one is loading from its source when the holder is
closed: all that it can come to is closed, it does come to its end, and there is no generation to
look at any more. -/
theorem menagerie_governed :
    let moves : List (Fin 4) := List.replicate 8 0 ++ [1, 1, 2]
    ∃ h r, Holder.load {} .forward 0 (.ok Service.menagerie) = .ok (h, r) ∧
      let w := (new h r keepers).run moves
      (w.parties 0).summary?.map RefreshSummary.generation = some 2 ∧
        (∀ more, (w.run more).holder.generation = .error .closed ∧
          ∀ result, ((w.run more).parties 1).result? = some result → result = .ok .closed) ∧
        ∃ more, ((w.run more).parties 1).Done := by
  intro moves
  have seen : (Holder.load {} .forward 0 (.ok Service.menagerie)).toOption.any (fun l =>
      let w := (new l.1 l.2 keepers).run moves
      (w.parties 0).summary?.map RefreshSummary.generation = some 2 ∧ w.holder.closed = true ∧
        (w.parties 1).verdict? = some (.ok .closed)) = true := by
    decide +kernel
  cases loaded : Holder.load {} .forward 0 (.ok Service.menagerie) with
  | error e =>
    rw [loaded] at seen
    cases seen
  | ok l =>
    rw [loaded] at seen
    obtain ⟨second, closed, verdict⟩ := of_decide_eq_true seen
    have governed := governed_run loaded keepers moves
    refine ⟨l.1, l.2, rfl, second, fun more => ⟨(governed.ended closed more).2, ?_⟩,
      governed.returns 1⟩
    intro result decided
    exact Option.some.inj ((governed.decided closed more 1 result decided).symm.trans verdict)

end Overlap

end Holder

end OntologyService
