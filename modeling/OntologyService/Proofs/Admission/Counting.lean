import Mathlib.Data.List.Nodup
import OntologyService.Admission.Gate

/-!
# What a gate counts

Any number of requests come and go at a gate, and their steps may be mixed in any way: a request is
counted, later it looks whether a shutdown was requested, and if it was let in its guard is shared
and released until the last owner lets go. `Event` lists the steps, `serve` takes one, and a list
of events is a history. A `trace` tells what each step came to, and it is all that the outside sees.

One invariant carries the rest (`Kept`): the count is the number of the guards and of the requests
that are counted and have not looked yet. Beside it every request has an account (`Account`), and
its guard has the owners that it was given and that have not let go. A request that finds the
shutdown requested gets no guard, so from then on no guard is added (`guards_of_requested`), and a
count of zero that is seen after that leaves nobody whom it could have missed.

**The law** (`counts_after`) holds of every history. That the count never falls below zero is part
of it: what was taken off and what is left are together what was put on, so no step ever took one
off a count of zero.
-/

namespace OntologyService

namespace Gate

/-! ## Histories -/

/-- A step at a gate. -/
inductive Event where
  /-- A new request is counted. -/
  | arrive
  /-- A request that was counted looks whether a shutdown was requested. -/
  | look (n : Nat)
  /-- The guard of a request gets one more owner. -/
  | share (n : Nat)
  /-- An owner of the guard of a request lets go. -/
  | release (n : Nat)
  | requestShutdown
  /-- Somebody looks at the count. -/
  | observe
deriving DecidableEq

/-- What a step comes to. -/
inductive Effect where
  /-- The number of a request that was counted. -/
  | counted (n : Nat)
  | letIn
  /-- The request was turned away, and is not counted any more. -/
  | turnedAway
  /-- The number of owners that a guard has now. -/
  | owners (n : Nat)
  /-- Whether it was the first time that a shutdown was requested. -/
  | requested (first : Bool)
  /-- The count as it was seen. -/
  | seen (count : Nat)
  /-- There is no such request at this stage. -/
  | nothing
deriving DecidableEq

/-- Takes a step. -/
def serve (g : Gate) : Event → Effect × Gate
  | .arrive => (.counted g.arrive.1, g.arrive.2)
  | .look n =>
    if n ∈ g.arriving then
      (if (g.look n).1 then .letIn else .turnedAway, (g.look n).2)
    else (.nothing, g)
  | .share n => ((g.share n).1.elim .nothing .owners, (g.share n).2)
  | .release n => ((g.release n).1.elim .nothing .owners, (g.release n).2)
  | .requestShutdown => (.requested g.requestShutdown.1, g.requestShutdown.2)
  | .observe => (.seen g.inFlight, g)

/-- The gate that a history leads to. -/
def after (g : Gate) (history : List Event) : Gate :=
  history.foldl (fun g e => (g.serve e).2) g

/-- The steps of a history, with what each of them came to. -/
def trace (g : Gate) : List Event → List (Event × Effect)
  | [] => []
  | e :: history => (e, (g.serve e).1) :: (g.serve e).2.trace history

/-- How many requests were counted. -/
def arrivals (t : List (Event × Effect)) : Nat := t.countP fun s => decide (s.1 = .arrive)

/-- How many requests were let in. -/
def admissions (t : List (Event × Effect)) : Nat := t.countP fun s => decide (s.2 = .letIn)

/-- How many requests were turned away. -/
def refusals (t : List (Event × Effect)) : Nat := t.countP fun s => decide (s.2 = .turnedAway)

/-- How many guards were let go of by their last owner. -/
def endings (t : List (Event × Effect)) : Nat := t.countP fun s => decide (s.2 = .owners 0)

/-- How many times a request was let in. -/
def letIns (n : Nat) (t : List (Event × Effect)) : Nat :=
  t.countP fun s => decide (s = (.look n, .letIn))

/-- How many owners the guard of a request was given after the first. -/
def shares (n : Nat) (t : List (Event × Effect)) : Nat :=
  t.countP fun s => decide (s.1 = .share n ∧ s.2 ≠ .nothing)

/-- How many owners of the guard of a request have let go. -/
def releases (n : Nat) (t : List (Event × Effect)) : Nat :=
  t.countP fun s => decide (s.1 = .release n ∧ s.2 ≠ .nothing)

/-! ## Guards by their numbers -/

/-- The numbers of the guards. -/
def guarded (g : Gate) : List Nat := g.guards.map Prod.fst

variable {g : Gate} {n k : Nat}

/-- A number that has owners has a guard with so many. -/
theorem mem_guards_of_owners? (owned : g.owners? n = some k) : (n, k) ∈ g.guards := by
  obtain ⟨p, found, rfl⟩ := Option.map_eq_some_iff.1 owned
  obtain ⟨same⟩ : p.1 = n ∧ True := by simpa using List.find?_some found
  exact same ▸ List.mem_of_find?_eq_some found

/-- A number has owners exactly if it has a guard. -/
theorem isSome_owners?_iff : (g.owners? n).isSome = true ↔ n ∈ g.guarded := by
  rw [owners?, Option.isSome_map, List.find?_isSome, guarded, List.mem_map]
  simp only [decide_eq_true_eq]

theorem mem_guarded_of_owners? (owned : g.owners? n = some k) : n ∈ g.guarded :=
  isSome_owners?_iff.1 (by rw [owned]; rfl)

/-- Whose owners change stays guarded, and nobody else becomes so. -/
theorem guarded_withOwners (g : Gate) (n k : Nat) : (g.withOwners n k).guarded = g.guarded := by
  rw [guarded, withOwners, List.map_map, guarded]
  refine List.map_congr_left fun p _ => ?_
  show (if p.1 = n then (n, k) else p).1 = p.1
  split
  · next same => exact same.symm
  · rfl

/-- The gate without the guard of a number, and without its count. -/
def without (g : Gate) (n : Nat) : Gate :=
  { g with guards := g.guards.filter fun p => decide (p.1 ≠ n), inFlight := g.inFlight - 1 }

/-- Without one guard there are no others than before. -/
theorem guarded_without_sublist (g : Gate) (n : Nat) : (g.without n).guarded.Sublist g.guarded :=
  List.filter_sublist.map Prod.fst

/-- How many owners the guard of a number has, if there is one. -/
def owners (g : Gate) (n : Nat) : Nat := (g.owners? n).getD 0

/-- The owners of a guard are those that it is said to have. -/
theorem owners_of_owned (owned : g.owners? n = some k) : g.owners n = k := by
  rw [owners, owned]
  rfl

/-- What has no guard has no owners. -/
theorem owners_of_not_mem (bare : n ∉ g.guarded) : g.owners n = 0 := by
  have none_left : g.owners? n = none :=
    Option.not_isSome_iff_eq_none.1 fun owned => bare (isSome_owners?_iff.1 owned)
  rw [owners, none_left]
  rfl

/-- One guard gets another number of owners, the others keep theirs. -/
theorem owners?_withOwners_of_ne {m : Nat} (other : n ≠ m) (g : Gate) (k : Nat) :
    (g.withOwners n k).owners? m = g.owners? m := by
  have same (p : Nat × Nat) : (if p.1 = n then (n, k) else p).1 = p.1 := by
    split
    · next here => exact here.symm
    · rfl
  rw [owners?, owners?, withOwners, List.find?_map, Option.map_map]
  have search : ((fun p : Nat × Nat => decide (p.1 = m)) ∘ fun p => if p.1 = n then (n, k) else p)
      = fun p => decide (p.1 = m) := funext fun p => by rw [Function.comp, same]
  rw [search]
  cases found : g.guards.find? fun p => decide (p.1 = m) with
  | none => rfl
  | some p =>
    have here : p.1 = m := by simpa using List.find?_some found
    simp [here, other.symm]

/-- One guard goes, the others keep their owners. -/
theorem owners?_without (g : Gate) (n m : Nat) :
    (g.without n).owners? m = if n = m then none else g.owners? m := by
  rw [owners?, without, List.find?_filter]
  split
  · next same =>
    rw [List.find?_eq_none.2, Option.map_none]
    simp [same]
  · next other =>
    have search : (fun p : Nat × Nat => decide (decide (p.1 ≠ n) = true ∧ decide (p.1 = m) = true))
        = fun p => decide (p.1 = m) := funext fun p => by
      by_cases here : p.1 = m
      · simp [here, Ne.symm other]
      · simp [here]
    rw [search, owners?]

/-! ## What a step can do -/

/-- **The moves at a gate**: what each step comes to, and the gate it leads to. -/
inductive Step (g : Gate) : Event → Effect → Gate → Prop where
  | counted : Step g .arrive (.counted g.next) g.arrive.2
  | letIn (n : Nat) (member : n ∈ g.arriving) (isOpen : g.requested = false) :
    Step g (.look n) .letIn { g with arriving := g.arriving.erase n, guards := (n, 1) :: g.guards }
  | turnedAway (n : Nat) (member : n ∈ g.arriving) (closing : g.requested = true) :
    Step g (.look n) .turnedAway
      { g with arriving := g.arriving.erase n, inFlight := g.inFlight - 1 }
  | shared (n k : Nat) (owned : g.owners? n = some k) :
    Step g (.share n) (.owners (k + 1)) (g.withOwners n (k + 1))
  | ended (n k : Nat) (owned : g.owners? n = some k) (last : k ≤ 1) :
    Step g (.release n) (.owners 0) (g.without n)
  | released (n k : Nat) (owned : g.owners? n = some (k + 2)) :
    Step g (.release n) (.owners (k + 1)) (g.withOwners n (k + 1))
  | requested : Step g .requestShutdown (.requested !g.requested) { g with requested := true }
  | seen : Step g .observe (.seen g.inFlight) g
  | nothing (e : Event) (old : e ≠ .arrive) (keeps : e ≠ .requestShutdown) : Step g e .nothing g

/-- A request that looks while no shutdown was requested is let in, with a guard of one owner. -/
theorem look_of_isOpen (member : n ∈ g.arriving) (isOpen : g.requested = false) :
    g.look n
      = (true, { g with arriving := g.arriving.erase n, guards := (n, 1) :: g.guards }) := by
  rw [look, if_pos member, if_neg (by rw [isOpen]; exact Bool.false_ne_true)]

/-- A request that looks after a shutdown was requested is turned away, and not counted any more. -/
theorem look_of_requested (member : n ∈ g.arriving) (closing : g.requested = true) :
    g.look n
      = (false, { g with arriving := g.arriving.erase n, inFlight := g.inFlight - 1 }) := by
  rw [look, if_pos member, if_pos closing]

/-- The last owner to let go takes the guard away. -/
theorem release_last (owned : g.owners? n = some k) (last : k ≤ 1) :
    g.release n = (some 0, g.without n) := by
  rw [release, owned]
  exact if_pos last

/-- An owner that lets go leaves the guard to the others. -/
theorem release_shared (owned : g.owners? n = some (k + 2)) :
    g.release n = (some (k + 1), g.withOwners n (k + 1)) := by
  rw [release, owned]
  exact if_neg (by omega)

/-- A guard that is shared has one owner more. -/
theorem share_of_owned (owned : g.owners? n = some k) :
    g.share n = (some (k + 1), g.withOwners n (k + 1)) := by
  rw [share, owned]

/-- Every step is one of the moves. -/
theorem serve_step (g : Gate) (e : Event) : Step g e (g.serve e).1 (g.serve e).2 := by
  cases e with
  | arrive => exact .counted
  | requestShutdown => exact .requested
  | observe => exact .seen
  | look n =>
    by_cases member : n ∈ g.arriving
    · cases answer : g.requested with
      | false =>
        rw [serve, if_pos member, look_of_isOpen member answer]
        exact .letIn n member answer
      | true =>
        rw [serve, if_pos member, look_of_requested member answer]
        exact .turnedAway n member answer
    · rw [serve, if_neg member]
      exact .nothing _ nofun nofun
  | share n =>
    cases owned : g.owners? n with
    | none =>
      rw [serve, share, owned]
      exact .nothing _ nofun nofun
    | some k =>
      rw [serve, share_of_owned owned]
      exact .shared n k owned
  | release n =>
    match owned : g.owners? n with
    | none =>
      rw [serve, release, owned]
      exact .nothing _ nofun nofun
    | some 0 =>
      rw [serve, release_last owned (Nat.zero_le 1)]
      exact .ended n 0 owned (Nat.zero_le 1)
    | some 1 =>
      rw [serve, release_last owned (Nat.le_refl 1)]
      exact .ended n 1 owned (Nat.le_refl 1)
    | some (k + 2) =>
      rw [serve, release_shared owned]
      exact .released n k owned

/-! ## Coming in and going out at once -/

/-- The gate after a request came in. -/
def entered (g : Gate) : Gate :=
  { g with inFlight := g.inFlight + 1, guards := (g.next, 1) :: g.guards, next := g.next + 1 }

theorem enter_eq (g : Gate) :
    g.enter = (if (g.arrive.2.look g.next).1 then some g.next else none,
      (g.arrive.2.look g.next).2) := rfl

/-- Whoever comes in while no shutdown was requested has a guard. -/
theorem enter_of_isOpen (isOpen : g.requested = false) : g.enter = (some g.next, g.entered) := by
  have looked := look_of_isOpen (g := g.arrive.2) (n := g.next) List.mem_cons_self isOpen
  rw [enter_eq, looked]
  simp only [arrive, List.erase_cons_head, if_true, entered]

/-- Whoever comes in after a shutdown was requested leaves nothing but a number that is used up. -/
theorem enter_of_requested (closing : g.requested = true) :
    g.enter = (none, { g with next := g.next + 1 }) := by
  have looked := look_of_requested (g := g.arrive.2) (n := g.next) List.mem_cons_self closing
  rw [enter_eq, looked]
  simp only [arrive, List.erase_cons_head, Bool.false_eq_true, if_false, Nat.add_sub_cancel]

/-- A guard has the owners that it is given. -/
theorem owners?_withOwners (owned : g.owners? n = some k) (j : Nat) :
    (g.withOwners n j).owners? n = some j := by
  have member : n ∈ (g.withOwners n j).guarded := by
    rw [guarded_withOwners]
    exact mem_guarded_of_owners? owned
  obtain ⟨i, now⟩ := Option.isSome_iff_exists.1 (isSome_owners?_iff.2 member)
  obtain ⟨p, -, same⟩ := List.mem_map.1 (mem_guards_of_owners? now)
  rw [now]
  split at same
  · exact congrArg some (Prod.mk.inj same).2.symm
  · next other => exact absurd (by rw [same]) other

/-- How many owners a guard had is no matter once it is gone. -/
theorem without_withOwners (g : Gate) (n k : Nat) : (g.withOwners n k).without n = g.without n := by
  refine congrArg (fun guards => { g with guards, inFlight := g.inFlight - 1 }) ?_
  show (g.guards.map fun p => if p.1 = n then (n, k) else p).filter _ = g.guards.filter _
  induction g.guards with
  | nil => rfl
  | cons p guards ih =>
    rw [List.map_cons]
    by_cases same : p.1 = n
    · rw [if_pos same, List.filter_cons_of_neg (by simp), List.filter_cons_of_neg (by simp [same])]
      exact ih
    · rw [if_neg same, List.filter_cons_of_pos (by simp [same]),
        List.filter_cons_of_pos (by simp [same]), ih]

/-- Taking all owners from a guard takes the guard away. -/
theorem end'_of_owned (owned : g.owners? n = some k) : g.end' n = g.without n := by
  rw [end', owned]
  show ((g.withOwners n 1).release n).2 = g.without n
  rw [release_last (owners?_withOwners owned 1) (Nat.le_refl 1), without_withOwners]

/-! ## The invariant -/

/-- **What lies between two steps**: the count is right, nobody is at two stages or twice at one,
numbers are given out in order, and every guard has an owner. -/
structure Kept (g : Gate) : Prop where
  count : g.inFlight = g.guards.length + g.arriving.length
  distinct : (g.arriving ++ g.guarded).Nodup
  issued : ∀ n ∈ g.arriving ++ g.guarded, n < g.next
  owned : ∀ p ∈ g.guards, 1 ≤ p.2

/-- A gate that nobody has come to is in order. -/
theorem kept_new : Kept {} where
  count := rfl
  distinct := List.nodup_nil
  issued _ h := absurd h List.not_mem_nil
  owned _ h := absurd h List.not_mem_nil

namespace Kept

/-- Letting go of a guard leaves all the others, since no other has its number. -/
theorem length_without (h : g.Kept) (member : n ∈ g.guarded) :
    (g.without n).guards.length + 1 = g.guards.length := by
  have apart : g.guarded.Nodup := (List.nodup_append.1 h.distinct).2.1
  have rest : (g.without n).guarded = g.guarded.erase n := by
    rw [apart.erase_eq_filter, guarded, without, guarded, List.filter_map]
    refine congrArg (List.map Prod.fst) (List.filter_congr fun p _ => ?_)
    simp only [Function.comp, ne_eq, decide_not, bne]
    rfl
  have lengths := congrArg List.length rest
  rw [guarded, List.length_map, List.length_erase_of_mem member, guarded, List.length_map]
    at lengths
  have some : 0 < g.guarded.length := List.length_pos_of_mem member
  rw [guarded, List.length_map] at some
  omega

/-- A request that is counted has a number of its own. -/
theorem arrive (h : g.Kept) : g.arrive.2.Kept where
  count := by
    show g.inFlight + 1 = g.guards.length + (g.arriving.length + 1)
    rw [h.count, Nat.add_assoc]
  distinct := List.nodup_cons.2 ⟨fun old => Nat.lt_irrefl _ (h.issued _ old), h.distinct⟩
  issued m member := by
    rcases List.mem_cons.1 member with rfl | old
    · exact Nat.lt_succ_self _
    · exact Nat.lt_succ_of_lt (h.issued m old)
  owned := h.owned

/-- A request that is turned away is taken off the count. -/
theorem turnAway (h : g.Kept) (member : n ∈ g.arriving) :
    Kept { g with arriving := g.arriving.erase n, inFlight := g.inFlight - 1 } where
  count := by
    show g.inFlight - 1 = g.guards.length + (g.arriving.erase n).length
    have := List.length_pos_of_mem member
    rw [List.length_erase_of_mem member, h.count]
    omega
  distinct := h.distinct.sublist (List.erase_sublist.append_right g.guarded)
  issued m member := h.issued m ((List.erase_sublist.append_right g.guarded).subset member)
  owned := h.owned

/-- A request that is let in stays on the count, now for its guard. -/
theorem letIn (h : g.Kept) (member : n ∈ g.arriving) :
    Kept { g with arriving := g.arriving.erase n, guards := (n, 1) :: g.guards } where
  count := by
    show g.inFlight = g.guards.length + 1 + (g.arriving.erase n).length
    have := List.length_pos_of_mem member
    rw [List.length_erase_of_mem member, h.count]
    omega
  distinct := by
    -- the number only changes its place
    have moved : (g.arriving.erase n ++ n :: g.guarded).Perm
        (n :: (g.arriving.erase n ++ g.guarded)) := List.perm_middle
    refine (List.Perm.nodup_iff ?_).1 h.distinct
    exact ((List.perm_cons_erase member).append_right g.guarded).trans moved.symm
  issued m at' := by
    refine h.issued m ?_
    rcases List.mem_append.1 at' with still | now
    · exact List.mem_append_left _ (List.mem_of_mem_erase still)
    · rcases List.mem_cons.1 now with rfl | before
      · exact List.mem_append_left _ member
      · exact List.mem_append_right _ before
  owned p at' := by
    rcases List.mem_cons.1 at' with rfl | before
    · exact Nat.le_refl 1
    · exact h.owned p before

/-- A guard may change its owners as long as it has one. -/
theorem withOwners (h : g.Kept) (some : 1 ≤ k) : (g.withOwners n k).Kept where
  count := by
    show g.inFlight = (g.guards.map _).length + g.arriving.length
    rw [List.length_map, h.count]
  distinct := by
    rw [guarded_withOwners]
    exact h.distinct
  issued := by
    rw [guarded_withOwners]
    exact h.issued
  owned p member := by
    obtain ⟨q, before, rfl⟩ := List.mem_map.1 member
    split
    · exact some
    · exact h.owned q before

/-- A guard that goes is taken off the count. -/
theorem without (h : g.Kept) (member : n ∈ g.guarded) : (g.without n).Kept where
  count := by
    show g.inFlight - 1 = (g.without n).guards.length + g.arriving.length
    have := h.length_without member
    rw [h.count]
    omega
  distinct := h.distinct.sublist ((g.guarded_without_sublist n).append_left g.arriving)
  issued m at' := h.issued m (((g.guarded_without_sublist n).append_left g.arriving).subset at')
  owned p at' := h.owned p (List.mem_of_mem_filter at')

/-- Neither the wish to shut down nor a number that was passed over is counted. -/
theorem passing (h : g.Kept) (requested : Bool) {next : Nat} (later : g.next ≤ next) :
    Kept { g with requested, next } where
  count := h.count
  distinct := h.distinct
  issued m member := Nat.lt_of_lt_of_le (h.issued m member) later
  owned := h.owned

/-- Every move keeps the invariant. -/
theorem step {e : Event} {x : Effect} {g' : Gate} (h : g.Kept) (move : Step g e x g') :
    g'.Kept := by
  cases move with
  | counted => exact h.arrive
  | letIn n member isOpen => exact h.letIn member
  | turnedAway n member closing => exact h.turnAway member
  | shared n k owned => exact h.withOwners (Nat.succ_pos k)
  | ended n k owned last => exact h.without (mem_guarded_of_owners? owned)
  | released n k owned => exact h.withOwners (Nat.succ_pos k)
  | requested => exact h.passing true (Nat.le_refl _)
  | seen => exact h
  | nothing e old keeps => exact h

/-- And so does every history. -/
theorem after (h : g.Kept) (history : List Event) : (g.after history).Kept := by
  induction history generalizing g with
  | nil => exact h
  | cons e history ih => exact ih (h.step (g.serve_step e))

/-- A move that takes a request off the count finds it on the count. -/
theorem positive {e : Event} {x : Effect} {g' : Gate} (h : g.Kept) (move : Step g e x g')
    (off : x = .turnedAway ∨ x = .owners 0) : g'.inFlight + 1 = g.inFlight := by
  cases move with
  | turnedAway n member closing =>
    have := List.length_pos_of_mem member
    show g.inFlight - 1 + 1 = g.inFlight
    rw [h.count]
    omega
  | ended n k owned last =>
    have := h.length_without (mem_guarded_of_owners? owned)
    show g.inFlight - 1 + 1 = g.inFlight
    rw [h.count]
    omega
  | _ => simp at off

/-- A request that came in at once is counted for its guard. -/
theorem entered (h : g.Kept) : g.entered.Kept := by
  have inside := h.arrive.letIn (n := g.next) List.mem_cons_self
  rw [show g.arrive.2.arriving.erase g.next = g.arriving from
    List.erase_cons_head ..] at inside
  exact inside

/-- A request that came in and went out again leaves nothing but its number. -/
theorem end'_entered (h : g.Kept) : g.entered.end' g.next = { g with next := g.next + 1 } := by
  have owned : g.entered.owners? g.next = some 1 := by
    rw [owners?, Gate.entered, List.find?_cons_of_pos (by simp)]
    rfl
  -- the guard of the new number is nobody else's
  have others : (g.entered.guards.filter fun p => decide (p.1 ≠ g.next)) = g.guards := by
    rw [Gate.entered, List.filter_cons_of_neg (by simp)]
    refine List.filter_eq_self.2 fun p member => decide_eq_true ?_
    have old : p.1 ∈ g.arriving ++ g.guarded :=
      List.mem_append_right _ (List.mem_map.2 ⟨p, member, rfl⟩)
    exact Nat.ne_of_lt (h.issued p.1 old)
  rw [end'_of_owned owned, Gate.without, others]
  rfl

end Kept

/-! ## The accounts -/

variable {e : Event} {x : Effect} {g' : Gate}

/-- A request that was counted waits, or was let in, or was turned away. -/
theorem Step.arriving (move : Step g e x g') :
    g'.arriving.length + admissions [(e, x)] + refusals [(e, x)]
      = g.arriving.length + arrivals [(e, x)] := by
  cases move with
  | letIn n member isOpen =>
    have := List.length_pos_of_mem member
    show (g.arriving.erase n).length + 1 + 0 = g.arriving.length + 0
    rw [List.length_erase_of_mem member]
    omega
  | turnedAway n member closing =>
    have := List.length_pos_of_mem member
    show (g.arriving.erase n).length + 0 + 1 = g.arriving.length + 0
    rw [List.length_erase_of_mem member]
    omega
  | nothing e old keeps => simp [admissions, refusals, arrivals, old]
  | _ => rfl

/-- A request that was let in has its guard until the last owner lets go. -/
theorem Step.guards (h : g.Kept) (move : Step g e x g') :
    g'.guards.length + endings [(e, x)] = g.guards.length + admissions [(e, x)] := by
  cases move with
  | ended n k owned last => exact h.length_without (mem_guarded_of_owners? owned)
  | shared n k owned => exact congrArg (· + 0) (List.length_map _)
  | released n k owned => exact congrArg (· + 0) (List.length_map _)
  | _ => rfl

/-- Over a history, requests that were counted wait, or were let in, or were turned away. -/
theorem arriving_after (g : Gate) (history : List Event) :
    (g.after history).arriving.length + admissions (g.trace history) + refusals (g.trace history)
      = g.arriving.length + arrivals (g.trace history) := by
  induction history generalizing g with
  | nil => rfl
  | cons e history ih =>
    have now := (g.serve_step e).arriving
    have later := ih (g.serve e).2
    simp only [after, List.foldl_cons, trace, admissions, refusals, arrivals, List.countP_cons,
      List.countP_nil] at now later ⊢
    omega

/-- Over a history, requests that were let in have their guards until the last owners let go. -/
theorem guards_after (h : g.Kept) (history : List Event) :
    (g.after history).guards.length + endings (g.trace history)
      = g.guards.length + admissions (g.trace history) := by
  induction history generalizing g with
  | nil => rfl
  | cons e history ih =>
    have now := (g.serve_step e).guards h
    have later := ih (h.step (g.serve_step e))
    simp only [after, List.foldl_cons, trace, admissions, endings, List.countP_cons,
      List.countP_nil] at now later ⊢
    omega

/-! ## The account of a guard -/

/-- **What a history tells of the guard of a request**: the request is let in once at most, and its
guard has as many owners as it was given and have not let go. -/
structure Account (g : Gate) (t : List (Event × Effect)) (n : Nat) : Prop where
  waits : n ∈ g.arriving ∨ g.next ≤ n → letIns n t = 0
  once : letIns n t ≤ 1
  bare : letIns n t = 0 → shares n t = 0
  balance : g.owners n + releases n t = letIns n t + shares n t

theorem letIns_snoc (n : Nat) (t : List (Event × Effect)) (s : Event × Effect) :
    letIns n (t ++ [s]) = letIns n t + letIns n [s] := List.countP_append

theorem shares_snoc (n : Nat) (t : List (Event × Effect)) (s : Event × Effect) :
    shares n (t ++ [s]) = shares n t + shares n [s] := List.countP_append

theorem releases_snoc (n : Nat) (t : List (Event × Effect)) (s : Event × Effect) :
    releases n (t ++ [s]) = releases n t + releases n [s] := List.countP_append

namespace Account

variable {t : List (Event × Effect)} {s : Event × Effect}

/-- Nothing is told of a request before there is any. -/
theorem new (n : Nat) : ({} : Gate).Account [] n := ⟨fun _ => rfl, Nat.zero_le 1, fun _ => rfl, rfl⟩

/-- A step that does not let a request in leaves it as new as it was. What it does to the owners
of its guard is in balance. -/
theorem carried (h : g.Account t n)
    (fresh : n ∈ g'.arriving ∨ g'.next ≤ n → n ∈ g.arriving ∨ g.next ≤ n)
    (letIn : letIns n [s] = 0) (bare : letIns n t = 0 → shares n [s] = 0)
    (owners : g'.owners n + releases n [s] = g.owners n + shares n [s]) :
    g'.Account (t ++ [s]) n := by
  constructor
  · rw [letIns_snoc, letIn]
    exact fun there => h.waits (fresh there)
  · rw [letIns_snoc, letIn]
    exact h.once
  · rw [letIns_snoc, letIn, shares_snoc]
    exact fun never => by rw [h.bare never, bare never]
  · have balance := h.balance
    rw [letIns_snoc, letIn, shares_snoc, releases_snoc]
    omega

/-- A step that has nothing to do with a request leaves its account as it is. -/
theorem spared (h : g.Account t n) (owners : g'.owners n = g.owners n)
    (fresh : n ∈ g'.arriving ∨ g'.next ≤ n → n ∈ g.arriving ∨ g.next ≤ n)
    (quiet : letIns n [s] = 0 ∧ shares n [s] = 0 ∧ releases n [s] = 0) :
    g'.Account (t ++ [s]) n := by
  obtain ⟨noLetIn, noShare, noRelease⟩ := quiet
  exact h.carried fresh noLetIn (fun _ => noShare) (by rw [owners, noShare, noRelease])

/-- A request that is let in has a guard with one owner. -/
theorem letIn (h : g.Account t n) (kept : g.Kept) (member : n ∈ g.arriving) :
    Account { g with arriving := g.arriving.erase n, guards := (n, 1) :: g.guards }
      (t ++ [(.look n, .letIn)]) n := by
  obtain ⟨apart, -, others⟩ := List.nodup_append.1 kept.distinct
  have never := h.waits (.inl member)
  have none_yet : g.owners n = 0 :=
    owners_of_not_mem fun guarded => others n member n guarded rfl
  have now : Gate.owners
      { g with arriving := g.arriving.erase n, guards := (n, 1) :: g.guards } n = 1 := by
    rw [owners, owners?, List.find?_cons_of_pos (by simp)]
    rfl
  have letIn : letIns n [(.look n, .letIn)] = 1 := by simp [letIns]
  have share : shares n [(.look n, .letIn)] = 0 := by simp [shares]
  have release : releases n [(.look n, .letIn)] = 0 := by simp [releases]
  constructor
  · rintro (still | later)
    · exact absurd rfl (apart.mem_erase_iff.1 still).1
    · exact absurd later (Nat.not_le.2 (kept.issued n (List.mem_append_left _ member)))
  · exact Nat.le_of_eq (by rw [letIns_snoc, letIn, never])
  · intro none_at_all
    rw [letIns_snoc, letIn] at none_at_all
    exact absurd none_at_all (Nat.succ_ne_zero _)
  · have balance := h.balance
    rw [letIns_snoc, letIn, shares_snoc, share, releases_snoc, release, now]
    omega

/-- A guard that has owners is that of a request that was let in. -/
theorem letIns_ne_zero (h : g.Account t n) (kept : g.Kept) (owned : g.owners? n = some k) :
    letIns n t ≠ 0 := by
  intro never
  have some : 1 ≤ k := kept.owned _ (mem_guards_of_owners? owned)
  have balance := h.balance
  rw [never, h.bare never, owners_of_owned owned] at balance
  omega

/-- **Every move** keeps every account. -/
theorem step {e : Event} {x : Effect} (h : g.Account t n) (kept : g.Kept) (move : Step g e x g') :
    g'.Account (t ++ [(e, x)]) n := by
  cases move with
  | counted =>
    refine h.spared rfl ?_ ⟨by simp [letIns], by simp [shares], by simp [releases]⟩
    rintro (waiting | later)
    · rcases List.mem_cons.1 waiting with rfl | before
      · exact .inr (Nat.le_refl _)
      · exact .inl before
    · exact .inr (Nat.le_of_succ_le later)
  | letIn m member isOpen =>
    rcases eq_or_ne m n with rfl | other
    · exact h.letIn kept member
    · refine h.spared ?_ (Or.imp_left List.mem_of_mem_erase)
        ⟨by simp [letIns, other], by simp [shares], by simp [releases]⟩
      -- the guard in front is the other's
      rw [owners, owners?, List.find?_cons_of_neg (by simpa using other)]
      rfl
  | turnedAway m member closing =>
    exact h.spared rfl (Or.imp_left List.mem_of_mem_erase)
      ⟨by simp [letIns], by simp [shares], by simp [releases]⟩
  | shared m k owned =>
    rcases eq_or_ne m n with rfl | other
    · refine h.carried id (by simp [letIns])
        (fun never => absurd never (h.letIns_ne_zero kept owned)) ?_
      rw [owners_of_owned owned, owners_of_owned (owners?_withOwners owned _)]
      simp [shares, releases]
    · refine h.spared ?_ id ⟨by simp [letIns], by simp [shares, other], by simp [releases]⟩
      rw [owners, owners?_withOwners_of_ne other, owners]
  | released m k owned =>
    rcases eq_or_ne m n with rfl | other
    · refine h.carried id (by simp [letIns]) (fun _ => by simp [shares]) ?_
      rw [owners_of_owned owned, owners_of_owned (owners?_withOwners owned _)]
      simp [shares, releases]
    · refine h.spared ?_ id ⟨by simp [letIns], by simp [shares], by simp [releases, other]⟩
      rw [owners, owners?_withOwners_of_ne other, owners]
  | ended m k owned last =>
    rcases eq_or_ne m n with rfl | other
    · -- whoever ends a guard is its last owner
      have one : k = 1 := Nat.le_antisymm last (kept.owned _ (mem_guards_of_owners? owned))
      refine h.carried id (by simp [letIns]) (fun _ => by simp [shares]) ?_
      rw [owners_of_owned owned, one, owners, owners?_without, if_pos rfl]
      simp [shares, releases]
    · refine h.spared ?_ id ⟨by simp [letIns], by simp [shares], by simp [releases, other]⟩
      rw [owners, owners?_without, if_neg other, owners]
  | requested | seen =>
    exact h.spared rfl id ⟨by simp [letIns], by simp [shares], by simp [releases]⟩
  | nothing e old keeps =>
    exact h.spared rfl id ⟨by simp [letIns], by simp [shares], by simp [releases]⟩

/-- And so does every history. -/
theorem after (h : g.Account t n) (kept : g.Kept) (history : List Event) :
    (g.after history).Account (t ++ g.trace history) n := by
  induction history generalizing g t with
  | nil => exact (List.append_nil t).symm ▸ h
  | cons e history ih =>
    have move := g.serve_step e
    have next := ih (h.step kept move) (kept.step move)
    rw [List.append_assoc] at next
    exact next

/-- **A request that was let in** keeps its guard until as many owners have let go as it was given,
and no other request has a guard. -/
theorem owners?_eq_some_iff (h : g.Account t n) (kept : g.Kept) : g.owners? n = some k ↔
    1 ≤ k ∧ (.look n, .letIn) ∈ t ∧ k + releases n t = 1 + shares n t := by
  have balance := h.balance
  have once := h.once
  have among : (.look n, .letIn) ∈ t ↔ letIns n t ≠ 0 := by simp [letIns]
  rw [among]
  constructor
  · intro owned
    have never := h.letIns_ne_zero kept owned
    rw [owners_of_owned owned] at balance
    exact ⟨kept.owned _ (mem_guards_of_owners? owned), never, by omega⟩
  · rintro ⟨some, letIn, left⟩
    cases owned : g.owners? n with
    | none =>
      rw [owners, owned, Option.getD_none] at balance
      omega
    | some j =>
      rw [owners_of_owned owned] at balance
      exact congrArg Option.some (by omega)

end Account

/-! ## Once a shutdown was requested -/

/-- The wish to shut down comes by its own move, and stays. -/
theorem Step.requested_eq (move : Step g e x g') :
    g'.requested = (g.requested || decide (e = .requestShutdown)) := by
  cases move with
  | requested => exact (Bool.or_true _).symm
  | nothing e old keeps => rw [decide_eq_false keeps, Bool.or_false]
  | _ => exact (Bool.or_false _).symm

/-- A shutdown was requested if it had been, or if the history has a step that requests it. -/
theorem requested_after (g : Gate) (history : List Event) :
    (g.after history).requested = (g.requested || decide (.requestShutdown ∈ history)) := by
  induction history generalizing g with
  | nil => exact (Bool.or_false _).symm
  | cons e history ih =>
    refine (ih (g.serve e).2).trans ?_
    rw [(g.serve_step e).requested_eq, Bool.or_assoc]
    refine congrArg (g.requested || ·) ?_
    rw [← Bool.decide_or]
    exact decide_eq_decide.2 (List.mem_cons.trans (or_congr_left eq_comm)).symm

/-- Once a shutdown was requested, no move adds a guard. -/
theorem Step.guarded_subset (closing : g.requested = true) (move : Step g e x g') :
    g'.guarded ⊆ g.guarded := by
  cases move with
  | letIn n member isOpen => exact absurd (isOpen.symm.trans closing) Bool.false_ne_true
  | shared n k owned => exact fun m member => g.guarded_withOwners n (k + 1) ▸ member
  | released n k owned => exact fun m member => g.guarded_withOwners n (k + 1) ▸ member
  | ended n k owned last => exact (g.guarded_without_sublist n).subset
  | _ => exact List.Subset.refl _

/-- Once a shutdown was requested, no history adds a guard. -/
theorem guards_of_requested (closing : g.requested = true) (history : List Event) :
    (g.after history).guarded ⊆ g.guarded := by
  induction history generalizing g with
  | nil => exact List.Subset.refl _
  | cons e history ih =>
    have move := g.serve_step e
    have still : (g.serve e).2.requested = true := by rw [move.requested_eq, closing, Bool.true_or]
    exact List.Subset.trans (ih still) (move.guarded_subset closing)

/-! ## The law -/

/-- **What a gate that a history led to counts.** -/
structure Counts (history : List Event) (g : Gate) (t : List (Event × Effect)) : Prop where
  /-- The count is the number of the guards and of the requests between their two steps. -/
  count : g.inFlight = g.guards.length + g.arriving.length
  /-- The guards are those of the requests that were let in, until their last owners let go. -/
  guards : g.guards.length + endings t = admissions t
  /-- A request that was let in keeps its guard until as many owners have let go as it was given. -/
  owners_iff : ∀ n k, g.owners? n = some k ↔
    1 ≤ k ∧ (.look n, .letIn) ∈ t ∧ k + releases n t = 1 + shares n t
  /-- Nothing is taken off that was not put on. -/
  balance : g.inFlight + refusals t + endings t = arrivals t
  /-- Every step that takes one off finds the count above zero. -/
  positive : ∀ e, (g.serve e).1 = .turnedAway ∨ (g.serve e).1 = .owners 0 →
    (g.serve e).2.inFlight + 1 = g.inFlight
  /-- To request a shutdown tells whether nobody has done it before. -/
  first : (g.serve .requestShutdown).1 = .requested (decide (.requestShutdown ∉ history))
  /-- A count of zero after a shutdown was requested leaves no guard, then and later. -/
  drains : g.requested = true → (g.serve .observe).1 = .seen 0 →
    ∀ (later : List Event) (n : Nat), (g.after later).owners? n = none

/-- **The law of the gate**: however the steps of any number of requests are mixed, the count is
right, and no request that was let in is missed by whoever waits for it to be zero. -/
theorem counts_after (history : List Event) :
    Counts history (({} : Gate).after history) (({} : Gate).trace history) := by
  have kept := kept_new.after history
  have guards := guards_after kept_new history
  have arriving := arriving_after {} history
  rw [show ({} : Gate).guards.length = 0 from rfl, Nat.zero_add] at guards
  rw [show ({} : Gate).arriving.length = 0 from rfl, Nat.zero_add] at arriving
  have owners_iff (n k : Nat) : (({} : Gate).after history).owners? n = some k ↔ _ :=
    ((Account.new n).after kept_new history).owners?_eq_some_iff kept
  refine ⟨kept.count, guards, owners_iff, ?_, fun e => kept.positive (serve_step _ e), ?_, ?_⟩
  · rw [kept.count]
    omega
  · show Effect.requested (!(({} : Gate).after history).requested) = _
    rw [requested_after, show ({} : Gate).requested = false from rfl, Bool.false_or, decide_not]
  · intro closing zero later n
    have none_left : (({} : Gate).after history).guards = [] := by
      have zero : (({} : Gate).after history).inFlight = 0 := by injection zero
      exact List.eq_nil_of_length_eq_zero (by have := kept.count; omega)
    have noGuard : n ∉ ((({} : Gate).after history).after later).guarded := by
      intro member
      have before := guards_of_requested closing later member
      rw [guarded, none_left] at before
      exact List.not_mem_nil before
    exact Option.not_isSome_iff_eq_none.1 (fun owned => noGuard (isSome_owners?_iff.1 owned))

/-- A request that was counted before a shutdown was requested, and looked after it, is not let in;
another that was let in before is waited for. -/
example :
    (({} : Gate).trace
      [.arrive, .look 0, .arrive, .requestShutdown, .look 1, .observe, .release 0, .observe]).map
        Prod.snd
      = [.counted 0, .letIn, .counted 1, .requested true, .turnedAway, .seen 1, .owners 0, .seen 0]
    := rfl

end Gate

end OntologyService
