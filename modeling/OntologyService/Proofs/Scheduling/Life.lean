import Mathlib.Data.List.TakeWhile
import OntologyService.Scheduling.Workshop

/-!
# The life of a loop

Whatever the others in a workshop do, a loop by itself has few steps: it starts a run, takes the
result of the run that it started, sees the wish to stop, and exits (`JobLoop.Turns`). So what it
has gone through is a word of one shape (`Life`): runs one after the other, and then, once the wish
to stop was seen, nothing but the exit.

What a loop counts is read off that word (`Life.counted`): the runs whose results it took before it
saw the wish to stop. A run that was in progress then, or had returned and was not looked at, is not
among them.
-/

namespace OntologyService

namespace JobLoop

/-- **What a loop can go through** by its own steps, short of its exit. -/
inductive Turns (l : JobLoop) : Turn → JobLoop → Prop where
  | started (idle : l.phase = .waiting) (wanted : l.shouldStop = false) :
    Turns l .started { l with phase := .running }
  | completed (busy : l.phase = .running) (wanted : l.shouldStop = false) :
    Turns l .completed { l with phase := .waiting, runs := l.runs + 1 }
  | stopped (alive : l.phase = .waiting ∨ l.phase = .running) (unwanted : l.shouldStop = true) :
    Turns l .stopped { l with phase := .stopping }

/-- A tick does nothing, or is a turn that completes no run. -/
theorem tick_cases (l : JobLoop) : l.tick = l ∨ ∃ t, l.Turns t l.tick ∧ t ≠ .completed := by
  cases phase : l.phase with
  | waiting =>
    rw [tick, phase]
    refine .inr ?_
    cases wish : l.shouldStop with
    | true => exact ⟨.stopped, .stopped (.inl phase) wish, nofun⟩
    | false => exact ⟨.started, .started phase wish, nofun⟩
  | running | stopping | exited => exact .inl (by rw [tick, phase])

/-- The return of a run does nothing, or is a turn. -/
theorem complete_cases (l : JobLoop) : l.complete = l ∨ ∃ t, l.Turns t l.complete := by
  cases phase : l.phase with
  | running =>
    rw [complete, phase]
    refine .inr ?_
    cases wish : l.shouldStop with
    | true => exact ⟨_, .stopped (.inr phase) wish⟩
    | false => exact ⟨_, .completed phase wish⟩
  | waiting | stopping | exited => exact .inl (by rw [complete, phase])

/-- Noticing a cancellation does nothing, or stops the loop. -/
theorem notice_cases (l : JobLoop) : l.notice = l ∨ l.Turns .stopped l.notice := by
  cases wish : l.shouldStop with
  | false =>
    refine .inl ?_
    unfold notice
    rw [wish]
    split <;> rfl
  | true =>
    cases phase : l.phase with
    | waiting =>
      rw [notice, phase]
      dsimp only
      rw [if_pos wish]
      exact .inr (.stopped (.inl phase) wish)
    | running =>
      rw [notice, phase]
      dsimp only
      rw [if_pos wish]
      exact .inr (.stopped (.inr phase) wish)
    | stopping | exited => exact .inl (by rw [notice, phase])

/-- What a loop goes through shows in its phase. -/
theorem Turns.turn? {l l' : JobLoop} {t : Turn} (turns : l.Turns t l') :
    l.phase.turn? l'.phase = some t := by
  cases turns with
  | started idle wanted => rw [idle]; rfl
  | completed busy wanted => rw [busy]; rfl
  | stopped alive unwanted =>
    rcases alive with idle | busy
    · rw [idle]; rfl
    · rw [busy]; rfl

/-- A turn does not change whose loop it is. -/
theorem Turns.job {l l' : JobLoop} {t : Turn} (turns : l.Turns t l') : l'.job = l.job := by
  cases turns <;> rfl

/-- None of them begins or ends at the exit. -/
theorem Turns.alive {l l' : JobLoop} {t : Turn} (turns : l.Turns t l') :
    l.phase ≠ .exited ∧ l'.phase ≠ .exited := by
  cases turns with
  | started idle wanted => exact ⟨by rw [idle]; nofun, nofun⟩
  | completed busy wanted => exact ⟨by rw [busy]; nofun, nofun⟩
  | stopped alive unwanted => exact ⟨by rcases alive with h | h <;> rw [h] <;> nofun, nofun⟩

end JobLoop

/-- **The life of a loop**, as far as it has gone: runs one after the other, each completed before
the next is started, until the wish to stop is seen; then nothing but the exit. -/
inductive Life : LoopPhase → Nat → List Turn → Prop where
  | new : Life .waiting 0 []
  | started {runs : Nat} {ts : List Turn} : Life .waiting runs ts →
    Life .running runs (ts ++ [.started])
  | completed {runs : Nat} {ts : List Turn} : Life .running runs ts →
    Life .waiting (runs + 1) (ts ++ [.completed])
  | stopped {phase : LoopPhase} {runs : Nat} {ts : List Turn}
      (alive : phase = .waiting ∨ phase = .running) : Life phase runs ts →
    Life .stopping runs (ts ++ [.stopped])
  | exited {runs : Nat} {ts : List Turn} : Life .stopping runs ts →
    Life .exited runs (ts ++ [.exited])

namespace Life

variable {phase : LoopPhase} {runs : Nat} {ts : List Turn}

/-- A turn of a loop continues its life. -/
theorem turns {l l' : JobLoop} {t : Turn} (h : Life l.phase l.runs ts) (turns : l.Turns t l') :
    Life l'.phase l'.runs (ts ++ [t]) := by
  cases turns with
  | started idle wanted => exact .started (idle ▸ h)
  | completed busy wanted => exact .completed (busy ▸ h)
  | stopped alive unwanted => exact .stopped alive h

/-- The runs that were completed are counted. -/
theorem count_completed (h : Life phase runs ts) : ts.count .completed = runs := by
  induction h with
  | new => rfl
  | started _ ih | stopped _ _ ih | exited _ ih =>
    rw [List.count_append, ih]
    rfl
  | completed _ ih =>
    rw [List.count_append, ih]
    rfl

/-- A loop has stopped if and only if it is on its way out or out. -/
theorem stopped_mem_iff (h : Life phase runs ts) :
    .stopped ∈ ts ↔ phase = .stopping ∨ phase = .exited := by
  induction h with
  | new => simp
  | started _ ih | completed _ ih | exited _ ih => simp [ih]
  | stopped _ _ ih => simp

/-- A loop has exited if and only if it is out. -/
theorem exited_mem_iff (h : Life phase runs ts) : .exited ∈ ts ↔ phase = .exited := by
  induction h with
  | new => simp
  | started _ ih | completed _ ih => simp [ih]
  | stopped alive _ ih => rcases alive with rfl | rfl <;> simp [ih]
  | exited _ ih => simp

/-- Something that is in a list with one more at the end is that one, or in front of it. -/
theorem split_snoc {t u : Turn} {front back : List Turn} (split : ts ++ [t] = front ++ u :: back) :
    back = [] ∧ t = u ∨ ∃ rest, back = rest ++ [t] ∧ ts = front ++ u :: rest := by
  rcases List.eq_nil_or_concat back with rfl | ⟨rest, last, rfl⟩
  · exact .inl ⟨rfl, (List.cons.inj (List.append_inj' split rfl).2).1⟩
  · rw [List.concat_eq_append, ← List.cons_append, ← List.append_assoc] at split
    obtain ⟨same, ends⟩ := List.append_inj' split rfl
    rw [List.concat_eq_append, (List.cons.inj ends).1]
    exact .inr ⟨rest, rfl, same⟩

/-- **After the wish to stop was seen** there is nothing but the exit. -/
theorem after_stopped (h : Life phase runs ts) {front back : List Turn}
    (split : ts = front ++ .stopped :: back) :
    phase = .stopping ∧ back = [] ∨ phase = .exited ∧ back = [.exited] := by
  induction h generalizing back with
  | new => exact absurd split.symm (List.append_ne_nil_of_right_ne_nil _ (List.cons_ne_nil _ _))
  | started life | completed life =>
    rcases split_snoc split with ⟨-, other⟩ | ⟨rest, -, earlier⟩
    · cases other
    · have seen := life.stopped_mem_iff.1 (earlier ▸ List.mem_append_right _ List.mem_cons_self)
      simp at seen
  | stopped alive life =>
    rcases split_snoc split with ⟨nil, -⟩ | ⟨rest, -, earlier⟩
    · exact .inl ⟨rfl, nil⟩
    · have seen := life.stopped_mem_iff.1 (earlier ▸ List.mem_append_right _ List.mem_cons_self)
      rcases alive with rfl | rfl <;> simp at seen
  | exited _ ih =>
    rcases split_snoc split with ⟨-, other⟩ | ⟨rest, more, earlier⟩
    · cases other
    · rcases ih earlier with ⟨-, nil⟩ | ⟨absurd', -⟩
      · exact .inr ⟨rfl, by rw [more, nil, List.nil_append]⟩
      · cases absurd'

/-- **What is counted** are the runs that were completed before the wish to stop was seen. -/
theorem counted (h : Life phase runs ts) :
    (ts.takeWhile fun t => decide (t ≠ .stopped)).count .completed = runs := by
  by_cases seen : .stopped ∈ ts
  · obtain ⟨front, back, split, early⟩ := List.eq_append_cons_of_mem seen
    have late : back.count .completed = 0 := by
      rcases h.after_stopped split with ⟨-, rfl⟩ | ⟨-, rfl⟩ <;> rfl
    have whole := h.count_completed
    rw [split, List.count_append, List.count_cons_of_ne (by decide), late] at whole
    rw [split, List.takeWhile_append_of_pos, List.takeWhile_cons_of_neg (by decide),
      List.append_nil]
    · exact whole
    · exact fun t among => decide_eq_true fun same => early (same ▸ among)
  · rw [List.takeWhile_eq_self_iff.2]
    · exact h.count_completed
    · exact fun t among => decide_eq_true fun same => seen (same ▸ among)

end Life

/-- Two loops that are at the same point of their lives. -/
def JobLoop.Alike (l k : JobLoop) : Prop :=
  l.phase = k.phase ∧ l.runs = k.runs ∧ l.cancelled = k.cancelled

theorem JobLoop.Alike.of_eq {l k : JobLoop} (same : l = k) : l.Alike k := same ▸ ⟨rfl, rfl, rfl⟩

/-- **Where a loop stands** that has gone through `ts`, with so many runs that are being carried out
and that have returned, and so many cancellations that succeeded. -/
structure Standing (l : JobLoop) (ts : List Turn) (busy returned cancellations : Nat) : Prop where
  life : Life l.phase l.runs ts
  overlap : busy ≤ 1
  idle : l.phase = .waiting → busy = 0
  accounted : returned + busy = ts.count .started
  cancelled : cancellations ≤ if l.cancelled then 1 else 0

namespace Standing

variable {l l' : JobLoop} {ts : List Turn} {busy returned cancellations : Nat}

/-- A new loop has nothing to its account. -/
theorem new {job : String} : Standing { job } [] 0 0 0 where
  life := .new
  overlap := Nat.zero_le 1
  idle _ := rfl
  accounted := rfl
  cancelled := Nat.zero_le _

/-- A loop that is alike stands where the other does. -/
theorem alike (h : Standing l ts busy returned cancellations) (alike : l'.Alike l) :
    Standing l' ts busy returned cancellations := by
  obtain ⟨phase, runs, cancelled⟩ := alike
  exact {
    life := by rw [phase, runs]; exact h.life
    overlap := h.overlap
    idle := fun waiting => h.idle (phase ▸ waiting)
    accounted := h.accounted
    cancelled := by rw [cancelled]; exact h.cancelled }

/-- A loop is cancelled once at most. -/
theorem once (h : Standing l ts busy returned cancellations) : cancellations ≤ 1 := by
  have bound := h.cancelled
  split at bound
  · exact bound
  · exact Nat.le_trans bound (Nat.zero_le 1)

/-- A cancellation that is refused. -/
theorem refused (h : Standing l ts busy returned cancellations) :
    Standing { l with cancelled := true } ts busy returned cancellations :=
  { life := h.life, overlap := h.overlap, idle := h.idle, accounted := h.accounted,
    cancelled := h.once }

/-- A cancellation that succeeds is the first. -/
theorem cancel (h : Standing l ts busy returned cancellations) (first : l.cancelled = false) :
    Standing { l with cancelled := true } ts busy returned (cancellations + 1) where
  life := h.life
  overlap := h.overlap
  idle := h.idle
  accounted := h.accounted
  cancelled := by
    have never := h.cancelled
    rw [first] at never
    exact Nat.succ_le_succ never

/-- The return of a run moves it from the busy to the returned. -/
theorem runReturned (h : Standing l ts (busy + 1) returned cancellations) :
    Standing l ts busy (returned + 1) cancellations where
  life := h.life
  overlap := Nat.le_of_succ_le h.overlap
  idle waiting := absurd (h.idle waiting) (Nat.succ_ne_zero busy)
  accounted := by rw [← h.accounted]; omega
  cancelled := h.cancelled

/-- A step of the loop itself. The result of a run is taken only when the run has returned. -/
theorem turn {t : Turn} (h : Standing l ts busy returned cancellations) (turns : l.Turns t l')
    (done : t = .completed → busy = 0) :
    Standing l' (ts ++ [t]) (if t = .started then busy + 1 else busy) returned cancellations := by
  have life := h.life.turns turns
  have accounted := h.accounted
  cases turns with
  | started idle wanted =>
    have free := h.idle idle
    exact {
      life := life
      overlap := by rw [free]; exact Nat.le_refl 1
      idle := nofun
      accounted := by
        rw [List.count_append, ← accounted]
        rfl
      cancelled := h.cancelled }
  | completed busy' wanted =>
    exact {
      life := life
      overlap := h.overlap
      -- a loop waits again only once its run has returned
      idle := fun _ => done rfl
      accounted := by
        rw [List.count_append, ← accounted]
        rfl
      cancelled := h.cancelled }
  | stopped alive unwanted =>
    exact {
      life := life
      overlap := h.overlap
      idle := nofun
      accounted := by
        rw [List.count_append, ← accounted]
        rfl
      cancelled := h.cancelled }

/-- A loop that is stopping may exit, and its account stands. -/
theorem exit (h : Standing l ts busy returned cancellations) (ready : l.phase = .stopping) :
    Standing { l with phase := .exited } (ts ++ [.exited]) busy returned cancellations where
  life := .exited (ready ▸ h.life)
  overlap := h.overlap
  idle := nofun
  accounted := by
    rw [List.count_append, h.accounted]
    rfl
  cancelled := h.cancelled

end Standing

end OntologyService
