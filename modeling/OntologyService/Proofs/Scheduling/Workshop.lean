import OntologyService.Proofs.Scheduling.Registry

/-!
# Jobs at work, in order

Those who hold the handles of jobs, the loops and the workers take their steps in any order, but
what a step can do is little (`serve_step`). For the registry it is one of the three things that
keep it (`Step.registered`). For a loop it is nothing, or a wish, or a run that returns, or one of
the loop's own steps, and each of them leaves the loop where its history says it is
(`Stands.step`). A worker may still be at a run that the loop has given up; but such a loop starts
no other, so no two runs of a loop are ever carried out at a time.

**The law** (`lawful_after`) is what holds of a workshop after every history: of the registry, in
which a job that was scheduled has a loop that lives until it exits, of what is refused, and of the
runs and the cancellations of every loop. A run is completed when the loop takes its result. One
that returns when the wish to stop is there already is not counted, because the loop looks at the
wish first.
-/

namespace OntologyService

/-! ## Steps in the workshop -/

namespace Workshop

variable {w w' : Workshop} {t : List Effect} {eff : Effect} {n m : Nat} {l : JobLoop}

/-- **What a step can do.** A loop takes the result of a run only when the run has returned. -/
inductive Step (w : Workshop) : Effect → Workshop → Prop where
  | idle : Step w .nothing w
  | refused (e : SchedulingError) : Step w (.refused e) w
  | scheduled (job : String) (free : job ∉ w.scheduler.active) :
    Step w (.scheduled job w.scheduler.loops.length)
      { w with
        scheduler.active := w.scheduler.active.insert job
        scheduler.loops := w.scheduler.loops ++ [{ job }] }
  | cancelled {n : Nat} {l : JobLoop} (there : w.scheduler.loop? n = some l)
      (first : l.cancelled = false) :
    Step w (.cancelled n) { w with scheduler := w.scheduler.put n { l with cancelled := true } }
  | notCancelled {n : Nat} {l : JobLoop} (e : ShutdownError)
      (there : w.scheduler.loop? n = some l) :
    Step w (.notCancelled e)
      { w with scheduler := w.scheduler.put n { l with cancelled := true } }
  | abandoned {n : Nat} {l : JobLoop} (there : w.scheduler.loop? n = some l) :
    Step w (.abandoned n) { w with scheduler := w.scheduler.put n { l with abandoned := true } }
  | returned {n : Nat} (busy : n ∈ w.busy) :
    Step w (.returned n) { w with busy := w.busy.erase n }
  | turned {n : Nat} {l l' : JobLoop} {t : Turn} (there : w.scheduler.loop? n = some l)
      (turns : l.Turns t l') (returned : t = .completed → n ∉ w.busy) :
    Step w (.turned n t)
      { scheduler := w.scheduler.put n l', busy := if t = .started then n :: w.busy else w.busy }
  | exited {n : Nat} {l : JobLoop} (there : w.scheduler.loop? n = some l)
      (ready : l.phase = .stopping) :
    Step w (.turned n .exited)
      { w with scheduler := (w.scheduler.free l.job).put n { l with phase := .exited } }

/-- A job whose handle is held has a loop. -/
theorem loop?_of_isHeld (held : w.isHeld n = true) : ∃ l, w.scheduler.loop? n = some l := by
  cases there : w.scheduler.loop? n with
  | none =>
    rw [isHeld, there] at held
    cases held
  | some l => exact ⟨l, rfl⟩

/-- A workshop whose scheduler does nothing has no turn. -/
theorem turn?_self (w : Workshop) (n : Nat) : w.turn? n w.scheduler = none := by
  unfold turn?
  cases w.scheduler.loop? n with
  | none => rfl
  | some l => rcases l with ⟨-, _ | _ | _ | _, -⟩ <;> rfl

/-- The turn of a loop that is put is told from its phases. -/
theorem turn?_put {s : Scheduler} {l' : JobLoop} (there : w.scheduler.loop? n = some l)
    (there' : s.loop? n = some l) : w.turn? n (s.put n l') = l.phase.turn? l'.phase := by
  rw [turn?, there, Scheduler.loop?_put there']

/-- A loop on its own either stays or takes one of its steps. -/
theorem advance_step {f : JobLoop → JobLoop}
    (go : ∀ l, w.scheduler.loop? n = some l →
      f l = l ∨ ∃ t, l.Turns t (f l) ∧ (t = .completed → n ∉ w.busy)) :
    w.Step (w.advance n (w.scheduler.change n f)).1 (w.advance n (w.scheduler.change n f)).2 := by
  have stays (same : w.scheduler.change n f = w.scheduler) :
      w.Step (w.advance n (w.scheduler.change n f)).1
        (w.advance n (w.scheduler.change n f)).2 := by
    rw [same, advance, turn?_self]
    exact .idle
  cases there : w.scheduler.loop? n with
  | none => exact stays (Scheduler.change_eq_self fun l here => nomatch there.symm.trans here)
  | some l =>
    rcases go l there with same | ⟨t, turns, returned⟩
    · refine stays (Scheduler.change_eq_self fun k here => ?_)
      cases there.symm.trans here
      exact same
    · rw [Scheduler.change_eq_put there, advance, turn?_put there there, turns.turn?]
      exact .turned there turns returned

/-- **Every event** comes to one of these steps. -/
theorem serve_step (w : Workshop) (e : Event) : w.Step (w.serve e).1 (w.serve e).2 := by
  cases e with
  | schedule job zeroPeriod hasRuntime =>
    rw [serve]
    rcases w.scheduler.schedule_cases job zeroPeriod hasRuntime with ⟨e, refused⟩ | ⟨free, taken⟩
    · rw [refused]
      exact .refused e
    · rw [taken]
      exact .scheduled job free
  | cancel n =>
    rw [serve]
    by_cases held : w.isHeld n = true
    · rw [if_pos held]
      obtain ⟨l, there⟩ := loop?_of_isHeld held
      rcases Scheduler.cancel_cases there with ⟨e, refused⟩ | ⟨first, done⟩
      · rw [refused]
        exact .notCancelled e there
      · rw [done]
        exact .cancelled there first
    · rw [if_neg held]
      exact .idle
  | letGo n =>
    rw [serve]
    by_cases held : w.isHeld n = true
    · obtain ⟨l, there⟩ := loop?_of_isHeld held
      rw [if_pos held, Scheduler.abandon, Scheduler.change_eq_put there]
      exact .abandoned there
    · rw [if_neg held]
      exact .idle
  | finish n =>
    rw [serve]
    by_cases busy : n ∈ w.busy
    · rw [if_pos busy]
      exact .returned busy
    · rw [if_neg busy]
      exact .idle
  | tick n =>
    refine advance_step fun l _ => l.tick_cases.imp_right ?_
    rintro ⟨t, turns, other⟩
    exact ⟨t, turns, fun done => absurd done other⟩
  | complete n =>
    rw [serve]
    -- a run that is still carried out cannot be over
    by_cases busy : n ∈ w.busy
    · rw [if_pos busy]
      exact .idle
    · rw [if_neg busy]
      refine advance_step fun l _ => l.complete_cases.imp_right ?_
      rintro ⟨t, turns⟩
      exact ⟨t, turns, fun _ => busy⟩
  | notice n =>
    exact advance_step fun l _ => l.notice_cases.imp_right fun turns => ⟨.stopped, turns, nofun⟩
  | exit n =>
    rw [serve]
    rcases w.scheduler.exit_cases n with same | ⟨l, there, ready, gone⟩
    · rw [same, advance, turn?_self]
      exact .idle
    · have through : w.turn? n (w.scheduler.exit n) = some .exited := by
        rw [gone]
        exact (turn?_put there there).trans (by rw [ready]; rfl)
      rw [advance, through, gone]
      exact .exited there ready

/-! ## The history of a loop -/

/-- What a loop goes through in a step. -/
def Effect.turn? (n : Nat) : Effect → Option Turn
  | .turned m t => if m = n then some t else none
  | _ => none

/-- What a loop has gone through. -/
def turns (n : Nat) (t : List Effect) : List Turn := t.filterMap (Effect.turn? n)

/-- The turns of a loop over a history are followed by its turn in the last effect. -/
theorem turns_snoc (n : Nat) (t : List Effect) (eff : Effect) :
    turns n (t ++ [eff]) = turns n t ++ (eff.turn? n).toList := by
  rw [turns, List.filterMap_append]
  cases h : eff.turn? n <;> simp [turns, h]

/-- Where the loop of a number stands after a history that came to a trace. -/
def Stands (w : Workshop) (t : List Effect) (n : Nat) : Prop :=
  Standing (w.scheduler.loop n) (turns n t) (w.busy.count n) (t.count (.returned n))
    (t.count (.cancelled n))

/-- An effect that is no turn of a loop leaves its turns as they were. -/
theorem Stands.of_quiet (quiet : eff.turn? n = none)
    (h : Standing (w'.scheduler.loop n) (turns n t) (w'.busy.count n)
      (t.count (.returned n) + [eff].count (.returned n))
      (t.count (.cancelled n) + [eff].count (.cancelled n))) : Stands w' (t ++ [eff]) n := by
  rw [Stands, turns_snoc, quiet, List.count_append, List.count_append, Option.toList,
    List.append_nil]
  exact h

/-- A turn of a loop is the last of its turns. -/
theorem Stands.of_turned {turn : Turn}
    (h : Standing (w'.scheduler.loop n) (turns n t ++ [turn]) (w'.busy.count n)
      (t.count (.returned n)) (t.count (.cancelled n))) :
    Stands w' (t ++ [.turned n turn]) n := by
  have shown : Effect.turn? n (.turned n turn) = some turn := if_pos rfl
  rw [Stands, turns_snoc, shown, List.count_append, List.count_append]
  exact h

/-- What says nothing of a loop, of its runs, or of its cancellation. -/
def Effect.Spares (n : Nat) (eff : Effect) : Prop :=
  eff.turn? n = none ∧ eff ≠ .returned n ∧ eff ≠ .cancelled n

/-- An effect that spares a loop leaves it standing where it stood. -/
theorem Stands.spared (h : Stands w t n)
    (alike : (w'.scheduler.loop n).Alike (w.scheduler.loop n))
    (busy : w'.busy.count n = w.busy.count n) (spares : eff.Spares n) :
    Stands w' (t ++ [eff]) n := by
  obtain ⟨quiet, noReturn, noCancel⟩ := spares
  refine .of_quiet quiet ?_
  rw [List.count_singleton, List.count_singleton, beq_false_of_ne noReturn,
    beq_false_of_ne noCancel, busy]
  exact Standing.alike h alike

/-- A step that puts another in the place of one loop spares the others. -/
theorem Stands.elsewhere {s : Scheduler} {busy : List Nat} (h : Stands w t n)
    (same : s.loops = w.scheduler.loops) (other : m ≠ n) (busy' : busy.count n = w.busy.count n)
    (spares : eff.Spares n) :
    Stands { scheduler := s.put m l, busy := busy } (t ++ [eff]) n := by
  refine h.spared (.of_eq ?_) busy' spares
  dsimp only
  rw [Scheduler.loop_put_of_ne other, Scheduler.loop, Scheduler.loop?, same]
  rfl

/-- **Every step** keeps a loop where its history says it is. -/
theorem Stands.step (h : Stands w t n) (step : w.Step eff w') : Stands w' (t ++ [eff]) n := by
  have at_ {l : JobLoop} (there : w.scheduler.loop? n = some l) :
      Standing l (turns n t) (w.busy.count n) (t.count (.returned n)) (t.count (.cancelled n)) :=
    Scheduler.loop_eq there ▸ h
  cases step with
  | idle => exact h.spared (.of_eq rfl) rfl ⟨rfl, nofun, nofun⟩
  | refused e => exact h.spared (.of_eq rfl) rfl ⟨rfl, nofun, nofun⟩
  | scheduled job free => exact h.spared (w.scheduler.alike_snoc _ job n) rfl ⟨rfl, nofun, nofun⟩
  | @cancelled m l there first =>
    rcases eq_or_ne m n with rfl | other
    · refine .of_quiet rfl ?_
      rw [Scheduler.loop_put there, List.count_singleton_self]
      exact (at_ there).cancel first
    · exact h.elsewhere rfl other rfl ⟨rfl, nofun, fun same => other (Effect.cancelled.inj same)⟩
  | @notCancelled m l e there =>
    rcases eq_or_ne m n with rfl | other
    · refine .of_quiet rfl ?_
      rw [Scheduler.loop_put there]
      exact (at_ there).refused
    · exact h.elsewhere rfl other rfl ⟨rfl, nofun, nofun⟩
  | @abandoned m l there =>
    rcases eq_or_ne m n with rfl | other
    · refine .of_quiet rfl ?_
      rw [Scheduler.loop_put there]
      exact (at_ there).alike ⟨rfl, rfl, rfl⟩
    · exact h.elsewhere rfl other rfl ⟨rfl, nofun, nofun⟩
  | @returned m busy =>
    rcases eq_or_ne m n with rfl | other
    · refine .of_quiet rfl ?_
      rw [List.count_singleton_self]
      refine Standing.runReturned ?_
      -- the run that returned is one of those that were carried out
      rw [List.count_erase_self, Nat.sub_add_cancel (List.count_pos_iff.2 busy)]
      exact h
    · exact h.spared (.of_eq rfl) (List.count_erase_of_ne other.symm)
        ⟨rfl, fun same => other (Effect.returned.inj same), nofun⟩
  | @turned m l l' turn there turns returned =>
    rcases eq_or_ne m n with rfl | other
    · refine .of_turned ?_
      rw [Scheduler.loop_put there]
      -- a run that starts is carried out from then on
      have busy : (if turn = .started then m :: w.busy else w.busy).count m
          = if turn = .started then w.busy.count m + 1 else w.busy.count m := by
        split
        · exact List.count_cons_self
        · rfl
      rw [busy]
      exact (at_ there).turn turns fun done => List.count_eq_zero.2 (returned done)
    · refine h.elsewhere rfl other ?_ ⟨if_neg other, nofun, nofun⟩
      split
      · exact List.count_cons_of_ne other
      · rfl
  | @exited m l there ready =>
    rcases eq_or_ne m n with rfl | other
    · refine .of_turned ?_
      rw [Scheduler.loop_put (s := w.scheduler.free l.job) there]
      exact (at_ there).exit ready
    · exact h.elsewhere rfl other rfl ⟨if_neg other, nofun, nofun⟩

/-- **Every step** keeps the registry. -/
theorem Step.registered (step : w.Step eff w') (h : w.scheduler.Registered) :
    w'.scheduler.Registered := by
  cases step with
  | idle => exact h
  | refused e => exact h
  | returned busy => exact h
  | scheduled job free => exact h.schedule free
  | cancelled there first => exact h.put there rfl Iff.rfl
  | notCancelled e there => exact h.put there rfl Iff.rfl
  | abandoned there => exact h.put there rfl Iff.rfl
  | turned there turns returned =>
    exact h.put there turns.job (iff_of_false turns.alive.2 turns.alive.1)
  | exited there ready => exact h.exit there (by rw [ready]; nofun)

/-- **Every step** leaves the loops to the jobs that they were scheduled for. -/
theorem Step.scheduled_mem_iff (step : w.Step eff w')
    (h : ∀ n job, .scheduled job n ∈ t ↔ w.scheduler.IsOf n job) (n : Nat) (job : String) :
    .scheduled job n ∈ t ++ [eff] ↔ w'.scheduler.IsOf n job := by
  rw [List.mem_append, h, List.mem_singleton]
  have other (no : Effect.scheduled job n ≠ eff) :
      w.scheduler.IsOf n job ∨ .scheduled job n = eff ↔ w.scheduler.IsOf n job :=
    or_iff_left no
  cases step with
  | idle => exact other nofun
  | refused e => exact other nofun
  | returned busy => exact other nofun
  | scheduled taken free =>
    rw [Scheduler.isOf_snoc, Effect.scheduled.injEq, and_comm]
  | cancelled there first =>
    exact (other nofun).trans (Scheduler.isOf_put there (by rfl)).symm
  | notCancelled e there =>
    exact (other nofun).trans (Scheduler.isOf_put there (by rfl)).symm
  | abandoned there =>
    exact (other nofun).trans (Scheduler.isOf_put there (by rfl)).symm
  | turned there turns returned =>
    exact (other nofun).trans (Scheduler.isOf_put there turns.job).symm
  | @exited m l there ready =>
    exact (other nofun).trans (Scheduler.isOf_put (s := w.scheduler.free l.job) there (by rfl)).symm

/-- A loop that has exited counts no more runs. -/
theorem Step.gone {runs : Nat} (step : w.Step eff w')
    (gone : (w.scheduler.loop n).phase = .exited ∧ (w.scheduler.loop n).runs = runs) :
    (w'.scheduler.loop n).phase = .exited ∧ (w'.scheduler.loop n).runs = runs := by
  let Gone (l : JobLoop) : Prop := l.phase = .exited ∧ l.runs = runs
  cases step with
  | idle => exact gone
  | refused e => exact gone
  | returned busy => exact gone
  | scheduled job free =>
    obtain ⟨phase, count, -⟩ := w.scheduler.alike_snoc (w.scheduler.active.insert job) job n
    exact ⟨phase.trans gone.1, count.trans gone.2⟩
  | cancelled there first => exact Scheduler.keeps_put (P := Gone) there id gone
  | notCancelled e there => exact Scheduler.keeps_put (P := Gone) there id gone
  | abandoned there => exact Scheduler.keeps_put (P := Gone) there id gone
  | turned there turns returned =>
    exact Scheduler.keeps_put (P := Gone) there (fun out => absurd out.1 turns.alive.1) gone
  | @exited m l there ready =>
    exact Scheduler.keeps_put (s := w.scheduler.free l.job) (P := Gone) there
      (fun out => nomatch ready.symm.trans out.1) gone

/-! ## Histories -/

/-- What holds of a workshop in which a history came to a trace. -/
structure Orderly (w : Workshop) (t : List Effect) : Prop where
  registered : w.scheduler.Registered
  stands : ∀ n, Stands w t n
  scheduled : ∀ n job, .scheduled job n ∈ t ↔ w.scheduler.IsOf n job

/-- An empty workshop is in order. -/
theorem orderly_empty : Orderly {} [] where
  registered := {
    mem_active_iff := fun job =>
      iff_of_false (SortedSet.not_mem_empty job) fun ⟨_, _, there, _⟩ => nomatch there
    unique := fun _ _ _ ⟨_, there, _⟩ => nomatch there }
  stands _ := .new
  scheduled _ _ := iff_of_false List.not_mem_nil fun ⟨_, there, _⟩ => nomatch there

/-- Every step keeps a workshop in order. -/
theorem Orderly.step (h : Orderly w t) (step : w.Step eff w') : Orderly w' (t ++ [eff]) where
  registered := step.registered h.registered
  stands n := (h.stands n).step step
  scheduled := step.scheduled_mem_iff h.scheduled

/-- So does every history. -/
theorem Orderly.run (h : Orderly w t) (history : List Event) :
    Orderly (w.after history) (t ++ w.trace history) := by
  induction history generalizing w t with
  | nil => exact (List.append_nil t).symm ▸ h
  | cons e history ih =>
    have next := ih (h.step (w.serve_step e))
    rw [List.append_assoc] at next
    exact next

/-- **What was scheduled** lives until it exits. -/
theorem Orderly.lives_iff (h : Orderly w t) (n : Nat) (job : String) :
    w.scheduler.Lives n job ↔ .scheduled job n ∈ t ∧ .exited ∉ turns n t := by
  rw [h.scheduled, (h.stands n).life.exited_mem_iff]
  constructor
  · rintro ⟨l, there, job, alive⟩
    exact ⟨⟨l, there, job⟩, by rwa [Scheduler.loop_eq there]⟩
  · rintro ⟨⟨l, there, job⟩, alive⟩
    exact ⟨l, there, job, by rwa [Scheduler.loop_eq there] at alive⟩

/-- What is gone stays gone. -/
theorem gone_after {runs : Nat} (history : List Event)
    (gone : (w.scheduler.loop n).phase = .exited ∧ (w.scheduler.loop n).runs = runs) :
    ((w.after history).scheduler.loop n).phase = .exited ∧
      ((w.after history).scheduler.loop n).runs = runs := by
  induction history generalizing w with
  | nil => exact gone
  | cons e history ih => exact ih ((w.serve_step e).gone gone)

/-- **The registry in order**, in a workshop in which a history came to a trace. -/
structure Lawful (w : Workshop) (t : List Effect) : Prop where
  /-- The identities that are taken are those of the loops that have not exited. -/
  mem_active_iff : ∀ job, job ∈ w.scheduler.active ↔ ∃ n, w.scheduler.Lives n job
  /-- No identity has two loops that have not exited. -/
  unique : ∀ job n m, w.scheduler.Lives n job → w.scheduler.Lives m job → n = m
  /-- A job that is scheduled has the loop of that number, and it lives until it exits. -/
  lives_iff : ∀ n job,
    w.scheduler.Lives n job ↔ .scheduled job n ∈ t ∧ .exited ∉ turns n t
  /-- A job is scheduled if it has a period and a place to run, and its identity is free. -/
  scheduled_iff : ∀ job zeroPeriod hasRuntime,
    (∃ n, (w.scheduler.schedule job zeroPeriod hasRuntime).1 = .ok n) ↔
      zeroPeriod = false ∧ hasRuntime = true ∧ job ∉ w.scheduler.active
  exited_iff : ∀ n l, w.scheduler.loop? n = some l → (l.phase = .exited ↔ .exited ∈ turns n t)
  duplicate_iff : ∀ job other zeroPeriod hasRuntime,
    (w.scheduler.schedule job zeroPeriod hasRuntime).1 = .error (.duplicateJob other) ↔
      other = job ∧ zeroPeriod = false ∧ hasRuntime = true ∧ job ∈ w.scheduler.active
  refused : ∀ job zeroPeriod hasRuntime e,
    (w.scheduler.schedule job zeroPeriod hasRuntime).1 = .error e →
      (w.scheduler.schedule job zeroPeriod hasRuntime).2 = w.scheduler
  /-- No two runs of a loop are carried out at a time, even if it has given one of them up. -/
  overlap : ∀ n, w.busy.count n ≤ 1
  /-- Every run that was started has returned or is being carried out. -/
  accounted : ∀ n, t.count (.returned n) + w.busy.count n = (turns n t).count .started
  /-- Once the wish to stop was seen, no run is started. -/
  stopped : ∀ n before later, turns n t = before ++ .stopped :: later → .started ∉ later
  /-- What is counted are the runs whose results were taken before the wish to stop was seen. -/
  counted : ∀ n, w.scheduler.runs n =
    ((turns n t).takeWhile fun turn => decide (turn ≠ .stopped)).count .completed
  /-- Nothing is counted after the exit, whatever goes on. -/
  settled : ∀ n, .exited ∈ turns n t → ∀ more,
    (w.after more).scheduler.runs n = w.scheduler.runs n
  /-- No job is cancelled twice. -/
  cancelled : ∀ n, t.count (.cancelled n) ≤ 1

/-- **The law.** Whatever those who hold the handles of jobs, the loops and the workers do, and in
whatever order, the registry is in order. -/
theorem lawful_after (history : List Event) :
    Lawful (({} : Workshop).after history) (({} : Workshop).trace history) := by
  have h : Orderly (({} : Workshop).after history) (({} : Workshop).trace history) :=
    orderly_empty.run history
  generalize ({} : Workshop).after history = w at h ⊢
  generalize ({} : Workshop).trace history = t at h ⊢
  exact {
    mem_active_iff := h.registered.mem_active_iff
    unique := h.registered.unique
    lives_iff := h.lives_iff
    scheduled_iff := w.scheduler.schedule_eq_ok_iff
    exited_iff := fun n l there => by
      rw [← Scheduler.loop_eq there]
      exact (h.stands n).life.exited_mem_iff.symm
    duplicate_iff := w.scheduler.schedule_eq_duplicate_iff
    refused := fun job zeroPeriod hasRuntime e refused => by
      rcases w.scheduler.schedule_cases job zeroPeriod hasRuntime with ⟨_, same⟩ | ⟨-, taken⟩
      · rw [same]
      · rw [taken] at refused
        cases refused
    overlap := fun n => (h.stands n).overlap
    accounted := fun n => (h.stands n).accounted
    stopped := fun n before later split started => by
      rcases (h.stands n).life.after_stopped split with ⟨-, rfl⟩ | ⟨-, rfl⟩
      · cases started
      · cases List.mem_singleton.1 started
    counted := fun n => by
      rw [w.scheduler.runs_eq]
      exact (h.stands n).life.counted.symm
    settled := fun n out more => by
      rw [Scheduler.runs_eq, Scheduler.runs_eq]
      exact (gone_after more ⟨(h.stands n).life.exited_mem_iff.1 out, rfl⟩).2
    cancelled := fun n => (h.stands n).once }

end Workshop

end OntologyService
