import OntologyService.Proofs.Scheduling.Life

/-!
# The registry of jobs

A scheduler keeps its loops by number, and the identities that are taken apart from them. The two
agree (`Registered`): an identity is taken as long as a loop of it has not exited, and never by two.
What keeps them in agreement is that only three things have to do with both: a job that is scheduled
takes an identity that was free (`Registered.schedule`), a loop that exits frees the identity that
was its own (`Registered.exit`), and all else leaves every loop on the side of the exit that it is
on (`Registered.put`).
-/

namespace OntologyService

/-! ## Loops by their numbers -/

namespace Scheduler

variable {s : Scheduler} {n m : Nat} {l k : JobLoop} {f : JobLoop → JobLoop}

/-- The scheduler with another loop in the place of the one of a number. -/
def put (s : Scheduler) (n : Nat) (l : JobLoop) : Scheduler := s.change n fun _ => l

/-- The scheduler in which an identity is not taken. -/
def free (s : Scheduler) (job : String) : Scheduler := { s with active := s.active.erase job }

/-- A change is made to the loop with that number and to no other. -/
theorem loop?_change (s : Scheduler) (n m : Nat) (f : JobLoop → JobLoop) :
    (s.change n f).loop? m = (s.loop? m).map (if n = m then f else id) := by
  refine (List.getElem?_modify f n s.loops m).trans ?_
  rw [loop?]
  split <;> cases s.loops[m]? <;> rfl

/-- A loop that is put is there. -/
theorem loop?_put (there : s.loop? n = some k) : (s.put n l).loop? n = some l := by
  rw [put, loop?_change, there, if_pos rfl]
  rfl

theorem loop?_put_of_ne (other : n ≠ m) : (s.put n l).loop? m = s.loop? m := by
  rw [put, loop?_change, if_neg other, Option.map_id]
  rfl

/-- Changing the loop of a number in two ways is the same if both make the same of the loop. -/
theorem change_congr {g : JobLoop → JobLoop} (same : ∀ l, s.loop? n = some l → f l = g l) :
    s.change n f = s.change n g := by
  refine congrArg (fun loops => { s with loops }) (List.ext_getElem? fun m => ?_)
  have left := s.loop?_change n m f
  have right := s.loop?_change n m g
  refine left.trans (Eq.trans ?_ right.symm)
  by_cases here : n = m
  · rw [if_pos here, if_pos here, ← here]
    cases there : s.loop? n with
    | none => rfl
    | some l => exact congrArg some (same l there)
  · rw [if_neg here, if_neg here]

/-- Changing a loop that is there is putting what it becomes. -/
theorem change_eq_put (there : s.loop? n = some l) : s.change n f = s.put n (f l) :=
  change_congr fun k here => by rw [Option.some.inj (here.symm.trans there)]

/-- What changes nothing of a loop changes nothing. -/
theorem change_eq_self (same : ∀ l, s.loop? n = some l → f l = l) : s.change n f = s := by
  rw [change_congr (g := id) same, change, List.modify_id]

/-- The loop of a number. One that was not given out stands for a loop that has gone through
nothing. -/
def loop (s : Scheduler) (n : Nat) : JobLoop := (s.loop? n).getD { job := "" }

theorem loop_eq (there : s.loop? n = some l) : s.loop n = l := by rw [loop, there]; rfl

theorem loop_put (there : s.loop? n = some k) : (s.put n l).loop n = l := loop_eq (loop?_put there)

theorem loop_put_of_ne (other : n ≠ m) : (s.put n l).loop m = s.loop m := by
  rw [loop, loop?_put_of_ne other]
  rfl

/-- What a loop has that is put in the place of another that has it, all loops keep. -/
theorem keeps_put {P : JobLoop → Prop} (there : s.loop? n = some k) (keeps : P k → P l)
    (has : P (s.loop m)) : P ((s.put n l).loop m) := by
  rcases eq_or_ne n m with rfl | other
  · rw [loop_put there]
    exact keeps (loop_eq there ▸ has)
  · rw [loop_put_of_ne other]
    exact has

/-- The number that is given out next has no loop. -/
theorem loop?_next (s : Scheduler) : s.loop? s.loops.length = none :=
  List.getElem?_eq_none (Nat.le_refl _)

/-- A job that is scheduled has the loop of the next number, and every other loop is what it was. -/
theorem loop?_snoc (s : Scheduler) (active : SortedSet String) (job : String) (n : Nat) :
    loop? { active, loops := s.loops ++ [{ job }] } n =
      if n = s.loops.length then some { job } else s.loop? n := by
  unfold loop?
  rcases Nat.lt_trichotomy n s.loops.length with below | rfl | above
  · rw [if_neg (Nat.ne_of_lt below), List.getElem?_append_left below]
  · rw [if_pos rfl, List.getElem?_concat_length]
  · rw [if_neg (Nat.ne_of_gt above), List.getElem?_eq_none (Nat.le_of_lt above)]
    exact List.getElem?_eq_none (by rw [List.length_append]; exact above)

/-- A loop that is new is where a number that was not given out is. -/
theorem alike_snoc (s : Scheduler) (active : SortedSet String) (job : String) (n : Nat) :
    (Scheduler.loop { active, loops := s.loops ++ [{ job }] } n).Alike (s.loop n) := by
  rw [loop, loop?_snoc, loop]
  by_cases last : n = s.loops.length
  · rw [if_pos last, last, loop?_next]
    exact ⟨rfl, rfl, rfl⟩
  · rw [if_neg last]
    exact .of_eq rfl

theorem runs_eq (s : Scheduler) (n : Nat) : s.runs n = (s.loop n).runs := by
  rw [runs, loop]
  cases s.loop? n <;> rfl

/-- The loop of a number is one of a job. -/
def IsOf (s : Scheduler) (n : Nat) (job : String) : Prop := ∃ l, s.loop? n = some l ∧ l.job = job

/-- A loop that is put in the place of another one of its job changes nothing of whose loops there
are. -/
theorem isOf_put {job : String} (there : s.loop? n = some k) (same : l.job = k.job) :
    (s.put n l).IsOf m job ↔ s.IsOf m job := by
  rcases eq_or_ne n m with rfl | other
  · rw [IsOf, IsOf, loop?_put there, there]
    simp only [Option.some.injEq, exists_eq_left', same]
  · rw [IsOf, IsOf, loop?_put_of_ne other]

/-- A job that is scheduled has the loop of the next number. -/
theorem isOf_snoc (s : Scheduler) (active : SortedSet String) (job other : String) (n : Nat) :
    IsOf { active, loops := s.loops ++ [{ job }] } n other ↔
      s.IsOf n other ∨ n = s.loops.length ∧ other = job := by
  rw [IsOf, loop?_snoc, IsOf]
  by_cases last : n = s.loops.length
  · rw [if_pos last, last, loop?_next]
    simp [eq_comm]
  · rw [if_neg last]
    exact (or_iff_left fun this => last this.1).symm

/-- The loop of a number is one of a job, and has not exited. -/
def Lives (s : Scheduler) (n : Nat) (job : String) : Prop :=
  ∃ l, s.loop? n = some l ∧ l.job = job ∧ l.phase ≠ .exited

/-- **The identities that are taken** are those of the loops that have not exited, and each of them
has one such loop. -/
structure Registered (s : Scheduler) : Prop where
  mem_active_iff : ∀ job, job ∈ s.active ↔ ∃ n, s.Lives n job
  unique : ∀ job n m, s.Lives n job → s.Lives m job → n = m

/-- Jobs whose loops live as before are registered as before. -/
theorem Registered.congr {s' : Scheduler} (h : s.Registered) (active : s'.active = s.active)
    (lives : ∀ n job, s'.Lives n job ↔ s.Lives n job) : s'.Registered where
  mem_active_iff job := by
    rw [active, h.mem_active_iff]
    exact exists_congr fun n => (lives n job).symm
  unique job n m one two := h.unique job n m ((lives n job).1 one) ((lives m job).1 two)

/-- Neither wishes nor runs have to do with the registry. -/
theorem Registered.put (h : s.Registered) (there : s.loop? n = some k) (job : l.job = k.job)
    (phase : l.phase = .exited ↔ k.phase = .exited) : (s.put n l).Registered := by
  refine h.congr rfl fun m j => ?_
  rcases eq_or_ne n m with rfl | other
  · rw [Lives, Lives, loop?_put there, there]
    simp only [Option.some.injEq, exists_eq_left', job, ne_eq, phase]
  · rw [Lives, Lives, loop?_put_of_ne other]

/-- A job that is scheduled has an identity that was free, and a loop that is new. -/
theorem Registered.schedule (h : s.Registered) {job : String} (free : job ∉ s.active) :
    Registered { active := s.active.insert job, loops := s.loops ++ [{ job }] } := by
  -- the loops that live are those that lived, and the new one
  have lives (n : Nat) (j : String) :
      Lives { active := s.active.insert job, loops := s.loops ++ [{ job }] } n j ↔
        s.Lives n j ∨ n = s.loops.length ∧ j = job := by
    rw [Lives, loop?_snoc, Lives]
    by_cases last : n = s.loops.length
    · rw [if_pos last, last, loop?_next]
      simp [eq_comm]
    · rw [if_neg last]
      exact (or_iff_left fun this => last this.1).symm
  refine ⟨fun j => ?_, fun j n m one two => ?_⟩
  · rw [SortedSet.mem_insert, h.mem_active_iff]
    constructor
    · rintro (rfl | ⟨n, alive⟩)
      · exact ⟨_, (lives _ _).2 (.inr ⟨rfl, rfl⟩)⟩
      · exact ⟨n, (lives _ _).2 (.inl alive)⟩
    · rintro ⟨n, alive⟩
      exact ((lives n j).1 alive).symm.imp And.right fun alive => ⟨n, alive⟩
  · have taken {n : Nat} (alive : s.Lives n job) : False :=
      free ((h.mem_active_iff job).2 ⟨n, alive⟩)
    rcases (lives n j).1 one with one | ⟨rfl, rfl⟩ <;>
      rcases (lives m j).1 two with two | ⟨rfl, same⟩
    · exact h.unique j n m one two
    · exact (taken (same ▸ one)).elim
    · exact (taken two).elim
    · rfl

/-- A loop that exits frees its identity. -/
theorem Registered.exit (h : s.Registered) (there : s.loop? n = some l)
    (alive : l.phase ≠ .exited) :
    ((s.free l.job).put n { l with phase := .exited }).Registered := by
  have lives (m : Nat) (j : String) :
      ((s.free l.job).put n { l with phase := .exited }).Lives m j ↔ s.Lives m j ∧ n ≠ m := by
    rcases eq_or_ne n m with rfl | other
    · rw [Lives, loop?_put (s := s.free l.job) there]
      simp
    · rw [Lives, loop?_put_of_ne other]
      exact (and_iff_left other).symm
  have here : s.Lives n l.job := ⟨l, there, rfl, alive⟩
  refine ⟨fun j => ?_, fun j m m' one two =>
    h.unique j m m' ((lives m j).1 one).1 ((lives m' j).1 two).1⟩
  show j ∈ s.active.erase l.job ↔ _
  rw [SortedSet.mem_erase, h.mem_active_iff]
  constructor
  · rintro ⟨⟨m, alive⟩, other⟩
    refine ⟨m, (lives m j).2 ⟨alive, fun same => other ?_⟩⟩
    subst same
    obtain ⟨k, there', job, -⟩ := alive
    cases there.symm.trans there'
    exact job.symm
  · rintro ⟨m, alive⟩
    obtain ⟨alive, other⟩ := (lives m j).1 alive
    exact ⟨⟨m, alive⟩, fun same => other (h.unique j n m (same ▸ here) alive)⟩

/-! ## What is asked of a scheduler -/

/-- A job is refused, and nothing changes, or its identity is free and is taken. -/
theorem schedule_cases (s : Scheduler) (job : String) (zeroPeriod hasRuntime : Bool) :
    (∃ e, s.schedule job zeroPeriod hasRuntime = (.error e, s)) ∨
      job ∉ s.active ∧ s.schedule job zeroPeriod hasRuntime = (.ok s.loops.length,
        { active := s.active.insert job, loops := s.loops ++ [{ job }] }) := by
  unfold schedule
  by_cases zero : zeroPeriod
  · exact .inl ⟨_, if_pos zero⟩
  by_cases nowhere : !hasRuntime
  · exact .inl ⟨_, by rw [if_neg zero, if_pos nowhere]⟩
  by_cases taken : job ∈ s.active
  · exact .inl ⟨_, by rw [if_neg zero, if_neg nowhere, if_pos taken]⟩
  · exact .inr ⟨taken, by rw [if_neg zero, if_neg nowhere, if_neg taken]⟩

/-- **A duplicate** is what is refused for nothing else, if its identity is taken. -/
theorem schedule_eq_duplicate_iff (s : Scheduler) (job other : String)
    (zeroPeriod hasRuntime : Bool) :
    (s.schedule job zeroPeriod hasRuntime).1 = .error (.duplicateJob other) ↔
      other = job ∧ zeroPeriod = false ∧ hasRuntime = true ∧ job ∈ s.active := by
  cases zeroPeriod <;> cases hasRuntime <;> by_cases taken : job ∈ s.active <;>
    simp [schedule, taken, eq_comm]

/-- **A job is scheduled** if it has a period and a place to run, and its identity is free. -/
theorem schedule_eq_ok_iff (s : Scheduler) (job : String) (zeroPeriod hasRuntime : Bool) :
    (∃ n, (s.schedule job zeroPeriod hasRuntime).1 = .ok n) ↔
      zeroPeriod = false ∧ hasRuntime = true ∧ job ∉ s.active := by
  cases zeroPeriod <;> cases hasRuntime <;> by_cases taken : job ∈ s.active <;>
    simp [schedule, taken]

/-- A cancellation succeeds only on a job that was not cancelled before. -/
theorem cancel_cases (there : s.loop? n = some l) :
    (∃ e, s.cancel n = (.error e, s.put n { l with cancelled := true })) ∨
      l.cancelled = false ∧ s.cancel n = (.ok (), s.put n { l with cancelled := true }) := by
  unfold cancel
  rw [there, change_eq_put there]
  dsimp only
  cases refused : l.cancelled || decide (l.phase = .exited) with
  | true => exact .inl ⟨_, rfl⟩
  | false => exact .inr ⟨(Bool.or_eq_false_iff.1 refused).1, rfl⟩

/-- A cancellation, also one that is refused, leaves the wish to stop. -/
theorem cancel_snd (there : s.loop? n = some l) :
    (s.cancel n).2 = s.put n { l with cancelled := true } := by
  rcases cancel_cases there with ⟨e, refused⟩ | ⟨-, done⟩
  · rw [refused]
  · rw [done]

/-- A cancellation is of one loop. -/
theorem loop?_cancel_of_ne (other : n ≠ m) : (s.cancel n).2.loop? m = s.loop? m := by
  cases there : s.loop? n with
  | none => rw [cancel, there]
  | some l => rw [cancel_snd there, loop?_put_of_ne other]

/-- A loop looks for the wish to stop by itself. -/
theorem loop?_notice_of_ne (other : n ≠ m) : (s.notice n).loop? m = s.loop? m := by
  rw [notice, loop?_change, if_neg other, Option.map_id]
  rfl

/-- A loop exits only when it has seen the wish to stop. -/
theorem exit_cases (s : Scheduler) (n : Nat) :
    s.exit n = s ∨ ∃ l, s.loop? n = some l ∧ l.phase = .stopping ∧
      s.exit n = (s.free l.job).put n { l with phase := .exited } := by
  unfold exit
  split
  · next job cancelled abandoned runs there =>
    exact .inr ⟨_, there, rfl, change_eq_put there⟩
  · exact .inl rfl

/-- A loop exits by itself. -/
theorem loop?_exit_of_ne (other : n ≠ m) : (s.exit n).loop? m = s.loop? m := by
  rcases s.exit_cases n with same | ⟨l, -, -, gone⟩
  · rw [same]
  · rw [gone, loop?_put_of_ne other]
    rfl

/-- A loop that has seen the wish to stop exits, and one that has exited stays so. -/
theorem loop?_exit (there : s.loop? n = some l) (ready : l.phase = .stopping ∨ l.phase = .exited) :
    (s.exit n).loop? n = some { l with phase := .exited } := by
  obtain ⟨job, phase, cancelled, abandoned, runs⟩ := l
  change phase = .stopping ∨ phase = .exited at ready
  rcases ready with rfl | rfl
  · rw [exit, there]
    dsimp only
    rw [loop?_change, if_pos rfl]
    exact congrArg (Option.map _) there
  · rw [exit, there]
    exact there

/-- A loop that was cancelled, and goes on as far as it can, has exited. -/
theorem loop?_exit_notice (there : s.loop? n = some l) (cancelled : l.cancelled = true) :
    ((s.notice n).exit n).loop? n = some { l with phase := .exited } := by
  have wish : l.shouldStop = true := by rw [JobLoop.shouldStop, cancelled, Bool.true_or]
  have seen : (s.notice n).loop? n = some l.notice := by
    rw [notice, loop?_change, there, if_pos rfl]
    rfl
  cases phase : l.phase with
  | waiting | running =>
    have stops : l.notice = { l with phase := .stopping } := by
      rw [JobLoop.notice, phase]
      exact if_pos wish
    rw [loop?_exit seen (.inl (by rw [stops])), stops]
  | stopping | exited =>
    have stays : l.notice = l := by rw [JobLoop.notice, phase]
    rw [stays] at seen
    exact loop?_exit seen (by simp [phase])

end Scheduler

end OntologyService
