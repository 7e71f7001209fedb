import Mathlib.Data.List.Induction
import OntologyService.Proofs.Explanation.Generator

/-!
# What a revision tells

A generator takes an answer that it remembers for a present one if it was filed at the revision
that its reasoner has now; it never compares axioms. So it rests on the revision to tell sets of
axioms apart.

Batches keep it to that: one that changes the axioms moves the revision, and it never moves back
(`revision_le_after`). To dispose of the axioms is the one change that does not move it. Moments of
one revision therefore have the same axioms, or those of the earlier one were dropped in between
(`axioms_after_of_kept`, `axioms_after_of_dropped`).

A `Session` is a reasoner and a generator that each go their own way: the one may be disposed of
without the other. **The law** (`revision_identifies`): what holds of two moments of one revision,
and of the answers of the generator as long as no axioms were dropped at the present one.
`stale_of_dropped` is an answer that outlives its axioms.
-/

namespace OntologyService

namespace Reasoner

variable {r : Reasoner}

/-- No request takes the revision back. -/
theorem Sound.revision_le_serve (h : r.Sound) (q : Request) :
    r.revision ≤ (r.serve q).2.revision := by
  by_cases kept : q = .dispose
  · rw [kept]
    exact Nat.le_refl _
  · rcases h.serve_revision kept with later | ⟨same, -⟩
    · exact Nat.le_of_lt later
    · exact Nat.le_of_eq same.symm

/-- The revision never goes back. -/
theorem Sound.revision_le_after (history : List Request) : ∀ {r : Reasoner}, r.Sound →
    r.revision ≤ (r.after history).revision := by
  induction history with
  | nil => exact fun _ => Nat.le_refl _
  | cons q history ih =>
    intro r h
    exact Nat.le_trans (h.revision_le_serve q) (ih (h.serve q).1)

/-- **One revision, one set of axioms**, as long as the axioms are not dropped. -/
theorem Sound.axioms_after_of_kept (history : List Request) : ∀ {r : Reasoner}, r.Sound →
    (r.after history).revision = r.revision → Request.dispose ∉ history →
      (r.after history).axioms = r.axioms := by
  induction history with
  | nil => exact fun _ _ _ => rfl
  | cons q history ih =>
    intro r h same never
    rw [List.mem_cons, not_or] at never
    have sound := (h.serve q).1
    have later := sound.revision_le_after history
    rcases h.serve_revision (Ne.symm never.1) with moved | ⟨stayed, axioms⟩
    · -- a batch that changed something would have moved the revision for good
      exact absurd (Nat.lt_of_lt_of_le moved later) (by rw [← same]; exact Nat.lt_irrefl _)
    · exact (ih sound (same.trans stayed.symm) never.2).trans axioms

/-- **Axioms that were dropped** stay dropped as long as the revision stays. -/
theorem Sound.axioms_after_of_dropped (history : List Request) : ∀ {r : Reasoner}, r.Sound →
    (r.after history).revision = r.revision → Request.dispose ∈ history →
      (r.after history).axioms = ∅ := by
  induction history with
  | nil => exact fun _ _ dropped => absurd dropped List.not_mem_nil
  | cons q history ih =>
    intro r h same dropped
    have sound := (h.serve q).1
    have stayed : (r.serve q).2.revision = r.revision :=
      Nat.le_antisymm (same ▸ sound.revision_le_after history) (h.revision_le_serve q)
    have same' : (((r.serve q).2).after history).revision = (r.serve q).2.revision :=
      same.trans stayed.symm
    by_cases again : Request.dispose ∈ history
    · exact ih sound same' again
    · obtain rfl : q = .dispose := ((List.mem_cons.1 dropped).resolve_right again).symm
      exact sound.axioms_after_of_kept history same' again

/-- **A reasoner at its start**: without axioms, or with the listed ones taken in at once. -/
inductive Started : Reasoner → Prop
  | new (ontology : String) : Started (new ontology)
  | ofAxioms {ontology : String} {axioms : List Axiom} {r : Reasoner} :
    ofAxioms ontology axioms = .ok r → Started r

theorem Started.sound (h : r.Started) : r.Sound := by
  cases h with
  | new ontology => exact sound_new ontology
  | @ofAxioms ontology axioms r made =>
    unfold Reasoner.ofAxioms at made
    split at made
    · cases made
    · cases made
      exact ((sound_new ontology).apply axioms []).1

end Reasoner

/-! ## Sessions -/

/-- A reasoner, and a generator that explains its statements. -/
structure Session where
  reasoner : Reasoner
  generator : Generator

namespace Session

variable {s : Session} {x : Axiom} {requested : Nat} {es : Explanations}

/-- What is done in a session. -/
inductive Step where
  | ask (q : Reasoner.Request)
  | explain (x : Axiom) (requested : Nat)
  /-- The generator forgets its answers. -/
  | invalidate
  /-- The generator refuses from now on. -/
  | dispose

/-- The justifications of a statement, at most so many. -/
def explain (s : Session) (x : Axiom) (requested : Nat) : Except ReasoningError Explanations :=
  (s.generator.explain s.reasoner.settle x requested).1

/-- The justifications of a statement, worked out from the axioms that are held. -/
def work (s : Session) (x : Axiom) (requested : Nat) : Except ReasoningError Explanations :=
  Generator.work s.reasoner x (s.generator.policy.effective requested)

/-- What a step leaves. -/
def step (s : Session) : Step → Session
  | .ask q => { s with reasoner := (s.reasoner.serve q).2 }
  | .explain x requested =>
    { reasoner := s.reasoner.settle
      generator := (s.generator.explain s.reasoner.settle x requested).2 }
  | .invalidate => { s with generator := s.generator.invalidate }
  | .dispose => { s with generator := s.generator.dispose }

/-- What a list of steps leaves, one after another. -/
def after (s : Session) (steps : List Step) : Session := steps.foldl step s

theorem after_append (s : Session) (steps steps' : List Step) :
    s.after (steps ++ steps') = (s.after steps).after steps' := List.foldl_append

/-- What a step asks of the reasoner. -/
def Step.request? : Step → Option Reasoner.Request
  | .ask q => some q
  | .explain _ _ => some .consistent
  | .invalidate | .dispose => none

/-- The reasoner goes its own way. -/
theorem reasoner_after (steps : List Step) : ∀ s : Session,
    (s.after steps).reasoner = s.reasoner.after (steps.filterMap Step.request?) := by
  induction steps with
  | nil => exact fun _ => rfl
  | cons step steps ih =>
    intro s
    refine (ih (s.step step)).trans ?_
    cases step with
    | ask q => rfl
    | explain x requested => rfl
    | invalidate => rfl
    | dispose => rfl

/-- The steps drop the axioms of the reasoner. -/
theorem dispose_mem_requests {steps : List Step} :
    Reasoner.Request.dispose ∈ steps.filterMap Step.request? ↔
      Step.ask .dispose ∈ steps := by
  rw [List.mem_filterMap]
  constructor
  · rintro ⟨step, listed, asked⟩
    cases step with
    | ask q => cases asked; exact listed
    | explain x requested => cases asked
    | invalidate => cases asked
    | dispose => cases asked
  · exact fun listed => ⟨_, listed, rfl⟩

/-- The engine of a session stays within its invariant. -/
theorem sound_after (sound : s.reasoner.Sound) (steps : List Step) :
    (s.after steps).reasoner.Sound := by
  rw [reasoner_after]
  exact (sound.after _).1

/-- The answer was worked out at one of the steps, which explained the statement at the revision. -/
def WorkedOut (s : Session) (steps : List Step) (key : Axiom × Nat) (revision : Nat)
    (es : Explanations) : Prop :=
  ∃ before requested since, steps = before ++ .explain key.1 requested :: since ∧
    (s.after before).reasoner.revision = revision ∧
    Generator.work (s.after before).reasoner key.1 key.2 = .ok es

/-- What was worked out in a session was so whatever comes later. -/
theorem WorkedOut.snoc {steps : List Step} {key : Axiom × Nat} {revision : Nat}
    (h : s.WorkedOut steps key revision es) (step : Step) :
    s.WorkedOut (steps ++ [step]) key revision es := by
  obtain ⟨before, requested, since, rfl, filed, worked⟩ := h
  exact ⟨before, requested, since ++ [step], by simp, filed, worked⟩

/-- Settling the reasoner changes nothing about what is worked out. -/
theorem work_settle {r : Reasoner} (sound : r.Sound) (x : Axiom) (limit : Nat) :
    Generator.work r.settle x limit = Generator.work r x limit :=
  Generator.work_congr ⟨sound.settle, sound, Reasoner.settle_ontology r, Reasoner.settle_axioms r⟩
    x limit

/-- **What a generator remembers** was worked out at an earlier step. -/
theorem workedOut_of_remembered (sound : s.reasoner.Sound) (fresh : s.generator.memo = ∅)
    {steps : List Step} : ∀ {key : Axiom × Nat} {revision : Nat} {es : Explanations},
      (s.after steps).generator.memo.get? key = some (revision, es) →
        s.WorkedOut steps key revision es := by
  induction steps using List.reverseRecOn with
  | nil =>
    intro key revision es remembered
    rw [after, List.foldl_nil, fresh, Table.get?_empty] at remembered
    cases remembered
  | append_singleton steps step ih =>
    intro key revision es remembered
    rw [after_append] at remembered
    cases step with
    | ask q => exact (ih remembered).snoc _
    | explain x requested =>
      rcases Generator.get?_explain remembered with old | ⟨rfl, rfl, worked⟩
      · exact (ih old).snoc _
      · rw [work_settle (sound_after sound steps)] at worked
        exact ⟨steps, requested, [], rfl, (Reasoner.settle_revision _).symm, worked⟩
    | invalidate => exact absurd remembered (by simp [after, Session.step, Generator.invalidate])
    | dispose => exact absurd remembered (by simp [after, Session.step, Generator.dispose])

/-! ## The law -/

/-- Of two moments of one revision the axioms are the same, exactly if none were dropped in
between. -/
theorem axioms_eq_iff (sound : s.reasoner.Sound) {before since : List Step}
    (same : (s.after (before ++ since)).reasoner.revision = (s.after before).reasoner.revision) :
    (s.after (before ++ since)).reasoner.axioms = (s.after before).reasoner.axioms ↔
      (Step.ask .dispose ∈ since → (s.after before).reasoner.axioms = ∅) := by
  have earlier := sound_after sound before
  rw [after_append, reasoner_after since] at same ⊢
  by_cases dropped : Step.ask .dispose ∈ since
  · rw [earlier.axioms_after_of_dropped _ same (dispose_mem_requests.2 dropped)]
    exact ⟨fun e _ => e.symm, fun empty => (empty dropped).symm⟩
  · refine iff_of_true ?_ fun h => absurd h dropped
    exact earlier.axioms_after_of_kept _ same fun h => dropped (dispose_mem_requests.1 h)

/-- Moments with the same axioms are alike. -/
theorem alike_of_axioms (sound : s.reasoner.Sound) {steps steps' : List Step}
    (same : (s.after steps).reasoner.axioms = (s.after steps').reasoner.axioms) :
    (s.after steps).reasoner.Alike (s.after steps').reasoner := by
  refine ⟨sound_after sound steps, sound_after sound steps', ?_, same⟩
  rw [reasoner_after, reasoner_after, (sound.after _).2.1, (sound.after _).2.1]

/-- **No axioms were dropped at the present revision**: not since the reasoner came to it. -/
def Undropped (s : Session) (steps : List Step) : Prop :=
  ∀ before since, steps = before ++ since →
    (s.after before).reasoner.revision = (s.after steps).reasoner.revision →
      Step.ask .dispose ∈ since → (s.after before).reasoner.axioms = ∅

/-- **What a revision tells.** Two moments of one revision have the same axioms exactly if none were
dropped in between. And as long as no axioms were dropped at the present revision, an answer that
the generator takes from its memory was worked out from the axioms that are held now, and every
answer is what working it out now gives. -/
structure RevisionLaw (s : Session) : Prop where
  identifies : ∀ before since,
    (s.after (before ++ since)).reasoner.revision = (s.after before).reasoner.revision →
      ((s.after (before ++ since)).reasoner.axioms = (s.after before).reasoner.axioms ↔
        (Step.ask .dispose ∈ since → (s.after before).reasoner.axioms = ∅))
  remembered : ∀ steps, s.Undropped steps → ∀ x limit es,
    (s.after steps).generator.remembered? (s.after steps).reasoner.revision (x, limit) = some es →
      ∃ before requested since, steps = before ++ .explain x requested :: since ∧
        (s.after before).reasoner.axioms = (s.after steps).reasoner.axioms ∧
        Generator.work (s.after before).reasoner x limit = .ok es
  answered : ∀ steps, s.Undropped steps → ∀ x requested es,
    (s.after steps).explain x requested = .ok es → (s.after steps).work x requested = .ok es

/-- What was worked out at the present revision was worked out from the present axioms. -/
theorem WorkedOut.present (sound : s.reasoner.Sound) {steps : List Step}
    (undropped : s.Undropped steps) {key : Axiom × Nat}
    (h : s.WorkedOut steps key (s.after steps).reasoner.revision es) :
    ∃ before requested since, steps = before ++ .explain key.1 requested :: since ∧
      (s.after before).reasoner.axioms = (s.after steps).reasoner.axioms ∧
      Generator.work (s.after before).reasoner key.1 key.2 = .ok es := by
  obtain ⟨before, requested, since, rfl, filed, worked⟩ := h
  have same := (axioms_eq_iff sound filed.symm).2 (undropped before _ rfl filed)
  exact ⟨before, requested, since, rfl, same.symm, worked⟩

/-- A session that starts with a reasoner at its start, and a generator that remembers nothing,
keeps to the law of revisions. -/
theorem revision_identifies {s : Session} (started : s.reasoner.Started)
    (fresh : s.generator.memo = ∅) : s.RevisionLaw := by
  have sound := started.sound
  refine ⟨fun before since => axioms_eq_iff sound, ?_, ?_⟩
  · intro steps undropped x limit es recalled
    have entry := Generator.remembered?_eq_some recalled
    exact (workedOut_of_remembered sound fresh entry).present sound undropped
  · intro steps undropped x requested es answer
    obtain ⟨-, -, entry | worked⟩ := Generator.explain_eq_ok_cases answer
    · rw [Reasoner.settle_revision] at entry
      obtain ⟨before, _, since, -, same, worked⟩ :=
        (workedOut_of_remembered sound fresh entry).present sound undropped
      rw [work, ← Generator.work_congr (alike_of_axioms sound same)]
      exact worked
    · rwa [work_settle (sound_after sound steps)] at worked

/-! ## A ladder -/

/-- One step up, and another one. -/
def ladder : List Axiom := [.subClassOf ⟨"A"⟩ ⟨"B"⟩, .subClassOf ⟨"B"⟩ ⟨"C"⟩]

/-- The session of the ladder at its start. -/
def climbing : Session :=
  { reasoner := ((Reasoner.new "ladder").apply ladder []).1, generator := { policy := .forward } }

/-- The climb begins with a reasoner at its start, which takes the whole ladder in at once. -/
theorem climbing_started : climbing.reasoner.Started := by
  have made : Reasoner.ofAxioms "ladder" ladder = .ok climbing.reasoner := by
    rw [Reasoner.ofAxioms, Reasoner.validateAll_eq_ok (by decide +kernel)]
    rfl
  exact .ofAxioms made

/-- If the ladder is let go of and put up again, the revision moves on, and the way up is explained
by the ladder that stands. -/
theorem climbing_resumed :
    let x := Axiom.subClassOf ⟨"A"⟩ ⟨"C"⟩
    let steps : List Step :=
      [.explain x 0, .ask .dispose, .ask (.apply ladder []), .explain x 0]
    climbing.reasoner.Started ∧ climbing.generator.memo = ∅ ∧ climbing.Undropped steps ∧
      ∃ es, es ≠ ∅ ∧ (climbing.after steps).explain x 0 = .ok es ∧
        (climbing.after steps).work x 0 = .ok es := by
  intro x steps
  have undropped : climbing.Undropped steps := by
    intro before since split same dropped
    match before with
    | [] => exact absurd same (by decide +kernel)
    | [step] =>
      obtain ⟨rfl, -⟩ := List.cons.inj split
      exact absurd same (by decide +kernel)
    | _ :: _ :: rest =>
      -- the ladder is let go of at the second step, and never again
      have left : [.ask (.apply ladder []), .explain x 0] = rest ++ since :=
        (List.cons.inj (List.cons.inj split).2).2
      have later := List.mem_append_right rest dropped
      rw [← left] at later
      simp at later
  have law := revision_identifies climbing_started rfl
  have computed : ((climbing.after steps).explain x 0).toOption =
      some (.ofList [.ofList ladder]) := by decide +kernel
  cases answer : (climbing.after steps).explain x 0 with
  | error _ =>
    rw [answer] at computed
    cases computed
  | ok es =>
    rw [answer] at computed
    obtain rfl : es = .ofList [.ofList ladder] := Option.some.inj computed
    exact ⟨climbing_started, rfl, undropped, _, by decide +kernel, rfl,
      law.answered steps undropped x 0 _ answer⟩

/-- **An answer that outlives its axioms.** If the ladder is let go of, the revision stays. The
generator still explains how to climb it, although nothing is entailed any more. -/
theorem stale_of_dropped :
    let x := Axiom.subClassOf ⟨"A"⟩ ⟨"C"⟩
    let up := climbing.after [.explain x 0]
    let down := climbing.after [.explain x 0, .ask .dispose]
    climbing.reasoner.Started ∧ climbing.generator.memo = ∅ ∧
      down.reasoner.revision = up.reasoner.revision ∧
      down.reasoner.axioms ≠ up.reasoner.axioms ∧
      (down.explain x 0).toOption = some (.ofList [.ofList ladder]) ∧
      (down.work x 0).toOption = some ∅ ∧
      (down.reasoner.isEntailed x).toOption = some false := by
  intro x up down
  exact ⟨climbing_started, rfl, by decide +kernel, by decide +kernel, by decide +kernel,
    by decide +kernel, by decide +kernel⟩

end Session

end OntologyService
