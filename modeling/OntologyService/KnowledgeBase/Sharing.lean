import OntologyService.KnowledgeBase.Basic

/-!
# Sharing a knowledge base

Many parties call one knowledge base at once. A lock lets any number of them read the engine, or a
single one change it. The flag of a closed knowledge base can be looked at without the lock, and so
can the one of its explanations.

A party looks at the flag before it waits for the lock and again once it has it. A party that
closes the knowledge base raises the flag before it waits for the lock, and lets go of the
explanations without waiting for it at all. What a batch changes, it changes axiom by axiom. A query
is answered in one step: what other readers remember meanwhile changes no answer.

A `Sharing` is the knowledge base, the lock, and where each party is. `move` takes one party one
step further: as far as it gets before another may come in between. A party that has to wait stays
where it is, and so does one that is done. A run is a list of parties, in the order in which they
move.
-/

namespace OntologyService

/-- Ends a batch: one that changed anything is a revision. -/
def Reasoner.conclude (r : Reasoner) (c : Change) : Reasoner :=
  if c.effective then { r with consistent := none, revision := r.revision + 1 } else r

namespace KnowledgeBase

/-- What a call comes to. -/
abbrev Result := Except ReasoningError Answer

/-! ## Reading -/

/-- What a reader asks. -/
inductive Question where
  | query (kind : QueryKind) (e : Entity)
  | entailed (a : Axiom)
  | explain (a : Axiom) (limit : Nat)

/-- The call of a question. -/
def Question.call : Question → Call
  | .query kind e => .query kind e
  | .entailed a => .entailed a
  | .explain a limit => .explain a limit

/-- How far an answer was worked out. -/
inductive Progress where
  | asked
  /-- The explanations were not let go of yet, and the statement has no defect. -/
  | admitted
  /-- No explanation is remembered. -/
  | missed
  | worked (es : Explanations)

/-- The next step to the answer of a question. -/
def Question.advance (kb : KnowledgeBase) :
    Question → Progress → KnowledgeBase × (Progress ⊕ Result)
  | .query kind e, _ =>
    let (answer, kb) := kb.readQuery kind e
    (kb, .inr (answer.map .nodes))
  | .entailed a, _ =>
    let (answer, kb) := kb.readEntailed a
    (kb, .inr (answer.map .truth))
  | .explain a _, .asked =>
    let kb := { kb with reasoner := kb.reasoner.settle }
    if kb.explainer.disposed then (kb, .inr (.error (.closed kb.reasoner.ontology)))
    else
      match a.validate with
      | .error e => (kb, .inr (.error e))
      | .ok () => (kb, .inl .admitted)
  | .explain a limit, .admitted =>
    let key := (a, kb.explainer.policy.effective limit)
    match kb.explainer.remembered? kb.reasoner.revision key with
    | some es => (kb, .inr (.ok (.justifications es)))
    | none => (kb, .inl .missed)
  | .explain a limit, .missed =>
    match Generator.work kb.reasoner a (kb.explainer.policy.effective limit) with
    | .error e => (kb, .inr (.error e))
    | .ok es => (kb, .inl (.worked es))
  | .explain a limit, .worked es =>
    let key := (a, kb.explainer.policy.effective limit)
    let memo := kb.explainer.memo.insert key (kb.reasoner.revision, es)
    ({ kb with explainer := { kb.explainer with memo } }, .inr (.ok (.justifications es)))

/-- Where a reader is. -/
inductive Reader where
  | called
  /-- The flag was down; the lock is next. -/
  | waiting
  /-- The lock is held; the flag is next, for the second time. -/
  | entered
  | working (progress : Progress)
  /-- The lock is given back next. -/
  | leaving (result : Result)
  | done (result : Result)

/-! ## Changing -/

/-- Where a party is that changes the axioms. -/
inductive Updater where
  | called
  /-- The flag was down; the axioms are checked next. -/
  | admitted
  /-- The axioms have no defect; the lock is next. -/
  | waiting
  /-- The lock is held; the flag is next, for the second time. -/
  | entered
  /-- What is left of the batch, and what it changed so far. -/
  | applying (additions removals : List Axiom) (change : Reasoner.Change)
  /-- The batch is taken in; the explanations are next. -/
  | applied (change : Reasoner.Change)
  /-- The lock is given back next. -/
  | leaving (result : Except ReasoningError UpdateSummary)
  /-- The subscribers are told next. -/
  | telling (s : UpdateSummary)
  | done (result : Result)

/-- Where a party is that closes the knowledge base. -/
inductive Closer where
  | called
  /-- The flag is up; the explanations are next. -/
  | raised
  /-- The explanations are gone; the lock is next. -/
  | waiting
  /-- The lock is held; the engine is next. -/
  | entered
  /-- The lock is given back next. -/
  | leaving
  | done

/-! ## Parties -/

/-- A party: its call, and where it is with it. -/
inductive Party where
  | reader (q : Question) (place : Reader)
  | updater (additions removals : AxiomSet) (place : Updater)
  | closer (place : Closer)

namespace Party

/-- A party that is about to call. -/
def ofCall : Call → Party
  | .query kind e => .reader (.query kind e) .called
  | .entailed a => .reader (.entailed a) .called
  | .explain a limit => .reader (.explain a limit) .called
  | .update additions removals => .updater additions removals .called
  | .close => .closer .called

/-- The call of a party. -/
def call : Party → Call
  | .reader q _ => q.call
  | .updater additions removals _ => .update additions removals
  | .closer _ => .close

/-- What the call of a party came to, once it is done. -/
def result? : Party → Option Result
  | .reader _ (.done result) | .updater _ _ (.done result) => some result
  | .closer .done => some (.ok .done)
  | _ => none

end Party

/-- **A knowledge base that is shared** by the parties `ι`. -/
structure Sharing (ι : Type) where
  kb : KnowledgeBase
  parties : ι → Party
  /-- Who holds the lock to read. -/
  readers : List ι := []
  /-- Who holds the lock to change the engine. -/
  writer : Option ι := none
  /-- The updates whose batch was taken in, in that order. -/
  committed : List Call := []
  /-- Whether the engine was let go of. -/
  disposed : Bool := false

namespace Sharing

variable {ι : Type} [DecidableEq ι]

/-- Everybody is about to call. -/
def new (kb : KnowledgeBase) (calls : ι → Call) : Sharing ι :=
  { kb, parties := fun p => .ofCall (calls p) }

/-- Puts a party in its next place. -/
def put (w : Sharing ι) (p : ι) (party : Party) : Sharing ι :=
  { w with parties := fun i => if i = p then party else w.parties i }

/-- Takes the lock to read, if nobody changes the engine. -/
def lockToRead (w : Sharing ι) (p : ι) (party : Party) : Sharing ι :=
  if w.writer.isNone then { w with readers := p :: w.readers }.put p party else w

/-- Takes the lock to change the engine, if nobody else holds it. -/
def lockToChange (w : Sharing ι) (p : ι) (party : Party) : Sharing ι :=
  if w.writer.isNone && w.readers.isEmpty then { w with writer := some p }.put p party else w

/-- The next step of a reader. -/
def moveReader (w : Sharing ι) (p : ι) (q : Question) : Reader → Sharing ι
  | .called =>
    if w.kb.closed then w.put p (.reader q (.done (.error w.kb.refusal)))
    else w.put p (.reader q .waiting)
  | .waiting => w.lockToRead p (.reader q .entered)
  | .entered =>
    if w.kb.closed then w.put p (.reader q (.leaving (.error w.kb.refusal)))
    else w.put p (.reader q (.working .asked))
  | .working progress =>
    let (kb, next) := q.advance w.kb progress
    { w with kb }.put p (.reader q (next.elim .working .leaving))
  | .leaving result =>
    { w with readers := w.readers.filter (· ≠ p) }.put p (.reader q (.done result))
  | .done _ => w

/-- The next step of a party that changes the axioms. -/
def moveUpdater (w : Sharing ι) (p : ι) (additions removals : AxiomSet) : Updater → Sharing ι
  | .called =>
    if w.kb.closed then w.put p (.updater additions removals (.done (.error w.kb.refusal)))
    else w.put p (.updater additions removals .admitted)
  | .admitted =>
    match Axiom.validateAll (additions.toList ++ removals.toList) with
    | .error e => w.put p (.updater additions removals (.done (.error e)))
    | .ok () => w.put p (.updater additions removals .waiting)
  | .waiting => w.lockToChange p (.updater additions removals .entered)
  | .entered =>
    if w.kb.closed then w.put p (.updater additions removals (.leaving (.error w.kb.refusal)))
    else
      { w with kb := { w.kb with listening := true } }.put p
        (.updater additions removals (.applying additions.toList removals.toList ⟨0, 0⟩))
  | .applying (a :: as) bs c =>
    let (reasoner, n) := w.kb.reasoner.addAll [a]
    { w with kb := { w.kb with reasoner } }.put p
      (.updater additions removals (.applying as bs { c with added := c.added + n }))
  | .applying [] (b :: bs) c =>
    let (reasoner, n) := w.kb.reasoner.removeAll [b]
    { w with kb := { w.kb with reasoner } }.put p
      (.updater additions removals (.applying [] bs { c with removed := c.removed + n }))
  | .applying [] [] c =>
    { w with
      kb := { w.kb with reasoner := w.kb.reasoner.conclude c }
      committed := w.committed ++ [Call.update additions removals] }.put p
      (.updater additions removals (.applied c))
  | .applied c =>
    let explainer := if c.effective then w.kb.explainer.invalidate else w.kb.explainer
    let s := { added := c.added, removed := c.removed, revision := w.kb.revision }
    { w with kb := { w.kb with explainer, listening := false } }.put p
      (.updater additions removals (.leaving (.ok s)))
  | .leaving (.ok s) =>
    { w with writer := none }.put p (.updater additions removals (.telling s))
  | .leaving (.error e) =>
    { w with writer := none }.put p (.updater additions removals (.done (.error e)))
  | .telling s =>
    { w with kb := w.kb.announce s }.put p (.updater additions removals (.done (.ok (.summary s))))
  | .done _ => w

/-- The next step of a party that closes the knowledge base. -/
def moveCloser (w : Sharing ι) (p : ι) : Closer → Sharing ι
  | .called =>
    if w.kb.closed then w.put p (.closer .done)
    else { w with kb := w.kb.raiseClosed }.put p (.closer .raised)
  | .raised => { w with kb := w.kb.disposeExplainer }.put p (.closer .waiting)
  | .waiting => w.lockToChange p (.closer .entered)
  | .entered =>
    { w with kb := w.kb.disposeReasoner, disposed := true }.put p (.closer .leaving)
  | .leaving => { w with writer := none }.put p (.closer .done)
  | .done => w

/-- The next step of a party. -/
def move (w : Sharing ι) (p : ι) : Sharing ι :=
  match w.parties p with
  | .reader q place => w.moveReader p q place
  | .updater additions removals place => w.moveUpdater p additions removals place
  | .closer place => w.moveCloser p place

/-- What is left when the parties move in this order. -/
def run (w : Sharing ι) (moves : List ι) : Sharing ι := moves.foldl move w

end Sharing

end KnowledgeBase

end OntologyService
