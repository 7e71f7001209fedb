import OntologyService.Explanation.Generator
import OntologyService.KnowledgeBase.Feed

/-!
# Knowledge bases

A `KnowledgeBase` is the engine over one ontology with its explanations and its subscribers. It is
open until it is closed, and closed for good after that: a closed one refuses every call and holds
no axioms.

An update is one batch. All its axioms are checked before the first one is taken in, additions
before removals, each in their order; a batch with a defective axiom changes nothing. The flag
`listening` is up exactly while a batch is being taken in.

`Call` and `Answer` list what can be asked of a knowledge base, and `serve` answers a call, so a
list of calls is a history.
-/

namespace OntologyService

/-- What an update did. -/
structure UpdateSummary where
  added : Nat
  removed : Nat
  revision : Nat
deriving DecidableEq

/-- The engine over one ontology, with its explanations and its subscribers. -/
structure KnowledgeBase where
  name : String
  reasoner : Reasoner
  explainer : Generator
  /-- Whether a batch is being taken in. -/
  listening : Bool := false
  closed : Bool := false
  changes : Feed := {}

namespace KnowledgeBase

/-- An open knowledge base over the axioms, classified, unless one of them has a defect. -/
def new (name : String) (axioms : AxiomSet) (policy : LimitPolicy) :
    Except ReasoningError KnowledgeBase :=
  match Reasoner.ofAxioms name axioms.toList with
  | .error e => .error e
  | .ok r => .ok { name, reasoner := r.classify, explainer := { policy } }

/-- How many batches changed the axioms. -/
def revision (kb : KnowledgeBase) : Nat := kb.reasoner.revision

/-- The axioms held. -/
def axioms (kb : KnowledgeBase) : AxiomSet := kb.reasoner.axioms

/-- The refusal of a closed knowledge base. -/
def refusal (kb : KnowledgeBase) : ReasoningError := .closed kb.name

/-! ## Reading -/

/-- Answers a query from the engine. -/
def readQuery (kb : KnowledgeBase) (kind : QueryKind) (e : Entity) :
    Except ReasoningError NodeSet × KnowledgeBase :=
  let r := kb.reasoner.settle.classify
  (r.query kind e, { kb with reasoner := r })

/-- Answers from the engine whether an axiom holds in every model. -/
def readEntailed (kb : KnowledgeBase) (a : Axiom) : Except ReasoningError Bool × KnowledgeBase :=
  let r := kb.reasoner.settle.remember (kb.reasoner.classesFor (.ofAxiom a))
  (r.isEntailed a, { kb with reasoner := r })

/-- Takes justifications from the engine. -/
def readExplanations (kb : KnowledgeBase) (a : Axiom) (limit : Nat) :
    Except ReasoningError Explanations × KnowledgeBase :=
  let r := kb.reasoner.settle
  let (answer, g) := kb.explainer.explain r a limit
  (answer, { kb with reasoner := r, explainer := g })

/-- Answers a query. -/
def query (kb : KnowledgeBase) (kind : QueryKind) (e : Entity) :
    Except ReasoningError NodeSet × KnowledgeBase :=
  if kb.closed then (.error kb.refusal, kb) else kb.readQuery kind e

/-- Whether an axiom holds in every model. -/
def isEntailed (kb : KnowledgeBase) (a : Axiom) : Except ReasoningError Bool × KnowledgeBase :=
  if kb.closed then (.error kb.refusal, kb) else kb.readEntailed a

/-- The justifications of an axiom, at most so many. -/
def explain (kb : KnowledgeBase) (a : Axiom) (limit : Nat) :
    Except ReasoningError Explanations × KnowledgeBase :=
  if kb.closed then (.error kb.refusal, kb) else kb.readExplanations a limit

/-! ## Changing -/

/-- Takes in a batch whose axioms were checked. -/
def takeIn (kb : KnowledgeBase) (additions removals : AxiomSet) : UpdateSummary × KnowledgeBase :=
  let kb := { kb with listening := true }
  let (r, change) := kb.reasoner.apply additions.toList removals.toList
  let explainer := if change.effective then kb.explainer.invalidate else kb.explainer
  let kb := { kb with reasoner := r, explainer, listening := false }
  ({ added := change.added, removed := change.removed, revision := r.revision }, kb)

/-- Tells the subscribers of an update that changed something. -/
def announce (kb : KnowledgeBase) (s : UpdateSummary) : KnowledgeBase :=
  if s.added + s.removed > 0 then
    { kb with
      changes := kb.changes.send
        { ontology := kb.name, revision := s.revision, added := s.added, removed := s.removed } }
  else kb

/-- Applies additions, then removals, as one batch. -/
def update (kb : KnowledgeBase) (additions removals : AxiomSet) :
    Except ReasoningError UpdateSummary × KnowledgeBase :=
  if kb.closed then (.error kb.refusal, kb)
  else
    match Axiom.validateAll (additions.toList ++ removals.toList) with
    | .error e => (.error e, kb)
    | .ok () =>
      let (s, kb) := kb.takeIn additions removals
      (.ok s, kb.announce s)

/-- From here on every call is refused. -/
def raiseClosed (kb : KnowledgeBase) : KnowledgeBase := { kb with closed := true }

/-- Lets go of the explanations. -/
def disposeExplainer (kb : KnowledgeBase) : KnowledgeBase :=
  { kb with explainer := kb.explainer.dispose }

/-- Lets go of the engine. -/
def disposeReasoner (kb : KnowledgeBase) : KnowledgeBase :=
  { kb with reasoner := kb.reasoner.dispose }

/-- Closes the knowledge base and lets go of all it holds, step by step. Closing again does
nothing. -/
def close (kb : KnowledgeBase) : KnowledgeBase :=
  if kb.closed then kb else kb.raiseClosed.disposeExplainer.disposeReasoner

/-! ## Histories -/

/-- What can be asked of a knowledge base. -/
inductive Call where
  | query (kind : QueryKind) (e : Entity)
  | entailed (a : Axiom)
  | explain (a : Axiom) (limit : Nat)
  | update (additions removals : AxiomSet)
  | close

/-- What a knowledge base answers. -/
inductive Answer where
  | nodes (ns : NodeSet)
  | truth (b : Bool)
  | justifications (es : Explanations)
  | summary (s : UpdateSummary)
  | done

/-- Answers a call. -/
def serve (kb : KnowledgeBase) : Call → Except ReasoningError Answer × KnowledgeBase
  | .query kind e => (kb.query kind e).map (·.map .nodes) id
  | .entailed a => (kb.isEntailed a).map (·.map .truth) id
  | .explain a limit => (kb.explain a limit).map (·.map .justifications) id
  | .update additions removals => (kb.update additions removals).map (·.map .summary) id
  | .close => (.ok .done, kb.close)

end KnowledgeBase

end OntologyService
