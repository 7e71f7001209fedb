import OntologyService.State.Registry
import OntologyService.Source.Catalog

/-!
# The service's state and its generations

A `Generation` is a snapshot of every ontology the service answers for. A `Holder` owns the
current one and replaces it on refresh, as a whole: whoever looks at a generation never sees a mix
of two.

A refresh carries each published document into the next generation. The same version keeps its
knowledge base, a changed one gets a new one, and a document that is defective or could not be
read keeps what the name had before, if it had anything. Names that are no longer listed are
dropped.

Closing a holder closes the knowledge bases of the generation that is current at that moment, and
ends refreshing: a refresh that is still loading when the holder is closed installs nothing.
-/

namespace OntologyService

/-- An ontology in a generation: the version it stands for, and its knowledge base. -/
structure Holding where
  version : String
  base : BaseId
deriving DecidableEq

/-- A snapshot of every ontology the service answers for. -/
structure Generation where
  /-- One for the first, one more for each that replaces another. -/
  number : Nat
  /-- When the snapshot was built, in seconds. -/
  loadedAt : Nat
  ontologies : Table String Holding

/-- An ontology as listings show it. -/
structure OntologySummary where
  name : String
  version : String
  axioms : Nat
  revision : Nat
deriving DecidableEq

namespace Generation

/-- The knowledge base of a name. -/
def find (g : Generation) (name : String) : Except ReasoningError BaseId :=
  match g.ontologies.get? name with
  | some h => .ok h.base
  | none => .error (.unknownOntology name)

/-- The version that a name stands for. -/
def version? (g : Generation) (name : String) : Option String :=
  (g.ontologies.get? name).map Holding.version

/-- The names, in order. -/
def names (g : Generation) : List String := g.ontologies.keys

/-- How many ontologies there are. -/
def size (g : Generation) : Nat := g.ontologies.size

/-- The listing of the ontologies, by name. -/
def summaries (g : Generation) (r : Registry) : List OntologySummary :=
  g.ontologies.toList.filterMap fun (name, h) =>
    (r.get? h.base).map fun kb =>
      { name, version := h.version, axioms := kb.axioms.size, revision := kb.revision }

end Generation

/-- What a refresh did. -/
structure RefreshSummary where
  generation : Nat := 0
  /-- Same version, same knowledge base. -/
  reused : Nat := 0
  /-- Another version, a new knowledge base. -/
  updated : Nat := 0
  /-- A new name. -/
  added : Nat := 0
  /-- No longer listed. -/
  dropped : Nat := 0
  /-- Defective or unreadable; the name keeps what it had. -/
  failed : Nat := 0
deriving DecidableEq

/-- How a refresh ended. -/
inductive RefreshOutcome where
  | refreshed (s : RefreshSummary)
  /-- The holder was closed, before or meanwhile, and nothing changed. -/
  | closed
deriving DecidableEq

/-- Owns the current generation. -/
structure Holder where
  /-- The current generation, until the holder is closed. -/
  current : Option Generation
  closed : Bool := false
  policy : LimitPolicy

/-- The identity of the job that refreshes a holder. -/
def refreshJobId : String := "server-state-refresh"

/-- The next generation while it is being put together. -/
structure Merge where
  ontologies : Table String Holding := ∅
  summary : RefreshSummary := {}
  registry : Registry

namespace Merge

/-- Gives a name what it had before, if it had anything. -/
def keep (m : Merge) (previous : Generation) (name : String) : Merge :=
  match previous.ontologies.get? name with
  | some old => { m with ontologies := m.ontologies.insert name old }
  | none => m

/-- Carries a document into the next generation. -/
def document (policy : LimitPolicy) (previous : Generation) (m : Merge) (d : Document) : Merge :=
  let old? := previous.ontologies.get? d.name
  let rebuild (counted : RefreshSummary) : Merge :=
    match KnowledgeBase.new d.name d.axioms policy with
    | .ok kb =>
      let (base, registry) := m.registry.add kb
      { ontologies := m.ontologies.insert d.name { version := d.version, base }
        summary := counted
        registry }
    | .error _ =>
      { m with summary := { m.summary with failed := m.summary.failed + 1 } }.keep previous d.name
  match old? with
  | some old =>
    if old.version = d.version then
      { m with
        ontologies := m.ontologies.insert d.name old
        summary := { m.summary with reused := m.summary.reused + 1 } }
    else rebuild { m.summary with updated := m.summary.updated + 1 }
  | none => rebuild { m.summary with added := m.summary.added + 1 }

/-- Carries an unreadable document into the next generation. -/
def rejection (previous : Generation) (m : Merge) (r : Rejection) : Merge :=
  { m with summary := { m.summary with failed := m.summary.failed + 1 } }.keep previous r.name

/-- The next generation's ontologies, from the previous ones and a catalog. -/
def ofCatalog (policy : LimitPolicy) (previous : Generation) (registry : Registry) (c : Catalog) :
    Merge :=
  let m := c.rejected.foldl (rejection previous)
    (c.documents.foldl (document policy previous) { registry })
  let dropped := previous.ontologies.keys.filter fun name => !m.ontologies.contains name
  { m with summary := { m.summary with dropped := dropped.length } }

end Merge

namespace Holder

/-- Gives each document a knowledge base, and stops at the first defective one. -/
def buildAll (policy : LimitPolicy) (built : Table String Holding) (registry : Registry) :
    List Document → Except ReasoningError (Table String Holding × Registry)
  | [] => .ok (built, registry)
  | d :: ds =>
    match KnowledgeBase.new d.name d.axioms policy with
    | .error e => .error e
    | .ok kb =>
      let (base, registry) := registry.add kb
      buildAll policy (built.insert d.name { version := d.version, base }) registry ds

/-- The first generation, from what a source published at the time `now`. Anything unreadable or
defective in it is an error. -/
def load (registry : Registry) (policy : LimitPolicy) (now : Nat)
    (loaded : Except SourceError Catalog) : Except ServiceError (Holder × Registry) :=
  match loaded with
  | .error e => .error (.source e)
  | .ok catalog =>
    match catalog.rejected with
    | r :: _ => .error (.source r.error)
    | [] =>
      match buildAll policy ∅ registry catalog.documents with
      | .error e => .error (.reasoning e)
      | .ok (ontologies, registry) =>
        .ok ({ current := some { number := 1, loadedAt := now, ontologies }, policy }, registry)

/-- The current generation. -/
def generation (h : Holder) : Except StateError Generation :=
  match h.current with
  | some g => .ok g
  | none => .error .closed

/-- Makes what was put together from the generation `previous` the current generation, unless the
holder was closed in the meantime. -/
def install (h : Holder) (previous : Generation) (now : Nat) (m : Merge) :
    RefreshOutcome × Holder :=
  if h.closed then (.closed, h)
  else
    let number := previous.number + 1
    (.refreshed { m.summary with generation := number },
      { h with current := some { number, loadedAt := now, ontologies := m.ontologies } })

/-- Brings the state in line with what a source publishes at the time `now`. -/
def refresh (h : Holder) (registry : Registry) (now : Nat) (loaded : Except SourceError Catalog) :
    Except ServiceError RefreshOutcome × Holder × Registry :=
  match h.current with
  | none => (.ok .closed, h, registry)
  | some previous =>
    match loaded with
    | .error e => (.error (.source e), h, registry)
    | .ok catalog =>
      let m := Merge.ofCatalog h.policy previous registry catalog
      let (outcome, h) := h.install previous now m
      (.ok outcome, h, m.registry)

/-- Closes the holder and the knowledge bases of its current generation. -/
def close (h : Holder) (registry : Registry) : Holder × Registry :=
  let bases := match h.current with
    | some g => g.ontologies.values.map Holding.base
    | none => []
  ({ h with current := none, closed := true }, bases.foldl Registry.close registry)

end Holder

end OntologyService
