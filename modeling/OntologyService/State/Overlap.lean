import OntologyService.State.Holder

/-!
# Refreshes and closes that overlap

A refresh takes its time: it looks at the current generation, loads from the source, puts the next
generation together document by document, and only then makes it the current one. Refreshes wait
for one another. To close a holder nobody has to wait: the flag goes up and the current generation
is taken away in one step, whatever a refresh is doing, and then the knowledge bases that were taken
are closed one by one.

An `Overlap` is the holder, the knowledge bases, the lock on refreshes, and where each party is.
`move` takes one party one step further: as far as it gets before another may come in between. A
party that has to wait stays where it is, and so does one that is done. A run is a list of parties,
in the order in which they move.
-/

namespace OntologyService

/-- The knowledge bases of a generation, by name. -/
def Generation.bases (g : Generation) : List BaseId := g.ontologies.values.map Holding.base

/-- Ends putting together: what the generation before had and this one has not is counted. -/
def Merge.conclude (m : Merge) (previous : Generation) : Merge :=
  let dropped := previous.ontologies.keys.filter fun name => !m.ontologies.contains name
  { m with summary := { m.summary with dropped := dropped.length } }

namespace Holder

/-- What a refresh comes to. -/
abbrev Result := Except ServiceError RefreshOutcome

/-- What can be asked of a holder: to refresh, at the time `now` and from a source that yields
`loaded` when it is asked, or to close. -/
inductive Call where
  | refresh (now : Nat) (loaded : Except SourceError Catalog)
  | close

/-- Where a party is that refreshes. -/
inductive Refresher where
  | called
  /-- The lock is held; the current generation is next. -/
  | admitted
  /-- The source is asked next. -/
  | loading (previous : Generation)
  /-- What was put together so far, and what is left of the catalog. -/
  | merging (previous : Generation) (m : Merge) (left : Catalog)
  /-- The next generation is put together; it is installed next. -/
  | built (previous : Generation) (m : Merge)
  /-- The lock is given back next. -/
  | leaving (result : Result)
  | done (result : Result)

/-- Where a party is that closes the holder. -/
inductive Closer where
  | called
  /-- The flag is up, and these knowledge bases are left to close. -/
  | closing (left : List BaseId)
  | done

/-- A party: its call, and where it is with it. -/
inductive Party where
  | refresher (now : Nat) (loaded : Except SourceError Catalog) (place : Refresher)
  | closer (place : Closer)

namespace Party

/-- A party that is about to call. -/
def ofCall : Call → Party
  | .refresh now loaded => .refresher now loaded .called
  | .close => .closer .called

/-- The call of a party. -/
def call : Party → Call
  | .refresher now loaded _ => .refresh now loaded
  | .closer _ => .close

/-- What the refresh of a party came to, once it is decided. -/
def result? : Party → Option Result
  | .refresher _ _ (.leaving result) | .refresher _ _ (.done result) => some result
  | _ => none

end Party

/-- **A holder that is refreshed and closed** by the parties `ι`. -/
structure Overlap (ι : Type) where
  holder : Holder
  registry : Registry
  parties : ι → Party
  /-- Who holds the lock on refreshes. -/
  refreshing : Option ι := none

namespace Overlap

variable {ι : Type} [DecidableEq ι]

/-- Everybody is about to call. -/
def new (holder : Holder) (registry : Registry) (calls : ι → Call) : Overlap ι :=
  { holder, registry, parties := fun p => .ofCall (calls p) }

/-- Puts a party in its next place. -/
def put (w : Overlap ι) (p : ι) (party : Party) : Overlap ι :=
  { w with parties := fun i => if i = p then party else w.parties i }

/-- The next step of a party that refreshes. -/
def moveRefresher (w : Overlap ι) (p : ι) (now : Nat) (loaded : Except SourceError Catalog) :
    Refresher → Overlap ι
  | .called =>
    if w.refreshing.isNone then
      { w with refreshing := some p }.put p (.refresher now loaded .admitted)
    else w
  | .admitted =>
    match w.holder.current with
    | none => w.put p (.refresher now loaded (.leaving (.ok .closed)))
    | some previous => w.put p (.refresher now loaded (.loading previous))
  | .loading previous =>
    match loaded with
    | .error e => w.put p (.refresher now loaded (.leaving (.error (.source e))))
    | .ok catalog =>
      w.put p (.refresher now loaded (.merging previous { registry := w.registry } catalog))
  | .merging previous m ⟨d :: ds, rs⟩ =>
    let m := Merge.document w.holder.policy previous { m with registry := w.registry } d
    { w with registry := m.registry }.put p (.refresher now loaded (.merging previous m ⟨ds, rs⟩))
  | .merging previous m ⟨[], r :: rs⟩ =>
    let m := Merge.rejection previous { m with registry := w.registry } r
    { w with registry := m.registry }.put p (.refresher now loaded (.merging previous m ⟨[], rs⟩))
  | .merging previous m ⟨[], []⟩ =>
    w.put p (.refresher now loaded (.built previous (m.conclude previous)))
  | .built previous m =>
    let (outcome, holder) := w.holder.install previous now m
    { w with holder }.put p (.refresher now loaded (.leaving (.ok outcome)))
  | .leaving result =>
    { w with refreshing := none }.put p (.refresher now loaded (.done result))
  | .done _ => w

/-- The next step of a party that closes the holder. -/
def moveCloser (w : Overlap ι) (p : ι) : Closer → Overlap ι
  | .called =>
    let left := match w.holder.current with
      | some g => g.bases
      | none => []
    { w with holder := { w.holder with current := none, closed := true } }.put p
      (.closer (.closing left))
  | .closing (base :: left) =>
    { w with registry := w.registry.close base }.put p (.closer (.closing left))
  | .closing [] => w.put p (.closer .done)
  | .done => w

/-- The next step of a party. -/
def move (w : Overlap ι) (p : ι) : Overlap ι :=
  match w.parties p with
  | .refresher now loaded place => w.moveRefresher p now loaded place
  | .closer place => w.moveCloser p place

/-- What is left when the parties move in this order. -/
def run (w : Overlap ι) (moves : List ι) : Overlap ι := moves.foldl move w

end Overlap

end Holder

end OntologyService
