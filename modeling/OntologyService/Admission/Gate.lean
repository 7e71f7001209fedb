/-!
# Admitting requests

A `Gate` counts the requests that are under way and carries the wish to shut down. A request comes
in by two steps, and anything may happen between them: `arrive` counts it, and `look` lets it in
unless a shutdown was requested, or stops counting it. Because it is counted first, whoever finds
the count at zero after a shutdown was requested has missed no request that was let in.

A request that was let in has a guard, which may have several owners. It is counted until the last
of them lets go of it.
-/

namespace OntologyService

/-- Who has come in. -/
structure Gate where
  /-- Whether a shutdown was requested. -/
  requested : Bool := false
  /-- How many requests are counted. -/
  inFlight : Nat := 0
  /-- The requests that are counted and have not been let in yet. -/
  arriving : List Nat := []
  /-- The guards of the requests that were let in, with the number of their owners. -/
  guards : List (Nat × Nat) := []
  /-- The number of the next request. -/
  next : Nat := 0
deriving DecidableEq

namespace Gate

/-- Requests a shutdown, and tells whether this is the first time. -/
def requestShutdown (g : Gate) : Bool × Gate := (!g.requested, { g with requested := true })

/-- Counts a new request, the first step of coming in. -/
def arrive (g : Gate) : Nat × Gate :=
  (g.next,
    { g with
      inFlight := g.inFlight + 1
      arriving := g.next :: g.arriving
      next := g.next + 1 })

/-- Lets a request in that has arrived, or turns it away, the second step of coming in. -/
def look (g : Gate) (n : Nat) : Bool × Gate :=
  if n ∈ g.arriving then
    let arriving := g.arriving.erase n
    if g.requested then (false, { g with arriving, inFlight := g.inFlight - 1 })
    else (true, { g with arriving, guards := (n, 1) :: g.guards })
  else (false, g)

/-- Both steps at once: the number of the request, if it was let in. -/
def enter (g : Gate) : Option Nat × Gate :=
  let (n, g) := g.arrive
  let (isIn, g) := g.look n
  (if isIn then some n else none, g)

/-- How many owners a guard has. -/
def owners? (g : Gate) (n : Nat) : Option Nat :=
  (g.guards.find? fun p => decide (p.1 = n)).map Prod.snd

/-- Gives every guard of the number another number of owners. -/
def withOwners (g : Gate) (n owners : Nat) : Gate :=
  { g with guards := g.guards.map fun p => if p.1 = n then (n, owners) else p }

/-- Gives a guard one more owner; tells how many it has then. -/
def share (g : Gate) (n : Nat) : Option Nat × Gate :=
  match g.owners? n with
  | none => (none, g)
  | some owners => (some (owners + 1), g.withOwners n (owners + 1))

/-- Takes an owner from a guard; tells how many are left. The last one to go ends the request. -/
def release (g : Gate) (n : Nat) : Option Nat × Gate :=
  match g.owners? n with
  | none => (none, g)
  | some owners =>
    if owners ≤ 1 then
      (some 0,
        { g with
          guards := g.guards.filter fun p => decide (p.1 ≠ n)
          inFlight := g.inFlight - 1 })
    else (some (owners - 1), g.withOwners n (owners - 1))

/-- Takes all owners from a guard. -/
def end' (g : Gate) (n : Nat) : Gate :=
  match g.owners? n with
  | none => g
  | some _ => ((g.withOwners n 1).release n).2

/-- Whether no request is under way. -/
def drained (g : Gate) : Bool := g.inFlight == 0

end Gate

end OntologyService
