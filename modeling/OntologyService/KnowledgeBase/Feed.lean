/-!
# Change notifications

A `Feed` keeps the latest notifications for whoever subscribed, at most `capacity` of them.
Notifications are numbered from the first one ever sent, and a subscriber is the number of the
next notification it has not seen. One that fell behind what is kept is told how many it missed,
once, and goes on with the oldest one kept.
-/

namespace OntologyService

/-- What an update changed in an ontology. -/
structure ModelChange where
  ontology : String
  revision : Nat
  added : Nat
  removed : Nat
deriving DecidableEq

/-- The notifications that subscribers can still get. -/
structure Feed where
  /-- How many notifications are no longer kept. -/
  dropped : Nat := 0
  /-- The notifications kept, oldest first. -/
  kept : List ModelChange := []

namespace Feed

/-- How many notifications are kept. -/
def capacity : Nat := 64

/-- What a subscriber gets. -/
inductive Receipt where
  | change (c : ModelChange)
  | lagged (missed : Nat)
  | empty

/-- The number of the next notification: where a new subscriber starts. -/
def next (f : Feed) : Nat := f.dropped + f.kept.length

/-- Sends a notification, at the cost of the oldest one if as many are kept as can be. -/
def send (f : Feed) (c : ModelChange) : Feed :=
  if f.kept.length < capacity then { f with kept := f.kept ++ [c] }
  else { dropped := f.dropped + 1, kept := f.kept.drop 1 ++ [c] }

/-- What a subscriber gets, and where it stands afterwards. -/
def receive (f : Feed) (position : Nat) : Receipt × Nat :=
  if position < f.dropped then (.lagged (f.dropped - position), f.dropped)
  else
    match f.kept[position - f.dropped]? with
    | some c => (.change c, position + 1)
    | none => (.empty, position)

end Feed

end OntologyService
