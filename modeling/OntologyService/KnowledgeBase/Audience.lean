import OntologyService.KnowledgeBase.Basic

/-!
# Subscribers

Whoever subscribes to a knowledge base is told what updates change from then on, at a pace of their
own: they ask for the next notification when they like, and what they have not seen waits for them
as long as the feed keeps it.

An `Audience` is a knowledge base with its subscribers, numbered in the order in which they came.
Calls, subscriptions and receptions follow each other in any order, so a list of moves is a history.
-/

namespace OntologyService

/-- The change that a receipt tells of. -/
def Feed.Receipt.change? : Feed.Receipt → Option ModelChange
  | .change c => some c
  | .lagged _ | .empty => none

/-- A subscriber: the number of the next notification, and what was received, in order. -/
structure Subscriber where
  position : Nat
  receipts : List Feed.Receipt := []

namespace Subscriber

/-- Asks a feed for the next notification. -/
def receive (s : Subscriber) (f : Feed) : Subscriber :=
  let (receipt, position) := f.receive s.position
  { position, receipts := s.receipts ++ [receipt] }

/-- The changes among the receipts. -/
def heard (s : Subscriber) : List ModelChange := s.receipts.filterMap Feed.Receipt.change?

end Subscriber

/-- A knowledge base with its subscribers. -/
structure Audience where
  base : KnowledgeBase
  subscribers : List Subscriber := []

namespace Audience

/-- What happens between a knowledge base and its subscribers. -/
inductive Move where
  /-- Somebody calls the knowledge base. -/
  | call (c : KnowledgeBase.Call)
  /-- A new subscriber comes. -/
  | subscribe
  /-- The subscriber of a number asks for the next notification. -/
  | receive (n : Nat)

/-- Makes a move. -/
def move (a : Audience) : Move → Audience
  | .call c => { a with base := (a.base.serve c).2 }
  | .subscribe => { a with subscribers := a.subscribers ++ [{ position := a.base.changes.next }] }
  | .receive n => { a with subscribers := a.subscribers.modify n fun s => s.receive a.base.changes }

/-- The audience that a list of moves leaves. -/
def run (a : Audience) (moves : List Move) : Audience := moves.foldl move a

/-- The subscriber of a number. -/
def subscriber? (a : Audience) (n : Nat) : Option Subscriber := a.subscribers[n]?

/-- What the subscriber of a number has received. -/
def receipts (a : Audience) (n : Nat) : List Feed.Receipt :=
  ((a.subscriber? n).map Subscriber.receipts).getD []

/-- The changes that the subscriber of a number was told of. -/
def heard (a : Audience) (n : Nat) : List ModelChange :=
  (a.receipts n).filterMap Feed.Receipt.change?

/-- The call that a move makes. -/
def Move.call? : Move → Option KnowledgeBase.Call
  | .call c => some c
  | .subscribe | .receive _ => none

end Audience

end OntologyService
