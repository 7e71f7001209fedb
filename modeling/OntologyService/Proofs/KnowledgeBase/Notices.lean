import Mathlib.Data.List.Induction
import OntologyService.KnowledgeBase.Audience
import OntologyService.Proofs.KnowledgeBase.History

/-!
# What subscribers are told

What shows of a knowledge base is its axioms, its revision and what its subscribers are told
(`KnowledgeBase.shown`). Reads do not show, nor do calls that are refused, and an update that is
answered shows in its counts (`KnowledgeBase.TookIn`): a notification is sent on the very condition
on which the revision moves (`serve_told`).

A feed keeps the latest notifications only, so a subscriber may miss some. One that never has more
unread than the feed keeps has them all waiting for it (`Subscriber.Follows`): to send one more puts
it behind them, and to receive takes the first.

**The law** (`told_after`): whatever goes on between a knowledge base and those who call it and
listen to it, a subscriber that keeps up is told of the updates after its subscription that were
answered and counted anything, of each once and in their order.
-/

namespace OntologyService

/-! ## What shows of a call -/

namespace KnowledgeBase

variable {kb : KnowledgeBase} {c : Call} {additions removals : AxiomSet}

/-- What shows of a knowledge base: its axioms, its revision, and what its subscribers are told. -/
def shown (kb : KnowledgeBase) : AxiomSet × Nat × Feed := (kb.axioms, kb.revision, kb.changes)

/-- A read does not show. -/
theorem shown_serve_of_reads (reads : c.Reads) : (kb.serve c).2.shown = kb.shown := by
  cases live : kb.closed with
  | true => rw [serve_of_closed live]
  | false =>
    -- what is left is what was found, but for an engine that has settled
    have settled {kb' : KnowledgeBase} (axioms : kb'.axioms = kb.reasoner.settle.axioms)
        (revision : kb'.revision = kb.reasoner.settle.revision) (told : kb'.changes = kb.changes) :
        kb'.shown = kb.shown := by
      rw [shown, shown, axioms, revision, told, Reasoner.settle_axioms, Reasoner.settle_revision]
      rfl
    cases c with
    | query kind e => rw [serve_query live]; exact settled rfl rfl rfl
    | entailed a => rw [serve_entailed live]; exact settled rfl rfl rfl
    | explain a limit => rw [serve_explain live]; exact settled rfl rfl rfl
    | update additions removals => exact reads.elim
    | close => exact reads.elim

/-- **A call that is refused** does not show. -/
theorem shown_serve_of_error {e : ReasoningError} (refused : (kb.serve c).1 = .error e) :
    (kb.serve c).2.shown = kb.shown := by
  cases c with
  | query kind e => exact shown_serve_of_reads trivial
  | entailed a => exact shown_serve_of_reads trivial
  | explain a limit => exact shown_serve_of_reads trivial
  | close => cases refused
  | update additions removals =>
    show (kb.update additions removals).2.shown = kb.shown
    cases answer : (kb.update additions removals).1 with
    | error e => rw [update_of_error answer]
    | ok s =>
      rw [show (kb.serve (.update additions removals)).1 =
        (kb.update additions removals).1.map .summary from rfl, answer] at refused
      cases refused

/-- A knowledge base keeps its name. -/
theorem name_serve (kb : KnowledgeBase) (c : Call) : (kb.serve c).2.name = kb.name := by
  cases c with
  | query kind e =>
    show (kb.query kind e).2.name = _
    unfold query
    split <;> rfl
  | entailed a =>
    show (kb.isEntailed a).2.name = _
    unfold isEntailed
    split <;> rfl
  | explain a limit =>
    show (kb.explain a limit).2.name = _
    unfold explain
    split <;> rfl
  | close =>
    show kb.close.name = _
    unfold close
    split <;> rfl
  | update additions removals =>
    show (kb.update additions removals).2.name = _
    cases answer : (kb.update additions removals).1 with
    | error e => rw [update_of_error answer]
    | ok s =>
      obtain ⟨live, valid⟩ := of_update_eq_ok answer
      rw [update_eq_ok live valid, announce_changes]
      rfl

/-! ## Notices -/

/-- What the subscribers are to be told of a call: what an update did that was answered and counts
anything. -/
def notice? (kb : KnowledgeBase) (c : Call) : Option ModelChange :=
  match (kb.serve c).1 with
  | .ok (.summary s) => if s.added + s.removed > 0 then some (kb.noticeOf s) else none
  | _ => none

/-- What the subscribers are to be told of a history. -/
def notices (kb : KnowledgeBase) : List Call → List ModelChange
  | [] => []
  | c :: history => (kb.notice? c).toList ++ (kb.serve c).2.notices history

/-- A read notifies of nothing. -/
theorem notice?_of_reads (reads : c.Reads) : kb.notice? c = none := by
  cases c with
  | query kind e =>
    rw [notice?, show (kb.serve (.query kind e)).1 = (kb.query kind e).1.map .nodes from rfl]
    cases (kb.query kind e).1 <;> rfl
  | entailed a =>
    rw [notice?, show (kb.serve (.entailed a)).1 = (kb.isEntailed a).1.map .truth from rfl]
    cases (kb.isEntailed a).1 <;> rfl
  | explain a limit =>
    rw [notice?, show (kb.serve (.explain a limit)).1 = (kb.explain a limit).1.map .justifications
      from rfl]
    cases (kb.explain a limit).1 <;> rfl
  | update additions removals => exact reads.elim
  | close => exact reads.elim

/-- **What a call does to those who listen**: a notice is sent exactly if the call is a revision,
and it has the number of that revision. -/
structure Told (kb kb' : KnowledgeBase) (notice : Option ModelChange) : Prop where
  name : kb'.name = kb.name
  changes : kb'.changes = notice.elim kb.changes kb.changes.send
  revision : kb'.revision = kb.revision + notice.toList.length
  numbered : ∀ e ∈ notice, e.revision = kb.revision + 1 ∧ e.ontology = kb.name

/-- Where nothing shows, nothing is told. -/
theorem Told.quiet {kb' : KnowledgeBase} (name : kb'.name = kb.name)
    (changes : kb'.changes = kb.changes) (revision : kb'.revision = kb.revision) :
    kb.Told kb' none where
  name := name
  changes := changes
  revision := revision
  numbered _ none' := nomatch none'

/-- What leaves everything that shows tells nothing. -/
theorem Told.of_shown {kb' : KnowledgeBase} (name : kb'.name = kb.name)
    (same : kb'.shown = kb.shown) : kb.Told kb' none :=
  .quiet name (congrArg (·.2.2) same) (congrArg (·.2.1) same)

/-- An update that is answered is told of exactly if it counts anything. -/
theorem told_update {s : UpdateSummary} (updated : (kb.update additions removals).1 = .ok s) :
    kb.Told (kb.update additions removals).2
      (if s.added + s.removed > 0 then some (kb.noticeOf s) else none) := by
  obtain ⟨live, valid⟩ := of_update_eq_ok updated
  obtain ⟨answer, -, revision, changes⟩ := update_shows live valid
  have named : (kb.update additions removals).2.name = kb.name :=
    kb.name_serve (.update additions removals)
  cases updated.symm.trans answer
  dsimp only at revision changes ⊢
  split
  · next counts =>
    rw [if_pos counts] at revision changes
    refine ⟨named, changes, revision, fun e told => ?_⟩
    cases told
    exact ⟨revision, rfl⟩
  · next idle =>
    rw [if_neg idle] at revision changes
    exact .quiet named changes revision

/-- **Every call** tells what its answer says. -/
theorem serve_told (kb : KnowledgeBase) (c : Call) : kb.Told (kb.serve c).2 (kb.notice? c) := by
  have named := kb.name_serve c
  have read (reads : c.Reads) : kb.Told (kb.serve c).2 (kb.notice? c) := by
    rw [notice?_of_reads reads]
    exact .of_shown named (shown_serve_of_reads reads)
  cases c with
  | query kind e => exact read trivial
  | entailed a => exact read trivial
  | explain a limit => exact read trivial
  | close =>
    -- the axioms go, but nobody is told
    have still : kb.close.changes = kb.changes ∧ kb.close.revision = kb.revision := by
      unfold close
      split <;> exact ⟨rfl, rfl⟩
    exact .quiet named still.1 still.2
  | update additions removals =>
    have served : (kb.serve (.update additions removals)).1
        = (kb.update additions removals).1.map .summary := rfl
    cases answer : (kb.update additions removals).1 with
    | error e =>
      rw [answer] at served
      rw [notice?, served]
      exact .of_shown named (shown_serve_of_error served)
    | ok s =>
      rw [answer] at served
      rw [notice?, served]
      exact told_update answer

/-- What is told of two histories, one after the other. -/
theorem notices_append (kb : KnowledgeBase) (history more : List Call) :
    kb.notices (history ++ more) = kb.notices history ++ (kb.after history).notices more := by
  induction history generalizing kb with
  | nil => rfl
  | cons c history ih =>
    rw [List.cons_append, notices, ih, notices, List.append_assoc]
    rfl

/-- There are no more notices than calls. -/
theorem length_notices_le (kb : KnowledgeBase) (history : List Call) :
    (kb.notices history).length ≤ history.length := by
  induction history generalizing kb with
  | nil => exact Nat.le_refl 0
  | cons c history ih =>
    rw [notices, List.length_append, List.length_cons, Nat.add_comm]
    exact Nat.add_le_add (ih _) (by cases kb.notice? c <;> simp)

/-- **The notices of a history** have the numbers of its revisions, one after the other, and the
name of the knowledge base. -/
theorem notices_numbered (kb : KnowledgeBase) (history : List Call) :
    (kb.notices history).map ModelChange.revision
        = List.range' (kb.revision + 1) (kb.notices history).length ∧
      ∀ e ∈ kb.notices history, e.ontology = kb.name := by
  induction history generalizing kb with
  | nil => exact ⟨rfl, fun _ none' => nomatch none'⟩
  | cons c history ih =>
    obtain ⟨name, -, revision, numbered⟩ := kb.serve_told c
    obtain ⟨numbers, named⟩ := ih (kb.serve c).2
    rw [notices]
    cases told : kb.notice? c with
    | none =>
      rw [told] at revision
      rw [revision] at numbers
      exact ⟨numbers, fun e among => (named e among).trans name⟩
    | some e =>
      obtain ⟨first, here⟩ := numbered e told
      rw [told] at revision
      refine ⟨?_, List.forall_mem_cons.2 ⟨here, fun e' among => (named e' among).trans name⟩⟩
      rw [Option.toList_some, List.singleton_append, List.map_cons, List.length_cons,
        List.range'_succ, first, numbers, revision]
      rfl

end KnowledgeBase

/-! ## Feeds -/

namespace Feed

variable {f : Feed} {p : Nat}

/-- The position is that of a notification that is kept, or of the next one. -/
def Reaches (f : Feed) (p : Nat) : Prop := f.dropped ≤ p ∧ p ≤ f.next

/-- What is kept for a subscriber at a position. -/
def unread (f : Feed) (p : Nat) : List ModelChange := f.kept.drop (p - f.dropped)

/-- Unread is what is kept from the position on. -/
theorem length_unread (f : Feed) (p : Nat) :
    (f.unread p).length = f.kept.length - (p - f.dropped) := List.length_drop

/-- At the next notification nothing is unread. -/
theorem unread_next (f : Feed) : f.unread f.next = [] := by
  rw [unread, next, Nat.add_sub_cancel_left, List.drop_length]

/-- **To send** puts a notification behind what is unread, if there is room for it. -/
theorem send_spec (reaches : f.Reaches p) (room : (f.unread p).length < capacity)
    (e : ModelChange) : (f.send e).Reaches p ∧ (f.send e).unread p = f.unread p ++ [e] := by
  obtain ⟨low, high⟩ := reaches
  rw [next] at high
  rw [length_unread] at room
  have within : p - f.dropped ≤ f.kept.length := by omega
  unfold send
  split
  · next short =>
    refine ⟨⟨low, ?_⟩, ?_⟩
    · rw [next, List.length_append]
      exact Nat.le_trans high (by simp)
    · exact List.drop_append_of_le_length within
  · next full =>
    -- the oldest one goes, and it was read already
    have past : 1 + (p - (f.dropped + 1)) = p - f.dropped := by omega
    have rest : p - (f.dropped + 1) ≤ (f.kept.drop 1).length := by
      rw [List.length_drop]
      omega
    refine ⟨⟨?_, ?_⟩, ?_⟩
    · show f.dropped + 1 ≤ p
      omega
    · show p ≤ f.dropped + 1 + (f.kept.drop 1 ++ [e]).length
      rw [List.length_append, List.length_drop, List.length_singleton]
      omega
    · refine (List.drop_append_of_le_length rest).trans ?_
      rw [List.drop_drop, past]
      rfl

/-- Where nothing is unread, there is nothing to receive. -/
theorem receive_of_unread_nil (reaches : f.Reaches p) (none' : f.unread p = []) :
    f.receive p = (.empty, p) := by
  have beyond := List.drop_eq_nil_iff.1 none'
  rw [receive, if_neg (Nat.not_lt.2 reaches.1), List.getElem?_eq_none beyond]

/-- **To receive** takes the first of what is unread. -/
theorem receive_of_unread_cons {e : ModelChange} {rest : List ModelChange}
    (reaches : f.Reaches p) (first : f.unread p = e :: rest) :
    f.receive p = (.change e, p + 1) ∧ f.Reaches (p + 1) ∧ f.unread (p + 1) = rest := by
  have low := reaches.1
  have counted := length_unread f p
  rw [first, List.length_cons] at counted
  have head : f.kept[p - f.dropped]? = some e := by
    rw [← List.head?_drop, show f.kept.drop (p - f.dropped) = e :: rest from first]
    rfl
  refine ⟨?_, ⟨Nat.le_succ_of_le low, ?_⟩, ?_⟩
  · rw [receive, if_neg (Nat.not_lt.2 low), head]
  · rw [next]
    omega
  · rw [unread, Nat.sub_add_comm low, ← List.drop_drop]
    exact congrArg (List.drop 1) first

end Feed

/-! ## Subscribers -/

namespace Subscriber

variable {s : Subscriber} {f : Feed} {due : List ModelChange}

/-- **A subscriber follows a feed**: what was received of what is due, and what is unread, are all
of it, and nothing was ever missed. -/
structure Follows (s : Subscriber) (f : Feed) (due : List ModelChange) : Prop where
  reaches : f.Reaches s.position
  whole : s.heard ++ f.unread s.position = due
  never : ∀ n, Feed.Receipt.lagged n ∉ s.receipts

/-- A new subscriber is due nothing. -/
theorem follows_new (f : Feed) : Follows { position := f.next } f [] where
  reaches := ⟨Nat.le_add_right _ _, Nat.le_refl _⟩
  whole := f.unread_next
  never _ := List.not_mem_nil

/-- A subscriber goes on to follow if there is room for one notification more. -/
theorem Follows.send (h : s.Follows f due) (room : due.length < s.heard.length + Feed.capacity)
    (e : ModelChange) : s.Follows (f.send e) (due ++ [e]) := by
  have lengths := congrArg List.length h.whole
  rw [List.length_append] at lengths
  obtain ⟨reaches, behind⟩ := Feed.send_spec h.reaches (by omega) e
  refine ⟨reaches, ?_, h.never⟩
  rw [behind, ← List.append_assoc, h.whole]

/-- The receipt for what is there to receive. -/
def receiptFor : Option ModelChange → Feed.Receipt
  | some e => .change e
  | none => .empty

/-- What is received last is heard last. -/
theorem heard_of_receipts {t : Subscriber} {r : Feed.Receipt}
    (receipts : t.receipts = s.receipts ++ [r]) : t.heard = s.heard ++ r.change?.toList := by
  rw [heard, receipts, List.filterMap_append]
  cases r <;> rfl

/-- **What a subscriber receives** is the first of what is unread, if there is any. -/
theorem Follows.receive (h : s.Follows f due) :
    (s.receive f).Follows f due ∧
      (s.receive f).receipts = s.receipts ++ [receiptFor (f.unread s.position).head?] ∧
      (s.receive f).heard = s.heard ++ (f.unread s.position).take 1 ∧
      f.unread (s.receive f).position = (f.unread s.position).drop 1 := by
  have kept {r : Feed.Receipt} (told : ∀ n, r ≠ .lagged n) (n : Nat) :
      Feed.Receipt.lagged n ∉ s.receipts ++ [r] := fun among =>
    (List.mem_append.1 among).elim (h.never n) fun last => told n (List.mem_singleton.1 last).symm
  unfold Subscriber.receive
  cases unread : f.unread s.position with
  | nil =>
    rw [Feed.receive_of_unread_nil h.reaches unread]
    have heard := heard_of_receipts (t := ⟨s.position, s.receipts ++ [.empty]⟩) rfl
    refine ⟨⟨h.reaches, ?_, kept nofun⟩, rfl, heard, unread⟩
    rw [heard, Feed.Receipt.change?, Option.toList_none, List.append_nil]
    exact h.whole
  | cons e rest =>
    obtain ⟨first, reaches, behind⟩ := Feed.receive_of_unread_cons h.reaches unread
    rw [first]
    have heard := heard_of_receipts (t := ⟨s.position + 1, s.receipts ++ [.change e]⟩) rfl
    refine ⟨⟨reaches, ?_, kept nofun⟩, rfl, heard, behind⟩
    rw [heard, behind, List.append_assoc, ← h.whole, unread]
    rfl

end Subscriber

namespace Audience

open KnowledgeBase (Call)

variable {a : Audience} {n : Nat} {due : List ModelChange}

/-- The subscriber of a number follows the feed. -/
def Follows (a : Audience) (n : Nat) (due : List ModelChange) : Prop :=
  ∃ s, a.subscriber? n = some s ∧ s.Follows a.base.changes due

/-- The notices of the calls among some moves. -/
def notices (a : Audience) (moves : List Move) : List ModelChange :=
  a.base.notices (moves.filterMap Move.call?)

/-- **The next subscriber keeps up** through some moves: there is never more unread than the feed
keeps. -/
def KeepsUp (a : Audience) (moves : List Move) : Prop :=
  ∀ front, front <+: moves →
    (a.notices front).length ≤ ((a.run (.subscribe :: front)).heard a.subscribers.length).length
      + Feed.capacity

theorem run_append (a : Audience) (front back : List Move) :
    a.run (front ++ back) = (a.run front).run back := List.foldl_append

/-- Moves serve the calls that are among them. -/
theorem run_base (a : Audience) (moves : List Move) :
    (a.run moves).base = a.base.after (moves.filterMap Move.call?) := by
  induction moves generalizing a with
  | nil => rfl
  | cons m moves ih =>
    show ((a.move m).run moves).base = _
    rw [ih]
    cases m <;> rfl

/-- A new subscriber is not in the place of an old one. -/
theorem subscriber?_snoc {s : Subscriber} (there : a.subscriber? n = some s) (t : Subscriber) :
    ({ a with subscribers := a.subscribers ++ [t] } : Audience).subscriber? n = some s := by
  obtain ⟨inside, -⟩ := List.getElem?_eq_some_iff.1 there
  exact (List.getElem?_append_left inside).trans there

/-- Who receives is the subscriber that asks. -/
theorem subscriber?_receive {s : Subscriber} (there : a.subscriber? n = some s) {k : Nat} :
    (a.move (.receive k)).subscriber? n
      = some (if k = n then s.receive a.base.changes else s) := by
  refine (List.getElem?_modify _ k a.subscribers n).trans ?_
  rw [show a.subscribers[n]? = some s from there]
  split <;> rfl

theorem receipts_eq {s : Subscriber} (there : a.subscriber? n = some s) :
    a.receipts n = s.receipts := by
  rw [receipts, there]
  rfl

theorem heard_eq {s : Subscriber} (there : a.subscriber? n = some s) : a.heard n = s.heard :=
  congrArg (List.filterMap _) (receipts_eq there)

/-- **A move** keeps a subscriber at the feed that has room for what it is told. -/
theorem Follows.move (h : a.Follows n due) (m : Move)
    (room : (due ++ a.notices [m]).length ≤ ((a.move m).heard n).length + Feed.capacity) :
    (a.move m).Follows n (due ++ a.notices [m]) := by
  obtain ⟨s, there, follows⟩ := h
  cases m with
  | subscribe =>
    rw [show a.notices [.subscribe] = [] from rfl, List.append_nil]
    exact ⟨s, subscriber?_snoc there _, follows⟩
  | receive k =>
    rw [show a.notices [.receive k] = [] from rfl, List.append_nil]
    refine ⟨_, subscriber?_receive there, ?_⟩
    split
    · exact follows.receive.1
    · exact follows
  | call c =>
    have still : (a.move (.call c)).subscriber? n = some s := there
    have told : a.notices [.call c] = (a.base.notice? c).toList := List.append_nil _
    rw [heard_eq still, told] at room
    rw [told]
    refine ⟨s, still, ?_⟩
    show s.Follows (a.base.serve c).2.changes _
    rw [(a.base.serve_told c).changes]
    cases notice : a.base.notice? c with
    | none =>
      rw [Option.toList_none, List.append_nil]
      exact follows
    | some e =>
      rw [notice, Option.toList_some, List.length_append, List.length_singleton] at room
      exact follows.send (Nat.lt_of_succ_le room) e

/-- The notices of two parts come one after the other. -/
theorem notices_append (a : Audience) (front back : List Move) :
    a.notices (front ++ back) = a.notices front ++ (a.run (.subscribe :: front)).notices back := by
  rw [notices, List.filterMap_append, KnowledgeBase.notices_append, notices, notices, run_base]
  rfl

/-- A subscriber that keeps up follows the feed. -/
theorem follows_run {moves : List Move} (keepsUp : a.KeepsUp moves) :
    (a.run (.subscribe :: moves)).Follows a.subscribers.length (a.notices moves) := by
  induction moves using List.reverseRecOn with
  | nil => exact ⟨_, List.getElem?_concat_length, Subscriber.follows_new _⟩
  | append_singleton moves m ih =>
    have before := ih fun front early => keepsUp front (early.trans (List.prefix_append moves [m]))
    have room := keepsUp _ (List.prefix_refl _)
    rw [notices_append, ← List.cons_append, run_append] at room
    rw [notices_append, ← List.cons_append, run_append]
    exact before.move m room

/-- A subscriber that asks on is told of what is unread, one after the other. -/
theorem heard_asking (k : Nat) {s : Subscriber} (there : a.subscriber? n = some s)
    (follows : s.Follows a.base.changes due) :
    (a.run (List.replicate k (.receive n))).heard n
      = s.heard ++ (a.base.changes.unread s.position).take k := by
  induction k generalizing a s with
  | zero => exact (heard_eq there).trans (List.append_nil _).symm
  | succ k ih =>
    obtain ⟨follows', -, heard, unread⟩ := follows.receive
    have there' := subscriber?_receive (k := n) there
    rw [if_pos rfl] at there'
    show ((a.move (.receive n)).run (List.replicate k (.receive n))).heard n = _
    rw [ih there' follows', heard]
    show _ ++ (a.base.changes.unread (s.receive a.base.changes).position).take k = _
    rw [unread, List.append_assoc, Nat.add_comm k 1, List.take_add]

/-- **A subscriber is told** of what is due: so far of the first of it, in order and of each once,
with nothing missed; and as long as it asks on, of the rest, one after the other. -/
structure Tells (a : Audience) (n : Nat) (due unread : List ModelChange) : Prop where
  soFar : a.heard n ++ unread = due
  never : ∀ k, Feed.Receipt.lagged k ∉ a.receipts n
  next : (a.move (.receive n)).receipts n = a.receipts n ++ [Subscriber.receiptFor unread.head?]
  rest : ∀ k, (a.run (List.replicate k (.receive n))).heard n = a.heard n ++ unread.take k

/-- Whoever follows is told all that is due. -/
theorem Follows.tells (h : a.Follows n due) : ∃ unread, a.Tells n due unread := by
  obtain ⟨s, there, follows⟩ := h
  have heard := heard_eq there
  have receipts := receipts_eq there
  refine ⟨a.base.changes.unread s.position, ?_, ?_, ?_, fun k => ?_⟩
  · rw [heard]
    exact follows.whole
  · rw [receipts]
    exact follows.never
  · rw [receipts, receipts_eq (subscriber?_receive there), if_pos rfl]
    exact follows.receive.2.1
  · rw [heard]
    exact heard_asking k there follows

/-- **The law of notifications.** Whatever happened before, a subscriber that comes now and keeps up
is told of the calls from now on that are answered with an update that counts anything, with its
counts and its revision. These revisions follow one another. -/
theorem told_after (a : Audience) (moves : List Move) (keepsUp : a.KeepsUp moves) :
    let due := a.notices moves
    (∃ unread, (a.run (.subscribe :: moves)).Tells a.subscribers.length due unread) ∧
      due.map ModelChange.revision = List.range' (a.base.revision + 1) due.length ∧
      ∀ e ∈ due, e.ontology = a.base.name := by
  intro due
  exact ⟨(follows_run keepsUp).tells, a.base.notices_numbered _⟩

/-- Through so few moves that the feed keeps a notice for each, anybody keeps up. -/
theorem keepsUp_of_short (a : Audience) {moves : List Move}
    (short : moves.length ≤ Feed.capacity) : a.KeepsUp moves := by
  intro front early
  have called : (a.notices front).length ≤ front.length :=
    (a.base.length_notices_le _).trans (List.length_filterMap_le _ _)
  exact Nat.le_add_left_of_le (called.trans (early.length_le.trans short))

/-- Of a batch that adds an axiom, the same batch again, one with a defect, one that takes the axiom
back, and one that comes too late, the first and the fourth are told. -/
theorem pets_told :
    let bird := Axiom.subClassOf ⟨"Bird"⟩ ⟨"Animal"⟩
    let lone := Axiom.equivalentClasses (.ofList [⟨"Bird"⟩])
    let kb : KnowledgeBase :=
      { name := "pets", reasoner := .new "pets", explainer := { policy := .forward } }
    let a : Audience := { base := kb }
    let moves : List Move :=
      [.call (.update (.ofList [bird]) ∅), .call (.update (.ofList [bird]) ∅), .receive 0,
        .call (.update (.ofList [lone]) ∅), .call (.update ∅ (.ofList [bird])), .call .close,
        .call (.update (.ofList [bird]) ∅)]
    a.KeepsUp moves ∧ a.notices moves = [⟨"pets", 1, 1, 0⟩, ⟨"pets", 2, 0, 1⟩] ∧
      ∃ unread, (a.run (.subscribe :: moves)).Tells 0
        [⟨"pets", 1, 1, 0⟩, ⟨"pets", 2, 0, 1⟩] unread := by
  intro bird lone kb a moves
  have keepsUp : a.KeepsUp moves := a.keepsUp_of_short (by decide)
  have due : a.notices moves = [⟨"pets", 1, 1, 0⟩, ⟨"pets", 2, 0, 1⟩] := by decide +kernel
  obtain ⟨tells, -⟩ := told_after a moves keepsUp
  exact ⟨keepsUp, due, due ▸ tells⟩

end Audience

end OntologyService
