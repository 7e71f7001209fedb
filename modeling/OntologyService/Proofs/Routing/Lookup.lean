import Mathlib.Data.List.Nodup
import Mathlib.Data.List.TakeWhile
import Mathlib.Data.String.Basic
import OntologyService.Proofs.Order.Listing
import OntologyService.Routing.Router

/-!
# What a router finds

A router holds an entry for every path of its rows, with the endpoints of that path in the order of
the rows (`Holds`); that is what registering keeps (`Holds.register`), and so what a router holds
that was built (`holds_build`).

A path may match the patterns of several entries. Entries are looked at in the order of their keys,
and a later one wins only if its pattern goes before, so the entry that is found is known as soon as
its pattern is held against those of the others that match (`entry?_eq`). A path that is written out
as a key without braces always wins (`entry?_of_spelled`): its pattern goes before all others but
those of the keys that go on with a brace that is never closed, and these come later in the order.
-/

namespace OntologyService

open Ranked (Before)

namespace PathPattern

/-! ## Patterns in which nothing varies -/

/-- The pattern that matches one path only. -/
def literal (cs : List Char) : PathPattern := cs.map .char

/-- No character of the text is a brace. -/
def Spelled (cs : List Char) : Prop := ∀ c ∈ cs, c ≠ '\x7b' ∧ c ≠ '\x7d'

-- looks at the characters of the text, where the instance for all characters would try every one
instance (cs : List Char) : Decidable (Spelled cs) :=
  List.decidableBAll (fun c => c ≠ '\x7b' ∧ c ≠ '\x7d') cs

/-- Characters without braces are marks of their own, whatever follows. -/
theorem marks_append {cs : List Char} (spelled : Spelled cs) (rest : List Char) :
    marks (cs ++ rest) = cs.map .char ++ marks rest := by
  induction cs with
  | nil => rfl
  | cons c cs ih =>
    obtain ⟨noOpening, noClosing⟩ := spelled c List.mem_cons_self
    rw [List.cons_append, marks_char noOpening noClosing,
      ih fun d member => spelled d (List.mem_cons_of_mem c member)]
    rfl

/-- A text without braces is marked character by character. -/
theorem marks_of_spelled {cs : List Char} (spelled : Spelled cs) : marks cs = cs.map .char := by
  have split := marks_append spelled []
  rwa [List.append_nil, show marks [] = [] from rfl, List.append_nil] at split

/-- Characters outside of braces stand for themselves. -/
theorem parts_none_append (cs : List Char) (ms : List Mark) :
    parts none (cs.map .char ++ ms) = literal cs ++ parts none ms := by
  induction cs with
  | nil => rfl
  | cons c cs ih => exact congrArg (.char c :: ·) ih

/-- Characters inside of braces are those of a name. -/
theorem parts_some_append (name cs : List Char) (ms : List Mark) :
    parts (some name) (cs.map .char ++ ms) = parts (some (cs.reverse ++ name)) ms := by
  induction cs generalizing name with
  | nil => rfl
  | cons c cs ih =>
    rw [List.reverse_cons, List.append_assoc]
    exact ih (c :: name)

/-- A text without braces is a pattern of its characters. -/
theorem parts_marks_of_spelled {cs : List Char} (spelled : Spelled cs) :
    parts none (marks cs) = literal cs := by
  have split := parts_none_append cs []
  rwa [List.append_nil, parts, List.append_nil, ← marks_of_spelled spelled] at split

/-- A name in braces spells what it stands for, between two texts without braces. -/
theorem parts_marks_of_named {front name back : List Char} (spelled : Spelled front)
    (named' : Spelled name) (behind : Spelled back) :
    parts none (marks (front ++ '\x7b' :: (name ++ '\x7d' :: back)))
      = literal front ++ named name :: literal back := by
  have opening : marks ('\x7b' :: (name ++ '\x7d' :: back))
      = .opening :: marks (name ++ '\x7d' :: back) := by
    refine marks_opening fun cs same => ?_
    cases name with
    | nil => exact absurd (List.cons.inj same).1 (by decide)
    | cons c cs => exact (named' c List.mem_cons_self).1 (List.cons.inj same).1
  have closing : marks ('\x7d' :: back) = .closing :: marks back := by
    refine marks_closing fun cs same => ?_
    exact (behind '\x7d' (same ▸ List.mem_cons_self)).2 rfl
  rw [marks_append spelled, parts_none_append, opening, marks_append named', closing, parts,
    parts_some_append, parts, List.append_nil, List.reverse_reverse, parts_marks_of_spelled behind]

/-- A text without braces spells itself. -/
theorem ofString_of_spelled {s : String} (spelled : Spelled s.toList) :
    ofString s = literal s.toList := parts_marks_of_spelled spelled

theorem named_ne_char (name : List Char) (c : Char) : named name ≠ .char c := by
  unfold named
  split <;> exact PatternPart.noConfusion

/-- What marks spell inside a name starts with what the name stands for, if it ever ends. -/
theorem parts_some_ne_literal (name : List Char) (ms : List Mark) {cs : List Char}
    (spelled : parts (some name) ms = literal cs) : cs = [] := by
  induction ms generalizing name with
  | nil => exact List.map_eq_nil_iff.1 spelled.symm
  | cons m ms ih =>
    cases m with
    | opening => exact ih _ spelled
    | char c => exact ih _ spelled
    | closing =>
      cases cs with
      | nil => rfl
      | cons d ds => exact absurd (List.cons.inj spelled).1 (named_ne_char _ d)

/-- A pattern of characters begins with the first of them. -/
theorem eq_cons_of_literal {c : Char} {ps : PathPattern} {cs : List Char}
    (same : PatternPart.char c :: ps = literal cs) : ∃ ds, cs = c :: ds ∧ ps = literal ds := by
  cases cs with
  | nil => exact absurd same (List.cons_ne_nil _ _)
  | cons d ds =>
    obtain ⟨head, tail⟩ := List.cons.inj same
    exact ⟨ds, by rw [PatternPart.char.inj head], tail⟩

/-- No brace is among the characters of a pattern. -/
theorem not_literal_of_brace {d : Char} {ps : PathPattern} {cs : List Char}
    (spelled : Spelled cs) (brace : d = '\x7b' ∨ d = '\x7d') :
    PatternPart.char d :: ps ≠ literal cs := by
  intro same
  obtain ⟨ds, rfl, -⟩ := eq_cons_of_literal same
  obtain ⟨noOpening, noClosing⟩ := spelled d List.mem_cons_self
  exact not_or.2 ⟨noOpening, noClosing⟩ brace

/-- A text that spells another one without braces starts with it. -/
theorem prefix_of_parts_marks (text : List Char) {cs : List Char} (spelled : Spelled cs)
    (same : parts none (marks text) = literal cs) : cs <+: text := by
  induction text using marks.induct generalizing cs with
  | case1 => exact (List.map_eq_nil_iff.1 same.symm) ▸ List.prefix_refl []
  | case2 text ih => exact absurd same (not_literal_of_brace spelled (.inl rfl))
  | case3 text ih => exact absurd same (not_literal_of_brace spelled (.inr rfl))
  | case4 text single ih =>
    rw [marks_opening single] at same
    rw [parts_some_ne_literal [] _ same]
    exact List.nil_prefix
  | case5 text single ih =>
    rw [marks_closing single] at same
    exact absurd same (not_literal_of_brace spelled (.inr rfl))
  | case6 c text one two three four ih =>
    rw [marks_char three four] at same
    obtain ⟨ds, rfl, rest⟩ := eq_cons_of_literal same
    refine List.cons_prefix_cons.2 ⟨rfl, ih (fun d member => ?_) rest⟩
    exact spelled d (List.mem_cons_of_mem c member)

/-! ## What matches, and what goes before -/

/-- What is spelled out is taken off the path. -/
theorem match?_literal_append (cs path : List Char) (p : PathPattern) :
    (literal cs ++ p).match? (cs ++ path) = p.match? path := by
  induction cs with
  | nil => rfl
  | cons c cs ih =>
    rw [literal, List.map_cons, List.cons_append, List.cons_append, match?, if_pos rfl]
    exact ih

/-- A pattern of characters matches these. -/
theorem match?_literal (cs : List Char) : (literal cs).match? cs = some [] := by
  have taken := match?_literal_append cs [] []
  rwa [List.append_nil, List.append_nil] at taken

/-- Only a path that starts with what is spelled out is matched. -/
theorem exists_of_match?_literal_append {cs path : List Char} {p : PathPattern}
    {ps : List (String × String)} (matched : (literal cs ++ p).match? path = some ps) :
    ∃ rest, path = cs ++ rest ∧ p.match? rest = some ps := by
  induction cs generalizing path with
  | nil => exact ⟨path, rfl, matched⟩
  | cons c cs ih =>
    cases path with
    | nil => cases matched
    | cons d path =>
      rw [literal, List.map_cons, List.cons_append, match?] at matched
      split at matched
      · next same =>
        obtain ⟨rest, split, left⟩ := ih matched
        exact ⟨rest, by rw [same, split, List.cons_append], left⟩
      · cases matched

/-- A pattern of characters matches nothing else. -/
theorem eq_of_match?_literal {cs path : List Char} {ps : List (String × String)}
    (matched : (literal cs).match? path = some ps) : path = cs := by
  rw [← List.append_nil (literal cs)] at matched
  obtain ⟨rest, split, left⟩ := exists_of_match?_literal_append matched
  cases rest with
  | nil => rw [split, List.append_nil]
  | cons d rest => cases left

/-- What has no slash is in one segment. -/
theorem inSegment_of_not_mem {value : List Char} (segment : '/' ∉ value) :
    ∀ c ∈ value, inSegment c = true :=
  fun _ member => decide_eq_true fun same => segment (same ▸ member)

/-- A segment ends at the next slash. -/
theorem takeWhile_inSegment_append {value : List Char} (segment : '/' ∉ value) (path : List Char) :
    (value ++ '/' :: path).takeWhile inSegment = value := by
  rw [List.takeWhile_append_of_pos (inSegment_of_not_mem segment),
    List.takeWhile_cons_of_neg (by decide), List.append_nil]

/-- A name takes the place of a segment, if what follows it is spelled out from a slash on. -/
theorem match?_segment_append {name : String} {value path cs : List Char}
    (segment : '/' ∉ value) :
    match? (.segment name :: literal ('/' :: cs)) (value ++ '/' :: path)
      = ((literal ('/' :: cs)).match? ('/' :: path)).map ((name, String.ofList value) :: ·) := by
  have left : (value ++ '/' :: path).dropWhile inSegment = '/' :: path := by
    rw [List.dropWhile_append_of_pos (inSegment_of_not_mem segment),
      List.dropWhile_cons_of_neg (by decide)]
  rw [match?, takeWhile_inSegment_append segment, left]
  -- more of the pattern follows, so the segment may be empty
  exact if_neg Bool.false_ne_true

/-- What a name in front of a slash takes the place of is a segment. -/
theorem exists_of_match?_segment {name : String} {path cs : List Char}
    {ps : List (String × String)}
    (matched : match? (.segment name :: literal ('/' :: cs)) path = some ps) :
    ∃ value, '/' ∉ value ∧ path = value ++ '/' :: cs ∧ ps = [(name, String.ofList value)] := by
  rw [match?] at matched
  split at matched
  · cases matched
  · obtain ⟨qs, left, rfl⟩ := Option.map_eq_some_iff.1 matched
    have behind := eq_of_match?_literal left
    rw [behind, match?_literal] at left
    refine ⟨path.takeWhile inSegment, fun slash => ?_, ?_, ?_⟩
    · exact absurd (List.mem_takeWhile_imp slash) (by decide)
    · rw [← behind, List.takeWhile_append_dropWhile]
    · rw [← Option.some.inj left]

/-- Only the pattern without parts matches the path without characters. -/
theorem eq_nil_of_match?_nil {p : PathPattern} {ps : List (String × String)}
    (matched : p.match? [] = some ps) : p = [] := by
  induction p generalizing ps with
  | nil => rfl
  | cons part p ih =>
    cases part with
    | char c => cases matched
    | rest name => cases p <;> cases matched
    | segment name =>
      rw [match?] at matched
      split at matched
      · cases matched
      · next more =>
        obtain ⟨qs, later, -⟩ := Option.map_eq_some_iff.1 matched
        have nothing : p = [] := ih later
        rw [nothing] at more
        exact absurd rfl more

/-- No pattern goes before itself. -/
theorem goesBefore_self (p : PathPattern) : p.goesBefore p = false := by
  induction p with
  | nil => rfl
  | cons part p ih =>
    cases part with
    | char c => rw [goesBefore, ih, Bool.and_false]
    | segment name => rw [goesBefore, ih]
    | rest name => rfl

/-- Of the patterns that match a path, the one that spells it out goes before all others. -/
theorem literal_goesBefore {cs : List Char} {p : PathPattern} {ps : List (String × String)}
    (matched : p.match? cs = some ps) (other : p ≠ literal cs) :
    (literal cs).goesBefore p = true ∧ p.goesBefore (literal cs) = false := by
  induction cs generalizing p with
  | nil => exact absurd (eq_nil_of_match?_nil matched) other
  | cons c cs ih =>
    cases p with
    | nil => cases matched
    | cons part p =>
      cases part with
      | segment name => exact ⟨rfl, rfl⟩
      | rest name => exact ⟨rfl, rfl⟩
      | char d =>
        rw [match?] at matched
        split at matched
        · next same =>
          have rest : p ≠ literal cs := fun rest => other (by rw [same, rest]; rfl)
          obtain ⟨before, after⟩ := ih matched rest
          rw [literal, List.map_cons, goesBefore, goesBefore, same, decide_eq_true rfl,
            Bool.true_and, Bool.true_and]
          exact ⟨before, after⟩
        · cases matched

end PathPattern

namespace Table

variable {κ ν : Type} [Ranked κ]

theorem mem_values {t : Table κ ν} {v : ν} : v ∈ t.values ↔ ∃ k, t.get? k = some v := by
  simp only [values, List.mem_map, Prod.exists, exists_eq_right, mem_toList]

/-- A value is listed behind those of the keys before its own and in front of the others. -/
theorem values_split {t : Table κ ν} {k : κ} {v : ν} (held : t.get? k = some v) :
    ∃ front back, t.values = front ++ v :: back ∧
      (∀ w ∈ front, ∃ k', t.get? k' = some w ∧ Before k' k) ∧
      (∀ w ∈ back, ∃ k', t.get? k' = some w ∧ Before k k') := by
  obtain ⟨front, back, split⟩ := List.append_of_mem (mem_toList.2 held)
  have sorted := t.toList_sorted
  rw [split, List.pairwise_append] at sorted
  refine ⟨front.map Prod.snd, back.map Prod.snd, ?_, ?_, ?_⟩
  · rw [values, split, List.map_append, List.map_cons]
  · intro w listed
    obtain ⟨p, member, rfl⟩ := List.mem_map.1 listed
    refine ⟨p.1, mem_toList.1 ?_, sorted.2.2 p member _ List.mem_cons_self⟩
    rw [split]
    exact List.mem_append_left _ member
  · intro w listed
    obtain ⟨p, member, rfl⟩ := List.mem_map.1 listed
    refine ⟨p.1, mem_toList.1 ?_, (List.pairwise_cons.1 sorted.2.1).1 p member⟩
    rw [split]
    exact List.mem_append_right _ (List.mem_cons_of_mem _ member)

end Table

namespace Router

/-! ## The entry of a path -/

/-- The better of the entry so far and another one, for a path. -/
def better (path : List Char) (best : Option (PathEntry × List (String × String)))
    (e : PathEntry) : Option (PathEntry × List (String × String)) :=
  match e.pattern.match? path with
  | none => best
  | some parts =>
    match best with
    | none => some (e, parts)
    | some (b, _) => if e.pattern.goesBefore b.pattern then some (e, parts) else best

variable {t : Router} {path : String}

theorem entry?_eq_foldl (t : Router) (path : String) :
    t.entry? path = t.entries.values.foldl (better path.toList) none := rfl

/-- The better of two is one of the two. -/
theorem better_cases {cs : List Char} {best : Option (PathEntry × List (String × String))}
    {e b : PathEntry} {parts : List (String × String)}
    (found : better cs best e = some (b, parts)) :
    best = some (b, parts) ∨ b = e ∧ e.pattern.match? cs = some parts := by
  unfold better at found
  split at found
  · exact .inl found
  · next ps matched =>
    have new (same : some (e, ps) = some (b, parts)) :
        b = e ∧ e.pattern.match? cs = some parts := by
      obtain ⟨rfl, rfl⟩ := Prod.mk.inj (Option.some.inj same)
      exact ⟨rfl, matched⟩
    split at found
    · exact .inr (new found)
    · split at found
      · exact .inr (new found)
      · exact .inl found

/-- The best of some entries is one of them that matches, or the one so far. -/
theorem foldl_better_cases {cs : List Char} {es : List PathEntry} {b : PathEntry}
    {best : Option (PathEntry × List (String × String))} {parts : List (String × String)}
    (found : es.foldl (better cs) best = some (b, parts)) :
    best = some (b, parts) ∨ b ∈ es ∧ b.pattern.match? cs = some parts := by
  induction es generalizing best with
  | nil => exact .inl found
  | cons e es ih =>
    rcases ih found with now | ⟨later, matched⟩
    · rcases better_cases now with before | ⟨rfl, matched⟩
      · exact .inl before
      · exact .inr ⟨List.mem_cons_self, matched⟩
    · exact .inr ⟨List.mem_cons_of_mem e later, matched⟩

/-- The entry that a path leads to is one of the router's, and matches the path. -/
theorem entry?_mem {e : PathEntry} {parts : List (String × String)}
    (found : t.entry? path = some (e, parts)) :
    (∃ key, t.entries.get? key = some e) ∧ e.pattern.match? path.toList = some parts := by
  rcases foldl_better_cases found with none' | ⟨listed, matched⟩
  · cases none'
  · exact ⟨Table.mem_values.1 listed, matched⟩

/-- What is found stays if nothing that comes later goes before it. -/
theorem foldl_better_of_le {cs : List Char} {x : PathEntry} {parts : List (String × String)}
    {es : List PathEntry}
    (behind : ∀ e ∈ es, ∀ ps, e.pattern.match? cs = some ps →
      e.pattern.goesBefore x.pattern = false) :
    es.foldl (better cs) (some (x, parts)) = some (x, parts) := by
  induction es with
  | nil => rfl
  | cons e es ih =>
    have stays : better cs (some (x, parts)) e = some (x, parts) := by
      unfold better
      split
      · rfl
      · next ps matched =>
        refine if_neg fun before => ?_
        rw [behind e List.mem_cons_self ps matched] at before
        cases before
    rw [List.foldl_cons, stays]
    exact ih fun e' member => behind e' (List.mem_cons_of_mem e member)

/-- **The entry that wins**: it matches, goes before the matching ones that are listed in front of
it, and none that is listed behind it goes before it. -/
theorem entry?_eq {key : String} {x : PathEntry} {parts : List (String × String)}
    (held : t.entries.get? key = some x) (matched : x.pattern.match? path.toList = some parts)
    (others : ∀ k e ps, k ≠ key → t.entries.get? k = some e →
      e.pattern.match? path.toList = some ps →
        e.pattern.goesBefore x.pattern = false ∧
        (Before k key → x.pattern.goesBefore e.pattern = true)) :
    t.entry? path = some (x, parts) := by
  obtain ⟨front, back, split, before, behind⟩ := Table.values_split held
  rw [entry?_eq_foldl, split, List.foldl_append, List.foldl_cons]
  have reached :
      better path.toList (front.foldl (better path.toList) none) x = some (x, parts) := by
    rw [better, matched]
    cases best : front.foldl (better path.toList) none with
    | none => rfl
    | some b =>
      obtain ⟨b, ps⟩ := b
      rcases foldl_better_cases best with none' | ⟨listed, matched'⟩
      · cases none'
      · obtain ⟨k, held', order⟩ := before b listed
        exact if_pos ((others k b ps order.ne held' matched').2 order)
  rw [reached]
  refine foldl_better_of_le fun e listed ps matched' => ?_
  obtain ⟨k, held', order⟩ := behind e listed
  exact (others k e ps order.ne.symm held' matched').1

end Router

/-! ## What is registered -/

/-- An endpoint, with the method and the path that it answers. -/
structure Row where
  method : String
  path : String
  endpoint : Endpoint

namespace Row

/-- The row of a route. -/
def ofRoute (r : Route) : Row := ⟨r.method, r.path, .handler r.handler⟩

/-- The row of the administrative shutdown. -/
def shutdown : Row := ⟨"GET", shutdownPath, .shutdown⟩

/-- The endpoints of a path, by method. -/
def endpointsAt (rows : List Row) (path : String) : List (String × Endpoint) :=
  (rows.filter fun r => decide (r.path = path)).map fun r => (r.method, r.endpoint)

/-- The entry of a path that has these endpoints. -/
def entry (path : String) (endpoints : List (String × Endpoint)) : PathEntry :=
  { pattern := .ofString path, varies := path.contains '\x7b', endpoints }

/-- The entry with one more endpoint, behind the others. -/
def extend (e : PathEntry) (method : String) (endpoint : Endpoint) : PathEntry :=
  { e with endpoints := e.endpoints ++ [(method, endpoint)] }

/-- The endpoints at a path are those of its rows. -/
theorem mem_endpointsAt {rows : List Row} {path : String} {p : String × Endpoint} :
    p ∈ endpointsAt rows path ↔ ⟨p.1, path, p.2⟩ ∈ rows := by
  simp only [endpointsAt, List.mem_map, List.mem_filter, decide_eq_true_eq]
  constructor
  · rintro ⟨r, ⟨member, rfl⟩, rfl⟩
    exact member
  · intro member
    exact ⟨_, ⟨member, rfl⟩, rfl⟩

end Row

namespace Router

variable {t : Router} {rows : List Row} {path : String}

/-- **What a router holds**: an entry for every path of the rows, with the endpoints of the path in
their order. -/
structure Holds (t : Router) (rows : List Row) : Prop where
  absent : ∀ path, Row.endpointsAt rows path = [] → t.entries.get? path = none
  present : ∀ path, Row.endpointsAt rows path ≠ [] →
    t.entries.get? path = some (Row.entry path (Row.endpointsAt rows path))

namespace Holds

/-- A router without entries holds no rows. -/
theorem empty : Holds {} [] where
  absent path _ := Table.get?_empty path
  present _ known := absurd rfl known

/-- The entry of a path has the endpoints of its rows. -/
theorem getD_entry (h : t.Holds rows) (path : String) :
    (t.entries.get? path).getD (Row.entry path [])
      = Row.entry path (Row.endpointsAt rows path) := by
  by_cases new : Row.endpointsAt rows path = []
  · rw [h.absent path new, new]
    rfl
  · rw [h.present path new]
    rfl

/-- Registering an endpoint extends the entry of its path. -/
theorem register_entries (t : Router) (r : Row) :
    (t.register r.method r.path r.endpoint).entries
      = t.entries.insert r.path
          (Row.extend ((t.entries.get? r.path).getD (Row.entry r.path [])) r.method r.endpoint) :=
  rfl

/-- Registering adds a row behind the others. -/
theorem register (h : t.Holds rows) (r : Row) :
    (t.register r.method r.path r.endpoint).Holds (rows ++ [r]) := by
  have entries : (t.register r.method r.path r.endpoint).entries
      = t.entries.insert r.path
          (Row.entry r.path (Row.endpointsAt rows r.path ++ [(r.method, r.endpoint)])) := by
    rw [register_entries, h.getD_entry]
    rfl
  have here : Row.endpointsAt (rows ++ [r]) r.path
      = Row.endpointsAt rows r.path ++ [(r.method, r.endpoint)] := by
    rw [Row.endpointsAt, List.filter_append, List.map_append, List.filter_cons_of_pos (by simp)]
    rfl
  have elsewhere (path : String) (other : path ≠ r.path) :
      Row.endpointsAt (rows ++ [r]) path = Row.endpointsAt rows path := by
    rw [Row.endpointsAt, List.filter_append, List.filter_cons_of_neg (by simpa using other.symm)]
    rw [List.filter_nil, List.append_nil]
    rfl
  constructor
  · intro path new
    have other : path ≠ r.path := by
      rintro rfl
      rw [here] at new
      exact List.append_ne_nil_of_right_ne_nil _ (List.cons_ne_nil _ _) new
    rw [elsewhere path other] at new
    rw [entries, Table.get?_insert_of_ne other, h.absent path new]
  · intro path old
    by_cases same : path = r.path
    · rw [entries, same, Table.get?_insert_self, here]
    · rw [elsewhere path same] at old ⊢
      rw [entries, Table.get?_insert_of_ne same, h.present path old]

/-- A router that was built holds the rows of the routes. -/
theorem foldl_register (h : t.Holds rows) (routes : List Route) :
    (routes.foldl (fun t r => t.register r.method r.path (.handler r.handler)) t).Holds
      (rows ++ routes.map Row.ofRoute) := by
  induction routes generalizing t rows with
  | nil =>
    rw [List.map_nil, List.append_nil]
    exact h
  | cons r routes ih =>
    have next := ih (h.register (.ofRoute r))
    rw [List.append_assoc] at next
    exact next

/-- With the endpoint of the shutdown a router holds its row too. -/
theorem withShutdown (h : t.Holds rows) : t.withShutdown.Holds (rows ++ [.shutdown]) :=
  h.register .shutdown

/-- An entry is that of a path that has endpoints. -/
theorem eq_entry (h : t.Holds rows) {e : PathEntry} (held : t.entries.get? path = some e) :
    e = Row.entry path (Row.endpointsAt rows path) := by
  by_cases new : Row.endpointsAt rows path = []
  · rw [h.absent path new] at held
    cases held
  · rw [h.present path new] at held
    exact (Option.some.inj held).symm

end Holds

/-- A router that was built holds the rows of its routes. -/
theorem holds_build {routes : List Route} (built : build routes = .ok t) :
    t.Holds (routes.map .ofRoute) := by
  unfold build at built
  split at built
  · cases built
  · split at built
    · cases built
    · rw [← Except.ok.inj built]
      exact Holds.empty.foldl_register routes

/-- Routes are accepted if no two of them agree in method and path, none takes what is reserved, and
all their methods can be served. -/
theorem build_ok {routes : List Route}
    (apart : firstDuplicate? [("GET", shutdownPath)] routes = none)
    (served : ∀ r ∈ routes, servedMethods.contains r.method = true) :
    build routes
      = .ok (routes.foldl (fun t r => t.register r.method r.path (.handler r.handler)) {}) := by
  have supported : firstUnsupported? routes = none := by
    refine List.find?_eq_none.2 fun r member => ?_
    rw [served r (List.mem_mergeSort.1 member)]
    exact Bool.false_ne_true
  rw [build, apart, supported]

/-- No two routes that were accepted agree in method and path. -/
theorem nodup_of_firstDuplicate? {seen : List (String × String)} {routes : List Route}
    (apart : firstDuplicate? seen routes = none) (distinct : seen.Nodup) :
    ((routes.map fun r => (r.method, r.path)) ++ seen).Nodup := by
  induction routes generalizing seen with
  | nil => exact distinct
  | cons r routes ih =>
    rw [firstDuplicate?] at apart
    split at apart
    · cases apart
    · next new =>
      have unseen : (r.method, r.path) ∉ seen := by simpa using new
      have rest := ih apart (List.nodup_cons.2 ⟨unseen, distinct⟩)
      exact (List.perm_middle.nodup_iff).1 rest

/-- Every row has a method and a path of its own. -/
def Distinct (rows : List Row) : Prop := (rows.map fun r => (r.method, r.path)).Nodup

/-- The rows of a router that was built are distinct, also from that of the shutdown. -/
theorem distinct_build {routes : List Route} (built : build routes = .ok t) :
    Distinct (routes.map .ofRoute ++ [.shutdown]) := by
  unfold build at built
  split at built
  · cases built
  · next apart =>
    have distinct := nodup_of_firstDuplicate? apart (List.nodup_singleton _)
    unfold Distinct
    rw [List.map_append, List.map_map]
    exact distinct

/-! ## Where a method and a path lead -/

/-- A row answers its own method on its own path. -/
theorem endpoint?_of_mem (distinct : Distinct rows) {r : Row} (member : r ∈ rows) :
    PathEntry.endpoint? (Row.entry r.path (Row.endpointsAt rows r.path)) r.method
      = some r.endpoint := by
  have listed : (r.method, r.endpoint) ∈ Row.endpointsAt rows r.path :=
    Row.mem_endpointsAt.2 member
  have found : (Row.endpointsAt rows r.path).find? (fun p => decide (p.1 = r.method))
      = some (r.method, r.endpoint) := by
    cases first : (Row.endpointsAt rows r.path).find? fun p => decide (p.1 = r.method) with
    | none => exact absurd (decide_eq_true rfl) (List.find?_eq_none.1 first _ listed)
    | some p =>
      have same : p.1 = r.method := by simpa using List.find?_some first
      have other : ⟨p.1, r.path, p.2⟩ ∈ rows :=
        Row.mem_endpointsAt.1 (List.mem_of_find?_eq_some first)
      have one := List.inj_on_of_nodup_map distinct other member (Prod.ext same rfl)
      rw [← one]
  rw [PathEntry.endpoint?, show (Row.entry r.path (Row.endpointsAt rows r.path)).endpoints
    = Row.endpointsAt rows r.path from rfl, found]

/-- The endpoint for a method is registered for it, or for `GET` if the method is `HEAD`. -/
theorem mem_of_endpoint? {e : PathEntry} {method : String} {endpoint : Endpoint}
    (found : PathEntry.endpoint? e method = some endpoint) :
    ∃ m, (m, endpoint) ∈ e.endpoints ∧ (m = method ∨ method = "HEAD" ∧ m = "GET") := by
  unfold PathEntry.endpoint? at found
  split at found
  · next p first =>
    have same : p.1 = method := by simpa using List.find?_some first
    rw [← Option.some.inj found]
    exact ⟨p.1, List.mem_of_find?_eq_some first, .inl same⟩
  · split at found
    · next head =>
      obtain ⟨p, first, rfl⟩ := Option.map_eq_some_iff.1 found
      have same : p.1 = "GET" := by simpa using List.find?_some first
      exact ⟨p.1, List.mem_of_find?_eq_some first, .inr ⟨head, same⟩⟩
    · cases found

/-- An endpoint is found through the entry that the path leads to, and a handler is given what
varies of the path, as text. -/
theorem entry?_of_find {method : String} {endpoint : Endpoint} {params : Table String String}
    (found : t.find method path = .endpoint endpoint params) :
    ∃ e parts, t.entry? path = some (e, parts) ∧
      PathEntry.endpoint? e method = some endpoint ∧
      (e.varies = true → ∀ h, endpoint = .handler h → readParams parts = .ok params) := by
  unfold find at found
  split at found
  · cases found
  · next e parts entry =>
    refine ⟨e, parts, entry, ?_⟩
    split at found
    · cases found
    · next ep answers =>
      rw [answers]
      split at found
      · split at found
        · next read =>
          cases found
          exact ⟨rfl, fun _ _ _ => read⟩
        · cases found
      · next constant =>
        injection found with same
        rw [← same]
        exact ⟨rfl, fun varies h ofHandler => (constant h ofHandler varies).elim⟩

/-- **What a path and a method lead to** is registered, under a path whose pattern matches. What
varies of the path is read for a handler. -/
theorem find_endpoint (h : t.Holds rows) {method : String} {endpoint : Endpoint}
    {params : Table String String} (found : t.find method path = .endpoint endpoint params) :
    ∃ r ∈ rows, r.endpoint = endpoint ∧
      (r.method = method ∨ method = "HEAD" ∧ r.method = "GET") ∧
      ∃ parts, (PathPattern.ofString r.path).match? path.toList = some parts ∧
        (r.path.contains '\x7b' = true → ∀ h, endpoint = .handler h →
          readParams parts = .ok params) := by
  obtain ⟨e, parts, entry, answers, read⟩ := entry?_of_find found
  obtain ⟨⟨key, held⟩, matched⟩ := entry?_mem entry
  obtain ⟨m, member, methods⟩ := mem_of_endpoint? answers
  rw [h.eq_entry held] at member matched read
  exact ⟨⟨m, key, endpoint⟩, Row.mem_endpointsAt.1 member, rfl, methods, parts, matched, read⟩

/-- A path that is written out as a key leads to the entry of the key. -/
theorem entry?_of_spelled (h : t.Holds rows) (spelled : PathPattern.Spelled path.toList)
    (known : Row.endpointsAt rows path ≠ []) :
    t.entry? path = some (Row.entry path (Row.endpointsAt rows path), []) := by
  have pattern : (Row.entry path (Row.endpointsAt rows path)).pattern
      = PathPattern.literal path.toList := PathPattern.ofString_of_spelled spelled
  refine entry?_eq (h.present path known) (by rw [pattern, PathPattern.match?_literal]) ?_
  intro k e ps other held matched
  rw [pattern]
  by_cases literal : e.pattern = PathPattern.literal path.toList
  · rw [literal, PathPattern.goesBefore_self]
    refine ⟨rfl, fun order => ?_⟩
    rw [h.eq_entry held] at literal
    have longer : path.toList <+: k.toList :=
      PathPattern.prefix_of_parts_marks k.toList spelled literal
    obtain ⟨more, longer⟩ := longer
    have shorter := String.lt_iff_toList_lt.1 (Ranked.cmpString_eq_lt.1 order)
    rw [← longer] at shorter
    exact absurd shorter (List.not_lt.2 List.le_append_left)
  · obtain ⟨before, after⟩ := PathPattern.literal_goesBefore matched literal
    exact ⟨after, fun _ => before⟩

/-- What is found on a path that is written out as a key is registered under this key. -/
theorem find_of_spelled (h : t.Holds rows) (spelled : PathPattern.Spelled path.toList)
    (known : Row.endpointsAt rows path ≠ []) {method : String} {endpoint : Endpoint}
    {params : Table String String} (found : t.find method path = .endpoint endpoint params) :
    ∃ m, ⟨m, path, endpoint⟩ ∈ rows := by
  obtain ⟨e, parts, entry, answers, -⟩ := entry?_of_find found
  rw [entry?_of_spelled h spelled known] at entry
  obtain ⟨rfl, -⟩ := Prod.mk.inj (Option.some.inj entry)
  obtain ⟨m, member, -⟩ := mem_of_endpoint? answers
  exact ⟨m, Row.mem_endpointsAt.1 member⟩

end Router

end OntologyService
