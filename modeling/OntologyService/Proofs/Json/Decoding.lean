import OntologyService.Json.Decode
import OntologyService.Proofs.Json.Reading
import OntologyService.Proofs.Order.Listing

/-!
# Decoders that undo a writer

A decoder gets a value back from what a writer made of it as soon as there is room for all its
nesting, and gets nothing from it with less room (`Exact`): every level of what was written is
looked into, so no deep part is passed over. The law is kept by what decoders are put together from.

A record is read field by field. `Slots.bind_exact` says of one field what `Exact` says of a
decoder, and the fields add up: there is room for all of them if there is room for the deepest.
-/

namespace OntologyService

namespace Decoder

variable {α β : Type} {d : Decoder α} {a : α} {j : Json} {room : Nat}

/-- **Gets back** the value from what was written of it, if there is room for its nesting, and
nothing otherwise. -/
def Exact (d : Decoder α) (a : α) (j : Json) : Prop :=
  ∀ room, d room j = if j.depth ≤ room then some a else none

/-- Texts are read without a limit, so the limit on what is used decides. -/
theorem Exact.text_eq (h : d.Exact a j) :
    d.text j.text = if j.depth ≤ maxDepth then some a else none := by
  rw [Decoder.text, Json.read_text, Option.bind_some]
  exact h maxDepth

/-- The same in UTF-8. -/
theorem Exact.octets_eq (h : d.Exact a j) :
    d.octets (Utf8.encode j.print) = if j.depth ≤ maxDepth then some a else none := by
  rw [Decoder.octets, Json.readOctets_print, Option.bind_some]
  exact h maxDepth

/-- A value without nesting needs no room. -/
theorem Exact.of_flat (flat : j.depth = 0) (reads : ∀ room, d room j = some a) : d.Exact a j := by
  intro room
  rw [reads, flat, if_pos (Nat.zero_le room)]

/-- Strings are read exactly. -/
theorem exact_string (s : String) : string.Exact s (.str s) := .of_flat rfl fun _ => rfl

/-- Booleans are read exactly. -/
theorem exact_bool (b : Bool) : bool.Exact b (.bool b) := .of_flat rfl fun _ => rfl

/-- A number that fits a machine word is read exactly. -/
theorem exact_word {n : Nat} (small : n < UInt64.size) : word.Exact n (.nat n) :=
  .of_flat rfl fun _ => if_pos small

/-- A function of what is read exactly is read exactly. -/
theorem Exact.map (h : d.Exact a j) (f : α → β) :
    Decoder.Exact (fun room j => (d room j).map f) (f a) j := by
  intro room
  show (d room j).map f = _
  rw [h room]
  split <;> rfl

/-! ## Lists and sets -/

/-- The items of a list are read in the order written, provided there is room for the deepest. -/
theorem mapM_exact {write : α → Json} (as : List α) (h : ∀ a ∈ as, d.Exact a (write a))
    (room : Nat) :
    (as.map write).mapM (d room)
      = if Json.depthOfItems (as.map write) ≤ room then some as else none := by
  induction as with
  | nil => exact (if_pos (Nat.zero_le room)).symm
  | cons a as ih =>
    rw [List.map_cons, List.mapM_cons, h a List.mem_cons_self room,
      ih fun b member => h b (List.mem_cons_of_mem a member), Json.depthOfItems]
    by_cases first : (write a).depth ≤ room
    · by_cases others : Json.depthOfItems (as.map write) ≤ room
      · rw [if_pos first, if_pos others, if_pos (Nat.max_le.2 ⟨first, others⟩)]
        rfl
      · rw [if_pos first, if_neg others, if_neg fun all => others (Nat.max_le.1 all).2]
        rfl
    · rw [if_neg first, if_neg fun all => first (Nat.max_le.1 all).1]
      rfl

/-- A list is read exactly if its items are. -/
theorem exact_list {write : α → Json} {as : List α} (h : ∀ a ∈ as, d.Exact a (write a)) :
    (list d).Exact as (.arr (as.map write)) := by
  intro room
  cases room with
  | zero => rfl
  | succ room =>
    rw [list, mapM_exact as h, Json.depth]
    simp only [Nat.add_le_add_iff_right]

/-- So is a set, which is written in order. -/
theorem exact_set [Ranked α] {write : α → Json} {s : SortedSet α}
    (h : ∀ a ∈ s, d.Exact a (write a)) : (set d).Exact s (.arr (s.toList.map write)) := by
  have listed : (list d).Exact s.toList (.arr (s.toList.map write)) := exact_list h
  have collected := listed.map SortedSet.ofList
  rw [SortedSet.ofList_toList] at collected
  exact collected

/-! ## Records -/

/-- A field of an object without repetitions is the only one of its name. -/
theorem only?_of_mem {fields : List (String × Json)} (distinct : (fields.map Prod.fst).Nodup)
    {f : String × Json} (member : f ∈ fields) : only? fields f.1 = some (some f.2) := by
  have single : (fields.filter fun g => decide (g.1 = f.1)) = [f] := by
    induction fields with
    | nil => cases member
    | cons g fields ih =>
      obtain ⟨new, rest⟩ := List.nodup_cons.1 distinct
      rcases List.mem_cons.1 member with rfl | later
      · rw [List.filter_cons_of_pos (by simp), List.filter_eq_nil_iff.2]
        intro h there same
        exact new (of_decide_eq_true same ▸ List.mem_map_of_mem there)
      · have other : g.1 ≠ f.1 := fun same => new (same ▸ List.mem_map_of_mem later)
        rw [List.filter_cons_of_neg (by simpa using other), ih rest later]
  rw [only?, single]

/-- A record that holds each of its fields once gives every slot its value. -/
theorem record_fields {fields : List (String × Json)} (distinct : (fields.map Prod.fst).Nodup)
    (room : Nat) :
    record (fields.map Prod.fst) (room + 1) (.obj fields)
      = some { room, slots := fields.map fun f => some f.2 } := by
  have each (fs : List (String × Json)) (known : ∀ f ∈ fs, f ∈ fields) :
      (fs.map Prod.fst).mapM (only? fields) = some (fs.map fun f => some f.2) := by
    induction fs with
    | nil => rfl
    | cons f fs ih =>
      rw [List.map_cons, List.mapM_cons, only?_of_mem distinct (known f List.mem_cons_self),
        ih fun g member => known g (List.mem_cons_of_mem f member)]
      rfl
  rw [record, each fields fun f member => member]
  rfl

/-- A record gets its value back if what is made of its fields does. -/
theorem exact_record {names : List String} {fields : List (String × Json)} {f : Slots → Option α}
    (distinct : names.Nodup) (named : fields.map Prod.fst = names)
    (reads : ∀ room, f { room, slots := fields.map fun f => some f.2 }
      = if Json.depthOfFields fields ≤ room then some a else none) :
    Decoder.Exact (fun room j => (record names room j).bind f) a (.obj fields) := by
  subst named
  intro room
  cases room with
  | zero => rfl
  | succ room =>
    show (record (fields.map Prod.fst) (room + 1) (.obj fields)).bind f = _
    rw [record_fields distinct, Option.bind_some, reads, Json.depth]
    simp only [Nat.add_le_add_iff_right]

namespace Slots

variable {s : Slots} {i : Nat} {b : β} {depth : Nat}

/-- A field that is present is read with the room of its record. -/
theorem required_of_present (present : s.slots[i]? = some (some j)) :
    s.required i d = d s.room j := by
  rw [required, present]

/-- So is one that may be missing, and its default is not used. -/
theorem optional_of_present (present : s.slots[i]? = some (some j)) (missing : α) :
    s.optional i missing d = d s.room j := by
  rw [optional, present]

/-- One field, and what is made of it and the others. -/
theorem bind_exact {f : α → Option β} (h : d.Exact a j)
    (rest : f a = if depth ≤ room then some b else none) :
    (d room j).bind f = if max j.depth depth ≤ room then some b else none := by
  rw [h room]
  by_cases this : j.depth ≤ room
  · rw [if_pos this, Option.bind_some, rest]
    simp only [Nat.max_le, this, true_and]
  · rw [if_neg this, if_neg fun all => this (Nat.max_le.1 all).1]
    rfl

/-- Reading a field and then the rest needs the room of the deeper of the two. -/
theorem required_bind {f : α → Option β} (present : s.slots[i]? = some (some j))
    (h : d.Exact a j) (rest : f a = if depth ≤ s.room then some b else none) :
    (s.required i d).bind f = if max j.depth depth ≤ s.room then some b else none := by
  rw [required_of_present present]
  exact bind_exact h rest

/-- The same holds of a field that may be missing. -/
theorem optional_bind {f : α → Option β} {missing : α} (present : s.slots[i]? = some (some j))
    (h : d.Exact a j) (rest : f a = if depth ≤ s.room then some b else none) :
    (s.optional i missing d).bind f = if max j.depth depth ≤ s.room then some b else none := by
  rw [optional_of_present present]
  exact bind_exact h rest

/-- The last field of a record needs the room of its own value. -/
theorem required_last (present : s.slots[i]? = some (some j)) (h : d.Exact a j) :
    s.required i d = if max j.depth 0 ≤ s.room then some a else none := by
  rw [required_of_present present, h s.room, Nat.max_zero]

/-- Behind the last field nothing is left to read. -/
theorem done (b : β) : (some b : Option β) = if 0 ≤ s.room then some b else none :=
  (if_pos (Nat.zero_le _)).symm

end Slots

/-! ## Variants -/

/-- What is said under a tag uses up the level of the tag. -/
theorem exact_tagged {tag : String} {d' : Decoder α} (h : d.Exact a j)
    (flat : d' 0 (.obj [(tag, j)]) = none)
    (deep : ∀ room, d' (room + 1) (.obj [(tag, j)]) = d room j) :
    d'.Exact a (.obj [(tag, j)]) := by
  intro room
  cases room with
  | zero => exact flat
  | succ room =>
    rw [deep, h room, Json.depth, Json.depthOfFields, Json.depthOfFields, Nat.max_zero]
    simp only [Nat.add_le_add_iff_right]

end Decoder

end OntologyService
