import OntologyService.Json.Decode

/-!
# What a decoder does not look at

The order of the fields of an object says nothing, and neither do the order and the repetition of
the items of an array that stands for a set. Which arrays do is told by a `Shape`, which follows the
value down to them, and `Rearranged` relates two values that differ in nothing else: it reorders
fields anywhere, rearranges the items of sets, and goes into fields and items.

A decoder respects a shape if it tells no such two values apart (`Respects`). Since it is a step in
one place that is repeated, a decoder has to be held against the four steps only
(`Respects.of_steps`), and records, variants, lists and sets of decoders that respect their shapes
do so too.
-/

namespace OntologyService

/-- Where in a value the order and the repetition of items say nothing. -/
inductive Shape where
  /-- Nowhere that is known. -/
  | plain
  /-- In this array, and where the shape of the items says so. -/
  | set (item : Shape)
  /-- Where the shape of the items says so. -/
  | list (item : Shape)
  /-- Where the shapes of the fields say so. -/
  | object (fields : List (String × Shape))

namespace Shape

/-- The shape of the items. -/
def item : Shape → Shape
  | set s | list s => s
  | plain | object _ => plain

/-- The shape of the field of a name. -/
def field : Shape → String → Shape
  | object fields, name => ((fields.find? fun f => decide (f.1 = name)).map Prod.snd).getD plain
  | plain, _ | set _, _ | list _, _ => plain

/-- A field has the shape that is listed with it. -/
theorem field_object {fields : List (String × Shape)} (distinct : (fields.map Prod.fst).Nodup)
    {f : String × Shape} (member : f ∈ fields) : (object fields).field f.1 = f.2 := by
  have found : fields.find? (fun g => decide (g.1 = f.1)) = some f := by
    induction fields with
    | nil => cases member
    | cons g fields ih =>
      obtain ⟨new, rest⟩ := List.nodup_cons.1 distinct
      rcases List.mem_cons.1 member with rfl | later
      · exact List.find?_cons_of_pos (by simp)
      · have other : g.1 ≠ f.1 := fun same => new (same ▸ List.mem_map_of_mem later)
        rw [List.find?_cons_of_neg (by simpa using other), ih rest later]
  rw [field, found]
  rfl

end Shape

namespace Json

/-- **The same but for what says nothing**: fields in another order, and the items of a set in
another order and with other repetitions. -/
inductive Rearranged : Shape → Json → Json → Prop where
  | refl (s : Shape) (j : Json) : Rearranged s j j
  | trans {s : Shape} {i j k : Json} : Rearranged s i j → Rearranged s j k → Rearranged s i k
  | fields {s : Shape} {fs gs : List (String × Json)} :
    fs.Perm gs → Rearranged s (.obj fs) (.obj gs)
  | members {s : Shape} {is js : List Json} : (∀ j, j ∈ is ↔ j ∈ js) →
    Rearranged (.set s) (.arr is) (.arr js)
  | field {s : Shape} {name : String} {i j : Json} (front back : List (String × Json)) :
    Rearranged (s.field name) i j →
    Rearranged s (.obj (front ++ (name, i) :: back)) (.obj (front ++ (name, j) :: back))
  | item {s : Shape} {i j : Json} (front back : List Json) : Rearranged s.item i j →
    Rearranged s (.arr (front ++ i :: back)) (.arr (front ++ j :: back))

/-- What is rearranged where nothing is known of sets is rearranged in every shape. -/
theorem Rearranged.of_plain {i j : Json} (h : Rearranged .plain i j) (s : Shape) :
    Rearranged s i j := by
  generalize plain : Shape.plain = p at h
  induction h generalizing s with
  | refl => exact .refl s _
  | trans _ _ ih ih' => exact (ih s plain).trans (ih' s plain)
  | fields perm => exact .fields perm
  | members same => cases plain
  | field front back _ ih => exact .field front back (ih _ (plain ▸ rfl))
  | item front back _ ih => exact .item front back (ih _ (plain ▸ rfl))

/-- What says nothing is not rearranged into anything else. -/
theorem Rearranged.null_iff {s : Shape} {i j : Json} (h : Rearranged s i j) :
    i = .null ↔ j = .null := by
  induction h with
  | refl => exact Iff.rfl
  | trans _ _ ih ih' => exact ih.trans ih'
  | fields _ | members _ | field _ _ _ _ | item _ _ _ _ => exact ⟨nofun, nofun⟩

end Json

namespace Decoder

open Json (Rearranged)

variable {α β : Type} {d : Decoder α} {s : Shape}

/-- **Does not tell apart** what differs in nothing that counts. -/
def Respects (d : Decoder α) (s : Shape) : Prop :=
  ∀ room i j, Rearranged s i j → d room i = d room j

/-- What is made of what is read depends on no order either. -/
theorem Respects.map (h : d.Respects s) (f : α → β) :
    Decoder.Respects (fun room j => (d room j).map f) s :=
  fun room i j same => congrArg (Option.map f) (h room i j same)

/-- A decoder respects a shape if no single step makes a difference to it. -/
theorem Respects.of_steps
    (fields : ∀ room fs gs, fs.Perm gs → d room (.obj fs) = d room (.obj gs))
    (members : ∀ item, s = .set item → ∀ room is js, (∀ j, j ∈ is ↔ j ∈ js) →
      d room (.arr is) = d room (.arr js))
    (field : ∀ room front name i j back, Rearranged (s.field name) i j →
      d room (.obj (front ++ (name, i) :: back)) = d room (.obj (front ++ (name, j) :: back)))
    (item : ∀ room front i j back, Rearranged s.item i j →
      d room (.arr (front ++ i :: back)) = d room (.arr (front ++ j :: back))) :
    d.Respects s := by
  intro room i j same
  induction same with
  | refl => rfl
  | trans _ _ ih ih' => exact (ih members field item).trans (ih' members field item)
  | fields perm => exact fields room _ _ perm
  | members same => exact members _ rfl room _ _ same
  | field front back same => exact field room front _ _ _ back same
  | item front back same => exact item room front _ _ back same

/-- A decoder of neither objects nor arrays respects every shape. -/
theorem Respects.of_scalar (obj : ∀ room fs, d room (.obj fs) = none)
    (arr : ∀ room js, d room (.arr js) = none) (s : Shape) : d.Respects s := by
  refine .of_steps ?_ ?_ ?_ ?_
  · intro room fs gs _
    rw [obj, obj]
  · intro _ _ room is js _
    rw [arr, arr]
  · intro room front name i j back _
    rw [obj, obj]
  · intro room front i j back _
    rw [arr, arr]

/-- A text is a text in any shape. -/
theorem respects_string (s : Shape) : string.Respects s :=
  .of_scalar (fun _ _ => rfl) (fun _ _ => rfl) s

/-- A truth value is one in any shape. -/
theorem respects_bool (s : Shape) : bool.Respects s :=
  .of_scalar (fun _ _ => rfl) (fun _ _ => rfl) s

/-- A number is a number in any shape. -/
theorem respects_word (s : Shape) : word.Respects s :=
  .of_scalar (fun _ _ => rfl) (fun _ _ => rfl) s

/-! ## Lists and sets -/

/-- An item may be exchanged for one that is read alike. -/
theorem mapM_swap {f : Json → Option β} {i j : Json} (same : f i = f j) (front back : List Json) :
    (front ++ i :: back).mapM f = (front ++ j :: back).mapM f := by
  rw [List.mapM_append, List.mapM_append, List.mapM_cons, List.mapM_cons, same]

/-- A decoder of arrays whose items come one by one. -/
theorem list_swap (h : d.Respects s) (room : Nat) {i j : Json} (same : Rearranged s i j)
    (front back : List Json) :
    list d room (.arr (front ++ i :: back)) = list d room (.arr (front ++ j :: back)) := by
  cases room with
  | zero => rfl
  | succ room => exact mapM_swap (h room i j same) front back

theorem list_obj (d : Decoder α) (room : Nat) (fs : List (String × Json)) :
    list d room (.obj fs) = none := by
  cases room <;> rfl

/-- A list is read item by item, each of its shape. -/
theorem respects_list (h : d.Respects s) : (list d).Respects (.list s) := by
  refine .of_steps ?_ ?_ ?_ ?_
  · intro room fs gs _
    rw [list_obj, list_obj]
  · intro item set
    cases set
  · intro room front name i j back _
    rw [list_obj, list_obj]
  · intro room front i j back same
    exact list_swap h room same front back

/-- Where all elements have an image, the images are listed in their order. -/
theorem mapM_eq_ite (f : α → Option β) (as : List α) :
    as.mapM f = if ∀ a ∈ as, (f a).isSome = true then some (as.filterMap f) else none := by
  induction as with
  | nil => rfl
  | cons a as ih =>
    rw [List.mapM_cons, ih]
    simp only [List.forall_mem_cons]
    cases image : f a with
    | none => rfl
    | some b =>
      rw [List.filterMap_cons_some image]
      by_cases all : ∀ a ∈ as, (f a).isSome = true
      · rw [if_pos all, if_pos ⟨rfl, all⟩]
        rfl
      · rw [if_neg all, if_neg fun both => all both.2]
        rfl

/-- The images as a set depend on what is listed only. -/
theorem mapM_members [Ranked β] (f : α → Option β) {as bs : List α} (same : ∀ a, a ∈ as ↔ a ∈ bs) :
    (as.mapM f).map SortedSet.ofList = (bs.mapM f).map SortedSet.ofList := by
  rw [mapM_eq_ite, mapM_eq_ite]
  by_cases all : ∀ a ∈ as, (f a).isSome = true
  · have all' : ∀ b ∈ bs, (f b).isSome = true := fun b member => all b ((same b).2 member)
    rw [if_pos all, if_pos all']
    refine congrArg some (SortedSet.ext fun b => ?_)
    simp only [SortedSet.mem_ofList, List.mem_filterMap, same]
  · have all' : ¬ ∀ b ∈ bs, (f b).isSome = true :=
      fun others => all fun a member => others a ((same a).1 member)
    rw [if_neg all, if_neg all']

/-- A set is read from its items, whatever their order and however often each is there. -/
theorem respects_set [Ranked α] (h : d.Respects s) : (set d).Respects (.set s) := by
  refine .of_steps ?_ ?_ ?_ ?_
  · intro room fs gs _
    rw [set, set, list_obj, list_obj]
  · intro _ _ room is js same
    cases room with
    | zero => rfl
    | succ room => exact mapM_members (d room) same
  · intro room front name i j back _
    rw [set, set, list_obj, list_obj]
  · intro room front i j back same
    exact congrArg (Option.map SortedSet.ofList) (list_swap h room same front back)

/-! ## Records -/

/-- The order of the fields does not matter to what the one of a name is. -/
theorem only?_perm {fs gs : List (String × Json)} (perm : fs.Perm gs) (name : String) :
    only? fs name = only? gs name := by
  have named := perm.filter fun f => decide (f.1 = name)
  unfold only?
  generalize (fs.filter fun f => decide (f.1 = name)) = xs at named
  generalize (gs.filter fun f => decide (f.1 = name)) = ys at named
  match xs, ys, named.length_eq with
  | [], [], _ => rfl
  | [x], [y], _ =>
    obtain rfl : x = y := List.mem_singleton.1 (named.mem_iff.1 List.mem_cons_self)
    rfl
  | _ :: _ :: _, _ :: _ :: _, _ => rfl

/-- A field with another value is either looked up or makes no difference. -/
theorem only?_swap (front back : List (String × Json)) (name : String) (i j : Json)
    (key : String) :
    only? (front ++ (name, i) :: back) key = only? (front ++ (name, j) :: back) key ∨
      key = name ∧ only? (front ++ (name, i) :: back) key = some (some i) ∧
        only? (front ++ (name, j) :: back) key = some (some j) := by
  unfold only?
  rw [List.filter_append, List.filter_append, List.filter_cons, List.filter_cons]
  by_cases same : name = key
  · rw [if_pos (decide_eq_true same), if_pos (decide_eq_true same)]
    generalize (front.filter fun f => decide (f.1 = key)) = xs
    generalize (back.filter fun f => decide (f.1 = key)) = ys
    match xs, ys with
    | [], [] => exact .inr ⟨same.symm, rfl, rfl⟩
    | [], _ :: _ => exact .inl rfl
    | [_], _ => exact .inl rfl
    | _ :: _ :: _, _ => exact .inl rfl
  · rw [if_neg (by simpa using same), if_neg (by simpa using same)]
    exact .inl rfl

/-- Where every element has an image, the images have the places of the elements. -/
theorem getElem?_filterMap {f : α → Option β} {as : List α}
    (all : ∀ a ∈ as, (f a).isSome = true) (i : Nat) :
    (as.filterMap f)[i]? = as[i]?.bind f := by
  induction as generalizing i with
  | nil => rfl
  | cons a as ih =>
    obtain ⟨b, image⟩ := Option.isSome_iff_exists.1 (all a List.mem_cons_self)
    rw [List.filterMap_cons_some image]
    cases i with
    | zero => exact image.symm
    | succ i => exact ih (fun a' member => all a' (List.mem_cons_of_mem a member)) i

/-- Exchanging one element changes that one place. -/
theorem getElem?_swap (xs ys : List α) (a b : α) (i : Nat) :
    (xs ++ a :: ys)[i]? = (xs ++ b :: ys)[i]? ∨
      (xs ++ a :: ys)[i]? = some a ∧ (xs ++ b :: ys)[i]? = some b := by
  induction xs generalizing i with
  | nil =>
    cases i with
    | zero => exact .inr ⟨rfl, rfl⟩
    | succ i => exact .inl rfl
  | cons x xs ih =>
    cases i with
    | zero => exact .inl rfl
    | succ i => exact ih i

/-- Two readings of a record that differ only in what says nothing, field by field. -/
structure Slots.Alike (fields : List (String × Shape)) (x y : Slots) : Prop where
  room : x.room = y.room
  slots : ∀ i : Nat, x.slots[i]? = y.slots[i]? ∨ ∃ j k, x.slots[i]? = some (some j) ∧
    y.slots[i]? = some (some k) ∧ ∀ f : String × Shape, fields[i]? = some f → Rearranged f.2 j k

namespace Slots.Alike

variable {fields : List (String × Shape)} {x y : Slots} {i : Nat} {name : String}

/-- A field that is read alike may be rearranged. -/
theorem required (h : Alike fields x y) (field : fields[i]? = some (name, s))
    (respects : d.Respects s) : x.required i d = y.required i d := by
  unfold Slots.required
  rcases h.slots i with same | ⟨j, k, left, right, rearranged⟩
  · rw [same, h.room]
  · rw [left, right]
    exact h.room ▸ respects x.room j k (rearranged _ field)

/-- A field that may be left out and is read alike may be rearranged. -/
theorem optional (h : Alike fields x y) (field : fields[i]? = some (name, s))
    (respects : d.Respects s) (missing : α) : x.optional i missing d = y.optional i missing d := by
  unfold Slots.optional
  rcases h.slots i with same | ⟨j, k, left, right, rearranged⟩
  · rw [same, h.room]
  · rw [left, right]
    exact h.room ▸ respects x.room j k (rearranged _ field)

end Slots.Alike

/-- Reading a field by its name, a field with another value shows only where it is asked for. -/
theorem Slots.alike_swap {fields : List (String × Shape)}
    (distinct : (fields.map Prod.fst).Nodup) {front back : List (String × Json)} {name : String}
    {i j : Json} (same : Rearranged ((Shape.object fields).field name) i j) (room : Nat)
    (all : ∀ key ∈ fields.map Prod.fst, (only? (front ++ (name, i) :: back) key).isSome = true)
    (all' : ∀ key ∈ fields.map Prod.fst, (only? (front ++ (name, j) :: back) key).isSome = true) :
    Slots.Alike fields
      { room, slots := (fields.map Prod.fst).filterMap (only? (front ++ (name, i) :: back)) }
      { room, slots := (fields.map Prod.fst).filterMap (only? (front ++ (name, j) :: back)) } where
  room := rfl
  slots p := by
    rw [getElem?_filterMap all, getElem?_filterMap all', List.getElem?_map]
    cases field : fields[p]? with
    | none => exact .inl rfl
    | some f =>
      rcases only?_swap front back name i j f.1 with equal | ⟨here, left, right⟩
      · exact .inl equal
      · refine .inr ⟨i, j, left, right, fun g found => ?_⟩
        obtain rfl := Option.some.inj found
        rw [← here, Shape.field_object distinct (List.mem_of_getElem? field)] at same
        exact same

/-- Reading them by their places, an item in another form shows only in its place. -/
theorem Slots.alike_item (fields : List (String × Shape)) (front back : List Json) {i j : Json}
    (same : Rearranged .plain i j) (room missing : Nat) :
    Slots.Alike fields
      { room, slots := (front ++ i :: back).map some ++ List.replicate missing none }
      { room, slots := (front ++ j :: back).map some ++ List.replicate missing none } where
  room := rfl
  slots p := by
    rw [List.map_append, List.map_append, List.append_assoc, List.append_assoc]
    rcases getElem?_swap (front.map some) (back.map some ++ List.replicate missing none) (some i)
      (some j) p with equal | ⟨left, right⟩
    · exact .inl equal
    · exact .inr ⟨i, j, left, right, fun f _ => same.of_plain f.2⟩

/-- The fields of a record may come in any order. -/
theorem record_perm {fs gs : List (String × Json)} (perm : fs.Perm gs) (names : List String)
    (room : Nat) : record names room (.obj fs) = record names room (.obj gs) := by
  cases room with
  | zero => rfl
  | succ room =>
    have same : only? fs = only? gs := funext (only?_perm perm)
    rw [record, record, same]

section

variable {fields : List (String × Shape)} {f : Slots → Option β}
  (h : ∀ x y, Slots.Alike fields x y → f x = f y)
include h

/-- What is made of a record does not depend on how one of its fields is written. -/
theorem bind_record_swap (distinct : (fields.map Prod.fst).Nodup)
    {front back : List (String × Json)} {name : String} {i j : Json}
    (same : Rearranged ((Shape.object fields).field name) i j) (room : Nat) :
    (record (fields.map Prod.fst) room (.obj (front ++ (name, i) :: back))).bind f
      = (record (fields.map Prod.fst) room (.obj (front ++ (name, j) :: back))).bind f := by
  cases room with
  | zero => rfl
  | succ room =>
    have known (key : String) : (only? (front ++ (name, i) :: back) key).isSome
        = (only? (front ++ (name, j) :: back) key).isSome := by
      rcases only?_swap front back name i j key with equal | ⟨-, left, right⟩
      · rw [equal]
      · rw [left, right]
        rfl
    rw [record, record, mapM_eq_ite, mapM_eq_ite]
    by_cases all : ∀ key ∈ fields.map Prod.fst,
        (only? (front ++ (name, i) :: back) key).isSome = true
    · have all' : ∀ key ∈ fields.map Prod.fst,
          (only? (front ++ (name, j) :: back) key).isSome = true :=
        fun key member => (known key).symm.trans (all key member)
      rw [if_pos all, if_pos all']
      exact h _ _ (Slots.alike_swap distinct same room all all')
    · have all' : ¬ ∀ key ∈ fields.map Prod.fst,
          (only? (front ++ (name, j) :: back) key).isSome = true :=
        fun others => all fun key member => (known key).trans (others key member)
      rw [if_neg all, if_neg all']

/-- Nor does it depend on how an item is written, where the record is an array. -/
theorem bind_record_item (front back : List Json) {i j : Json} (same : Rearranged .plain i j)
    (room : Nat) :
    (record (fields.map Prod.fst) room (.arr (front ++ i :: back))).bind f
      = (record (fields.map Prod.fst) room (.arr (front ++ j :: back))).bind f := by
  cases room with
  | zero => rfl
  | succ room =>
    have length : (front ++ i :: back).length = (front ++ j :: back).length := by
      simp only [List.length_append, List.length_cons]
    rw [record, record, length]
    split
    · exact h _ _ (Slots.alike_item fields front back same room _)
    · rfl

/-- A record respects its shape if what is made of its fields does. -/
theorem respects_record {names : List String} (distinct : names.Nodup)
    (named : fields.map Prod.fst = names) :
    Decoder.Respects (fun room j => (record names room j).bind f) (.object fields) := by
  subst named
  refine .of_steps ?_ ?_ ?_ ?_
  · intro room fs gs perm
    rw [record_perm perm]
  · intro item set
    cases set
  · intro room front name i j back same
    exact bind_record_swap h distinct same room
  · intro room front i j back same
    exact bind_record_item h front back same room

end

/-! ## Variants -/

theorem variant_zero (fs : List (String × Json)) : variant 0 (.obj fs) = none := by
  match fs with
  | [] | [_] | _ :: _ :: _ => rfl

/-- A value with a tag has one field, so there is no order in it. -/
theorem variant_perm {fs gs : List (String × Json)} (perm : fs.Perm gs) (room : Nat) :
    variant room (.obj fs) = variant room (.obj gs) := by
  cases room with
  | zero => rw [variant_zero, variant_zero]
  | succ room =>
    match fs, gs, perm.length_eq with
    | [], [], _ => rfl
    | [f], [g], _ =>
      obtain rfl : f = g := List.mem_singleton.1 (perm.mem_iff.1 List.mem_cons_self)
      rfl
    | _ :: _ :: _, _ :: _ :: _, _ => rfl

/-- Where a field changes, a tag is read as before, unless it is that field and stands alone. -/
theorem variant_swap (front back : List (String × Json)) (name : String) (i j : Json)
    (room : Nat) :
    variant room (.obj (front ++ (name, i) :: back))
        = variant room (.obj (front ++ (name, j) :: back)) ∨
      front = [] ∧ back = [] := by
  cases room with
  | zero =>
    rw [variant_zero, variant_zero]
    exact .inl rfl
  | succ room =>
    match front, back with
    | [], [] => exact .inr ⟨rfl, rfl⟩
    | [], _ :: _ => exact .inl rfl
    | [_], _ => exact .inl rfl
    | _ :: _ :: _, _ => exact .inl rfl

/-- A variant respects its shape if what is said under the tag is read with respect for the shape of
the tag. -/
theorem respects_variant (notSet : ∀ item, s ≠ .set item)
    (through : ∀ room i j, variant room i = variant room j → d room i = d room j)
    (tagged : ∀ room tag i j, Rearranged (s.field tag) i j →
      d (room + 1) (.obj [(tag, i)]) = d (room + 1) (.obj [(tag, j)])) : d.Respects s := by
  refine .of_steps ?_ ?_ ?_ ?_
  · intro room fs gs perm
    exact through room _ _ (variant_perm perm room)
  · intro item set
    exact absurd set (notSet item)
  · intro room front name i j back same
    rcases variant_swap front back name i j room with equal | ⟨rfl, rfl⟩
    · exact through room _ _ equal
    · cases room with
      | zero => exact through 0 _ _ rfl
      | succ room => exact tagged room name i j same
  · intro room front i j back _
    refine through room _ _ ?_
    cases room <;> rfl

/-- A tag by itself has nothing to rearrange. -/
theorem respects_tagOnly (ofName? : String → Option α) : (tagOnly ofName?).Respects .plain := by
  refine respects_variant (fun _ => Shape.noConfusion) ?_ ?_
  · intro room i j same
    unfold tagOnly
    rw [same]
  · intro room tag i j same
    by_cases nothing : i = .null
    · rw [nothing, same.null_iff.1 nothing]
    · have nothing' : j ≠ .null := fun eq => nothing (same.null_iff.2 eq)
      have refused {k : Json} (some : k ≠ .null) :
          tagOnly ofName? (room + 1) (.obj [(tag, k)]) = none := by
        unfold tagOnly
        split
        · next eq => cases eq
        · next eq => cases eq; exact absurd rfl some
        · rfl
      rw [refused nothing, refused nothing']

end Decoder

end OntologyService
