import Mathlib
import OntologyService.Source.FileTree

/-!
# Files that are written and read

A file that is saved is found again where it was put. On the way in, directories are made, and
nothing that is a directory ceases to be one (`Keeps`); so a way that leads somewhere goes on to
lead there (`walk_keeps`), also in the tree that the file is then put into. That holds of every
path, from the root or from the working directory, whatever parts it has.

Whether a tree lets a file be put somewhere (`Admits`) does not depend on what is in the file. A
path of plain names is admitted if no file is in its way and no directory at its end
(`admits_of_clear`), wherever it starts.
-/

namespace OntologyService

namespace FileTree

variable {t t' : FileTree} {path : String} {p q at' : TreePath} {made : Bool}
  {parts more front lead : List String} {name : String} {content : List UInt8}

/-- A path is a directory's just if a directory stands under it. -/
theorem isDirectory_iff : t.isDirectory p = true ↔ t.node? p = some .directory := by
  unfold isDirectory
  split
  · next there => exact iff_of_true rfl there
  · next other => exact iff_of_false Bool.false_ne_true other

/-- Where a directory stands there is no file. -/
theorem not_file_of_isDirectory (here : t.isDirectory p = true) (content : List UInt8) :
    t.node? p ≠ some (.file content) := by
  rw [isDirectory_iff.1 here]
  exact fun same => TreeNode.noConfusion (Option.some.inj same)

/-- **Nothing that is a directory** ceases to be one, and the working directory is the same. -/
structure Keeps (t t' : FileTree) : Prop where
  directories : ∀ p, t.isDirectory p = true → t'.isDirectory p = true
  home : t'.home = t.home

/-- A tree keeps what it has. -/
theorem Keeps.refl (t : FileTree) : t.Keeps t := ⟨fun _ => id, rfl⟩

/-- What is kept twice is kept. -/
theorem Keeps.trans {t'' : FileTree} (h : t.Keeps t') (h' : t'.Keeps t'') : t.Keeps t'' :=
  ⟨fun p there => h'.directories p (h.directories p there), h'.home.trans h.home⟩

/-- What is put under a path stands there. -/
theorem node?_insert (below : q ≠ []) (node : TreeNode) :
    node? { t with nodes := t.nodes.insert q node } q = some node := by
  rw [node?, if_neg (by simpa using below), Table.get?_insert_self]

/-- What is put under a path changes nothing under another. -/
theorem node?_insert_of_ne (other : p ≠ q) (node : TreeNode) :
    node? { t with nodes := t.nodes.insert q node } p = t.node? p := by
  rw [node?, node?, Table.get?_insert_of_ne other]

/-- What is put where no directory is leaves the directories alone. -/
theorem keeps_insert (free : t.isDirectory q = false) (node : TreeNode) :
    t.Keeps { t with nodes := t.nodes.insert q node } where
  directories p there := by
    have other : p ≠ q := by
      rintro rfl
      cases there.symm.trans free
    rw [isDirectory_iff] at there ⊢
    rw [node?_insert_of_ne other, there]
  home := rfl

/-! ## Ways -/

/-- A path starts where it started. -/
theorem start_keeps (keeps : t.Keeps t') (started : t.start path = .ok at') :
    t'.start path = .ok at' := by
  unfold start at started ⊢
  split_ifs at started with absolute stands
  · rw [if_pos absolute]
    exact started
  · have stands' : t'.stands t'.home = true := by
      rw [keeps.home, FileTree.stands, List.all_eq_true]
      exact fun n among => keeps.directories _ (List.all_eq_true.1 stands n among)
    rw [if_neg absolute, if_pos stands', keeps.home]
    exact started

/-- A path starts at a directory. -/
theorem isDirectory_start (started : t.start path = .ok at') : t.isDirectory at' = true := by
  unfold start at started
  split_ifs at started with absolute stands
  · cases started
    rfl
  · cases started
    have here := List.all_eq_true.1 stands t.home.length
      (List.mem_range.2 (Nat.lt_succ_self _))
    rwa [List.take_length] at here

/-- From a directory, a part leads where its name says. -/
theorem walk_cons (here : t.isDirectory at' = true) (part : String) (parts : List String) :
    t.walk at' (part :: parts) =
      if part = "" ∨ part = "." then t.walk at' parts
      else if part = ".." then t.walk at'.dropLast parts
      else t.walk (at' ++ [part.toUTF8.toList]) parts := by
  rw [walk, isDirectory_iff.1 here]

/-- Whoever goes on from somewhere is in a directory. -/
theorem isDirectory_of_walk {part : String} (led : t.walk at' (part :: parts) = .ok p) :
    t.isDirectory at' = true := by
  rw [walk] at led
  cases there : t.node? at' with
  | none =>
    rw [there] at led
    cases led
  | some node =>
    cases node with
    | file content =>
      rw [there] at led
      cases led
    | directory => exact isDirectory_iff.2 there

/-- **A way that leads somewhere** goes on to lead there. -/
theorem walk_keeps (keeps : t.Keeps t') (led : t.walk at' parts = .ok p) :
    t'.walk at' parts = .ok p := by
  induction parts generalizing at' with
  | nil => exact led
  | cons part parts ih =>
    have here := isDirectory_of_walk led
    rw [walk_cons here] at led
    rw [walk_cons (keeps.directories _ here)]
    split_ifs at led ⊢ with idle up
    · exact ih led
    · exact ih led
    · exact ih led

/-- A way goes on from where its first half leads. -/
theorem walk_append (led : t.walk at' parts = .ok p) (more : List String) :
    t.walk at' (parts ++ more) = t.walk p more := by
  induction parts generalizing at' with
  | nil =>
    cases led
    rfl
  | cons part parts ih =>
    have here := isDirectory_of_walk led
    rw [walk_cons here] at led
    rw [List.cons_append, walk_cons here]
    split_ifs at led ⊢ with idle up
    · exact ih led
    · exact ih led
    · exact ih led

/-- A part of a path that leads nowhere. -/
abbrev Idle (part : String) : Prop := part = "" ∨ part = "."

/-- A name leads from a directory to what stands under it there. -/
theorem walk_name (here : t.isDirectory at' = true) (plain : ¬ Idle name) (down : name ≠ "..") :
    t.walk at' [name] = .ok (at' ++ [name.toUTF8.toList]) := by
  rw [walk_cons here, if_neg plain, if_neg down, walk]

/-! ## Saving and reading -/

/-- A path that ends in a name has nothing at its end to be left out. -/
theorem dropEmpty_snoc (plain : ¬ Idle name) (front : List String) :
    ((front ++ [name]).reverse.dropWhile fun part => decide (part = "")).reverse
      = front ++ [name] := by
  have full : name ≠ "" := fun empty => plain (.inl empty)
  rw [List.reverse_append, List.reverse_singleton, List.singleton_append,
    List.dropWhile_cons_of_neg (by simpa using full), List.reverse_cons, List.reverse_reverse]

/-- What lets a file be put where a path leads: the path has no null in it and ends in a name, what
is in front of the name leads to a directory, and no directory stands under the name. -/
structure Place (t : FileTree) (path : String) (front : List String) (name : String)
    (at' : TreePath) : Prop where
  whole : hasNull (pieces path) = false
  named : path ≠ ""
  split : pieces path = front ++ [name]
  plain : ¬ Idle name
  down : name ≠ ".."
  found : t.follow path front = .ok at'
  here : t.isDirectory at' = true
  free : t.isDirectory (at' ++ [name.toUTF8.toList]) = false

/-- **A file is put** where there is a place for it. -/
theorem Place.put (h : t.Place path front name at') (content : List UInt8) :
    t.put path content = (.ok (),
      { t with nodes := t.nodes.insert (at' ++ [name.toUTF8.toList]) (.file content) }) := by
  have good : ¬ (front ++ [name] ≠ front ++ [name] ∨ name = "" ∨ name = "." ∨ name = ".." ∨
      t.isDirectory (at' ++ [name.toUTF8.toList]) = true) := by
    rintro (other | empty | dot | up | dir)
    · exact other rfl
    · exact h.plain (.inl empty)
    · exact h.plain (.inr dot)
    · exact h.down up
    · cases h.free.symm.trans dir
  rw [FileTree.put]
  dsimp only
  rw [if_neg (Bool.eq_false_iff.1 h.whole), if_neg h.named, h.split, dropEmpty_snoc h.plain,
    List.dropLast_concat, h.found]
  dsimp only
  rw [isDirectory_iff.1 h.here, List.getLast?_concat, Option.getD_some]
  exact if_neg good

/-- **What was put** had a place, and stands there. -/
theorem place_of_put (saved : t.put path content = (.ok (), t')) :
    ∃ front name at', t.Place path front name at' ∧
      t' = { t with nodes := t.nodes.insert (at' ++ [name.toUTF8.toList]) (.file content) } := by
  unfold FileTree.put at saved
  dsimp only at saved
  obtain ⟨all, split⟩ : ∃ all, pieces path = all := ⟨_, rfl⟩
  rw [split] at saved
  by_cases null : hasNull all = true
  · rw [if_pos null] at saved
    cases saved
  rw [if_neg null] at saved
  by_cases named : path = ""
  · rw [if_pos named] at saved
    cases saved
  rw [if_neg named] at saved
  split at saved
  · cases saved
  next at' found =>
    split at saved
    · cases saved
    · cases saved
    next here =>
      split at saved
      · cases saved
      next good =>
      simp only [not_or, not_ne_iff] at good
      obtain ⟨same, full, dot, up, free⟩ := good
      rw [same] at found full dot up free saved
      rcases List.eq_nil_or_concat all with rfl | ⟨front, name, rfl⟩
      · exact absurd rfl full
      · rw [List.concat_eq_append] at split null found full dot up free saved
        rw [List.dropLast_concat] at found
        rw [List.getLast?_concat, Option.getD_some] at full dot up free saved
        cases saved
        exact ⟨front, name, at', ⟨split ▸ Bool.eq_false_iff.2 null, named, split,
          not_or.2 ⟨full, dot⟩, up, found, isDirectory_iff.2 here, Bool.eq_false_iff.2 free⟩, rfl⟩

/-- **A file** that was put somewhere is read back. -/
theorem read_put (saved : t.put path content = (.ok (), t')) : t'.read path = .ok content := by
  obtain ⟨front, name, at', place, rfl⟩ := place_of_put saved
  have keeps := keeps_insert place.free (.file content)
  have found := place.found
  rw [follow] at found
  split at found
  · cases found
  next at₀ started =>
    have way := walk_append (walk_keeps keeps found) [name]
    rw [walk_name (keeps.directories _ place.here) place.plain place.down] at way
    rw [read, resolve, if_neg (Bool.eq_false_iff.1 place.whole), if_neg place.named, follow,
      start_keeps keeps started, place.split]
    dsimp only
    rw [way]
    dsimp only
    rw [node?_insert (by simp)]

/-- What was saved was put in the tree that its directories are made in. -/
theorem put_of_save (saved : t.save path content = (.ok (), t')) :
    ∃ t₁, t.makeParent path = (.ok (), t₁) ∧ t₁.put path content = (.ok (), t') := by
  unfold FileTree.save at saved
  split at saved
  · cases saved
  next t₁ entered =>
    refine ⟨t₁, entered, ?_⟩
    cases there : t₁.put path content with
    | mk result t₂ =>
      rw [there] at saved
      cases result with
      | error reason => cases saved
      | ok =>
        cases saved
        rfl

/-- What is put in the tree that its directories are made in is saved. -/
theorem save_eq_ok {t₁ : FileTree} (entered : t.makeParent path = (.ok (), t₁))
    (there : t₁.put path content = (.ok (), t')) : t.save path content = (.ok (), t') := by
  rw [FileTree.save, entered]
  dsimp only
  rw [there]
  rfl

/-- **A file** that was saved is read back. -/
theorem read_save (saved : t.save path content = (.ok (), t')) : t'.read path = .ok content := by
  obtain ⟨t₁, -, there⟩ := put_of_save saved
  exact read_put there

/-- The tree lets a file be put where a path leads. -/
def Admits (t : FileTree) (path : String) : Prop :=
  ∃ content t', t.save path content = (.ok (), t')

/-- Whether a file can be put somewhere does not depend on what is in it. -/
theorem Admits.save (h : t.Admits path) (content : List UInt8) :
    ∃ t', t.save path content = (.ok (), t') := by
  obtain ⟨content', t', saved⟩ := h
  obtain ⟨t₁, entered, there⟩ := put_of_save saved
  obtain ⟨front, name, at', place, -⟩ := place_of_put there
  exact ⟨_, save_eq_ok entered (place.put content)⟩

/-! ## Ways that are clear -/

/-- A name, as it stands in a tree. -/
def octets (name : String) : FileName := name.toUTF8.toList

/-- A name that leads from a directory to what stands under it there. -/
def Plain (part : String) : Prop := ¬ Idle part ∧ part ≠ ".."

instance (part : String) : Decidable (Plain part) := inferInstanceAs (Decidable (_ ∧ _))

/-- Parts that lead nowhere lead nowhere together. -/
theorem walk_idle (there : t.isDirectory p = true) (idle : ∀ part ∈ parts, Idle part) :
    t.walk p parts = .ok p := by
  induction parts with
  | nil => rfl
  | cons part parts ih =>
    obtain ⟨here, later⟩ := List.forall_mem_cons.1 idle
    rw [walk_cons there, if_pos here]
    exact ih later

/-- Names lead down through directories. -/
theorem walk_plain (plain : ∀ part ∈ parts, Plain part)
    (there : ∀ q, q <+: parts.map octets → t.isDirectory (at' ++ q) = true) :
    t.walk at' parts = .ok (at' ++ parts.map octets) := by
  induction parts generalizing at' with
  | nil => rw [walk, List.map_nil, List.append_nil]
  | cons part parts ih =>
    obtain ⟨⟨busy, down⟩, later⟩ := List.forall_mem_cons.1 plain
    have here := there [] List.nil_prefix
    rw [List.append_nil] at here
    rw [walk_cons here, if_neg busy, if_neg down, List.map_cons, List.append_cons at' (octets part)]
    refine ih later fun q front => ?_
    rw [← List.append_cons]
    exact there _ (List.cons_prefix_cons.2 ⟨rfl, front⟩)

/-- **A name is entered** unless a file stands under it: a directory stands there then, whether or
not it did before, and nothing else is made. -/
theorem enter_cons (made : Bool) {part : String} (down : part ≠ "..") (parts : List String)
    (clear : ∀ content, t.node? (at' ++ [octets part]) ≠ some (.file content)) :
    ∃ t₀ made₀, t.enter at' made (part :: parts) = t₀.enter (at' ++ [octets part]) made₀ parts ∧
      t.Keeps t₀ ∧ t₀.isDirectory (at' ++ [octets part]) = true ∧
      ∀ p, p ≠ at' ++ [octets part] → t₀.node? p = t.node? p := by
  rw [octets] at clear ⊢
  rw [enter, if_neg down]
  dsimp only
  cases there : t.node? (at' ++ [part.toUTF8.toList]) with
  | none =>
    have free : t.isDirectory (at' ++ [part.toUTF8.toList]) = false := by rw [isDirectory, there]
    exact ⟨_, true, rfl, keeps_insert free .directory,
      isDirectory_iff.2 (node?_insert (by simp) .directory),
      fun p other => node?_insert_of_ne other .directory⟩
  | some node =>
    cases node with
    | directory => exact ⟨t, made, rfl, .refl t, isDirectory_iff.2 there, fun _ _ => rfl⟩
    | file content => exact absurd there (clear content)

/-- **A way on which no file stands** is entered to its end, and only the way itself is made. -/
theorem enter_clear (made : Bool) (plain : ∀ part ∈ parts, Plain part)
    (here : t.isDirectory at' = true)
    (clear : ∀ q, q <+: parts.map octets → ∀ content, t.node? (at' ++ q) ≠ some (.file content)) :
    ∃ t₁, t.enter at' made parts = (.ok (), t₁) ∧ t.Keeps t₁ ∧
      (∀ q, q <+: parts.map octets → t₁.isDirectory (at' ++ q) = true) ∧
      ∀ p, ¬ p <+: at' ++ parts.map octets → t₁.node? p = t.node? p := by
  induction parts generalizing t at' made with
  | nil =>
    refine ⟨t, rfl, .refl t, fun q front => ?_, fun _ _ => rfl⟩
    rw [List.prefix_nil.1 front, List.append_nil]
    exact here
  | cons part parts ih =>
    obtain ⟨⟨-, down⟩, later⟩ := List.forall_mem_cons.1 plain
    obtain ⟨t₀, made₀, entered, keeps, below, same⟩ := enter_cons made down parts
      (clear [octets part] (List.cons_prefix_cons.2 ⟨rfl, List.nil_prefix⟩))
    have ahead (q : TreePath) (front : q <+: parts.map octets) (content : List UInt8) :
        t₀.node? (at' ++ [octets part] ++ q) ≠ some (.file content) := by
      cases q with
      | nil =>
        rw [List.append_nil]
        exact not_file_of_isDirectory below content
      | cons name q =>
        rw [same _ (by simp), ← List.append_cons]
        exact clear _ (List.cons_prefix_cons.2 ⟨rfl, front⟩) content
    obtain ⟨t₁, done, keeps₁, there, apart⟩ := ih made₀ later below ahead
    refine ⟨t₁, entered.trans done, keeps.trans keeps₁, fun q front => ?_, fun p off => ?_⟩
    · cases q with
      | nil =>
        rw [List.append_nil]
        exact (keeps.trans keeps₁).directories _ here
      | cons first q =>
        obtain ⟨rfl, behind⟩ := List.cons_prefix_cons.1 front
        rw [List.append_cons]
        exact there q behind
    · rw [List.map_cons, List.append_cons] at off
      rw [apart p off, same]
      rintro rfl
      exact off (List.prefix_append ..)

/-- What is in front of the name that a path ends in. -/
theorem above_eq (split : pieces path = front ++ [name]) (plain : ¬ Idle name) :
    above path = front := by
  rw [above, split]
  cases front with
  | nil => rfl
  | cons first front =>
    rw [List.cons_append, trim, List.reverse_append, List.reverse_singleton, List.singleton_append,
      List.dropWhile_cons_of_neg (by simpa using plain), List.reverse_cons, List.reverse_reverse,
      ← List.cons_append, List.dropLast_concat]

/-- Of a path that leads nowhere at first and then through names, the names are what counts. -/
theorem busy_append (idle : ∀ part ∈ lead, Idle part) (plain : ∀ part ∈ parts, Plain part) :
    busy (lead ++ parts) = parts := by
  rw [busy, List.filter_append, List.filter_eq_nil_iff.2, List.nil_append,
    List.filter_eq_self.2]
  · intro part among
    simpa [Idle] using (plain part among).1
  · intro part among
    rcases idle part among with rfl | rfl <;> decide

/-- **A path of plain names** is admitted if no file is in its way and no directory at its end. It
may start at the root, with nothing in front of its first slash, or at the working directory. -/
theorem admits_of_clear (whole : hasNull (pieces path) = false) (named : path ≠ "")
    (starts : t.start path = .ok at') (split : pieces path = lead ++ parts ++ [name])
    (idle : ∀ part ∈ lead, Idle part) (plain : ∀ part ∈ parts ++ [name], Plain part)
    (clear : ∀ q, q <+: parts.map octets → ∀ content, t.node? (at' ++ q) ≠ some (.file content))
    (free : t.isDirectory (at' ++ parts.map octets ++ [octets name]) = false) :
    t.Admits path := by
  obtain ⟨onWay, atEnd⟩ := List.forall_mem_append.1 plain
  obtain ⟨busy', down⟩ := atEnd name List.mem_cons_self
  have here := isDirectory_start starts
  obtain ⟨t₁, entered, keeps, there, apart⟩ := enter_clear false onWay here clear
  have found : t₁.follow path (lead ++ parts) = .ok (at' ++ parts.map octets) := by
    rw [follow, start_keeps keeps starts]
    dsimp only
    rw [walk_append (walk_idle (keeps.directories _ here) idle), walk_plain onWay there]
  -- what was made lies on the way, and the file stands one name further
  have free₁ : t₁.isDirectory (at' ++ parts.map octets ++ [octets name]) = false := by
    rw [isDirectory, apart]
    · exact free
    · intro front
      have long := front.length_le
      rw [List.length_append] at long
      exact absurd long (Nat.not_succ_le_self _)
  have place : t₁.Place path (lead ++ parts) name (at' ++ parts.map octets) :=
    ⟨whole, named, split, busy', down, found, there _ List.prefix_rfl, free₁⟩
  refine ⟨[], _, save_eq_ok ?_ (place.put [])⟩
  have onWhole : hasNull (lead ++ parts) = false := by
    rw [split, hasNull, List.any_append, Bool.or_eq_false_iff] at whole
    exact whole.1
  rw [makeParent, above_eq split busy', starts, busy_append idle onWay,
    if_neg (Bool.eq_false_iff.1 onWhole)]
  dsimp only
  rw [entered]
  split_ifs with nothing
  · obtain ⟨rfl, rfl⟩ := List.append_eq_nil_iff.1 (List.isEmpty_iff.1 nothing)
    rw [enter] at entered
    cases entered
    rfl
  · rfl

example : Admits {} "a/b" := by
  have split : pieces "a/b" = [] ++ ["a"] ++ ["b"] := by decide
  have starts : start {} "a/b" = .ok [] := if_neg (by simp)
  refine admits_of_clear (by decide) (by decide) starts split (by decide) (by decide)
    (fun q _ content => ?_) rfl
  rw [node?]
  split <;> nofun

end FileTree

end OntologyService
