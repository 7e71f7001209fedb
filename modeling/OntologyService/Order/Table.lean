import Std.Data.ExtTreeMap
import OntologyService.Order.SortedSet

/-!
# Finite maps in the order of their keys

A `Table κ ν` gives some keys a value each, and every listing of a table is in key order. Tables
are search trees of which only the content counts: two tables that give the same keys the same
values are equal, however they came about.

The view is `get?`: `get?_empty`, `get?_insert`, `get?_erase` and `get?_filter` say what each
operation does to it, `mem_toList` ties it to the listing, and `ext` says that it determines the
table.
-/

namespace OntologyService

open Ranked (Before)

variable {κ ν : Type}

/-- A finite map. -/
structure Table (κ ν : Type) [Ranked κ] where
  tree : Std.ExtTreeMap κ ν Ranked.cmp

namespace Table

variable [Ranked κ]

/-- The table without entries. -/
def empty : Table κ ν := ⟨∅⟩

instance : EmptyCollection (Table κ ν) := ⟨empty⟩
instance : Inhabited (Table κ ν) := ⟨empty⟩

/-- The value of a key. -/
def get? (t : Table κ ν) (k : κ) : Option ν := t.tree[k]?

/-- Whether the key has a value. -/
def contains (t : Table κ ν) (k : κ) : Bool := (t.get? k).isSome

/-- The table in which the key has the value, and every other key what it had. -/
def insert (k : κ) (v : ν) (t : Table κ ν) : Table κ ν := ⟨t.tree.insert k v⟩

/-- The entries that pass a test. -/
def filter (p : κ → ν → Bool) (t : Table κ ν) : Table κ ν := ⟨t.tree.filter p⟩

/-- The table without the key. -/
def erase (k : κ) (t : Table κ ν) : Table κ ν := ⟨t.tree.erase k⟩

/-- The table of a list of entries; of entries with one key the last counts. -/
def ofList (es : List (κ × ν)) : Table κ ν := es.foldl (fun t e => t.insert e.1 e.2) empty

/-- The entries, by key. -/
def toList (t : Table κ ν) : List (κ × ν) := t.tree.toList

/-- The keys, in order. -/
def keys (t : Table κ ν) : List κ := t.tree.keys

/-- The values, in the order of their keys. -/
def values (t : Table κ ν) : List ν := t.toList.map Prod.snd

/-- How many keys have a value. -/
def size (t : Table κ ν) : Nat := t.tree.size

/-- Whether no key has a value. -/
def isEmpty (t : Table κ ν) : Bool := t.tree.isEmpty

/-- The keys of a table are sorted. -/
theorem keys_sorted (t : Table κ ν) : t.keys.Pairwise Before := Std.ExtTreeMap.ordered_keys

/-- The keys, as a set. -/
def keySet (t : Table κ ν) : SortedSet κ := ⟨t.keys, t.keys_sorted⟩

/-- Tables with the same values are equal. -/
theorem ext {t u : Table κ ν} (h : ∀ k, t.get? k = u.get? k) : t = u := by
  cases t; cases u
  exact congrArg mk (Std.ExtTreeMap.ext_getElem? h)

@[simp] theorem get?_empty (k : κ) : (∅ : Table κ ν).get? k = none :=
  Std.ExtTreeMap.getElem?_empty

/-- An insertion is found under its key, and the other keys keep what they had. -/
theorem get?_insert (k k' : κ) (v : ν) (t : Table κ ν) :
    (t.insert k v).get? k' = if Ranked.cmp k k' = .eq then some v else t.get? k' :=
  Std.ExtTreeMap.getElem?_insert

@[simp] theorem get?_insert_self (k : κ) (v : ν) (t : Table κ ν) :
    (t.insert k v).get? k = some v := by simp [get?_insert, Ranked.cmp_self]

theorem get?_insert_of_ne {k k' : κ} (h : k' ≠ k) (v : ν) (t : Table κ ν) :
    (t.insert k v).get? k' = t.get? k' := by
  simp [get?_insert, Ne.symm h]

/-- An erased key is not found, and the other keys keep what they had. -/
theorem get?_erase (k k' : κ) (t : Table κ ν) :
    (t.erase k).get? k' = if Ranked.cmp k k' = .eq then none else t.get? k' :=
  Std.ExtTreeMap.getElem?_erase

/-- A filter keeps what it accepts. -/
theorem get?_filter (p : κ → ν → Bool) (k : κ) (t : Table κ ν) :
    (t.filter p).get? k = (t.get? k).filter (p k) :=
  Std.ExtTreeMap.getElem?_filter'

/-- The entries of a table are what it finds. -/
theorem mem_toList {k : κ} {v : ν} {t : Table κ ν} : (k, v) ∈ t.toList ↔ t.get? k = some v :=
  Std.ExtTreeMap.mem_toList_iff_getElem?_eq_some

/-- The entries stand in the order of their keys. -/
theorem toList_sorted (t : Table κ ν) : t.toList.Pairwise fun p q => Before p.1 q.1 :=
  Std.ExtTreeMap.ordered_keys_toList

@[simp] theorem mem_keySet {k : κ} {t : Table κ ν} : k ∈ t.keySet ↔ (t.get? k).isSome = true := by
  rw [get?, ← Std.ExtTreeMap.contains_eq_isSome_getElem?, ← Std.ExtTreeMap.mem_iff_contains]
  exact Std.ExtTreeMap.mem_keys

end Table

end OntologyService
