import Mathlib.Data.List.Perm.Basic
import OntologyService.Order.Table

/-!
# Listings of sets and tables

What later proofs need to know of the listing of a `SortedSet` or a `Table` beyond membership:
that nothing is listed twice, that taking an element in or out changes the listing by that element
alone, up to order, and that the keys of a table are the keys it has values for.

Order itself is never used. A count over a listing is kept by a permutation, and that is the form
in which the support counts of the taxonomy read these laws.
-/

namespace OntologyService

variable {α κ ν : Type}

namespace SortedSet

variable [Ranked α]

/-- A listing names no element twice. -/
theorem nodup (s : SortedSet α) : s.toList.Nodup := s.sorted.imp Ranked.Before.ne

/-- Sets that list the same elements, in whatever order, are equal. -/
theorem perm_of_mem_iff {s : SortedSet α} {as : List α} (distinct : as.Nodup)
    (h : ∀ a, a ∈ s ↔ a ∈ as) : s.toList.Perm as :=
  (List.perm_ext_iff_of_nodup s.nodup distinct).2 h

/-- A new element lengthens the listing by itself. -/
theorem toList_insert_perm {s : SortedSet α} {a : α} (h : a ∉ s) :
    (s.insert a).toList.Perm (a :: s.toList) := by
  refine perm_of_mem_iff (List.nodup_cons.2 ⟨h, s.nodup⟩) fun b => ?_
  rw [mem_insert, List.mem_cons]
  exact Iff.rfl

/-- An element of the set is listed, and beside it what is left without it. -/
theorem toList_perm_erase [DecidableEq α] {s : SortedSet α} {a : α} (h : a ∈ s) :
    s.toList.Perm (a :: (s.erase a).toList) := by
  have absent : a ∉ s.erase a := fun h' => (mem_erase.1 h').2 rfl
  refine perm_of_mem_iff (List.nodup_cons.2 ⟨absent, (s.erase a).nodup⟩) fun b => ?_
  rw [List.mem_cons, ← mem_iff, mem_erase]
  constructor
  · intro hb
    by_cases e : b = a
    · exact .inl e
    · exact .inr ⟨hb, e⟩
  · rintro (rfl | hb)
    · exact h
    · exact hb.1

/-- The elements of both sets. -/
def inter [DecidableEq α] (s t : SortedSet α) : SortedSet α := s.filter fun a => decide (a ∈ t)

@[simp] theorem mem_inter [DecidableEq α] {a : α} {s t : SortedSet α} :
    a ∈ s.inter t ↔ a ∈ s ∧ a ∈ t := by
  rw [inter, mem_filter, decide_eq_true_eq]

/-- What a union over a list holds is what it started from and what the members contribute. -/
theorem mem_foldl_union {β : Type} {f : β → SortedSet α} {a : α} {bs : List β}
    {s : SortedSet α} :
    a ∈ bs.foldl (fun acc b => acc ∪ f b) s ↔ a ∈ s ∨ ∃ b ∈ bs, a ∈ f b := by
  induction bs generalizing s with
  | nil => simp only [List.foldl_nil, List.not_mem_nil, false_and, exists_false, or_false]
  | cons b bs ih => rw [List.foldl_cons, ih, mem_union, List.exists_mem_cons_iff, or_assoc]

/-- A set of at most one element holds the first that it lists, and nothing else. -/
theorem mem_iff_head? {s : SortedSet α} (few : s.size ≤ 1) {a : α} :
    a ∈ s ↔ s.toList.head? = some a := by
  rw [mem_iff]
  unfold size at few
  cases h : s.toList with
  | nil => simp only [List.not_mem_nil, List.head?_nil, reduceCtorEq]
  | cons b bs =>
    have rest : bs = [] := by
      rw [h, List.length_cons] at few
      exact List.length_eq_zero_iff.1 (by omega)
    rw [rest, List.mem_singleton, List.head?_cons, Option.some_inj]
    exact eq_comm

/-- A set whose elements are all equal has at most one. -/
theorem size_le_one {s : SortedSet α} (h : ∀ a ∈ s, ∀ b ∈ s, a = b) : s.size ≤ 1 := by
  have distinct := s.nodup
  unfold size
  cases hs : s.toList with
  | nil => exact Nat.zero_le 1
  | cons a as =>
    cases as with
    | nil => exact Nat.le_refl 1
    | cons b bs =>
      rw [hs, List.nodup_cons] at distinct
      have eq := h a (mem_iff.2 (hs ▸ List.mem_cons_self ..)) b
        (mem_iff.2 (hs ▸ List.mem_cons_of_mem _ (List.mem_cons_self ..)))
      exact absurd (eq ▸ List.mem_cons_self ..) distinct.1

/-- A part of a set is no larger than the set. -/
theorem size_le_of_subset {s t : SortedSet α} (h : ∀ a ∈ s, a ∈ t) : s.size ≤ t.size :=
  (List.subperm_of_subset s.nodup h).length_le

theorem not_mem_of_size_eq_zero {s : SortedSet α} (h : s.size = 0) (a : α) : a ∉ s := by
  rw [mem_iff, List.length_eq_zero_iff.1 h]
  exact List.not_mem_nil

end SortedSet

namespace Table

variable [Ranked κ]

theorem get?_erase_self (k : κ) (t : Table κ ν) : (t.erase k).get? k = none := by
  rw [get?_erase, if_pos (Ranked.cmp_self k)]

/-- Erasing a key does not touch the others. -/
theorem get?_erase_of_ne {k k' : κ} (h : k' ≠ k) (t : Table κ ν) :
    (t.erase k).get? k' = t.get? k' := by
  rw [get?_erase, if_neg fun e => h (Ranked.eq_of_cmp e).symm]

/-- The keys of a table are those it finds something under. -/
theorem mem_keys {k : κ} {t : Table κ ν} : k ∈ t.keys ↔ (t.get? k).isSome = true :=
  mem_keySet (t := t)

/-- A table lists each key once. -/
theorem keys_nodup (t : Table κ ν) : t.keys.Nodup := t.keys_sorted.imp Ranked.Before.ne

/-- The keys stand in the order of the entries. -/
theorem keys_eq_map (t : Table κ ν) : t.keys = t.toList.map Prod.fst :=
  Std.ExtTreeMap.map_fst_toList_eq_keys.symm

theorem length_keys (t : Table κ ν) : t.keys.length = t.size := Std.ExtTreeMap.length_keys

theorem size_keySet (t : Table κ ν) : t.keySet.size = t.size := length_keys t

theorem size_insert_le (k : κ) (v : ν) (t : Table κ ν) : (t.insert k v).size ≤ t.size + 1 :=
  Std.ExtTreeMap.size_insert_le

/-- Only the empty table has no key. -/
theorem isEmpty_iff {t : Table κ ν} : t.isEmpty = true ↔ t = ∅ := by
  cases t with
  | mk tree =>
    refine Std.ExtTreeMap.isEmpty_iff.trans ⟨fun h => congrArg mk h, fun h => ?_⟩
    exact congrArg Table.tree h

theorem contains_iff {k : κ} {t : Table κ ν} : t.contains k = true ↔ k ∈ t.keys := mem_keys.symm

end Table

end OntologyService
