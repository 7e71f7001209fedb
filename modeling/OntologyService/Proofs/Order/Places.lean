import Mathlib.Algebra.Ring.Nat
import Std.Data.TreeSet.Lemmas
import OntologyService.Order.Positions
import OntologyService.Proofs.Order.Listing

/-!
# Parts of a set by their positions

What the positions of a part say of the part. A position holds one element of the listing, so an
element is dropped exactly if one of the positions to drop is its own (`mem_dropAt`), and a part
survives the dropping exactly if its positions share none with those dropped
(`positions_disjoint_iff`).

The rest is counting. A set of positions below `n` is a number below `2 ^ n`
(`Positions.Below.bits_lt`), a further position makes it a larger one (`Positions.bits_insert`), and
so there are fewer than `2 ^ n` sets of positions with an element in them.
-/

namespace OntologyService

namespace Positions

/-- Every element is below the bound. -/
def Below (n : Nat) (p : Positions) : Prop := ∀ i, p.contains i = true → i < n

/-- No position of the empty set is too large. -/
theorem below_empty (n : Nat) : Below n ∅ := by
  intro i h
  rw [contains_empty] at h
  cases h

/-- A position below a bound may be inserted. -/
theorem Below.insert {n i : Nat} {p : Positions} (h : p.Below n) (hi : i < n) :
    (p.insert i).Below n := by
  intro j hj
  rw [contains_insert, Bool.or_eq_true, decide_eq_true_eq] at hj
  rcases hj with hj | rfl
  · exact h j hj
  · exact hi

/-- Positions below a bound are written with as many bits. -/
theorem Below.bits_lt {n : Nat} {p : Positions} (h : p.Below n) : p.bits < 2 ^ n :=
  Nat.lt_pow_two_of_testBit _ fun i hi => Bool.eq_false_iff.2 fun set =>
    Nat.not_lt.2 hi (h i set)

/-- A further position makes a larger number. -/
theorem bits_insert {i : Nat} {p : Positions} (new : p.contains i = false) :
    p.bits < (p.insert i).bits := by
  refine Nat.lt_of_le_of_ne Nat.left_le_or fun same => ?_
  have set : (p.insert i).contains i = true := by
    rw [contains_insert, decide_eq_true rfl, Bool.or_true]
  rw [contains, ← same] at set
  rw [contains, set] at new
  cases new

/-- Positions with a member are not written as zero. -/
theorem bits_insert_pos (i : Nat) (p : Positions) : 0 < (p.insert i).bits := by
  have one : 0 < 1 <<< i := by
    rw [Nat.one_shiftLeft]
    exact Nat.two_pow_pos i
  exact Nat.lt_of_lt_of_le one Nat.right_le_or

end Positions

/-- Fewer than `m` numbers are positive and below `m`. -/
theorem size_lt_of_bounded {t : Std.TreeSet Nat} {m : Nat} (pos : 0 < m)
    (h : ∀ b ∈ t, 0 < b ∧ b < m) : t.size < m := by
  have distinct : t.toList.Nodup := by
    refine Std.TreeSet.distinct_toList.imp fun h => ?_
    simpa only [Std.compare_eq_iff_eq] using h
  have listed : (0 :: t.toList).Nodup := by
    refine List.nodup_cons.2 ⟨fun h0 => ?_, distinct⟩
    exact Nat.lt_irrefl 0 (h 0 (Std.TreeSet.mem_toList.1 h0)).1
  have within : (0 :: t.toList) ⊆ List.range m := by
    intro b hb
    rw [List.mem_range]
    rcases List.mem_cons.1 hb with rfl | hb
    · exact pos
    · exact (h b (Std.TreeSet.mem_toList.1 hb)).2
  have length := listed.length_le_of_subset within
  rw [List.length_cons, Std.TreeSet.length_toList, List.length_range] at length
  exact length

namespace SortedSet

variable {α : Type}

/-- An element is left by the dropping if one of its places is not among those dropped. -/
theorem mem_dropFrom {p : Positions} {a : α} : ∀ {as : List α} {i : Nat},
    a ∈ dropFrom p i as ↔ ∃ j, as[j]? = some a ∧ p.contains (i + j) = false
  | [], i => by
    simp only [dropFrom, List.not_mem_nil, List.getElem?_nil, reduceCtorEq, false_and, exists_false]
  | b :: as, i => by
    have later : a ∈ dropFrom p (i + 1) as ↔
        ∃ j, as[j]? = some a ∧ p.contains (i + 1 + j) = false := mem_dropFrom
    simp only [Nat.add_right_comm i 1] at later
    rw [← Nat.or_exists_add_one]
    simp only [List.getElem?_cons_zero, List.getElem?_cons_succ, Nat.add_zero, Option.some_inj,
      ← Nat.add_assoc]
    unfold dropFrom
    cases hp : p.contains i with
    | true =>
      rw [if_pos rfl, later]
      simp only [Bool.true_eq_false, and_false, false_or]
    | false =>
      rw [if_neg Bool.false_ne_true, List.mem_cons, later]
      simp only [and_true, eq_comm]

/-- The positions are those that hold an element that passes the test. -/
theorem contains_positionsFrom {test : α → Bool} {k : Nat} : ∀ {as : List α} {i : Nat},
    (positionsFrom test i as).contains k = true ↔
      ∃ j a, as[j]? = some a ∧ test a = true ∧ k = i + j
  | [], i => by
    simp only [positionsFrom, Positions.contains_empty, Bool.false_eq_true, List.getElem?_nil,
      reduceCtorEq, false_and, exists_false]
  | b :: as, i => by
    have later : (positionsFrom test (i + 1) as).contains k = true ↔
        ∃ j a, as[j]? = some a ∧ test a = true ∧ k = i + 1 + j := contains_positionsFrom
    simp only [Nat.add_right_comm i 1] at later
    rw [← Nat.or_exists_add_one]
    simp only [List.getElem?_cons_zero, List.getElem?_cons_succ, Nat.add_zero, Option.some_inj,
      ← Nat.add_assoc, exists_eq_left']
    rw [← later, positionsFrom]
    cases hb : test b with
    | true =>
      rw [if_pos rfl, Positions.contains_insert, Bool.or_eq_true, decide_eq_true_eq, or_comm]
      simp only [true_and]
    | false =>
      rw [if_neg Bool.false_ne_true]
      simp only [Bool.false_eq_true, false_and, false_or]

variable [Ranked α] {s part : SortedSet α} {p : Positions}

/-- What is left is what stands at the other positions. -/
theorem mem_dropAt {a : α} :
    a ∈ s.dropAt p ↔ ∃ i, s.toList[i]? = some a ∧ p.contains i = false := by
  rw [mem_iff, dropAt, mem_dropFrom]
  simp only [Nat.zero_add]

theorem mem_of_mem_dropAt {a : α} (h : a ∈ s.dropAt p) : a ∈ s := by
  obtain ⟨i, at_i, -⟩ := mem_dropAt.1 h
  exact mem_iff.2 (List.mem_of_getElem? at_i)

/-- The more is dropped, the less is left. -/
theorem dropAt_mono {q : Positions} (h : p.subset q = true) {a : α} (ha : a ∈ s.dropAt q) :
    a ∈ s.dropAt p := by
  obtain ⟨i, at_i, out⟩ := mem_dropAt.1 ha
  refine mem_dropAt.2 ⟨i, at_i, Bool.eq_false_iff.2 fun hi => ?_⟩
  rw [Positions.subset_iff.1 h i hi] at out
  cases out

variable [DecidableEq α]

/-- The positions of a part are those at which its members stand. -/
theorem contains_positions {i : Nat} :
    (s.positions part).contains i = true ↔ ∃ a, s.toList[i]? = some a ∧ a ∈ part := by
  rw [positions, contains_positionsFrom]
  constructor
  · rintro ⟨j, a, at_j, ha, rfl⟩
    rw [Nat.zero_add]
    exact ⟨a, at_j, of_decide_eq_true ha⟩
  · rintro ⟨a, at_i, ha⟩
    exact ⟨i, a, at_i, decide_eq_true ha, (Nat.zero_add i).symm⟩

/-- The positions of a part lie within the set. -/
theorem positions_below : (s.positions part).Below s.size := by
  intro i hi
  obtain ⟨a, at_i, -⟩ := contains_positions.1 hi
  exact (List.getElem?_eq_some_iff.1 at_i).1

/-- **A part survives the dropping** exactly if it has none of the positions dropped. -/
theorem positions_disjoint_iff (sub : ∀ a ∈ part, a ∈ s) :
    (s.positions part).disjoint p = true ↔ ∀ a ∈ part, a ∈ s.dropAt p := by
  rw [Positions.disjoint_iff]
  constructor
  · intro apart a ha
    obtain ⟨i, at_i⟩ := List.mem_iff_getElem?.1 (mem_iff.1 (sub a ha))
    exact mem_dropAt.2 ⟨i, at_i, apart i (contains_positions.2 ⟨a, at_i, ha⟩)⟩
  · intro kept i hi
    obtain ⟨a, at_i, ha⟩ := contains_positions.1 hi
    obtain ⟨j, at_j, out⟩ := mem_dropAt.1 (kept a ha)
    have same : i = j := by
      refine (List.getElem?_inj ?_ s.nodup).1 (at_i.trans at_j.symm)
      exact (List.getElem?_eq_some_iff.1 at_i).1
    rw [same]
    exact out

end SortedSet

end OntologyService
