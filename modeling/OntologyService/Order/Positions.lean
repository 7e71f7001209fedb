import OntologyService.Order.SortedSet

/-!
# Sets of positions

A `Positions` is a finite set of natural numbers, kept as the number whose binary form has a one
at each of them. It stands for a part of a `SortedSet`, by the places of its elements in the
listing: `SortedSet.positions` says where the elements of a part are, and `SortedSet.dropAt` takes
the elements at some positions away.

The view is `contains`. `contains_insert`, `subset_iff` and `disjoint_iff` say what each operation
does to it, and `ext` says that the view determines the set.
-/

namespace OntologyService

/-- A finite set of natural numbers, as the ones of a binary form. -/
structure Positions where
  bits : Nat
deriving DecidableEq

namespace Positions

/-- The set without elements. -/
def empty : Positions := ⟨0⟩

instance : EmptyCollection Positions := ⟨empty⟩
instance : Inhabited Positions := ⟨empty⟩

/-- Whether a number is in the set. -/
def contains (p : Positions) (i : Nat) : Bool := p.bits.testBit i

/-- The set with one more element. -/
def insert (i : Nat) (p : Positions) : Positions := ⟨p.bits ||| 1 <<< i⟩

/-- Whether every element of the first set is in the second. -/
def subset (p q : Positions) : Bool := decide (p.bits &&& q.bits = p.bits)

/-- Whether the sets share no element. -/
def disjoint (p q : Positions) : Bool := decide (p.bits &&& q.bits = 0)

/-- The elements below a bound, in order. -/
def below (n : Nat) (p : Positions) : List Nat := (List.range n).filter p.contains

/-- Sets with the same elements are equal. -/
theorem ext {p q : Positions} (h : ∀ i, p.contains i = q.contains i) : p = q := by
  cases p; cases q
  exact congrArg mk (Nat.eq_of_testBit_eq h)

@[simp] theorem contains_empty (i : Nat) : (∅ : Positions).contains i = false := by
  exact Nat.zero_testBit i

@[simp] theorem contains_insert (i j : Nat) (p : Positions) :
    (p.insert i).contains j = (p.contains j || decide (j = i)) := by
  simp only [contains, insert, Nat.testBit_or, Nat.testBit_shiftLeft]
  congr 1
  by_cases h : j = i
  · simp [h]
  · by_cases hij : i ≤ j
    · have : j - i ≠ 0 := by omega
      have : Nat.testBit 1 (j - i) = false := by
        rw [← Bool.not_eq_true, Nat.testBit_one_eq_true_iff_self_eq_zero]
        exact this
      simp [h, this]
    · simp [h, hij]

/-- Positions are a subset if and only if each of them is among the others. -/
theorem subset_iff {p q : Positions} :
    p.subset q = true ↔ ∀ i, p.contains i = true → q.contains i = true := by
  simp only [subset, contains, decide_eq_true_eq]
  constructor
  · intro h i hi
    rw [← h, Nat.testBit_and] at hi
    exact (Bool.and_eq_true_iff.1 hi).2
  · intro h
    refine Nat.eq_of_testBit_eq fun i => ?_
    rw [Nat.testBit_and]
    cases hp : p.bits.testBit i
    · rfl
    · simp [h i hp]

/-- Positions are disjoint if and only if none of them is among the others. -/
theorem disjoint_iff {p q : Positions} :
    p.disjoint q = true ↔ ∀ i, p.contains i = true → q.contains i = false := by
  simp only [disjoint, contains, decide_eq_true_eq]
  constructor
  · intro h i hi
    have : (p.bits &&& q.bits).testBit i = false := by rw [h]; exact Nat.zero_testBit i
    rw [Nat.testBit_and, hi] at this
    simpa using this
  · intro h
    refine Nat.eq_of_testBit_eq fun i => ?_
    rw [Nat.testBit_and, Nat.zero_testBit]
    cases hp : p.bits.testBit i
    · rfl
    · simp [h i hp]

/-- The positions listed are those below the bound. -/
theorem mem_below {n i : Nat} {p : Positions} : i ∈ p.below n ↔ i < n ∧ p.contains i = true := by
  simp [below]

end Positions

namespace SortedSet

variable {α : Type}

/-- The positions, counted from the given one, of the elements that pass a test. -/
def positionsFrom (test : α → Bool) : Nat → List α → Positions
  | _, [] => ∅
  | i, a :: as =>
    let later := positionsFrom test (i + 1) as
    if test a then later.insert i else later

/-- The elements of a list whose positions, counted from the given one, are not listed. -/
def dropFrom (p : Positions) : Nat → List α → List α
  | _, [] => []
  | i, a :: as => if p.contains i then dropFrom p (i + 1) as else a :: dropFrom p (i + 1) as

/-- Dropping positions from a list leaves the rest in order. -/
theorem dropFrom_sublist (p : Positions) :
    ∀ (i : Nat) (as : List α), (dropFrom p i as).Sublist as
  | _, [] => .slnil
  | i, a :: as => by
    unfold dropFrom
    split
    · exact (dropFrom_sublist p (i + 1) as).cons a
    · exact (dropFrom_sublist p (i + 1) as).cons_cons a

variable [Ranked α]

/-- Where in the listing of a set the elements of a part are. -/
def positions [DecidableEq α] (s part : SortedSet α) : Positions :=
  positionsFrom (fun a => decide (a ∈ part)) 0 s.toList

/-- The set without the elements at the positions. -/
def dropAt (s : SortedSet α) (p : Positions) : SortedSet α :=
  ⟨dropFrom p 0 s.toList, s.sorted.sublist (dropFrom_sublist p 0 s.toList)⟩

end SortedSet

end OntologyService
