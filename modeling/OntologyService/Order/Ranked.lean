/-!
# Three-way comparison

`Ranked α` is a total order on `α` given by one function `cmp`, together with the four laws that
sorted containers rest on. Names are compared code point by code point, pairs and lists by their
first difference, and a list is smaller than every proper extension of itself.

`Ranked.comap` carries an order back along an injection, which is how the types of the ontology
get theirs: each states a key, and the key decides.
-/

namespace OntologyService

/-- A total order, as a comparison that answers `.eq` on equal elements only. -/
class Ranked (α : Type) where
  cmp : α → α → Ordering
  cmp_self (a : α) : cmp a a = .eq
  eq_of_cmp {a b : α} : cmp a b = .eq → a = b
  cmp_swap (a b : α) : cmp b a = (cmp a b).swap
  lt_trans {a b c : α} : cmp a b = .lt → cmp b c = .lt → cmp a c = .lt

namespace Ranked

variable {α β : Type}

/-- `a` comes strictly before `b`. -/
def Before [Ranked α] (a b : α) : Prop := cmp a b = .lt

instance [Ranked α] (a b : α) : Decidable (Before a b) :=
  inferInstanceAs (Decidable (cmp a b = .lt))

/-- Nothing comes before itself. -/
theorem before_irrefl [Ranked α] (a : α) : ¬ Before a a := by
  simp [Before, cmp_self]

theorem Before.trans [Ranked α] {a b c : α} : Before a b → Before b c → Before a c := lt_trans

/-- A comparison tells the one way what it tells the other way. -/
theorem cmp_gt_iff [Ranked α] {a b : α} : cmp a b = .gt ↔ Before b a := by
  rw [Before, cmp_swap a b]
  cases cmp a b <;> simp

/-- What comes before another is not that other. -/
theorem Before.ne [Ranked α] {a b : α} (h : Before a b) : a ≠ b := by
  rintro rfl
  exact before_irrefl a h

/-- Of two, one at most comes before the other. -/
theorem Before.asymm [Ranked α] {a b : α} (h : Before a b) : ¬ Before b a :=
  fun h' => before_irrefl a (h.trans h')

/-- Any two are the same, or one comes before the other. -/
theorem before_or_eq_or_before [Ranked α] (a b : α) : Before a b ∨ a = b ∨ Before b a := by
  cases h : cmp a b with
  | lt => exact .inl h
  | eq => exact .inr (.inl (eq_of_cmp h))
  | gt => exact .inr (.inr (cmp_gt_iff.1 h))

/-- The order of a key that tells elements apart. -/
@[reducible] def comap [Ranked β] (key : α → β) (injective : ∀ {a b}, key a = key b → a = b) :
    Ranked α where
  cmp a b := cmp (key a) (key b)
  cmp_self a := cmp_self (key a)
  eq_of_cmp h := injective (eq_of_cmp h)
  cmp_swap a b := cmp_swap (key a) (key b)
  lt_trans := lt_trans

/-- Two numbers by size. -/
def cmpNat (m n : Nat) : Ordering := if m < n then .lt else if m = n then .eq else .gt

/-- Numbers are ranked by size. -/
theorem cmpNat_eq_lt {m n : Nat} : cmpNat m n = .lt ↔ m < n := by
  unfold cmpNat
  split
  · simp_all
  · split <;> simp_all

/-- Only equal numbers compare as equal. -/
theorem cmpNat_eq_eq {m n : Nat} : cmpNat m n = .eq ↔ m = n := by
  unfold cmpNat
  split
  · simp only [reduceCtorEq, false_iff]; omega
  · split <;> simp_all

/-- Comparing numbers the other way turns the answer round. -/
theorem cmpNat_swap (m n : Nat) : cmpNat n m = (cmpNat m n).swap := by
  rcases Nat.lt_trichotomy m n with h | h | h
  · simp [cmpNat, h, Nat.lt_asymm h, Nat.ne_of_gt h]
  · simp [cmpNat, h]
  · simp [cmpNat, h, Nat.lt_asymm h, Nat.ne_of_gt h]

instance : Ranked Nat where
  cmp := cmpNat
  cmp_self _ := cmpNat_eq_eq.2 rfl
  eq_of_cmp := cmpNat_eq_eq.1
  cmp_swap := cmpNat_swap
  lt_trans h h' := cmpNat_eq_lt.2 (Nat.lt_trans (cmpNat_eq_lt.1 h) (cmpNat_eq_lt.1 h'))

/-- Octets by size. -/
instance : Ranked UInt8 := comap UInt8.toNat fun h => UInt8.toNat_inj.1 h

/-- Two texts by their first differing code point. -/
def cmpString (s t : String) : Ordering := if s < t then .lt else if s = t then .eq else .gt

/-- Texts are ranked character by character. -/
theorem cmpString_eq_lt {s t : String} : cmpString s t = .lt ↔ s < t := by
  unfold cmpString
  split
  · simp_all
  · split <;> simp_all

/-- Only equal strings compare as equal. -/
theorem cmpString_eq_eq {s t : String} : cmpString s t = .eq ↔ s = t := by
  unfold cmpString
  split
  · rename_i h
    simp only [reduceCtorEq, false_iff]
    rintro rfl
    exact String.lt_irrefl _ h
  · split <;> simp_all

/-- Of two texts one is the smaller, or they are the same. -/
theorem string_trichotomy (s t : String) : s < t ∨ s = t ∨ t < s := by
  by_cases h : s < t
  · exact .inl h
  · by_cases h' : t < s
    · exact .inr (.inr h')
    · exact .inr (.inl (String.le_antisymm (String.not_lt.1 h') (String.not_lt.1 h)))

/-- Comparing strings the other way turns the answer round. -/
theorem cmpString_swap (s t : String) : cmpString t s = (cmpString s t).swap := by
  rcases string_trichotomy s t with h | h | h
  · have ne : t ≠ s := fun e => String.lt_irrefl _ (e ▸ h)
    simp [cmpString, h, String.lt_asymm h, ne]
  · rw [h, cmpString_eq_eq.2 rfl]; rfl
  · have ne : s ≠ t := fun e => String.lt_irrefl _ (e ▸ h)
    simp [cmpString, h, String.lt_asymm h, ne]

instance : Ranked String where
  cmp := cmpString
  cmp_self _ := cmpString_eq_eq.2 rfl
  eq_of_cmp := cmpString_eq_eq.1
  cmp_swap := cmpString_swap
  lt_trans h h' := cmpString_eq_lt.2 (String.lt_trans (cmpString_eq_lt.1 h) (cmpString_eq_lt.1 h'))

/-- Of two comparisons the second counts where the first tells nothing apart. -/
theorem then_eq_lt {o p : Ordering} : o.then p = .lt ↔ o = .lt ∨ o = .eq ∧ p = .lt := by
  cases o <;> simp [Ordering.then]

/-- Pairs by their first components, then by their second. -/
instance [Ranked α] [Ranked β] : Ranked (α × β) where
  cmp p q := (cmp p.1 q.1).then (cmp p.2 q.2)
  cmp_self p := by simp [cmp_self, Ordering.then]
  eq_of_cmp {p q} h := by
    cases h₁ : cmp p.1 q.1 <;> simp [h₁, Ordering.then] at h
    exact Prod.ext (eq_of_cmp h₁) (eq_of_cmp h)
  cmp_swap p q := by
    rw [cmp_swap p.1 q.1, cmp_swap p.2 q.2]
    cases cmp p.1 q.1 <;> simp [Ordering.then]
  lt_trans {p q r} h h' := by
    rw [then_eq_lt] at h h' ⊢
    rcases h with h | ⟨e, h⟩ <;> rcases h' with h' | ⟨e', h'⟩
    · exact .inl (lt_trans h h')
    · rw [← eq_of_cmp e']; exact .inl h
    · rw [eq_of_cmp e]; exact .inl h'
    · rw [eq_of_cmp e, eq_of_cmp e']; exact .inr ⟨cmp_self _, lt_trans h h'⟩

/-- Lists by their first difference; a list comes before its proper extensions. -/
def cmpList [Ranked α] : List α → List α → Ordering
  | [], [] => .eq
  | [], _ :: _ => .lt
  | _ :: _, [] => .gt
  | a :: as, b :: bs => (cmp a b).then (cmpList as bs)

/-- A list compares as equal with itself. -/
theorem cmpList_self [Ranked α] (as : List α) : cmpList as as = .eq := by
  induction as with
  | nil => rfl
  | cons a as ih => simp [cmpList, cmp_self, ih, Ordering.then]

/-- Lists that are not told apart are the same. -/
theorem eq_of_cmpList [Ranked α] : ∀ {as bs : List α}, cmpList as bs = .eq → as = bs
  | [], [], _ => rfl
  | [], _ :: _, h => by simp [cmpList] at h
  | _ :: _, [], h => by simp [cmpList] at h
  | a :: as, b :: bs, h => by
    cases h₁ : cmp a b <;> simp [cmpList, h₁, Ordering.then] at h
    rw [eq_of_cmp h₁, eq_of_cmpList h]

/-- Lists are compared the same way from both sides. -/
theorem cmpList_swap [Ranked α] : ∀ as bs : List α, cmpList bs as = (cmpList as bs).swap
  | [], [] => rfl
  | [], _ :: _ => rfl
  | _ :: _, [] => rfl
  | a :: as, b :: bs => by
    simp only [cmpList]
    rw [cmp_swap a b, cmpList_swap as bs]
    cases cmp a b <;> simp [Ordering.then]

/-- Lists stand in one order. -/
theorem cmpList_lt_trans [Ranked α] : ∀ {as bs cs : List α},
    cmpList as bs = .lt → cmpList bs cs = .lt → cmpList as cs = .lt
  | [], [], _, h, _ => by simp [cmpList] at h
  | [], _ :: _, [], _, h' => by simp [cmpList] at h'
  | [], _ :: _, _ :: _, _, _ => rfl
  | _ :: _, [], _, h, _ => by simp [cmpList] at h
  | _ :: _, _ :: _, [], _, h' => by simp [cmpList] at h'
  | a :: as, b :: bs, c :: cs, h, h' => by
    simp only [cmpList] at h h' ⊢
    rw [then_eq_lt] at h h' ⊢
    rcases h with h | ⟨e, h⟩ <;> rcases h' with h' | ⟨e', h'⟩
    · exact .inl (lt_trans h h')
    · rw [← eq_of_cmp e']; exact .inl h
    · rw [eq_of_cmp e]; exact .inl h'
    · rw [eq_of_cmp e, eq_of_cmp e']; exact .inr ⟨cmp_self _, cmpList_lt_trans h h'⟩

instance [Ranked α] : Ranked (List α) where
  cmp := cmpList
  cmp_self := cmpList_self
  eq_of_cmp := eq_of_cmpList
  cmp_swap := cmpList_swap
  lt_trans := cmpList_lt_trans

/-! ## The library's names for the laws -/

instance [Ranked α] : Std.OrientedCmp (cmp : α → α → Ordering) where
  eq_swap {a b} := cmp_swap b a

instance [Ranked α] : Std.TransCmp (cmp : α → α → Ordering) where
  isLE_trans {a b c} h h' := by
    rcases before_or_eq_or_before a b with hab | rfl | hab
    · rcases before_or_eq_or_before b c with hbc | rfl | hbc
      · rw [show cmp a c = .lt from hab.trans hbc]; rfl
      · exact h
      · rw [cmp_gt_iff.2 hbc] at h'; cases h'
    · exact h'
    · rw [cmp_gt_iff.2 hab] at h; cases h

instance [Ranked α] : Std.LawfulEqCmp (cmp : α → α → Ordering) where
  compare_self {a} := cmp_self a
  eq_of_compare := eq_of_cmp

end Ranked

end OntologyService
