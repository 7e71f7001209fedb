import Mathlib.Algebra.Ring.Nat
import Mathlib.Data.List.Nodup
import Mathlib.Logic.Relation
import OntologyService.Proofs.Order.Listing
import OntologyService.Taxonomy.Basic

/-!
# What a closure holds

`Links.Leads` is the honest relation: any number of steps along the links. The walk `follow` is
bounded by a number of steps, and `mem_reach` says that the bound it is run with is never felt: a
class is in the closure of another exactly if the links lead to it from that class or from
`owl:Thing`.

The bound holds because the walk pays one step for each class it takes off the queue. A class comes
onto the queue at the start or with the links of a class that is met for the first time, so the
length of the queue and the links of the classes not yet met (`unmet`) together fall by one with
every step.
-/

namespace OntologyService

/-- Any number of steps along the links. -/
def Links.Leads (ls : Links ClassName) : ClassName → ClassName → Prop :=
  Relation.ReflTransGen fun c d => ls.linked c d = true

namespace Taxonomy

/-- The links of the sources that are not yet met, one after another. -/
def unmet (seen : Table ClassName Unit) (entries : List (ClassName × Tally ClassName)) : Nat :=
  (entries.map fun e => if seen.contains e.1 then 0 else e.2.size).sum

/-- What is seen after one more class is that class and what was seen. -/
theorem contains_insert (seen : Table ClassName Unit) (c d : ClassName) :
    (seen.insert c ()).contains d = true ↔ d = c ∨ seen.contains d = true := by
  unfold Table.contains
  by_cases h : d = c
  · rw [h, Table.get?_insert_self, Option.isSome_some]
    simp only [true_or]
  · rw [Table.get?_insert_of_ne h]
    simp only [h, false_or]

/-- Before anything is met, every link is ahead. -/
theorem unmet_empty (ls : Links ClassName) : unmet ∅ ls.toList = ls.count := by
  have total : ∀ (es : List (ClassName × Tally ClassName)) (n : Nat),
      (es.map Prod.snd).foldl (fun m inner => m + inner.size) n = n + unmet ∅ es := by
    intro es
    induction es with
    | nil => intro n; rfl
    | cons e es ih =>
      intro n
      have own : Table.contains (∅ : Table ClassName Unit) e.1 = false := by
        rw [Table.contains, Table.get?_empty, Option.isSome_none]
      rw [List.map_cons, List.foldl_cons, ih, unmet, unmet, List.map_cons, List.sum_cons]
      simp only [own, Bool.false_eq_true, if_false]
      omega
  rw [Links.count, Table.values, total, Nat.zero_add]

theorem unmet_append (seen : Table ClassName Unit) (es es' : List (ClassName × Tally ClassName)) :
    unmet seen (es ++ es') = unmet seen es + unmet seen es' := by
  rw [unmet, List.map_append, List.sum_append]
  rfl

/-- Meeting a class is no matter to the entries of others. -/
theorem unmet_insert_of_not_mem {seen : Table ClassName Unit} {c : ClassName}
    {es : List (ClassName × Tally ClassName)} (h : c ∉ es.map Prod.fst) :
    unmet (seen.insert c ()) es = unmet seen es := by
  unfold unmet
  congr 1
  refine List.map_congr_left fun e he => ?_
  have ne : e.1 ≠ c := fun eq => h (eq ▸ List.mem_map_of_mem he)
  have same : (seen.insert c ()).contains e.1 = seen.contains e.1 := by
    rw [Bool.eq_iff_iff, contains_insert]
    simp only [ne, false_or]
  rw [same]

/-- **To meet a class for the first time** uses up its links. -/
theorem unmet_insert (ls : Links ClassName) {seen : Table ClassName Unit} {c : ClassName}
    (new : seen.contains c = false) :
    unmet (seen.insert c ()) ls.toList + (ls.targets c).length = unmet seen ls.toList := by
  have distinct : (ls.toList.map Prod.fst).Nodup := ls.keys_eq_map ▸ ls.keys_nodup
  cases hg : ls.get? c with
  | none =>
    have absent : c ∉ ls.toList.map Prod.fst := by
      rw [← ls.keys_eq_map, Table.mem_keys, hg, Option.isSome_none]
      exact Bool.false_ne_true
    have none : (ls.targets c).length = 0 := by
      rw [Links.targets, Links.tally, hg, Option.getD_none, Table.length_keys]
      rfl
    rw [unmet_insert_of_not_mem absent, none, Nat.add_zero]
  | some inner =>
    -- the class has one row, and nothing changes on either side of it
    obtain ⟨pre, post, split⟩ := List.append_of_mem (Table.mem_toList.2 hg)
    rw [split, List.map_append, List.map_cons, List.nodup_middle, List.nodup_cons,
      List.mem_append, not_or] at distinct
    have size : (ls.targets c).length = inner.size := by
      rw [Links.targets, Links.tally, hg, Option.getD_some, Table.length_keys]
    have before : unmet (seen.insert c ()) [(c, inner)] = 0 := by
      have met : (seen.insert c ()).contains c = true := (contains_insert seen c c).2 (.inl rfl)
      simp only [unmet, List.map_cons, List.map_nil, met, if_true, List.sum_cons, List.sum_nil,
        Nat.add_zero]
    have after : unmet seen [(c, inner)] = inner.size := by
      simp only [unmet, List.map_cons, List.map_nil, new, Bool.false_eq_true, if_false,
        List.sum_cons, List.sum_nil, Nat.add_zero]
    rw [split, size, ← List.singleton_append, unmet_append, unmet_append, unmet_append,
      unmet_append, unmet_insert_of_not_mem distinct.1.1, unmet_insert_of_not_mem distinct.1.2,
      before, after]
    omega

/-- **The work list is complete**: what is met links to nothing but what is met or queued. -/
def Complete (supers : Links ClassName) (seen : Table ClassName Unit) (queue : List ClassName) :
    Prop :=
  ∀ c, seen.contains c = true → ∀ e, supers.linked c e = true →
    seen.contains e = true ∨ e ∈ queue

/-- What is met by the time the queue is empty. -/
def Ahead (supers : Links ClassName) (seen : Table ClassName Unit) (queue : List ClassName)
    (d : ClassName) : Prop :=
  seen.contains d = true ∨ ∃ c ∈ queue, supers.Leads c d

section

variable {supers : Links ClassName} {seen : Table ClassName Unit} {queue : List ClassName}
  {c d : ClassName}

/-- What is met leads on to nothing but what is met or ahead, step after step. -/
theorem ahead_of_leads (complete : Complete supers seen queue) (h : supers.Leads c d) :
    seen.contains c = true ∨ c ∈ queue → Ahead supers seen queue d := by
  induction h using Relation.ReflTransGen.head_induction_on with
  | refl =>
    rintro (hd | hd)
    · exact .inl hd
    · exact .inr ⟨d, hd, .refl⟩
  | @head b e hbe hed ih =>
    rintro (hb | hb)
    · exact ih (complete b hb e hbe)
    · exact .inr ⟨b, hb, .head hbe hed⟩

/-- A class met before can be taken off the queue: what it leads to is met or queued already. -/
theorem Complete.skip (complete : Complete supers seen (c :: queue))
    (met : seen.contains c = true) : Complete supers seen queue := by
  intro b hb e hbe
  rcases complete b hb e hbe with he | he
  · exact .inl he
  · rcases List.mem_cons.1 he with rfl | he
    · exact .inl met
    · exact .inr he

/-- A class that was met leads to nothing new. -/
theorem ahead_skip (complete : Complete supers seen (c :: queue))
    (met : seen.contains c = true) :
    Ahead supers seen queue d ↔ Ahead supers seen (c :: queue) d := by
  constructor
  · rintro (hd | ⟨q, hq, hqd⟩)
    · exact .inl hd
    · exact .inr ⟨q, List.mem_cons_of_mem _ hq, hqd⟩
  · rintro (hd | ⟨q, hq, hqd⟩)
    · exact .inl hd
    · rcases List.mem_cons.1 hq with rfl | hq
      · exact ahead_of_leads (complete.skip met) hqd (.inl met)
      · exact .inr ⟨q, hq, hqd⟩

/-- A class met now is taken off the queue, and its links join the queue. -/
theorem Complete.expand (complete : Complete supers seen (c :: queue)) :
    Complete supers (seen.insert c ()) (supers.targets c ++ queue) := by
  intro b hb e hbe
  rw [contains_insert] at hb ⊢
  rw [List.mem_append]
  rcases hb with rfl | hb
  · exact .inr (.inl (Table.contains_iff.1 hbe))
  · rcases complete b hb e hbe with he | he
    · exact .inl (.inr he)
    · rcases List.mem_cons.1 he with rfl | he
      · exact .inl (.inl rfl)
      · exact .inr (.inr he)

/-- A class that was not is replaced by what it leads to. -/
theorem ahead_expand (complete : Complete supers seen (c :: queue)) :
    Ahead supers (seen.insert c ()) (supers.targets c ++ queue) d ↔
      Ahead supers seen (c :: queue) d := by
  constructor
  · rintro (hd | ⟨q, hq, hqd⟩)
    · rcases (contains_insert seen c d).1 hd with rfl | hd
      · exact .inr ⟨d, List.mem_cons_self .., .refl⟩
      · exact .inl hd
    · rcases List.mem_append.1 hq with hq | hq
      · exact .inr ⟨c, List.mem_cons_self .., .head (Table.contains_iff.2 hq) hqd⟩
      · exact .inr ⟨q, List.mem_cons_of_mem _ hq, hqd⟩
  · rintro (hd | ⟨q, hq, hqd⟩)
    · exact .inl ((contains_insert seen c d).2 (.inr hd))
    · rcases List.mem_cons.1 hq with rfl | hq
      · have met := (contains_insert seen q q).2 (.inl rfl)
        exact ahead_of_leads complete.expand hqd (.inl met)
      · exact .inr ⟨q, List.mem_append_right _ hq, hqd⟩

end

/-- **The walk** meets what it has met and what the queue leads to, given the steps for it. -/
theorem contains_follow (supers : Links ClassName) (d : ClassName) : ∀ (steps : Nat)
    (seen : Table ClassName Unit) (queue : List ClassName),
    queue.length + unmet seen supers.toList ≤ steps → Complete supers seen queue →
    ((follow supers steps seen queue).contains d = true ↔ Ahead supers seen queue d) := by
  intro steps
  induction steps with
  | zero =>
    intro seen queue enough _
    have empty : queue = [] := List.length_eq_zero_iff.1 (by omega)
    subst empty
    simp only [follow, Ahead, List.not_mem_nil, false_and, exists_false, or_false]
  | succ steps ih =>
    intro seen queue enough complete
    cases queue with
    | nil => simp only [follow, Ahead, List.not_mem_nil, false_and, exists_false, or_false]
    | cons c queue =>
      rw [List.length_cons] at enough
      unfold follow
      by_cases hc : seen.contains c = true
      · rw [if_pos hc, ih seen queue (by omega) (complete.skip hc), ahead_skip complete hc]
      · have used := unmet_insert supers (Bool.eq_false_iff.2 hc)
        rw [if_neg hc, ih _ _ (by rw [List.length_append]; omega) complete.expand,
          ahead_expand complete]

/-- **A closure** holds what the class and `owl:Thing` lead to. -/
theorem mem_reach {t : Taxonomy} {c d : ClassName} :
    d ∈ t.reach c ↔ t.supers.Leads c d ∨ t.supers.Leads ClassName.thing d := by
  have start : Complete t.supers ∅ [c, ClassName.thing] := by
    intro b hb
    rw [Table.contains, Table.get?_empty, Option.isSome_none] at hb
    cases hb
  have walk := contains_follow t.supers d (t.supers.count + 2) ∅ [c, ClassName.thing]
    (by rw [unmet_empty]; simp only [List.length_cons, List.length_nil]; omega) start
  have none : Table.contains (∅ : Table ClassName Unit) d = false := by
    rw [Table.contains, Table.get?_empty, Option.isSome_none]
  rw [reach, Table.mem_keySet, ← Table.contains, walk, Ahead]
  simp only [none, Bool.false_eq_true, false_or, List.mem_cons, List.not_mem_nil, or_false,
    exists_eq_or_imp, exists_eq_left]

/-- A closure depends on which classes are linked, not on how often or with what memo. -/
theorem reach_congr {t u : Taxonomy} (c : ClassName)
    (h : ∀ b d, t.supers.linked b d = u.supers.linked b d) : t.reach c = u.reach c := by
  have same : t.supers.Leads = u.supers.Leads := by
    unfold Links.Leads
    simp only [h]
  refine SortedSet.ext fun d => ?_
  rw [mem_reach, mem_reach, same]

end Taxonomy

end OntologyService
