import Mathlib.Algebra.BigOperators.Group.Multiset.Basic
import Mathlib.Algebra.Order.BigOperators.Group.List
import Mathlib.Algebra.Order.Ring.Nat

/-!
# A queue with items in hand

Items are taken out of a queue, are in hand for a while, and are put back or dropped; the same item
may be queued again meanwhile. `weighAll` is the weight of the queue when everything in hand is put
back, an item that waits already not again.

`weighAll_le`: it does not grow while nothing comes from elsewhere; `weighAll_take`,
`weighAll_putBack` are the cases of taking out and putting back.
-/

namespace TetCore.Lib

variable {α : Type} [DecidableEq α]

/-- The weight of items. -/
def weigh (a : α → Nat) (q : List α) : Nat := (q.map a).sum

/-- The weight of what is in hand and does not wait, each item once. -/
def weighHand (a : α → Nat) (q hand : List α) : Nat :=
  weigh a (hand.dedup.filter fun x => x ∉ q)

/-- The weight of the queue with everything in hand put back. -/
def weighAll (a : α → Nat) (q hand : List α) : Nat := weigh a q + weighHand a q hand

variable {a : α → Nat} {q q' hand hand' front : List α} {x : α}

omit [DecidableEq α] in
/-- An item among the others. -/
theorem split_of_getElem? {n : Nat} (h : q[n]? = some x) : ∃ l l', q = l ++ x :: l' ∧
    q.eraseIdx n = l ++ l' ∧ ∀ y, q.set n y = l ++ y :: l' := by
  obtain ⟨hn, rfl⟩ := List.getElem?_eq_some_iff.mp h
  refine ⟨q.take n, q.drop (n + 1), ?_, List.eraseIdx_eq_take_drop_succ _ _, fun y => ?_⟩
  · rw [List.cons_getElem_drop_succ, List.take_append_drop]
  · rw [List.set_eq_take_append_cons_drop, if_pos hn]

omit [DecidableEq α] in
theorem weigh_cons (a : α → Nat) (x : α) (q : List α) : weigh a (x :: q) = a x + weigh a q :=
  List.sum_cons

theorem weigh_append (a : α → Nat) (q q' : List α) :
    weigh a (q ++ q') = weigh a q + weigh a q' := by
  unfold weigh
  rw [List.map_append, List.sum_append]

omit [DecidableEq α] in
theorem weigh_singleton (a : α → Nat) (x : α) : weigh a [x] = a x := by
  unfold weigh
  rw [List.map_singleton, List.sum_singleton]

omit [DecidableEq α] in
theorem weigh_sublist (h : List.Sublist q' q) : weigh a q' ≤ weigh a q :=
  List.Sublist.sum_le_sum (h.map a) fun _ _ => Nat.zero_le _

omit [DecidableEq α] in
theorem weigh_perm (h : List.Perm q' q) : weigh a q' = weigh a q := (h.map a).sum_eq

omit [DecidableEq α] in
/-- Different items among others. -/
theorem weigh_le_of_nodup (hnodup : q'.Nodup) (hsub : q' ⊆ q) : weigh a q' ≤ weigh a q := by
  obtain ⟨l, hperm, hl⟩ := List.subperm_of_subset hnodup hsub
  rw [← weigh_perm hperm]
  exact weigh_sublist hl

/-- What may wait: the queue with what is in hand, as often as it waits or else once. -/
theorem weighAll_eq (a : α → Nat) (q hand : List α) :
    weighAll a q hand = (((q : Multiset α) ∪ (hand.dedup : Multiset α)).map a).sum := by
  have hunion : (q : Multiset α) ∪ (hand.dedup : Multiset α) =
      (q ++ hand.dedup.filter fun x => x ∉ q : List α) := by
    ext x
    rw [Multiset.count_union, Multiset.coe_count, Multiset.coe_count, Multiset.coe_count,
      List.count_append]
    have hle := List.nodup_iff_count_le_one.mp hand.nodup_dedup x
    by_cases hx : x ∈ q
    · have hpos := List.count_pos_iff.mpr hx
      have hnone : x ∉ hand.dedup.filter fun x => x ∉ q := fun hmem =>
        of_decide_eq_true (List.mem_filter.mp hmem).2 hx
      rw [List.count_eq_zero_of_not_mem hnone]
      omega
    · rw [List.count_eq_zero_of_not_mem hx, List.count_filter (by rw [decide_eq_true_iff]; exact hx)]
      omega
  rw [hunion, Multiset.map_coe, Multiset.sum_coe]
  exact (weigh_append a _ _).symm

/-- Nothing comes from elsewhere. -/
theorem weighAll_le (hq : (q' : Multiset α) ≤ (q : Multiset α) ∪ (hand.dedup : Multiset α))
    (hhand : ∀ x ∈ hand', x ∈ q ∨ x ∈ hand) : weighAll a q' hand' ≤ weighAll a q hand := by
  rw [weighAll_eq, weighAll_eq]
  have hdedup : (hand'.dedup : Multiset α) ≤ (q : Multiset α) ∪ (hand.dedup : Multiset α) := by
    refine (Multiset.le_iff_subset (Multiset.coe_nodup.mpr hand'.nodup_dedup)).mpr fun x hx => ?_
    rw [Multiset.mem_union, Multiset.mem_coe, Multiset.mem_coe, List.mem_dedup]
    exact hhand x (List.mem_dedup.mp hx)
  obtain ⟨rest, hrest⟩ := Multiset.le_iff_exists_add.mp (Multiset.union_le hq hdedup)
  rw [hrest, Multiset.map_add, Multiset.sum_add]
  exact Nat.le_add_right _ _

/-- The queue is taken. -/
theorem weighAll_take (a : α → Nat) (q hand : List α) :
    weighAll a [] (q ++ hand) ≤ weighAll a q hand :=
  weighAll_le (Multiset.zero_le _) fun _ hx => List.mem_append.mp hx

/-- Items leave the queue or the hands. -/
theorem weighAll_drop (hq : List.Sublist q' q) (hhand : hand' ⊆ hand) :
    weighAll a q' hand' ≤ weighAll a q hand :=
  weighAll_le ((Multiset.coe_le.mpr hq.subperm).trans Multiset.le_union_left)
    fun _ hx => Or.inr (hhand hx)

/-- Items in hand are put back, none that waits and none twice. -/
theorem weighAll_putBack (hfront : front ⊆ hand) (hnodup : front.Nodup)
    (hnew : ∀ x ∈ front, x ∉ q) (hhand : hand' ⊆ hand) :
    weighAll a (front ++ q) hand' ≤ weighAll a q hand := by
  refine weighAll_le ?_ fun _ hx => Or.inr (hhand hx)
  rw [Multiset.le_iff_count]
  intro x
  rw [Multiset.count_union, Multiset.coe_count, Multiset.coe_count, Multiset.coe_count,
    List.count_append]
  by_cases hx : x ∈ front
  · have hle := List.nodup_iff_count_le_one.mp hnodup x
    have hpos := List.count_pos_iff.mpr (List.mem_dedup.mpr (hfront hx))
    rw [List.count_eq_zero_of_not_mem (hnew x hx)]
    omega
  · rw [List.count_eq_zero_of_not_mem hx]
    omega

/-- An item that comes in on top of what may wait already. -/
theorem weighHand_concat_le (a : α → Nat) (q hand : List α) (x : α) :
    weighHand a (q ++ [x]) hand ≤ weighHand a q hand := by
  refine weigh_sublist (List.monotone_filter_right _ fun y hy => ?_)
  refine decide_eq_true fun hmem => of_decide_eq_true hy (List.mem_append_left _ hmem)

end TetCore.Lib
