import Mathlib.Data.List.Sort

/-!
# The first of a list in an order

A list bounded by keeping its first `k` elements in a total order: `beyond` is what falls off.

* `mem_beyond_iff`: an element falls off iff at least `k` others come before it (`rank`).
* `rel_of_notMem_beyond`: what is kept comes before what falls off.
* `length_le_of_notMem_beyond`: at most `k` are kept.
* `rank_le`: a rank in part of a list is at most the rank in the whole.
* `rank_lt_iff_of_kept`: ranks below `k` are the same where at least the first `k` are kept.

The order need only be antisymmetric on the list.
-/

namespace TetCore.Lib

section

variable {α : Type} (r : α → α → Prop) [DecidableRel r]

/-- The elements after the first `k` in the order `r`. -/
def beyond (k : Nat) (l : List α) : List α := (l.insertionSort r).drop k

/-- How many of the list come before `x`. -/
def rank [DecidableEq α] (l : List α) (x : α) : Nat := l.countP fun y => r y x ∧ y ≠ x

end

variable {α : Type} {r : α → α → Prop} [DecidableRel r] {l : List α} {x y : α} {k : Nat}

theorem mem_of_mem_beyond (h : x ∈ beyond r k l) : x ∈ l :=
  List.mem_insertionSort r |>.mp (List.mem_of_mem_drop h)

theorem beyond_nodup (h : l.Nodup) : (beyond r k l).Nodup :=
  ((List.perm_insertionSort r l).nodup_iff.mpr h).sublist (List.drop_sublist _ _)

/-- Counting the elements of a list without repetitions, all of them counted in another. -/
theorem countP_le_of_nodup {β : Type} {l l' : List β} {p q : β → Bool} (hnodup : l.Nodup)
    (h : ∀ x ∈ l, p x = true → x ∈ l' ∧ q x = true) : l.countP p ≤ l'.countP q := by
  rw [List.countP_eq_length_filter, List.countP_eq_length_filter]
  refine (List.subperm_of_subset (hnodup.filter p) fun x hx => ?_).length_le
  obtain ⟨hx, hp⟩ := List.mem_filter.mp hx
  exact List.mem_filter.mpr (h x hx hp)

/-- A rank among fewer elements. -/
theorem rank_le [DecidableEq α] {r' : α → α → Prop} [DecidableRel r'] {l' : List α}
    (hnodup : l.Nodup) (h : ∀ y ∈ l, r y x → y ≠ x → y ∈ l' ∧ r' y x) :
    rank r l x ≤ rank r' l' x := by
  refine countP_le_of_nodup hnodup fun y hy hlt => ?_
  obtain ⟨hyx, hne⟩ := of_decide_eq_true hlt
  obtain ⟨hy', hyx'⟩ := h y hy hyx hne
  exact ⟨hy', decide_eq_true ⟨hyx', hne⟩⟩

/-- At most `k` elements are kept. -/
theorem length_le_of_notMem_beyond {kept : List α} (hnodup : kept.Nodup)
    (h : ∀ x ∈ kept, x ∈ l ∧ x ∉ beyond r k l) : kept.length ≤ k := by
  have hsub : kept ⊆ (l.insertionSort r).take k := by
    intro x hx
    obtain ⟨hin, hnot⟩ := h x hx
    have hmem := (List.mem_insertionSort r).mpr hin
    rw [← List.take_append_drop k (l.insertionSort r)] at hmem
    exact (List.mem_append.mp hmem).resolve_right hnot
  exact (List.subperm_of_subset hnodup hsub).length_le.trans (List.length_take_le _ _)

section Total

variable [Std.Total r] [IsTrans α r]

/-- What is kept comes before what falls off. -/
theorem rel_of_notMem_beyond (hy : y ∈ l) (hkept : y ∉ beyond r k l) (hx : x ∈ beyond r k l) :
    r y x := by
  have hsplit := List.take_append_drop k (l.insertionSort r)
  have hsorted := List.pairwise_insertionSort r l
  rw [← hsplit, List.pairwise_append] at hsorted
  have hmem : y ∈ (l.insertionSort r).take k ++ (l.insertionSort r).drop k := by
    rw [hsplit]
    exact (List.mem_insertionSort r).mpr hy
  rcases List.mem_append.mp hmem with hin | hin
  · exact hsorted.2.2 y hin x hx
  · exact absurd hin hkept

theorem mem_beyond_iff [DecidableEq α] (hnodup : l.Nodup)
    (hanti : ∀ a ∈ l, ∀ b ∈ l, r a b → r b a → a = b) (hx : x ∈ l) :
    x ∈ beyond r k l ↔ k ≤ rank r l x := by
  have hperm := List.perm_insertionSort r l
  have hsorted := List.pairwise_insertionSort r l
  have hnodup' := hperm.nodup_iff.mpr hnodup
  obtain ⟨before, after, hsplit⟩ := List.append_of_mem (hperm.mem_iff.mpr hx)
  -- the rank of `x` is its place
  have hrank : rank r l x = before.length := by
    unfold rank
    rw [← hperm.countP_eq, hsplit, List.countP_append, List.countP_cons]
    rw [hsplit, List.pairwise_append, List.pairwise_cons] at hsorted
    rw [hsplit, List.nodup_append, List.nodup_cons] at hnodup'
    have hbefore : before.countP (fun y => decide (r y x ∧ y ≠ x)) = before.length := by
      rw [List.countP_eq_length]
      intro y hy
      exact decide_eq_true ⟨hsorted.2.2 y hy x List.mem_cons_self,
        hnodup'.2.2 y hy x List.mem_cons_self⟩
    have hafter : after.countP (fun y => decide (r y x ∧ y ≠ x)) = 0 := by
      rw [List.countP_eq_zero]
      intro y hy hlt
      have hyl : y ∈ l := hperm.mem_iff.mp (hsplit ▸ List.mem_append_right _
        (List.mem_cons_of_mem x hy))
      obtain ⟨hyx, hne⟩ := of_decide_eq_true hlt
      exact hne (hanti y hyl x hx hyx (hsorted.2.1.1 y hy))
    rw [hbefore, hafter]
    simp
  rw [hrank]
  unfold beyond
  rw [hsplit, List.drop_append]
  constructor
  · intro hmem
    by_contra hlt
    have hlen : before.length < k := Nat.not_le.mp hlt
    rw [List.drop_eq_nil_iff.mpr (Nat.le_of_lt hlen), List.nil_append] at hmem
    obtain ⟨d, hd⟩ := Nat.exists_eq_add_of_lt hlen
    rw [show k - before.length = d + 1 by omega, List.drop_succ_cons] at hmem
    rw [hsplit, List.nodup_append, List.nodup_cons] at hnodup'
    exact hnodup'.2.1.1 (List.mem_of_mem_drop hmem)
  · intro hle
    rw [Nat.sub_eq_zero_of_le hle, List.drop_zero]
    exact List.mem_append_right _ List.mem_cons_self

/-- Where at least the first `k` are kept, the ranks below `k` are those of the whole. -/
theorem rank_lt_iff_of_kept [DecidableEq α] {kept : List α} (hnodup : l.Nodup)
    (hanti : ∀ a ∈ l, ∀ b ∈ l, r a b → r b a → a = b) (hkept : kept.Nodup)
    (hsub : ∀ x ∈ kept, x ∈ l) (hfirst : ∀ x ∈ l, rank r l x < k → x ∈ kept) (hy : y ∈ l) :
    rank r kept y < k ↔ rank r l y < k := by
  constructor
  · intro hlt
    by_contra hle
    have hle : k ≤ rank r l y := Nat.not_lt.mp hle
    have hpast : y ∈ beyond r k l := (mem_beyond_iff hnodup hanti hy).mpr hle
    have hperm := List.perm_insertionSort r l
    have hsplit : ((l.insertionSort r).take k ++ (l.insertionSort r).drop k).Nodup := by
      rw [List.take_append_drop]
      exact hperm.nodup_iff.mpr hnodup
    have hlen : ((l.insertionSort r).take k).length = k := by
      rw [List.length_take, hperm.length_eq]
      exact Nat.min_eq_left (hle.trans List.countP_le_length)
    -- the first `k` are all kept, and come before `y`
    have hcount : ((l.insertionSort r).take k).countP (fun _ => true) ≤ rank r kept y := by
      refine countP_le_of_nodup hsplit.of_append_left fun x hx _ => ?_
      have hxl : x ∈ l := hperm.mem_iff.mp (List.mem_of_mem_take hx)
      have hxkept : x ∉ beyond r k l := fun hxpast =>
        (List.disjoint_of_nodup_append hsplit) hx hxpast
      have hrank : rank r l x < k := by
        by_contra hge
        exact hxkept ((mem_beyond_iff hnodup hanti hxl).mpr (Nat.not_lt.mp hge))
      refine ⟨hfirst x hxl hrank, decide_eq_true ⟨rel_of_notMem_beyond hxl hxkept hpast, ?_⟩⟩
      intro heq
      exact hxkept (heq ▸ hpast)
    rw [List.countP_true, hlen] at hcount
    omega
  · exact fun hlt => (rank_le hkept fun x hx hr _ => ⟨hsub x hx, hr⟩).trans_lt hlt

end Total

end TetCore.Lib
