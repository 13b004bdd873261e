import Mathlib.Data.List.Sort

/-!
# The first rows of a scan, sorted

A listing that scans rows in one order, stops after `limit` of them, and then sorts what it has by a
number, equal numbers in the order of the scan.

* `mem_take_iff`: the first rows of a scan are those with fewer than `limit` rows before them.
* `listed_pairwise`: a listing is ordered by number, then by the scan.
* `listed_eq_iff`: what a listing has to be, row by row.
-/

namespace TetCore.Lib

variable {α : Type} {before : α → α → Prop} [DecidableRel before] {number : α → Nat} {l : List α}

/-- The first `limit` rows, sorted by their numbers. -/
def listed (number : α → Nat) (limit : Nat) (l : List α) : List α :=
  (l.take limit).mergeSort fun a b => decide (number a ≤ number b)

/-- By number, then by the scan. -/
def NumberedBefore (before : α → α → Prop) (number : α → Nat) (a b : α) : Prop :=
  number a < number b ∨ number a = number b ∧ before a b

/-- How many rows of the scan come before `x`. -/
def ahead (before : α → α → Prop) [DecidableRel before] (l : List α) (x : α) : Nat :=
  l.countP fun y => decide (before y x)

theorem ahead_cons (a x : α) : ahead before (a :: l) x =
    ahead before l x + if before a x then 1 else 0 := by
  rw [ahead, ahead, List.countP_cons]
  simp only [decide_eq_true_eq]

/-- **The first rows of a scan** are those with few rows before them. -/
theorem mem_take_iff (hasymm : ∀ a b, before a b → ¬before b a) (hl : l.Pairwise before)
    {limit : Nat} {x : α} : x ∈ l.take limit ↔ x ∈ l ∧ ahead before l x < limit := by
  induction l generalizing limit with
  | nil => simp
  | cons a l ih =>
    obtain ⟨hfirst, hrest⟩ := List.pairwise_cons.mp hl
    cases limit with
    | zero => simp
    | succ limit =>
      rw [List.take_succ_cons, List.mem_cons, List.mem_cons, ih hrest, ahead_cons]
      by_cases hmem : x ∈ l
      · have hax := hfirst x hmem
        have hne : x ≠ a := by
          rintro rfl
          exact hasymm x x hax hax
        simp only [hax, hne, hmem, if_true, false_or, true_and, Nat.add_lt_add_iff_right]
      · by_cases hxa : x = a
        · subst hxa
          have hnone : ahead before l x = 0 := by
            rw [ahead, List.countP_eq_zero]
            intro y hy
            rw [decide_eq_true_eq]
            exact hasymm x y (hfirst y hy)
          have hself : ¬before x x := fun h => hasymm x x h h
          simp only [hnone, hself, if_false, true_or, true_and, Nat.zero_add, Nat.zero_lt_succ]
        · simp only [hmem, hxa, false_and, or_self]

section Order

variable {before : α → α → Prop}

theorem nodup_of_before (hasymm : ∀ a b, before a b → ¬before b a) (hl : l.Pairwise before) :
    l.Nodup := by
  refine hl.imp ?_
  rintro a b hab rfl
  exact hasymm a a hab hab

theorem numberedBefore_asymm (hasymm : ∀ a b, before a b → ¬before b a) {a b : α}
    (h : NumberedBefore before number a b) : ¬NumberedBefore before number b a := by
  rintro (hlt | ⟨heq, hba⟩)
  · rcases h with hlt' | ⟨heq', -⟩ <;> omega
  · rcases h with hlt' | ⟨-, hab⟩
    · omega
    · exact hasymm a b hab hba

theorem number_le_trans (number : α → Nat) (a b c : α) (hab : decide (number a ≤ number b) = true)
    (hbc : decide (number b ≤ number c) = true) : decide (number a ≤ number c) = true := by
  rw [decide_eq_true_eq] at hab hbc ⊢
  exact Nat.le_trans hab hbc

theorem number_le_total (number : α → Nat) (a b : α) :
    (decide (number a ≤ number b) || decide (number b ≤ number a)) = true := by
  rw [Bool.or_eq_true, decide_eq_true_eq, decide_eq_true_eq]
  exact Nat.le_total _ _

/-- Rows with the same number stay in the order of the scan. -/
theorem filter_listed (limit k : Nat) : (listed number limit l).filter (fun x => number x == k) =
    (l.take limit).filter fun x => number x == k := by
  have hsub := List.sublist_mergeSort (number_le_trans number) (number_le_total number)
    (?_ : List.Pairwise _ ((l.take limit).filter fun x => number x == k)) List.filter_sublist
  · have hfilter := hsub.filter fun x => number x == k
    rw [List.filter_filter] at hfilter
    simp only [Bool.and_self] at hfilter
    refine (hfilter.eq_of_length ?_).symm
    exact ((List.mergeSort_perm _ _).filter _).length_eq.symm
  · rw [List.pairwise_iff_getElem]
    intro i j hi hj _
    have hkey : ∀ x ∈ (l.take limit).filter fun x => number x == k, number x = k := fun x hx =>
      eq_of_beq (List.mem_filter.mp hx).2
    rw [decide_eq_true_eq, hkey _ (List.getElem_mem hi), hkey _ (List.getElem_mem hj)]

/-- A listing of rows that carry more. -/
theorem map_listed {β : Type} (number : α → Nat) (f : β → α) (limit : Nat) (l : List β) :
    (listed (fun x => number (f x)) limit l).map f = listed number limit (l.map f) := by
  rw [listed, listed, ← List.map_take, List.map_mergeSort]
  intro a _ b _
  rfl

/-- **A listing is ordered** by number, then by the scan. -/
theorem listed_pairwise (hl : l.Pairwise before) (limit : Nat) :
    (listed number limit l).Pairwise (NumberedBefore before number) := by
  refine List.pairwise_iff_forall_sublist.mpr fun {a b} hab => ?_
  have hle : number a ≤ number b := by
    have hsorted : (listed number limit l).Pairwise _ :=
      List.pairwise_mergeSort (number_le_trans number) (number_le_total number) _
    exact of_decide_eq_true (hsorted.forall_sublist hab)
  rcases Nat.lt_or_eq_of_le hle with hlt | heq
  · exact Or.inl hlt
  · refine Or.inr ⟨heq, ?_⟩
    have hfilter := hab.filter fun x => number x == number b
    rw [filter_listed] at hfilter
    have hpair : [a, b].filter (fun x => number x == number b) = [a, b] := by
      rw [List.filter_eq_self]
      intro x hx
      rcases List.mem_pair.mp hx with rfl | rfl
      · exact beq_of_eq heq
      · exact beq_self_eq_true _
    rw [hpair] at hfilter
    exact (hl.sublist ((List.filter_sublist).trans (List.take_sublist _ _))).forall_sublist hfilter

end Order

/-- **What a listing is**: rows of the scan in order, each with few rows before it, as many as the
limit allows. -/
theorem listed_eq_iff (hasymm : ∀ a b, before a b → ¬before b a) (hl : l.Pairwise before)
    {limit : Nat} {rows : List α} : listed number limit l = rows ↔
      (∀ x ∈ rows, x ∈ l ∧ ahead before l x < limit) ∧
        rows.Pairwise (NumberedBefore before number) ∧ rows.length = min limit l.length := by
  constructor
  · rintro rfl
    refine ⟨fun x hx => (mem_take_iff hasymm hl).mp (List.mem_mergeSort.mp hx),
      listed_pairwise hl limit, ?_⟩
    rw [listed, List.length_mergeSort, List.length_take]
  · rintro ⟨hrows, hordered, hlen⟩
    have hsub : rows.Subperm (l.take limit) := by
      refine List.subperm_of_subset (nodup_of_before (fun a b => numberedBefore_asymm hasymm) hordered) ?_
      exact fun x hx => (mem_take_iff hasymm hl).mpr (hrows x hx)
    have hperm : rows.Perm (l.take limit) :=
      hsub.perm_of_length_le (by rw [hlen, List.length_take])
    refine List.Perm.eq_of_pairwise ?_ (listed_pairwise hl limit) hordered
      ((List.mergeSort_perm _ _).trans hperm.symm)
    intro a b _ _ hab hba
    exact absurd hba (numberedBefore_asymm hasymm hab)

end TetCore.Lib
