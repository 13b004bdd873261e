import Mathlib.Algebra.GroupWithZero.Nat
import Mathlib.Algebra.Order.BigOperators.Group.List
import Mathlib.Algebra.Order.Group.Nat

/-!
# Making room by evicting the lowest first

A list of elements with a score and a size, and a cap on both its length and its total size. Room for
an incoming element is made by removing the first element of the lowest score, again and again, as
long as that score is below the incoming one (`evictLoop`). The loop removes before it knows whether
the room can be made at all.

* `Evicts score l es r`: removing the lowest again and again takes `es` from `l` in this order and
  leaves `r`.
* `evictLoop_spec`: what the loop leaves, refused or not.
* `Evicts.filter_eq`: what does not score below the incoming element stays.
-/

namespace TetCore.Lib

variable {α : Type} (score size : α → Nat)

/-- The first element of the lowest score, and the others. -/
def popLowest : List α → Option (α × List α)
  | [] => none
  | x :: xs =>
    match popLowest xs with
    | none => some (x, [])
    | some (y, ys) => if score y < score x then some (y, x :: ys) else some (x, xs)

/-- The sum of the sizes. -/
def totalSize (l : List α) : Nat := (l.map size).sum

/-- There is no room for an element of the size. -/
def Full (maxLen maxSize incomingSize : Nat) (l : List α) : Prop :=
  maxLen ≤ l.length ∨ maxSize < totalSize size l + incomingSize

/-- Evict the lowest as long as there is no room and it scores below the incoming element; `true`
when it does not. The total size is kept along. -/
def evictLoop (maxLen maxSize incomingSize incomingScore : Nat) :
    Nat → List α → Nat → Bool → Bool × List α × Nat × Bool
  | 0, l, total, evicted => (false, l, total, evicted)
  | fuel + 1, l, total, evicted =>
    if maxLen ≤ l.length ∨ maxSize < total + incomingSize then
      match popLowest score l with
      | none => (false, l, total, evicted)
      | some (x, rest) =>
        if incomingScore ≤ score x then (true, l, total, evicted)
        else evictLoop maxLen maxSize incomingSize incomingScore fuel rest (total - size x) true
    else (false, l, total, evicted)

/-- `es` is what is evicted from `l`, lowest first, and `r` is what is left. -/
inductive Evicts : List α → List α → List α → Prop where
  | nil (l : List α) : Evicts l [] l
  | cons {l l' r : List α} {e : α} {es : List α} (lowest : popLowest score l = some (e, l'))
      (rest : Evicts l' es r) : Evicts l (e :: es) r

variable {score size} {l l' r es : List α} {e : α}

theorem popLowest_ne_none (score : α → Nat) (h : l ≠ []) :
    ∃ e l', popLowest score l = some (e, l') := by
  cases l with
  | nil => exact absurd rfl h
  | cons x xs =>
    rw [popLowest]
    cases popLowest score xs with
    | none => exact ⟨_, _, rfl⟩
    | some p =>
      simp only
      split
      · exact ⟨_, _, rfl⟩
      · exact ⟨_, _, rfl⟩

theorem eq_nil_of_popLowest (h : popLowest score l = none) : l = [] := by
  by_contra hne
  obtain ⟨e, l', heq⟩ := popLowest_ne_none score hne
  rw [h] at heq
  cases heq

/-- What is popped is the first of the lowest, and the others stay in their order. -/
theorem popLowest_some : ∀ {l l' : List α} {e : α}, popLowest score l = some (e, l') →
    ∃ a b, l = a ++ e :: b ∧ l' = a ++ b ∧ (∀ x ∈ a, score e < score x) ∧
      ∀ x ∈ b, score e ≤ score x := by
  intro l
  induction l with
  | nil =>
    intro l' e h
    cases h
  | cons x xs ih =>
    intro l' e h
    rw [popLowest] at h
    cases hpop : popLowest score xs with
    | none =>
      rw [hpop] at h
      cases h
      rw [eq_nil_of_popLowest hpop]
      exact ⟨[], [], rfl, rfl, fun y hy => absurd hy List.not_mem_nil,
        fun y hy => absurd hy List.not_mem_nil⟩
    | some p =>
      obtain ⟨y, ys⟩ := p
      obtain ⟨a, b, hxs, hys, ha, hb⟩ := ih hpop
      simp only [hpop] at h
      by_cases hlt : score y < score x
      · rw [if_pos hlt] at h
        cases h
        refine ⟨x :: a, b, by rw [hxs]; rfl, by rw [hys]; rfl, fun z hz => ?_, hb⟩
        rcases List.mem_cons.mp hz with rfl | hz
        · exact hlt
        · exact ha z hz
      · rw [if_neg hlt] at h
        cases h
        refine ⟨[], xs, rfl, rfl, fun z hz => absurd hz List.not_mem_nil, fun z hz => ?_⟩
        have hyz : score y ≤ score z := by
          rw [hxs] at hz
          rcases List.mem_append.mp hz with hz | hz
          · exact Nat.le_of_lt (ha z hz)
          · rcases List.mem_cons.mp hz with rfl | hz
            · exact Nat.le_refl _
            · exact hb z hz
        omega

theorem popLowest_le (h : popLowest score l = some (e, l')) : ∀ x ∈ l, score e ≤ score x := by
  obtain ⟨a, b, rfl, -, ha, hb⟩ := popLowest_some h
  intro x hx
  rcases List.mem_append.mp hx with hx | hx
  · exact Nat.le_of_lt (ha x hx)
  · rcases List.mem_cons.mp hx with rfl | hx
    · exact Nat.le_refl _
    · exact hb x hx

theorem popLowest_perm (h : popLowest score l = some (e, l')) : (e :: l').Perm l := by
  obtain ⟨a, b, rfl, rfl, -, -⟩ := popLowest_some h
  exact List.perm_middle.symm

theorem popLowest_sublist (h : popLowest score l = some (e, l')) : List.Sublist l' l := by
  obtain ⟨a, b, rfl, rfl, -, -⟩ := popLowest_some h
  exact (List.Sublist.refl a).append (List.sublist_cons_self e b)

theorem totalSize_perm {m : List α} (h : l.Perm m) : totalSize size l = totalSize size m :=
  (h.map size).sum_eq

theorem totalSize_pop (h : popLowest score l = some (e, l')) :
    totalSize size l - size e = totalSize size l' := by
  rw [← totalSize_perm (popLowest_perm h)]
  simp [totalSize]

theorem Evicts.sublist (h : Evicts score l es r) : List.Sublist r l := by
  induction h with
  | nil l => exact List.Sublist.refl l
  | cons lowest _ ih => exact ih.trans (popLowest_sublist lowest)

/-- What is not below the mark is left, when all that is evicted is below. -/
theorem Evicts.filter_eq (h : Evicts score l es r) {mark : Nat} (hes : ∀ x ∈ es, score x < mark) :
    (l.filter fun x => mark ≤ score x) = r.filter fun x => mark ≤ score x := by
  induction h with
  | nil l => rfl
  | @cons l l' r e es lowest _ ih =>
    obtain ⟨a, b, rfl, rfl, -, -⟩ := popLowest_some lowest
    have he : ¬ mark ≤ score e := Nat.not_le.mpr (hes e List.mem_cons_self)
    rw [← ih fun x hx => hes x (List.mem_cons_of_mem e hx), List.filter_append, List.filter_append,
      List.filter_cons_of_neg (by simpa using he)]

theorem totalSize_sublist (size : α → Nat) {m : List α} (h : List.Sublist l m) :
    totalSize size l ≤ totalSize size m := (h.map size).sum_le_sum fun _ _ => Nat.zero_le _

theorem Full.mono {maxLen maxSize n : Nat} {m : List α} (h : Full size maxLen maxSize n l)
    (hs : List.Sublist l m) : Full size maxLen maxSize n m := by
  have hlen := hs.length_le
  have hsum := totalSize_sublist size hs
  unfold Full at h ⊢
  omega

/-- **The loop**: what it evicts scores below the incoming element, and it stops refused, with no
room and nothing below, or with room, or with nothing left. -/
theorem evictLoop_spec {maxLen maxSize n mark : Nat} : ∀ {fuel : Nat} {l : List α} {ev : Bool},
    l.length ≤ fuel → ∃ es r refused evicted,
      evictLoop score size maxLen maxSize n mark fuel l (totalSize size l) ev =
        (refused, r, totalSize size r, evicted) ∧
      Evicts score l es r ∧ (∀ x ∈ es, score x < mark) ∧
      (refused = true → Full size maxLen maxSize n r ∧ ∀ x ∈ r, mark ≤ score x) ∧
      (refused = false → r = [] ∨ ¬ Full size maxLen maxSize n r) := by
  intro fuel
  induction fuel with
  | zero =>
    intro l ev hlen
    have hnil := List.length_eq_zero_iff.mp (Nat.le_zero.mp hlen)
    exact ⟨[], l, false, ev, rfl, .nil l, fun x hx => absurd hx List.not_mem_nil, nofun,
      fun _ => Or.inl hnil⟩
  | succ fuel ih =>
    intro l ev hlen
    rw [evictLoop]
    by_cases hfull : maxLen ≤ l.length ∨ maxSize < totalSize size l + n
    · rw [if_pos hfull]
      cases hpop : popLowest score l with
      | none =>
        exact ⟨[], l, false, ev, rfl, .nil l, fun x hx => absurd hx List.not_mem_nil, nofun,
          fun _ => Or.inl (eq_nil_of_popLowest hpop)⟩
      | some p =>
        obtain ⟨e, rest⟩ := p
        simp only
        by_cases hmark : mark ≤ score e
        · rw [if_pos hmark]
          exact ⟨[], l, true, ev, rfl, .nil l, fun x hx => absurd hx List.not_mem_nil,
            fun _ => ⟨hfull, fun x hx => Nat.le_trans hmark (popLowest_le hpop x hx)⟩, nofun⟩
        · rw [if_neg hmark, totalSize_pop hpop]
          have hrest : rest.length ≤ fuel := by
            have := (popLowest_perm hpop).length_eq
            rw [List.length_cons] at this
            omega
          obtain ⟨es, r, refused, evicted, heq, hev, hes, href, hdone⟩ := ih hrest
          refine ⟨e :: es, r, refused, evicted, heq, .cons hpop hev, fun x hx => ?_, href, hdone⟩
          rcases List.mem_cons.mp hx with rfl | hx
          · exact Nat.lt_of_not_le hmark
          · exact hes x hx
    · rw [if_neg hfull]
      exact ⟨[], l, false, ev, rfl, .nil l, fun x hx => absurd hx List.not_mem_nil, nofun,
        fun _ => Or.inr hfull⟩

end TetCore.Lib
