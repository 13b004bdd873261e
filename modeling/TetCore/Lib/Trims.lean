import Mathlib.Data.List.TakeWhile
import TetCore.Lib.JsValue

/-!
# Two ways of trimming

`strip p` drops the characters `p` at both ends: `trim` and `jsTrim` are its instances.

* `exists_strip`: a string is what is left of it between two strings of such characters.
* `strip_eq_strip_iff`: two classes of blanks leave the same exactly when every character around the
  string that is in one of them is in both.
-/

namespace TetCore.Lib

variable {p q r : Char → Bool} {s : Str}

/-- The string without the characters `p` at its ends. -/
def strip (p : Char → Bool) (s : Str) : Str := ((s.dropWhile p).reverse.dropWhile p).reverse

theorem trim_eq_strip (s : Str) : trim s = strip isWhitespace s := rfl

theorem jsTrim_eq_strip (s : Str) : jsTrim s = strip isJsBlank s := rfl

theorem exists_strip (p : Char → Bool) (s : Str) : ∃ before after,
    s = before ++ (strip p s ++ after) ∧ (∀ c ∈ before, p c = true) ∧ ∀ c ∈ after, p c = true := by
  have hfront := List.takeWhile_append_dropWhile (p := p) (l := s)
  have hback := List.takeWhile_append_dropWhile (p := p) (l := (s.dropWhile p).reverse)
  refine ⟨s.takeWhile p, ((s.dropWhile p).reverse.takeWhile p).reverse, ?_, ?_, ?_⟩
  · unfold strip
    rw [← List.reverse_append, hback, List.reverse_reverse, hfront]
  · intro c hc
    exact List.mem_takeWhile_imp hc
  · intro c hc
    exact List.mem_takeWhile_imp (List.mem_reverse.mp hc)

theorem strip_strip (p : Char → Bool) (s : Str) : strip p (strip p s) = strip p s := by
  unfold strip
  rw [dropWhile_reverse_dropWhile (dropWhile_dropWhile _ s), List.reverse_reverse, dropWhile_dropWhile]

theorem head_of_dropWhile_eq {c : Char} {t : Str} (h : (c :: t).dropWhile p = c :: t) :
    p c = false := by
  by_contra hc
  rw [List.dropWhile_cons_of_pos (Bool.not_eq_false _ ▸ hc)] at h
  have hlen := (List.dropWhile_suffix (l := t) p).length_le
  rw [h, List.length_cons] at hlen
  omega

/-- What is left has no such character at its ends. -/
theorem strip_ends {t : Str} {c : Char} : (strip p s = c :: t → p c = false) ∧
    (strip p s = t ++ [c] → p c = false) := by
  constructor
  · intro h
    have hfix : (strip p s).dropWhile p = strip p s :=
      dropWhile_reverse_dropWhile (dropWhile_dropWhile _ s)
    rw [h] at hfix
    exact head_of_dropWhile_eq hfix
  · intro h
    have hfix : (strip p s).reverse.dropWhile p = (strip p s).reverse := by
      unfold strip
      rw [List.reverse_reverse, dropWhile_dropWhile]
    rw [h, List.reverse_append, List.reverse_singleton, List.singleton_append] at hfix
    exact head_of_dropWhile_eq hfix

/-! ## What a filter keeps -/

theorem filter_dropWhile (h : ∀ c, q c = true → p c = false) :
    ∀ s : Str, (s.dropWhile q).filter p = s.filter p
  | [] => rfl
  | c :: s => by
    by_cases hq : q c = true
    · rw [List.dropWhile_cons_of_pos hq, filter_dropWhile h s,
        List.filter_cons_of_neg (by rw [h c hq]; decide)]
    · rw [List.dropWhile_cons_of_neg hq]

/-- Trimming takes nothing that is kept without blanks. -/
theorem filter_strip (h : ∀ c, q c = true → p c = false) (s : Str) :
    (strip q s).filter p = s.filter p := by
  unfold strip
  rw [List.filter_reverse, filter_dropWhile h, List.filter_reverse, List.reverse_reverse,
    filter_dropWhile h]

/-! ## Two classes of blanks -/

/-- The blanks of either class around a string. -/
def margins (p q : Char → Bool) (s : Str) : Str :=
  (s.takeWhile fun c => p c || q c) ++ s.reverse.takeWhile fun c => p c || q c

theorem dropWhile_of_margin (h : ∀ c ∈ s.takeWhile r, p c = true) (hr : ∀ c, p c = true → r c = true) :
    s.dropWhile p = s.dropWhile r := by
  induction s with
  | nil => rfl
  | cons c s ih =>
    by_cases hc : r c = true
    · rw [List.takeWhile_cons_of_pos hc] at h
      rw [List.dropWhile_cons_of_pos hc, List.dropWhile_cons_of_pos (h c List.mem_cons_self)]
      exact ih fun d hd => h d (List.mem_cons_of_mem c hd)
    · have hp : ¬p c = true := fun hp => hc (hr c hp)
      rw [List.dropWhile_cons_of_neg hc, List.dropWhile_cons_of_neg hp]

theorem mem_takeWhile_of_append {c : Char} {x y : Str} (h : c ∈ x.takeWhile r) :
    c ∈ (x ++ y).takeWhile r := by
  rw [List.takeWhile_append]
  split
  · rename_i hall
    exact List.mem_append_left _ (List.takeWhile_sublist r |>.subset h)
  · exact h

/-- A class that takes all the blanks around a string leaves what both together leave. -/
theorem strip_of_margins (hr : ∀ c, p c = true → r c = true)
    (hfront : ∀ c ∈ s.takeWhile r, p c = true) (hback : ∀ c ∈ s.reverse.takeWhile r, p c = true) :
    strip p s = strip r s := by
  unfold strip
  rw [dropWhile_of_margin hfront hr]
  refine congrArg List.reverse (dropWhile_of_margin (fun c hc => hback c ?_) hr)
  have hsplit := List.takeWhile_append_dropWhile (p := r) (l := s)
  rw [← hsplit, List.reverse_append]
  exact mem_takeWhile_of_append hc

/-- The blanks in front of what is left, read off the string. -/
theorem takeWhile_before {x t y : Str} (hx : ∀ c ∈ x, r c = true) (hne : t ≠ [])
    (ht : ∀ c u, t = c :: u → r c = false) : (x ++ (t ++ y)).takeWhile r = x := by
  rw [List.takeWhile_append_of_pos hx]
  cases t with
  | nil => exact absurd rfl hne
  | cons c u =>
    rw [List.cons_append, List.takeWhile_cons_of_neg (by rw [ht c u rfl]; decide), List.append_nil]

/-- **Two classes leave the same** exactly when the blanks around the string are in both. -/
theorem strip_eq_strip_iff (p q : Char → Bool) (s : Str) :
    strip p s = strip q s ↔ ∀ c ∈ margins p q s, p c = q c := by
  constructor
  · intro h
    obtain ⟨before, after, hs, hb, ha⟩ := exists_strip p s
    obtain ⟨before', after', hs', hb', ha'⟩ := exists_strip q s
    rw [← h] at hs'
    by_cases hnil : strip p s = []
    · rw [hnil, List.nil_append] at hs hs'
      have hboth : ∀ c ∈ s, p c = q c := by
        intro c hc
        have hp : p c = true := by
          rw [hs] at hc
          exact (List.mem_append.mp hc).elim (hb c) (ha c)
        have hq : q c = true := by
          rw [hs'] at hc
          exact (List.mem_append.mp hc).elim (hb' c) (ha' c)
        rw [hp, hq]
      intro c hc
      rcases List.mem_append.mp hc with hc | hc
      · exact hboth c ((List.takeWhile_sublist _).subset hc)
      · exact hboth c (List.mem_reverse.mp ((List.takeWhile_sublist _).subset hc))
    · have hhead : ∀ c u, strip p s = c :: u → (p c || q c) = false := by
        intro c u hcu
        rw [strip_ends.1 hcu, strip_ends.1 (h.symm.trans hcu)]
        rfl
      have hlast : ∀ c u, (strip p s).reverse = c :: u → (p c || q c) = false := by
        intro c u hcu
        have hcu : strip p s = u.reverse ++ [c] := by
          rw [← List.reverse_reverse (strip p s), hcu, List.reverse_cons]
        rw [strip_ends.2 hcu, strip_ends.2 (h.symm.trans hcu)]
        rfl
      have hends : ∀ {x y : Str}, s = x ++ (strip p s ++ y) → (∀ c ∈ x, (p c || q c) = true) →
          (∀ c ∈ y, (p c || q c) = true) → margins p q s = x ++ y.reverse := by
        intro x y hxy hx hy
        have hrev : s.reverse = y.reverse ++ ((strip p s).reverse ++ x.reverse) := by
          rw [← List.reverse_append, ← List.reverse_append, List.append_assoc, ← hxy]
        have hfront : s.takeWhile (fun c => p c || q c) = x :=
          (congrArg _ hxy).trans (takeWhile_before hx hnil hhead)
        have hback : s.reverse.takeWhile (fun c => p c || q c) = y.reverse :=
          (congrArg _ hrev).trans (takeWhile_before (fun c hc => hy c (List.mem_reverse.mp hc))
            (fun hrnil => hnil (List.reverse_eq_nil_iff.mp hrnil)) hlast)
        rw [margins, hfront, hback]
      have hp := hends hs (fun c hc => by rw [hb c hc, Bool.true_or])
        fun c hc => by rw [ha c hc, Bool.true_or]
      have hq := hends hs' (fun c hc => by rw [hb' c hc, Bool.or_true])
        fun c hc => by rw [ha' c hc, Bool.or_true]
      intro c hc
      have hpc : p c = true := by
        rw [hp] at hc
        exact (List.mem_append.mp hc).elim (hb c) fun hc => ha c (List.mem_reverse.mp hc)
      have hqc : q c = true := by
        rw [hq] at hc
        exact (List.mem_append.mp hc).elim (hb' c) fun hc => ha' c (List.mem_reverse.mp hc)
      rw [hpc, hqc]
  · intro h
    have hin : ∀ c ∈ margins p q s, p c = true ∧ q c = true := by
      intro c hc
      have hor : (p c || q c) = true := by
        rcases List.mem_append.mp hc with hc | hc
        · exact List.mem_takeWhile_imp (p := fun c => p c || q c) hc
        · exact List.mem_takeWhile_imp (p := fun c => p c || q c) hc
      rw [h c hc, Bool.or_self] at hor
      exact ⟨(h c hc).trans hor, hor⟩
    have hp := strip_of_margins (p := p) (r := fun c => p c || q c) (s := s)
      (fun c hc => by rw [hc, Bool.true_or]) (fun c hc => (hin c (List.mem_append_left _ hc)).1)
      fun c hc => (hin c (List.mem_append_right _ hc)).1
    have hq := strip_of_margins (p := q) (r := fun c => p c || q c) (s := s)
      (fun c hc => by rw [hc, Bool.or_true]) (fun c hc => (hin c (List.mem_append_left _ hc)).2)
      fun c hc => (hin c (List.mem_append_right _ hc)).2
    rw [hp, hq]

end TetCore.Lib
