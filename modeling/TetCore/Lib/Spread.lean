import Mathlib.Data.List.NodupEquivFin
import Mathlib.Tactic.FieldSimp
import Mathlib.Tactic.Linarith
import Mathlib.Tactic.Positivity
import Mathlib.Tactic.Ring

/-!
# Spread times and token buckets

A list of times, in order, is `Spread burst spacing` if any two of them are apart by `spacing` for each
one from the first to the second past the first `burst`. A token bucket that gets a token every `spacing`
and holds at least `burst` never refuses at such times.

* `Spread.concat_spaced`, `Spread.concat_pause`: one more time, `spacing` after the last one, or with
  fewer than `burst` times in a window before it.
* `Spread.count_le`: how many of the times lie in an interval.
* `Backed.take`: what a bucket that was full at one of the times holds at the next one.
-/

namespace TetCore.Lib

theorem getElem?_last {β : Type} {l : List β} (hne : l ≠ []) : ∃ last, l.getLast? = some last ∧
    l[l.length - 1]? = some last :=
  ⟨l.getLast hne, List.getLast?_eq_some_getLast hne, by
    rw [← List.getLast?_eq_getElem?, List.getLast?_eq_some_getLast hne]⟩

variable {α : Type} [Field α] [LinearOrder α] [IsStrictOrderedRing α]

/-- The times are in order, and apart. -/
def Spread (burst : Nat) (spacing : α) (times : List α) : Prop :=
  ∀ (i j : Nat) (s t : α), i ≤ j → times[i]? = some s → times[j]? = some t →
    s ≤ t ∧ spacing * ((j : α) - i + 1 - burst) ≤ t - s

section Times

variable {burst : Nat} {spacing : α} {times : List α} {t : α}

omit [IsStrictOrderedRing α] in
theorem spread_nil : Spread burst spacing ([] : List α) := by
  intro i j s t _ hs
  cases hs

/-- One more time. -/
theorem Spread.concat (h : Spread burst spacing times) (hspacing : 0 ≤ spacing) (hburst : 1 ≤ burst)
    (hnext : ∀ (i : Nat) (s : α), times[i]? = some s →
      s ≤ t ∧ spacing * ((times.length : α) - i + 1 - burst) ≤ t - s) :
    Spread burst spacing (times ++ [t]) := by
  have hself : spacing * (1 - (burst : α)) ≤ 0 :=
    mul_nonpos_of_nonneg_of_nonpos hspacing (sub_nonpos.mpr (by exact_mod_cast hburst))
  intro i j s u hij hs hu
  have hj : j < times.length + 1 := by
    have hlen := (List.getElem?_eq_some_iff.mp hu).1
    rwa [List.length_append, List.length_singleton] at hlen
  by_cases hjlast : j < times.length
  · rw [List.getElem?_append_left hjlast] at hu
    rw [List.getElem?_append_left (by omega)] at hs
    exact h i j s u hij hs hu
  · obtain rfl : j = times.length := by omega
    rw [List.getElem?_concat_length, Option.some.injEq] at hu
    subst hu
    by_cases hilast : i < times.length
    · rw [List.getElem?_append_left hilast] at hs
      exact hnext i s hs
    · obtain rfl : i = times.length := by omega
      rw [List.getElem?_concat_length, Option.some.injEq] at hs
      subst hs
      rw [sub_self, zero_add, sub_self]
      exact ⟨le_refl _, hself⟩

/-- A time that is `spacing` after the last one. -/
theorem Spread.concat_spaced (h : Spread burst spacing times) (hspacing : 0 ≤ spacing)
    (hburst : 1 ≤ burst) (hlast : ∀ last ∈ times.getLast?, last + spacing ≤ t) :
    Spread burst spacing (times ++ [t]) := by
  refine h.concat hspacing hburst fun i s hs => ?_
  have hi := (List.getElem?_eq_some_iff.mp hs).1
  obtain ⟨last, hget, hidx⟩ := getElem?_last (l := times) (List.ne_nil_of_length_pos (by omega))
  obtain ⟨hle, hapart⟩ := h i (times.length - 1) s last (by omega) hs hidx
  have hafter := hlast last hget
  have hcast : ((times.length - 1 : Nat) : α) = times.length - 1 := by
    rw [Nat.cast_sub (by omega), Nat.cast_one]
  rw [hcast] at hapart
  constructor
  · linarith
  · calc spacing * ((times.length : α) - i + 1 - burst)
        = spacing * (times.length - 1 - i + 1 - burst) + spacing := by ring
      _ ≤ t - s := by linarith

/-- A time with fewer than `burst` others in the window before it. -/
theorem Spread.concat_pause (h : Spread burst spacing times) (hspacing : 0 ≤ spacing)
    (hburst : 1 ≤ burst) {window : α} (hwindow : spacing * burst ≤ window)
    (hlast : ∀ last ∈ times.getLast?, last ≤ t)
    (hfew : (times.filter fun s => decide (t - s < window)).length < burst) :
    Spread burst spacing (times ++ [t]) := by
  have hbefore : ∀ (i : Nat) (s : α), times[i]? = some s → s ≤ t := by
    intro i s hs
    have hi := (List.getElem?_eq_some_iff.mp hs).1
    obtain ⟨last, hget, hidx⟩ := getElem?_last (l := times) (List.ne_nil_of_length_pos (by omega))
    exact (h i (times.length - 1) s last (by omega) hs hidx).1.trans (hlast last hget)
  refine h.concat hspacing hburst fun i s hs => ⟨hbefore i s hs, ?_⟩
  have hi := (List.getElem?_eq_some_iff.mp hs).1
  by_cases hnear : times.length - i < burst
  · -- too few times since this one
    have hneg : (times.length : α) - i + 1 - burst ≤ 0 := by
      have hcast : ((times.length : α)) + 1 ≤ i + burst := by exact_mod_cast (by omega)
      linarith
    exact (mul_nonpos_of_nonneg_of_nonpos hspacing hneg).trans (sub_nonneg.mpr (hbefore i s hs))
  · -- the `burst`-th last one is out of the window
    have hm : times.length - burst < times.length := by omega
    have hsm : times[times.length - burst]? = some times[times.length - burst] :=
      List.getElem?_eq_getElem hm
    have hout : window ≤ t - times[times.length - burst] := by
      by_contra hin
      have hall : (times.drop (times.length - burst)).filter (fun s => decide (t - s < window)) =
          times.drop (times.length - burst) := by
        refine List.filter_eq_self.mpr fun u hu => ?_
        obtain ⟨k, hk, rfl⟩ := List.mem_iff_getElem.mp hu
        rw [List.length_drop] at hk
        rw [List.getElem_drop, decide_eq_true_eq]
        have horder := (h (times.length - burst) (times.length - burst + k) _ _ (by omega) hsm
          (List.getElem?_eq_getElem (by omega))).1
        linarith
      have hsub := ((List.drop_sublist (times.length - burst) times).filter
        (fun s => decide (t - s < window))).length_le
      rw [hall, List.length_drop] at hsub
      omega
    have hapart := (h i (times.length - burst) s _ (by omega) hs hsm).2
    have hcast : ((times.length - burst : Nat) : α) = times.length - burst := by
      rw [Nat.cast_sub (by omega)]
    rw [hcast] at hapart
    calc spacing * ((times.length : α) - i + 1 - burst)
        = spacing * (times.length - burst - i + 1 - burst) + spacing * burst := by ring
      _ ≤ t - s := by linarith

/-- Some of the times are spread as well. -/
theorem Spread.sublist (h : Spread burst spacing times) (hspacing : 0 ≤ spacing) {some' : List α}
    (hsub : some'.Sublist times) : Spread burst spacing some' := by
  obtain ⟨f, hf⟩ := List.sublist_iff_exists_orderEmbedding_getElem?_eq.mp hsub
  intro i j s t hij hs ht
  rw [hf] at hs ht
  obtain ⟨hle, hapart⟩ := h (f i) (f j) s t (f.monotone hij) hs ht
  refine ⟨hle, le_trans (mul_le_mul_of_nonneg_left ?_ hspacing) hapart⟩
  have hgap : j - i ≤ f j - f i := by
    have hstep := f.strictMono.add_le_nat (j - i) i
    rw [Nat.sub_add_cancel hij] at hstep
    omega
  have hcast : (j : α) - i ≤ f j - f i := by
    have hfij := f.monotone hij
    rw [← Nat.cast_sub hij, ← Nat.cast_sub hfij]
    exact_mod_cast hgap
  linarith

/-- **How many times an interval holds.** -/
theorem Spread.count_le (h : Spread burst spacing times) (hspacing : 0 < spacing) (lo : α) {len : α}
    (hlen : 0 ≤ len) :
    ((times.countP fun t => decide (lo ≤ t ∧ t ≤ lo + len) : Nat) : α) ≤ burst + len / spacing := by
  rw [List.countP_eq_length_filter]
  generalize hin : times.filter (fun t => decide (lo ≤ t ∧ t ≤ lo + len)) = inside
  have hinside : Spread burst spacing inside := h.sublist hspacing.le (hin ▸ List.filter_sublist)
  have hmem : ∀ t ∈ inside, lo ≤ t ∧ t ≤ lo + len := by
    intro t ht
    rw [← hin] at ht
    exact of_decide_eq_true (List.mem_filter.mp ht).2
  rcases Nat.eq_zero_or_pos inside.length with hzero | hpos
  · rw [hzero, Nat.cast_zero]
    positivity
  · have hfirst := List.getElem?_eq_getElem hpos
    have hlast := List.getElem?_eq_getElem (show inside.length - 1 < inside.length by omega)
    have hapart := (hinside 0 (inside.length - 1) _ _ (Nat.zero_le _) hfirst hlast).2
    have hlo := (hmem _ (List.getElem_mem hpos)).1
    have hhi := (hmem _ (List.getElem_mem (show inside.length - 1 < inside.length by omega))).2
    rw [Nat.cast_sub hpos, Nat.cast_one, Nat.cast_zero] at hapart
    have hmul : spacing * ((inside.length : α) - burst) ≤ len := by linarith
    rw [← sub_le_iff_le_add', le_div_iff₀ hspacing, mul_comm]
    exact hmul

end Times

/-! ## A bucket -/

/-- What is left in a bucket that was full: `tokens` at the last of the times are at least what is left
when it was full at one of them and every time took one, or it is full. -/
def Backed (capacity spacing : α) (times : List α) (tokens last : α) : Prop :=
  capacity ≤ tokens ∨ times.getLast? = some last ∧ ∃ (i : Nat) (s : α), times[i]? = some s ∧
    capacity + (last - s) / spacing - ((times.length : α) - i) ≤ tokens

section Bucket

variable {burst : Nat} {capacity spacing : α} {times : List α} {t tokens last : α}

/-- **The bucket never refuses**: refilled since the last time, it has a token at the next one, and is as
it should be after it. -/
theorem Backed.take (h : Backed capacity spacing times tokens last)
    (hspread : Spread burst spacing (times ++ [t])) (hspacing : 0 < spacing)
    (hburst : (burst : α) ≤ capacity) (hpos : 1 ≤ burst) :
    1 ≤ min (tokens + max (t - last) 0 / spacing) capacity ∧
      Backed capacity spacing (times ++ [t])
        (min (tokens + max (t - last) 0 / spacing) capacity - 1) t := by
  have hone : (1 : α) ≤ burst := by exact_mod_cast hpos
  have hget : (times ++ [t]).getLast? = some t := List.getLast?_concat
  have hrefill : 0 ≤ max (t - last) 0 / spacing := by positivity
  have hfull : ∀ filled : α, capacity ≤ filled →
      1 ≤ min filled capacity ∧ Backed capacity spacing (times ++ [t]) (min filled capacity - 1) t := by
    intro filled hle
    rw [min_eq_right hle]
    refine ⟨by linarith, Or.inr ⟨hget, times.length, t, List.getElem?_concat_length, ?_⟩⟩
    rw [sub_self, zero_div, List.length_append, List.length_singleton, Nat.cast_add, Nat.cast_one]
    linarith
  rcases h with h | ⟨hlast, i, s, hs, h⟩
  · exact hfull _ (by linarith)
  by_cases hcap : capacity ≤ tokens + max (t - last) 0 / spacing
  · exact hfull _ hcap
  · have hi := (List.getElem?_eq_some_iff.mp hs).1
    obtain ⟨last', hlast', hidx⟩ := getElem?_last (l := times) (List.ne_nil_of_length_pos (by omega))
    obtain rfl : last' = last := Option.some.inj (hlast'.symm.trans hlast)
    have hs' : (times ++ [t])[i]? = some s := (List.getElem?_append_left hi).trans hs
    have hidx' : (times ++ [t])[times.length - 1]? = some last' :=
      (List.getElem?_append_left (by omega)).trans hidx
    have hnext : (times ++ [t])[times.length]? = some t := List.getElem?_concat_length
    have hle : last' ≤ t := (hspread (times.length - 1) times.length last' t (by omega) hidx' hnext).1
    have hapart := (hspread i times.length s t hi.le hs' hnext).2
    have hsplit : (last' - s) / spacing + (t - last') / spacing = (t - s) / spacing := by ring
    have hdiv : ((times.length : α) - i + 1 - burst) ≤ (t - s) / spacing := by
      rw [le_div_iff₀ hspacing, mul_comm]
      exact hapart
    rw [max_eq_left (sub_nonneg.mpr hle)] at hcap ⊢
    rw [min_eq_left (not_le.mp hcap).le]
    refine ⟨by linarith, Or.inr ⟨hget, i, s, hs', ?_⟩⟩
    rw [List.length_append, List.length_singleton, Nat.cast_add, Nat.cast_one]
    linarith

end Bucket

end TetCore.Lib
