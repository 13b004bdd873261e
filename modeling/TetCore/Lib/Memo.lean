import Mathlib.Data.List.Basic

/-!
# A bounded memo of a function

A list of keys with their values, oldest first, that stands in for recomputing a function: a hit
answers from the list, a miss computes, appends and drops the oldest rows beyond a cap.

* `lookUp`: one look-up, with the list it leaves.
* `Sound f P m`: every row is of a key in `P` and holds the value of `f` there. A sound memo answers
  as `f` does (`Sound.lookUp_eq`), whatever was dropped, and stays sound (`Sound.lookUp`); it stays
  sound for another function that agrees on `P` (`Sound.congr`).
-/

namespace TetCore.Lib

variable {K V : Type}

/-- Append the row, unless the key has one, and drop the oldest rows beyond the cap. -/
def memoize [BEq K] (cap : Nat) (k : K) (v : V) (m : List (K × V)) : List (K × V) :=
  let m := if m.any fun r => r.1 == k then m else m ++ [(k, v)]
  if cap < m.length then m.drop (m.length - cap) else m

/-- The value of `f` at `k`, from the memo where it has one. -/
def lookUp [BEq K] (cap : Nat) (f : K → V) (k : K) (m : List (K × V)) : V × List (K × V) :=
  match m.find? fun r => r.1 == k with
  | some r => (r.2, m)
  | none => (f k, memoize cap k (f k) m)

/-- The rows are of keys in `P`, with the values of `f`. -/
def Sound (f : K → V) (P : K → Prop) (m : List (K × V)) : Prop := ∀ r ∈ m, P r.1 ∧ r.2 = f r.1

section Rules

variable {f g : K → V} {P Q : K → Prop} {m : List (K × V)} {k : K} {cap : Nat}

theorem Sound.nil (f : K → V) (P : K → Prop) : Sound f P [] := fun _ hr => by cases hr

theorem Sound.congr (h : Sound f P m) (hP : ∀ k, P k → Q k) (hfg : ∀ k, P k → g k = f k) :
    Sound g Q m := by
  intro r hr
  obtain ⟨hk, hv⟩ := h r hr
  exact ⟨hP r.1 hk, hv.trans (hfg r.1 hk).symm⟩

theorem mem_memoize [BEq K] {v : V} {r : K × V} (h : r ∈ memoize cap k v m) : r ∈ m ∨ r = (k, v) := by
  have hdrop : ∀ m' : List (K × V),
      r ∈ (if cap < m'.length then m'.drop (m'.length - cap) else m') → r ∈ m' := by
    intro m' hr
    by_cases hcap : cap < m'.length
    · rw [if_pos hcap] at hr
      exact List.mem_of_mem_drop hr
    · rwa [if_neg hcap] at hr
  have hr := hdrop _ h
  by_cases hany : (m.any fun r => r.1 == k) = true
  · rw [if_pos hany] at hr
    exact Or.inl hr
  · rw [if_neg hany] at hr
    rcases List.mem_append.mp hr with hr | hr
    · exact Or.inl hr
    · exact Or.inr (List.mem_singleton.mp hr)

variable [BEq K] [LawfulBEq K]

/-- A look-up answers as the function does when the key's row, if it has one, does. -/
theorem lookUp_eq_of_row (h : ∀ r ∈ m, r.1 = k → r.2 = f k) (cap : Nat) :
    (lookUp cap f k m).1 = f k := by
  unfold Lib.lookUp
  cases hfind : m.find? fun r => r.1 == k with
  | none => rfl
  | some r =>
    have hk : r.1 = k := by simpa using List.find?_some hfind
    exact h r (List.mem_of_find?_eq_some hfind) hk

/-- **A sound memo is the function.** -/
theorem Sound.lookUp_eq (h : Sound f P m) (cap : Nat) (k : K) : (lookUp cap f k m).1 = f k := by
  refine lookUp_eq_of_row (fun r hr hk => ?_) cap
  rw [(h r hr).2, hk]

omit [LawfulBEq K] in
theorem Sound.lookUp (h : Sound f P m) (hk : P k) : Sound f P (lookUp cap f k m).2 := by
  unfold Lib.lookUp
  cases hfind : m.find? fun r => r.1 == k with
  | some _ => exact h
  | none =>
    intro r hr
    rcases mem_memoize hr with hr | rfl
    · exact h r hr
    · exact ⟨hk, rfl⟩

end Rules

end TetCore.Lib
