import Mathlib.Data.List.Nodup
import Mathlib.Logic.Function.Iterate

/-!
# Rows rewritten in place

A pass over a store rewrites its rows one at a time, each from what it held. `InPlace` is such a
store, with what a rewrite does to a row. A pass may be cut off after any of its rows, and made again:
`Times s₀ n s` says that the store is `s₀` with each row rewritten as often as `n` counts.

* `row_pass`: a pass over distinct rows rewrites each of them once, and no other.
* `Times.pass`: a pass adds one to the counts of its rows.
-/

namespace TetCore.Lib

/-- A store whose rows are rewritten in place. -/
structure InPlace (S K V : Type) [DecidableEq K] where
  row : S → K → Option V
  rewrite : S → K → S
  f : V → V
  row_rewrite : ∀ s k a, row (rewrite s k) a = if k = a then (row s k).map f else row s a

namespace InPlace

variable {S K V : Type} [DecidableEq K] (P : InPlace S K V)

/-- Rewrite the rows in turn. -/
def pass (ks : List K) (s : S) : S := ks.foldl P.rewrite s

theorem row_pass {ks : List K} (hks : ks.Nodup) (s : S) (a : K) :
    P.row (P.pass ks s) a = if a ∈ ks then (P.row s a).map P.f else P.row s a := by
  unfold pass
  induction ks generalizing s with
  | nil => rw [List.foldl_nil, if_neg List.not_mem_nil]
  | cons k ks ih =>
    obtain ⟨hk, hrest⟩ := List.nodup_cons.mp hks
    rw [List.foldl_cons, ih hrest, P.row_rewrite]
    by_cases hka : k = a
    · subst hka
      rw [if_neg hk, if_pos rfl, if_pos List.mem_cons_self]
    · rw [if_neg hka]
      by_cases ha : a ∈ ks
      · rw [if_pos ha, if_pos (List.mem_cons_of_mem k ha)]
      · rw [if_neg ha, if_neg]
        rw [List.mem_cons, not_or]
        exact ⟨Ne.symm hka, ha⟩

/-- One more for each of the rows. -/
def visit (ks : List K) (n : K → Nat) (k : K) : Nat := if k ∈ ks then n k + 1 else n k

/-- The rows of `s` are those of `s₀`, each rewritten as often as `n` counts. -/
def Times (s₀ : S) (n : K → Nat) (s : S) : Prop :=
  ∀ k, P.row s k = (P.row s₀ k).map (Nat.iterate P.f (n k))

variable {P} {s₀ s : S} {n : K → Nat}

theorem Times.refl (s : S) : P.Times s (fun _ => 0) s := fun k => by
  show P.row s k = (P.row s k).map id
  rw [Option.map_id]
  rfl

theorem Times.pass (h : P.Times s₀ n s) {ks : List K} (hks : ks.Nodup) :
    P.Times s₀ (visit ks n) (P.pass ks s) := by
  intro k
  rw [P.row_pass hks, visit]
  by_cases hk : k ∈ ks
  · rw [if_pos hk, if_pos hk, h k, Option.map_map]
    congr 1
    exact (Function.iterate_succ' P.f (n k)).symm
  · rw [if_neg hk, if_neg hk, h k]

/-- The rows there are stay the same. -/
theorem Times.isSome (h : P.Times s₀ n s) (k : K) : (P.row s k).isSome = (P.row s₀ k).isSome := by
  rw [h k, Option.isSome_map]

end InPlace

end TetCore.Lib
