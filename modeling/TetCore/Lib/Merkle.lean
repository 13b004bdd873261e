import Mathlib.Data.Nat.Bitwise
import Mathlib.Tactic.Ring

/-!
# Merkle trees and their paths

A tree of hashes is a function `node` of depth and position, leaves at depth `0`: each node is the
`parent` of the two below it (`IsTree`). A path is the list of siblings from a leaf up; `foldPath`
recomputes a root from a leaf, its index and a path, bit `d` of the index saying on which side the
running value stands at depth `d`.

* `IsTree.foldPath_authPath`: the siblings of the tree itself lead from a leaf to the node above it.
* `IsTree.leaf_of_foldPath`: a path that leads to a node starts at a leaf below it, at the position
  the index names, when no pair the path puts together collides with a pair of the tree.
* `IsTree.node_congr`, `IsTree.leaves_of_node`: a node is that of another tree when the leaves below
  it are, and only then when no pair of one collides with the other's in its place.
-/

namespace TetCore.Lib

variable {α : Type} (parent : α → α → α)

/-- The tree's nodes, each made of the two below it. -/
def IsTree (node : Nat → Nat → α) : Prop :=
  ∀ d j, node (d + 1) j = parent (node d (2 * j)) (node d (2 * j + 1))

/-- The pair a running value makes with its sibling. -/
def sided (x s : α) (i : Nat) : α × α := if i % 2 = 0 then (x, s) else (s, x)

/-- The root recomputed from a leaf, its index and the siblings on its path. -/
def foldPath : α → Nat → List α → α
  | x, _, [] => x
  | x, i, s :: path => foldPath (parent (sided x s i).1 (sided x s i).2) (i / 2) path

/-- The pairs put together on the way. -/
def pathPairs : α → Nat → List α → List (α × α)
  | _, _, [] => []
  | x, i, s :: path =>
    sided x s i :: pathPairs (parent (sided x s i).1 (sided x s i).2) (i / 2) path

variable {parent} {node : Nat → Nat → α}

/-- What the leaf, the siblings and every parent are, the pairs on the way are. -/
theorem pathPairs_forall {P : α → Prop} {x : α} {i : Nat} {path : List α} (hx : P x)
    (hpath : ∀ s ∈ path, P s) (hparent : ∀ a b, P (parent a b)) :
    ∀ p ∈ pathPairs parent x i path, P p.1 ∧ P p.2 := by
  induction path generalizing x i with
  | nil =>
    intro p hp
    cases hp
  | cons s path ih =>
    have hs : P s := hpath s List.mem_cons_self
    intro p hp
    rcases List.mem_cons.mp hp with rfl | hp
    · unfold sided
      by_cases hi : i % 2 = 0
      · rw [if_pos hi]
        exact ⟨hx, hs⟩
      · rw [if_neg hi]
        exact ⟨hs, hx⟩
    · exact ih (hparent _ _) (fun t ht => hpath t (List.mem_cons_of_mem _ ht)) p hp

/-- The siblings on the way up from position `i`, through `n` levels. -/
def authPath (node : Nat → Nat → α) (i n : Nat) : List α :=
  (List.range n).map fun d => node d ((i / 2 ^ d) ^^^ 1)

theorem IsTree.up (h : IsTree parent node) : IsTree parent fun d => node (d + 1) :=
  fun d => h (d + 1)

theorem authPath_succ (node : Nat → Nat → α) (i n : Nat) :
    authPath node i (n + 1) = node 0 (i ^^^ 1) :: authPath (fun d => node (d + 1)) (i / 2) n := by
  unfold authPath
  simp only [List.range_succ_eq_map, List.map_cons, List.map_map, pow_zero, Nat.div_one]
  congr 2
  funext d
  simp only [Function.comp_apply, Nat.succ_eq_add_one, Nat.div_div_eq_div_mul, pow_succ']

theorem xor_one_of_even {i : Nat} (h : i % 2 = 0) : i ^^^ 1 = i + 1 := by
  have hbit := Nat.xor_mod_two_eq (m := i) (n := 1)
  have hdiv : (i ^^^ 1) / 2 = i / 2 := by simp [Nat.xor_div_two]
  omega

theorem xor_one_of_odd {i : Nat} (h : i % 2 ≠ 0) : i ^^^ 1 = i - 1 := by
  have hbit := Nat.xor_mod_two_eq (m := i) (n := 1)
  have hdiv : (i ^^^ 1) / 2 = i / 2 := by simp [Nat.xor_div_two]
  omega

/-- A node and its sibling are the two below their parent. -/
theorem IsTree.sided_sibling (h : IsTree parent node) (i : Nat) :
    parent (sided (node 0 i) (node 0 (i ^^^ 1)) i).1 (sided (node 0 i) (node 0 (i ^^^ 1)) i).2 =
      node 1 (i / 2) := by
  rw [h 0 (i / 2)]
  unfold sided
  by_cases hi : i % 2 = 0
  · rw [if_pos hi, xor_one_of_even hi, show 2 * (i / 2) = i by omega]
  · rw [if_neg hi, xor_one_of_odd hi, show 2 * (i / 2) = i - 1 by omega,
      show i - 1 + 1 = i by omega]

/-- **The tree's own path** leads from a leaf to the node above it. -/
theorem IsTree.foldPath_authPath (h : IsTree parent node) (i n : Nat) :
    foldPath parent (node 0 i) i (authPath node i n) = node n (i / 2 ^ n) := by
  induction n generalizing node i with
  | zero => simp [authPath, foldPath]
  | succ n ih =>
    rw [authPath_succ]
    show foldPath parent (parent _ _) (i / 2) _ = _
    rw [h.sided_sibling i, ih h.up (i / 2), Nat.div_div_eq_div_mul, ← pow_succ']

/-- On the tree's own path, the pairs of the tree are put together. -/
theorem IsTree.pathPairs_authPath (h : IsTree parent node) (i n : Nat) :
    ∀ p ∈ pathPairs parent (node 0 i) i (authPath node i n),
      ∃ d < n, ∃ k, p = (node d (2 * k), node d (2 * k + 1)) := by
  induction n generalizing node i with
  | zero => simp [authPath, pathPairs]
  | succ n ih =>
    rw [authPath_succ]
    intro p hp
    rcases List.mem_cons.mp hp with rfl | hp
    · refine ⟨0, Nat.succ_pos n, i / 2, ?_⟩
      unfold sided
      by_cases hi : i % 2 = 0
      · rw [if_pos hi, xor_one_of_even hi, show 2 * (i / 2) = i by omega]
      · rw [if_neg hi, xor_one_of_odd hi, show 2 * (i / 2) = i - 1 by omega,
          show i - 1 + 1 = i by omega]
    · rw [h.sided_sibling i] at hp
      obtain ⟨d, hd, k, hk⟩ := ih h.up (i / 2) p hp
      exact ⟨d + 1, Nat.succ_lt_succ hd, k, hk⟩

/-- **A path that leads to a node starts at a leaf below it.** -/
theorem IsTree.leaf_of_foldPath (h : IsTree parent node) {path : List α} {x : α} {i j : Nat}
    (hpairs : ∀ p ∈ pathPairs parent x i path, ∀ d < path.length, ∀ k,
      parent p.1 p.2 = parent (node d (2 * k)) (node d (2 * k + 1)) →
        p = (node d (2 * k), node d (2 * k + 1)))
    (hroot : foldPath parent x i path = node path.length j) :
    x = node 0 (j * 2 ^ path.length + i % 2 ^ path.length) := by
  induction path generalizing node x i with
  | nil => simpa [foldPath, Nat.mod_one] using hroot
  | cons s path ih =>
    have hup : parent (sided x s i).1 (sided x s i).2 = node 1 (j * 2 ^ path.length +
        i / 2 % 2 ^ path.length) := ih h.up
      (fun p hp d hd k => hpairs p (List.mem_cons_of_mem _ hp) (d + 1) (Nat.succ_lt_succ hd) k) hroot
    -- the first pair is the two nodes below the leaf's parent
    have hpair := hpairs _ List.mem_cons_self 0 (Nat.succ_pos _) _ (hup.trans (h 0 _))
    have hpow : i % 2 ^ (path.length + 1) = 2 * (i / 2 % 2 ^ path.length) + i % 2 := by
      rw [pow_succ', Nat.mod_mul, Nat.add_comm]
    have hpos : j * 2 ^ (path.length + 1) + i % 2 ^ (path.length + 1) =
        2 * (j * 2 ^ path.length + i / 2 % 2 ^ path.length) + i % 2 := by
      rw [hpow]
      ring
    rw [List.length_cons, hpos]
    unfold sided at hpair
    by_cases hi : i % 2 = 0
    · rw [if_pos hi] at hpair
      rw [hi]
      exact congrArg Prod.fst hpair
    · rw [if_neg hi] at hpair
      rw [show i % 2 = 1 by omega]
      exact congrArg Prod.snd hpair

section Leaves

variable {node' : Nat → Nat → α}

/-- The leaves below a node are those below its two halves. -/
theorem mem_below_succ {n j i : Nat} : (j * 2 ^ (n + 1) ≤ i ∧ i < (j + 1) * 2 ^ (n + 1)) ↔
    (2 * j * 2 ^ n ≤ i ∧ i < (2 * j + 1) * 2 ^ n) ∨
      ((2 * j + 1) * 2 ^ n ≤ i ∧ i < (2 * j + 1 + 1) * 2 ^ n) := by
  have hlo : j * 2 ^ (n + 1) = 2 * (j * 2 ^ n) := by ring
  have hhi : (j + 1) * 2 ^ (n + 1) = 2 * (j * 2 ^ n) + 2 * 2 ^ n := by ring
  have hleft : 2 * j * 2 ^ n = 2 * (j * 2 ^ n) := by ring
  have hmid : (2 * j + 1) * 2 ^ n = 2 * (j * 2 ^ n) + 2 ^ n := by ring
  have hright : (2 * j + 1 + 1) * 2 ^ n = 2 * (j * 2 ^ n) + 2 * 2 ^ n := by ring
  rw [hlo, hhi, hleft, hmid, hright]
  omega

/-- A node depends on the leaves below it. -/
theorem IsTree.node_congr (h : IsTree parent node) (h' : IsTree parent node') {n j : Nat}
    (hleaves : ∀ i, j * 2 ^ n ≤ i ∧ i < (j + 1) * 2 ^ n → node 0 i = node' 0 i) :
    node n j = node' n j := by
  induction n generalizing j with
  | zero => exact hleaves j (by omega)
  | succ n ih =>
    rw [h n j, h' n j, ih fun i hi => hleaves i (mem_below_succ.mpr (Or.inl hi)),
      ih fun i hi => hleaves i (mem_below_succ.mpr (Or.inr hi))]

/-- **A node determines the leaves below it** when the pairs do not collide. -/
theorem IsTree.leaves_of_node (h : IsTree parent node) (h' : IsTree parent node') {n j : Nat}
    (hpairs : ∀ d < n, ∀ k, parent (node d (2 * k)) (node d (2 * k + 1)) =
      parent (node' d (2 * k)) (node' d (2 * k + 1)) →
        node d (2 * k) = node' d (2 * k) ∧ node d (2 * k + 1) = node' d (2 * k + 1))
    (hnode : node n j = node' n j) :
    ∀ i, j * 2 ^ n ≤ i ∧ i < (j + 1) * 2 ^ n → node 0 i = node' 0 i := by
  induction n generalizing j with
  | zero =>
    intro i hi
    rw [show i = j by omega]
    exact hnode
  | succ n ih =>
    intro i hi
    rw [h n j, h' n j] at hnode
    obtain ⟨hleft, hright⟩ := hpairs n (Nat.lt_succ_self n) j hnode
    have hlower := fun d (hd : d < n) => hpairs d (Nat.lt_succ_of_lt hd)
    rcases mem_below_succ.mp hi with hi | hi
    · exact ih hlower hleft i hi
    · exact ih hlower hright i hi

end Leaves

end TetCore.Lib
