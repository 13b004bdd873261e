import Mathlib.Data.Finset.Max

/-!
# Weighted fork trees

Nodes that name a parent and carry a weight of their own, and a stored weight for the branch from
the root to the node. A stored weight is kept up to date by hand, saturates at `cap` and may be out
of date.

* `HasTotal f k n`: the branch of `k` is complete and its own weights sum up to `n`.
* `Weighed cap f k n`: moreover the stored weights along the branch are the sums up to each node.
* `Weighed.update`: changes that recompute stored weights from the parent's keep weighed branches
  weighed.
* `Weighed.insert`: so does storing one node.
* `heaviest_of_le`: where leaves have different totals, a node no lighter than any leaf is the
  heaviest leaf, and there is only one.
-/

namespace TetCore.Lib

/-- A node: its parent, its own weight, and the weight stored for its branch. -/
structure ForkNode (κ : Type) where
  parent : Option κ
  own : Nat
  stored : Nat

/-- The nodes by their ids. -/
abbrev ForkTree (κ : Type) := κ → Option (ForkNode κ)

namespace ForkTree

variable {κ : Type} {f g : ForkTree κ} {cap : Nat} {k p : κ} {m n : Nat}

/-- The branch of `k` is complete, and its own weights sum up to `n`. -/
inductive HasTotal (f : ForkTree κ) : κ → Nat → Prop where
  | root {k : κ} {e : ForkNode κ} (node : f k = some e) (parent : e.parent = none) :
      HasTotal f k e.own
  | child {k p : κ} {e : ForkNode κ} {n : Nat} (node : f k = some e) (parent : e.parent = some p)
      (below : HasTotal f p n) : HasTotal f k (n + e.own)

/-- The branch of `k` is complete, its own weights sum up to `n`, and every stored weight along it
is the sum up to its node, at most `cap`. -/
inductive Weighed (cap : Nat) (f : ForkTree κ) : κ → Nat → Prop where
  | root {k : κ} {e : ForkNode κ} (node : f k = some e) (parent : e.parent = none)
      (stored : e.stored = min e.own cap) : Weighed cap f k e.own
  | child {k p : κ} {e : ForkNode κ} {n : Nat} (node : f k = some e) (parent : e.parent = some p)
      (below : Weighed cap f p n) (stored : e.stored = min (n + e.own) cap) :
      Weighed cap f k (n + e.own)

/-- `j` is on the branch of `k`. -/
inductive OnBranch (f : ForkTree κ) : κ → κ → Prop where
  | self (k : κ) : OnBranch f k k
  | parent {k p j : κ} {e : ForkNode κ} (node : f k = some e) (parent : e.parent = some p)
      (below : OnBranch f p j) : OnBranch f k j

/-- A node that is not stored has nothing below it. -/
theorem OnBranch.eq_of_none {j : κ} (h : OnBranch f k j) (hk : f k = none) : j = k := by
  cases h with
  | self => rfl
  | parent node _ _ =>
    rw [hk] at node
    cases node

/-! ## Totals -/

theorem HasTotal.unique (h : HasTotal f k m) : HasTotal f k n → m = n := by
  induction h generalizing n with
  | root node parent =>
    intro h'
    cases h' with
    | root node' _ =>
      rw [node] at node'
      cases node'
      rfl
    | child node' parent' _ =>
      rw [node] at node'
      cases node'
      rw [parent] at parent'
      cases parent'
  | child node parent _ ih =>
    intro h'
    cases h' with
    | root node' parent' =>
      rw [node] at node'
      cases node'
      rw [parent] at parent'
      cases parent'
    | child node' parent' below' =>
      rw [node] at node'
      cases node'
      rw [parent] at parent'
      cases parent'
      rw [ih below']

theorem Weighed.total (h : Weighed cap f k n) : HasTotal f k n := by
  induction h with
  | root node parent _ => exact .root node parent
  | child node parent _ _ ih => exact .child node parent ih

theorem Weighed.stored_eq (h : Weighed cap f k n) {e : ForkNode κ} (he : f k = some e) :
    e.stored = min n cap := by
  cases h with
  | root node _ stored =>
    rw [node] at he
    cases he
    exact stored
  | child node _ _ stored =>
    rw [node] at he
    cases he
    exact stored

theorem Weighed.node (h : Weighed cap f k n) : ∃ e, f k = some e := by
  cases h with
  | root node _ _ => exact ⟨_, node⟩
  | child node _ _ _ => exact ⟨_, node⟩

/-- The branch of a weighed node is weighed, and grows lighter downwards. -/
theorem Weighed.onBranch (h : Weighed cap f k n) {j : κ} (hj : OnBranch f k j) :
    ∃ m, Weighed cap f j m ∧ m ≤ n := by
  induction h with
  | root node parent stored =>
    cases hj with
    | self => exact ⟨_, .root node parent stored, Nat.le_refl _⟩
    | parent node' parent' _ =>
      rw [node] at node'
      cases node'
      rw [parent] at parent'
      cases parent'
  | child node parent below stored ih =>
    cases hj with
    | self => exact ⟨_, .child node parent below stored, Nat.le_refl _⟩
    | parent node' parent' hj =>
      rw [node] at node'
      cases node'
      rw [parent] at parent'
      cases parent'
      obtain ⟨m, hm, hle⟩ := ih hj
      exact ⟨m, hm, Nat.le_trans hle (Nat.le_add_right _ _)⟩

/-! ## Trees of one shape -/

/-- The same nodes with the same parents and own weights. -/
def SameShape (f g : ForkTree κ) : Prop :=
  ∀ k, (f k).map (fun e => (e.parent, e.own)) = (g k).map fun e => (e.parent, e.own)

theorem SameShape.refl (f : ForkTree κ) : SameShape f f := fun _ => rfl

theorem SameShape.symm (h : SameShape f g) : SameShape g f := fun k => (h k).symm

theorem SameShape.trans {g' : ForkTree κ} (h : SameShape f g) (h' : SameShape g g') :
    SameShape f g' := fun k => (h k).trans (h' k)

theorem SameShape.node (h : SameShape f g) {e : ForkNode κ} (he : f k = some e) :
    ∃ e', g k = some e' ∧ e'.parent = e.parent ∧ e'.own = e.own := by
  have hk := h k
  rw [he, Option.map_some] at hk
  obtain ⟨e', he', heq⟩ := Option.map_eq_some_iff.mp hk.symm
  rw [Prod.mk.injEq] at heq
  exact ⟨e', he', heq.1, heq.2⟩

theorem HasTotal.sameShape (h : HasTotal f k n) (hs : SameShape f g) : HasTotal g k n := by
  induction h with
  | root node parent =>
    obtain ⟨e', he', hp, ho⟩ := hs.node node
    rw [← ho]
    exact .root he' (hp.trans parent)
  | child node parent _ ih =>
    obtain ⟨e', he', hp, ho⟩ := hs.node node
    rw [← ho]
    exact .child he' (hp.trans parent) ih

/-! ## Recomputed weights -/

/-- The weight stored for a parent, `0` for none and for one that is not stored. -/
def storedAt (f : ForkTree κ) (p : Option κ) : Nat := (p.bind f).elim 0 ForkNode.stored

/-- The node as it was, or with its stored weight recomputed from its parent's. -/
structure Recomputed (cap : Nat) (f : ForkTree κ) (e e' : ForkNode κ) : Prop where
  parent : e'.parent = e.parent
  own : e'.own = e.own
  stored : e'.stored = e.stored ∨ e'.stored = min (storedAt f e.parent + e.own) cap

theorem Recomputed.refl (e : ForkNode κ) : Recomputed cap f e e := ⟨rfl, rfl, Or.inl rfl⟩

theorem min_add_min (n own cap : Nat) : min (min n cap + own) cap = min (n + own) cap := by omega

theorem Weighed.storedAt (h : Weighed cap f p n) : storedAt f (some p) = min n cap := by
  obtain ⟨e, he⟩ := h.node
  rw [ForkTree.storedAt, Option.bind_some, he]
  exact h.stored_eq he

/-- **A weighed branch** whose nodes are left alone or recomputed is weighed. -/
theorem Weighed.update (h : Weighed cap f k n)
    (hu : ∀ j e, OnBranch f k j → f j = some e → ∃ e', g j = some e' ∧ Recomputed cap f e e') :
    Weighed cap g k n := by
  induction h with
  | @root k e node parent stored =>
    obtain ⟨e', he', hr⟩ := hu k e (.self k) node
    rw [← hr.own]
    refine .root he' (hr.parent.trans parent) ?_
    rcases hr.stored with heq | heq
    · rw [heq, stored, hr.own]
    · rw [heq, parent, hr.own]
      simp [ForkTree.storedAt]
  | @child k p e n node parent below stored ih =>
    obtain ⟨e', he', hr⟩ := hu k e (.self k) node
    rw [← hr.own]
    refine .child he' (hr.parent.trans parent)
      (ih fun j e hj hje => hu j e (.parent node parent hj) hje) ?_
    rcases hr.stored with heq | heq
    · rw [heq, stored, hr.own]
    · rw [heq, parent, below.storedAt, hr.own, min_add_min]

/-- **Storing a node** with the weight of its parent keeps a weighed branch, unless a node of the
branch gets another parent or weight. -/
theorem Weighed.insert (h : Weighed cap f k n) {i : κ} {e' : ForkNode κ} (hi : g i = some e')
    (hne : ∀ j, j ≠ i → g j = f j) (hs : e'.stored = min (ForkTree.storedAt f e'.parent + e'.own) cap)
    (hsame : OnBranch f k i → ∀ e, f i = some e → e'.parent = e.parent ∧ e'.own = e.own) :
    Weighed cap g k n := by
  refine h.update fun j e hj he => ?_
  by_cases heq : j = i
  · subst heq
    obtain ⟨hp, ho⟩ := hsame hj e he
    rw [hp, ho] at hs
    exact ⟨e', hi, hp, ho, Or.inr hs⟩
  · exact ⟨e, (hne j heq).trans he, .refl e⟩

/-- A node stored with the weight of a weighed parent, or of none, is weighed. -/
theorem weighed_of_stored {e : ForkNode κ} (he : g k = some e)
    (hp : ∀ p, e.parent = some p → ∃ n, Weighed cap f p n ∧ Weighed cap g p n)
    (hs : e.stored = min (storedAt f e.parent + e.own) cap) : ∃ n, Weighed cap g k n := by
  cases hpar : e.parent with
  | none =>
    rw [hpar] at hs
    refine ⟨_, .root he hpar ?_⟩
    simpa [storedAt] using hs
  | some p =>
    obtain ⟨n, hn, hn'⟩ := hp p hpar
    rw [hpar, hn.storedAt, min_add_min] at hs
    exact ⟨_, .child he hpar hn' hs⟩

/-! ## Leaves -/

/-- A stored node that no stored node has as its parent. -/
def IsLeaf (f : ForkTree κ) (k : κ) : Prop :=
  (f k).isSome ∧ ∀ j e, f j = some e → e.parent ≠ some k

/-- **The heaviest is a leaf**: with finitely many nodes, a node that outweighs every leaf is one. -/
theorem leaf_of_heaviest (keys : Finset κ) (hkeys : ∀ j e, f j = some e → j ∈ keys)
    (hpos : ∀ j e, f j = some e → 0 < e.own) (hk : HasTotal f k n)
    (hmax : ∀ j m, IsLeaf f j → HasTotal f j m → m ≤ n) : IsLeaf f k := by
  classical
  have hstored : ∀ {j m}, HasTotal f j m → ∃ e, f j = some e := by
    intro j m hj
    cases hj with
    | root node _ => exact ⟨_, node⟩
    | child node _ _ => exact ⟨_, node⟩
  -- the heaviest of all complete nodes
  let complete := keys.filter fun j => ∃ m, HasTotal f j m
  let weight := fun j => if h : ∃ m, HasTotal f j m then h.choose else 0
  have hweight : ∀ {j m}, HasTotal f j m → weight j = m := by
    intro j m hj
    have hex : ∃ m, HasTotal f j m := ⟨m, hj⟩
    simp only [weight, dif_pos hex]
    exact hex.choose_spec.unique hj
  have hmem : ∀ {j m}, HasTotal f j m → j ∈ complete := by
    intro j m hj
    obtain ⟨e, he⟩ := hstored hj
    exact Finset.mem_filter.mpr ⟨hkeys j e he, m, hj⟩
  obtain ⟨y, hy, htop⟩ := complete.exists_max_image weight ⟨k, hmem hk⟩
  obtain ⟨-, my, hmy⟩ := Finset.mem_filter.mp hy
  -- it is a leaf: a child of it would be heavier
  have hchild : ∀ {j m}, HasTotal f j m → ∀ i e, f i = some e → e.parent = some j →
      ∃ m', HasTotal f i m' ∧ m < m' := by
    intro j m hj i e he hp
    exact ⟨m + e.own, .child he hp hj, Nat.lt_add_of_pos_right (hpos i e he)⟩
  have hleaf : IsLeaf f y := by
    obtain ⟨e, he⟩ := hstored hmy
    refine ⟨by rw [he]; rfl, fun i e hi hp => ?_⟩
    obtain ⟨m', hm', hlt⟩ := hchild hmy i e hi hp
    have := htop i (hmem hm')
    rw [hweight hm', hweight hmy] at this
    omega
  have hle := hmax y my hleaf hmy
  obtain ⟨e, he⟩ := hstored hk
  refine ⟨by rw [he]; rfl, fun i e hi hp => ?_⟩
  obtain ⟨m', hm', hlt⟩ := hchild hk i e hi hp
  have := htop i (hmem hm')
  rw [hweight hm', hweight hmy] at this
  omega

theorem SameShape.isLeaf (h : SameShape f g) (hk : IsLeaf f k) : IsLeaf g k := by
  obtain ⟨e, he⟩ := Option.isSome_iff_exists.mp hk.1
  obtain ⟨e', he', -⟩ := h.node he
  refine ⟨by rw [he']; rfl, fun j e₁ hj hp => ?_⟩
  obtain ⟨e₂, he₂, hp₂, -⟩ := h.symm.node hj
  exact hk.2 j e₂ he₂ (hp₂.trans hp)

/-! ## The heaviest leaf -/

/-- `k` is the leaf with the greatest total. -/
def Heaviest (f : ForkTree κ) (k : κ) : Prop :=
  IsLeaf f k ∧ ∃ n, HasTotal f k n ∧
    ∀ j, IsLeaf f j → ∃ m, HasTotal f j m ∧ m ≤ n ∧ (j ≠ k → m < n)

/-- Different leaves have different totals, and none is above `cap`. -/
structure Decided (cap : Nat) (f : ForkTree κ) : Prop where
  bounded : ∀ k n, IsLeaf f k → HasTotal f k n → n ≤ cap
  distinct : ∀ j k n, IsLeaf f j → IsLeaf f k → HasTotal f j n → HasTotal f k n → j = k

theorem Decided.sameShape (h : Decided cap f) (hs : SameShape f g) : Decided cap g where
  bounded k n hk hn := h.bounded k n (hs.symm.isLeaf hk) (hn.sameShape hs.symm)
  distinct j k n hj hk hjn hkn := h.distinct j k n (hs.symm.isLeaf hj) (hs.symm.isLeaf hk)
    (hjn.sameShape hs.symm) (hkn.sameShape hs.symm)

theorem Heaviest.sameShape (h : Heaviest f k) (hs : SameShape f g) : Heaviest g k := by
  obtain ⟨hk, n, hn, hall⟩ := h
  refine ⟨hs.isLeaf hk, n, hn.sameShape hs, fun j hj => ?_⟩
  obtain ⟨m, hm, hle⟩ := hall j (hs.symm.isLeaf hj)
  exact ⟨m, hm.sameShape hs, hle⟩

theorem Heaviest.unique {j : κ} (hj : Heaviest f j) (hk : Heaviest f k) : j = k := by
  by_contra hne
  obtain ⟨hjl, n, hn, hjall⟩ := hj
  obtain ⟨hkl, m, hm, hkall⟩ := hk
  obtain ⟨m', hm', -, hlt⟩ := hjall k hkl
  obtain ⟨n', hn', -, hlt'⟩ := hkall j hjl
  have hmm := hm.unique hm'
  have hnn := hn.unique hn'
  have h₁ := hlt (Ne.symm hne)
  have h₂ := hlt' hne
  omega

/-- A node no lighter than any leaf is the heaviest leaf. -/
theorem heaviest_of_le (keys : Finset κ) (hkeys : ∀ j e, f j = some e → j ∈ keys)
    (hpos : ∀ j e, f j = some e → 0 < e.own) (hdec : Decided cap f) (hk : HasTotal f k n)
    (hle : ∀ j, IsLeaf f j → ∃ m, HasTotal f j m ∧ m ≤ n) : Heaviest f k := by
  have hleaf : IsLeaf f k := by
    refine leaf_of_heaviest keys hkeys hpos hk fun j m hj hm => ?_
    obtain ⟨m', hm', hle⟩ := hle j hj
    rw [hm.unique hm']
    exact hle
  refine ⟨hleaf, n, hk, fun j hj => ?_⟩
  obtain ⟨m, hm, hmn⟩ := hle j hj
  refine ⟨m, hm, hmn, fun hne => Nat.lt_of_le_of_ne hmn fun heq => ?_⟩
  subst heq
  exact hne (hdec.distinct j k m hj hleaf hm hk)

end ForkTree

end TetCore.Lib
