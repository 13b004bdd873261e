import Mathlib.Data.List.Perm.Subperm
import TetCore.Lib.Tree

/-!
# A bounded map that evicts first in, first out

A map beside a list of its keys in the order they came (`put`): a new key goes to the end of the
list, a key already there keeps its place, and while there are too many rows the key at the front
goes. `arrived` numbers the puts by which the keys came in.

* `InStep t order`: the list names the keys of the map, each once.
* `PutLaw`: what a put does. The number of rows stays within the cap, the row put is there, the list
  is in step, every other row stays as it is unless it is evicted, and what is evicted came before
  everything else.
* `Queued`: the list is in the order of arrival, and names perhaps more than the keys of the map.
* `Queued.put`: a put obeys the law when the list is in step before it.
* `Queued.stale`: it does not when the list names a key that is not in the map.
-/

set_option linter.unusedSectionVars false

namespace TetCore.Lib

variable {K V : Type} [Ord K] [Std.TransOrd K] [Std.LawfulEqOrd K] [DecidableEq K]

/-- The keys at the front of the list go while there are more rows than the cap. -/
def evictFront (cap : Nat) : List K → Tree K V → List K × Tree K V
  | [], t => ([], t)
  | k :: order, t =>
    if cap < t.iter.length then evictFront cap order (t.remove k) else (k :: order, t)

/-- Put a row: the list of keys and the map afterwards. -/
def put (cap : Nat) (order : List K) (t : Tree K V) (k : K) (v : V) : List K × Tree K V :=
  evictFront cap (if (t.get k).isSome then order else order ++ [k]) (t.insert k v)

/-- The list names the keys of the map, each once. -/
structure InStep (t : Tree K V) (order : List K) : Prop where
  nodup : order.Nodup
  mem_iff : ∀ k, k ∈ order ↔ (t.get k).isSome

/-- The puts by which the keys came in, after the put number `n`. -/
def arrive (t : Tree K V) (k : K) (n : Nat) (arrived : K → Nat) : K → Nat :=
  if (t.get k).isSome then arrived else Function.update arrived k n

/-- What the put of `v` under `k` makes of `t`. -/
structure PutLaw (cap : Nat) (arrived : K → Nat) (t : Tree K V) (k : K) (v : V) (order' : List K)
    (t' : Tree K V) : Prop where
  bounded : t'.iter.length ≤ cap
  present : t'.get k = some v
  inStep : InStep t' order'
  kept : ∀ a, a ≠ k → t'.get a = none ∨ t'.get a = t.get a
  oldest : ∀ a, a ≠ k → (t.get a).isSome → t'.get a = none →
    ∀ b, b ≠ a → (t.get b).isSome → arrived a < arrived b

/-- The list names the keys of the map in the order they came, and perhaps others; `n` puts were
made. -/
structure Queued (cap : Nat) (arrived : K → Nat) (n : Nat) (t : Tree K V) (order : List K) :
    Prop where
  names : ∀ k, (t.get k).isSome → k ∈ order
  ordered : order.Pairwise fun a b => arrived a < arrived b
  past : ∀ k ∈ order, arrived k < n
  bounded : order.length ≤ cap

section Rules

variable {t t' : Tree K V} {order order' : List K} {k a : K} {v : V} {cap n : Nat}
  {arrived : K → Nat}

theorem mem_keys_iff : k ∈ t.iter.map Prod.fst ↔ (t.get k).isSome := by
  rw [List.mem_map, Option.isSome_iff_exists]
  constructor
  · rintro ⟨⟨k', v⟩, hmem, rfl⟩
    exact ⟨v, Tree.mem_iter.mp hmem⟩
  · rintro ⟨v, hget⟩
    exact ⟨(k, v), Tree.mem_iter.mpr hget, rfl⟩

theorem length_le_of_names (h : ∀ k, (t.get k).isSome → k ∈ order) :
    t.iter.length ≤ order.length := by
  rw [← List.length_map Prod.fst]
  exact (t.keys_nodup.subperm fun k hk => h k (mem_keys_iff.mp hk)).length_le

theorem InStep.length (h : InStep t order) : t.iter.length = order.length := by
  refine Nat.le_antisymm (length_le_of_names fun k hk => (h.mem_iff k).mpr hk) ?_
  have hlen : (t.iter.map Prod.fst).length = t.iter.length := List.length_map Prod.fst
  rw [← hlen]
  exact (h.nodup.subperm fun k hk => mem_keys_iff.mpr ((h.mem_iff k).mp hk)).length_le

theorem Queued.nodup (h : Queued cap arrived n t order) : order.Nodup :=
  h.ordered.imp fun hlt heq => absurd hlt (by rw [heq]; exact Nat.lt_irrefl _)

/-- With a name of no row in the list, there is room for one more row. -/
theorem Queued.room (h : Queued cap arrived n t order) (hmem : a ∈ order)
    (hnone : t.get a = none) : t.iter.length < cap := by
  obtain ⟨l, r, rfl⟩ := List.append_of_mem hmem
  have hnames : ∀ k, (t.get k).isSome → k ∈ l ++ r := by
    intro k hk
    rcases List.mem_append.mp (h.names k hk) with hl | hr
    · exact List.mem_append_left r hl
    · rcases List.mem_cons.mp hr with rfl | hr
      · rw [hnone] at hk
        cases hk
      · exact List.mem_append_right l hr
  have hlen := length_le_of_names hnames
  have hcap := h.bounded
  simp only [List.length_append, List.length_cons] at hlen hcap
  omega

/-! ### Eviction -/

theorem evictFront_of_le (h : t.iter.length ≤ cap) (order : List K) :
    evictFront cap order t = (order, t) := by
  cases order with
  | nil => rfl
  | cons k order =>
    rw [evictFront, if_neg (by omega)]

/-- With one row too many the key at the front goes. -/
theorem InStep.evictFront_cons (h : InStep t (k :: order)) (hlen : order.length = cap) :
    evictFront cap (k :: order) t = (order, t.remove k) := by
  have hone : t.iter.length = cap + 1 := by rw [h.length, List.length_cons, hlen]
  obtain ⟨v, hget⟩ := Option.isSome_iff_exists.mp ((h.mem_iff k).mp List.mem_cons_self)
  have hrest := Tree.iter_length_remove hget
  rw [evictFront, if_pos (by omega), evictFront_of_le (by omega)]

theorem InStep.remove (h : InStep t (k :: order)) : InStep (t.remove k) order := by
  have hnodup := List.nodup_cons.mp h.nodup
  refine ⟨hnodup.2, fun a => ?_⟩
  rw [Tree.get_remove]
  by_cases hka : k = a
  · rw [if_pos hka, ← hka]
    exact iff_of_false hnodup.1 Bool.false_ne_true
  · rw [if_neg hka, ← h.mem_iff a, List.mem_cons]
    exact ⟨Or.inr, fun hmem => hmem.resolve_left fun heq => hka heq.symm⟩

theorem InStep.insert (h : InStep t order) (hk : (t.get k).isSome) (v : V) :
    InStep (t.insert k v) order := by
  refine ⟨h.nodup, fun a => ?_⟩
  rw [h.mem_iff a, Tree.get_insert]
  by_cases hka : k = a
  · rw [if_pos hka, ← hka]
    exact iff_of_true hk rfl
  · rw [if_neg hka]

theorem InStep.insert_new (h : InStep t order) (hk : t.get k = none) (v : V) :
    InStep (t.insert k v) (order ++ [k]) := by
  have hnot : k ∉ order := by
    rw [h.mem_iff k, hk]
    exact Bool.false_ne_true
  refine ⟨List.nodup_append.mpr ⟨h.nodup, List.pairwise_singleton _ k, ?_⟩, fun a => ?_⟩
  · intro a ha b hb heq
    rw [List.mem_singleton.mp hb] at heq
    exact hnot (heq ▸ ha)
  · rw [List.mem_append, List.mem_singleton, Tree.get_insert]
    by_cases hka : k = a
    · rw [if_pos hka]
      exact iff_of_true (Or.inr hka.symm) rfl
    · rw [if_neg hka, ← h.mem_iff a]
      exact ⟨fun hmem => hmem.resolve_right fun heq => hka heq.symm, Or.inl⟩

/-! ### A put -/

theorem arrive_of_isSome (h : (t.get k).isSome) (n : Nat) (arrived : K → Nat) :
    arrive t k n arrived = arrived := if_pos h

theorem arrive_of_none (h : t.get k = none) (n : Nat) (arrived : K → Nat) :
    arrive t k n arrived = Function.update arrived k n := by
  rw [arrive, if_neg (by rw [h]; exact Bool.false_ne_true)]

theorem Queued.empty (cap : Nat) (arrived : K → Nat) (n : Nat) :
    Queued cap arrived n (Tree.empty : Tree K V) [] where
  names := by
    intro k hk
    rw [Tree.get_empty] at hk
    cases hk
  ordered := List.Pairwise.nil
  past := fun k hk => absurd hk List.not_mem_nil
  bounded := Nat.zero_le cap

theorem Queued.later (h : Queued cap arrived n t order) : Queued cap arrived (n + 1) t order :=
  ⟨h.names, h.ordered, fun k hk => Nat.lt_succ_of_lt (h.past k hk), h.bounded⟩

/-- Fewer rows, and a list that lost no name of a row. -/
theorem Queued.sublist (h : Queued cap arrived n t order) (hsub : List.Sublist order' order)
    (hnames : ∀ k, (t'.get k).isSome → k ∈ order') : Queued cap arrived n t' order' :=
  ⟨hnames, h.ordered.sublist hsub, fun k hk => h.past k (hsub.subset hk),
    hsub.length_le.trans h.bounded⟩

theorem Queued.remove (h : Queued cap arrived n t order) (k : K) :
    Queued cap arrived n (t.remove k) order := by
  refine h.sublist (List.Sublist.refl order) fun a ha => h.names a ?_
  rw [Tree.get_remove] at ha
  by_cases hka : k = a
  · rw [if_pos hka] at ha
    cases ha
  · rwa [if_neg hka] at ha

/-- A key already there: a refresh. -/
theorem put_of_isSome (hk : (t.get k).isSome) (cap : Nat) (order : List K) (v : V) :
    put cap order t k v = evictFront cap order (t.insert k v) := by
  rw [put, if_pos hk]

theorem put_of_none (hk : t.get k = none) (cap : Nat) (order : List K) (v : V) :
    put cap order t k v = evictFront cap (order ++ [k]) (t.insert k v) := by
  rw [put, if_neg (by rw [hk]; exact Bool.false_ne_true)]

theorem get_insert_of_ne (hne : a ≠ k) (t : Tree K V) (v : V) : (t.insert k v).get a = t.get a :=
  Tree.get_insert_ne (Ne.symm hne)

/-- A put after which every other row is as before obeys the law. -/
theorem PutLaw.of_kept (hstep : InStep (t.insert k v) order') (hlen : order'.length ≤ cap) :
    PutLaw cap arrived t k v order' (t.insert k v) where
  bounded := hstep.length.trans_le hlen
  present := Tree.get_insert_self t k v
  inStep := hstep
  kept := fun _ hne => Or.inr (get_insert_of_ne hne t v)
  oldest := by
    intro a hne hsome hnone
    rw [get_insert_of_ne hne] at hnone
    rw [hnone] at hsome
    cases hsome

/-- The new key comes in last. -/
theorem Queued.ordered_append (h : Queued cap arrived n t order) (hnot : k ∉ order) :
    (order ++ [k]).Pairwise fun a b =>
      Function.update arrived k n a < Function.update arrived k n b := by
  have hold : ∀ a ∈ order, Function.update arrived k n a = arrived a := fun a ha =>
    Function.update_of_ne (fun heq : a = k => hnot (heq ▸ ha)) _ _
  refine List.pairwise_append.mpr ⟨?_, List.pairwise_singleton _ k, ?_⟩
  · refine h.ordered.imp_of_mem fun {a b} ha hb hlt => ?_
    rw [hold a ha, hold b hb]
    exact hlt
  · intro a ha b hb
    rw [List.mem_singleton.mp hb, hold a ha, Function.update_self]
    exact h.past a ha

theorem Queued.past_append (h : Queued cap arrived n t order) :
    ∀ a ∈ order ++ [k], Function.update arrived k n a < n + 1 := by
  intro a ha
  by_cases hak : a = k
  · rw [hak, Function.update_self]
    exact Nat.lt_succ_self n
  · rw [Function.update_of_ne hak]
    rcases List.mem_append.mp ha with ha | ha
    · exact Nat.lt_succ_of_lt (h.past a ha)
    · exact absurd (List.mem_singleton.mp ha) hak

/-- A list in the order of arrival, without the names of what left the map, is in step with it. -/
theorem Queued.resync (h : Queued cap arrived n t order)
    (hsub : ∀ k, (t'.get k).isSome → (t.get k).isSome) :
    Queued cap arrived n t' (order.filter fun k => (t'.get k).isSome) ∧
      InStep t' (order.filter fun k => (t'.get k).isSome) := by
  have hmem : ∀ k, k ∈ order.filter (fun k => (t'.get k).isSome) ↔ (t'.get k).isSome := by
    intro k
    rw [List.mem_filter]
    exact ⟨fun hk => hk.2, fun hk => ⟨h.names k (hsub k hk), hk⟩⟩
  exact ⟨h.sublist List.filter_sublist fun k hk => (hmem k).mpr hk, h.nodup.filter _, hmem⟩

/-- A refresh evicts nothing. -/
theorem Queued.put_refresh (h : Queued cap arrived n t order) (hk : (t.get k).isSome) (v : V) :
    Lib.put cap order t k v = (order, t.insert k v) := by
  rw [put_of_isSome hk]
  refine evictFront_of_le (le_trans (length_le_of_names fun a ha => ?_) h.bounded) order
  by_cases hak : a = k
  · rw [hak]
    exact h.names k hk
  · rw [get_insert_of_ne hak] at ha
    exact h.names a ha

/-- **A put obeys the law** when the list is in step before it, and the list stays in the order of
arrival. -/
theorem Queued.put (h : Queued cap arrived n t order) (hstep : InStep t order) (hcap : 0 < cap)
    (k : K) (v : V) :
    PutLaw cap arrived t k v (put cap order t k v).1 (put cap order t k v).2 ∧
      Queued cap (arrive t k n arrived) (n + 1) (Lib.put cap order t k v).2
        (Lib.put cap order t k v).1 := by
  cases hk : t.get k with
  | some w =>
    -- A refresh: no key comes in and none goes.
    have hsome : (t.get k).isSome := by rw [hk]; rfl
    have hins := hstep.insert hsome v
    rw [h.put_refresh hsome, arrive_of_isSome hsome]
    exact ⟨PutLaw.of_kept hins h.bounded,
      (h.sublist (List.Sublist.refl order) fun a ha => (hins.mem_iff a).mpr ha).later⟩
  | none =>
    have hins := hstep.insert_new hk v
    have hnot : k ∉ order := by
      rw [hstep.mem_iff k, hk]
      exact Bool.false_ne_true
    have hordered := h.ordered_append hnot
    have hpast := h.past_append (k := k)
    rw [put_of_none hk, arrive_of_none hk]
    by_cases hroom : order.length < cap
    · have hlen : (order ++ [k]).length ≤ cap := by
        rw [List.length_append, List.length_singleton]
        exact hroom
      rw [evictFront_of_le (hins.length.trans_le hlen)]
      exact ⟨PutLaw.of_kept hins hlen, fun a ha => (hins.mem_iff a).mpr ha, hordered, hpast, hlen⟩
    · -- The list is full, so the key at its front goes.
      have hfull : order.length = cap := Nat.le_antisymm h.bounded (Nat.not_lt.mp hroom)
      cases order with
      | nil => exact absurd hfull (Nat.ne_of_lt hcap)
      | cons a rest =>
        have hlen : (rest ++ [k]).length = cap := by
          rw [List.length_append, List.length_singleton, ← hfull, List.length_cons]
        have hak : a ≠ k := fun heq => hnot (heq ▸ List.mem_cons_self)
        rw [List.cons_append] at hins hordered hpast ⊢
        rw [hins.evictFront_cons hlen]
        have hrest := hins.remove
        refine ⟨⟨(hrest.length.trans hlen).le, ?_, hrest, ?_, ?_⟩,
          fun b hb => (hrest.mem_iff b).mpr hb, (List.pairwise_cons.mp hordered).2,
          fun b hb => hpast b (List.mem_cons_of_mem a hb), hlen.le⟩
        · rw [Tree.get_remove_ne hak, Tree.get_insert_self]
        · intro b hb
          rw [Tree.get_remove, get_insert_of_ne hb]
          by_cases hab : a = b
          · exact Or.inl (if_pos hab)
          · exact Or.inr (if_neg hab)
        · intro b hb hsome hnone c hc hcsome
          -- Only the front went, and everything else in the list came after it.
          have hab : a = b := by
            by_contra hab
            rw [Tree.get_remove_ne hab, get_insert_of_ne hb] at hnone
            rw [hnone] at hsome
            cases hsome
          rw [← hab] at hc ⊢
          have hmem := (hstep.mem_iff c).mpr hcsome
          exact (List.pairwise_cons.mp h.ordered).1 c ((List.mem_cons.mp hmem).resolve_left hc)

/-- **A put does not obey the law** when the list names a key that is not in the map. -/
theorem Queued.stale (h : Queued cap arrived n t order) (hmem : a ∈ order)
    (hnone : t.get a = none) (k : K) (v : V) :
    ¬ PutLaw cap arrived t k v (Lib.put cap order t k v).1 (Lib.put cap order t k v).2 := by
  intro hlaw
  have hstep := hlaw.inStep
  have hroom := h.room hmem hnone
  have hlen := t.length_insert_le k v
  -- There is room, so nothing is evicted and the stale name stays.
  by_cases hak : a = k
  · rw [← hak] at hstep hlen
    rw [put_of_none hnone, evictFront_of_le (by omega)] at hstep
    exact (List.nodup_append.mp hstep.nodup).2.2 a hmem a (List.mem_singleton_self a) rfl
  · have hmem' : a ∈ (if (t.get k).isSome then order else order ++ [k]) := by
      split
      · exact hmem
      · exact List.mem_append_left [k] hmem
    rw [Lib.put, evictFront_of_le (by omega)] at hstep
    have hsome := (hstep.mem_iff a).mp hmem'
    rw [get_insert_of_ne hak, hnone] at hsome
    cases hsome

end Rules

end TetCore.Lib
