import Mathlib.Algebra.BigOperators.Group.List.Basic
import Mathlib.Tactic.Linarith

/-!
# Key-value trees: batches, captured keys and sums

An ordered map `Tree K V`, in the vocabulary of an embedded key-value store: `get`, `insert`,
`remove`, `applyBatch` (the last write of a key wins) and `iter` (rows in key order). The carrier
is `Std.ExtTreeMap`, so two trees with the same reads are equal (`Tree.ext`), and what is made of
the rows in their order depends on the reads alone (`filterMap_iter_congr`).

* `capture` / `restore`: the values of a list of keys, each key once, and writing them back. A
  restore reads the captured value on the captured keys and leaves every other key alone
  (`get_restore_capture`), so it undoes any change confined to those keys (`restore_capture`).
* `sumBy w`: the sum of `w k v` over the rows. A write changes it by the new row minus the row it
  replaces (`sumBy_insert`, `sumBy_remove`).
-/

set_option linter.unusedSectionVars false

namespace TetCore.Lib

/-- A tree of the store: an ordered finite map. -/
structure Tree (K V : Type) [Ord K] where
  rows : Std.ExtTreeMap K V compare

/-- A tree with one key. -/
instance Unit.lawfulEqOrd : Std.LawfulEqOrd Unit where
  compare_self {_} := rfl
  eq_of_compare {_ _} _ := rfl

instance Unit.transOrd : Std.TransOrd Unit := inferInstance

namespace Tree

variable {K V : Type} [Ord K] [Std.TransOrd K] [Std.LawfulEqOrd K]

/-- The tree with no row. -/
def empty : Tree K V := ⟨∅⟩

/-- The value under `k`, if any. -/
def get (t : Tree K V) (k : K) : Option V := t.rows[k]?

/-- Write `v` under `k`. -/
def insert (t : Tree K V) (k : K) (v : V) : Tree K V := ⟨t.rows.insert k v⟩

/-- Delete the row of `k`. -/
def remove (t : Tree K V) (k : K) : Tree K V := ⟨t.rows.erase k⟩

/-- Keep the rows that satisfy `p`. -/
def retain (t : Tree K V) (p : K → V → Bool) : Tree K V := ⟨t.rows.filter p⟩

/-- The rows, in key order. -/
def iter (t : Tree K V) : List (K × V) := t.rows.toList

/-- Apply a batch of writes in order; the last write of a key wins. -/
def applyBatch (t : Tree K V) (batch : List (K × V)) : Tree K V :=
  batch.foldl (fun t w => t.insert w.1 w.2) t

@[simp] theorem get_empty (k : K) : (empty : Tree K V).get k = none := by
  simp [empty, get]

theorem get_insert [DecidableEq K] (t : Tree K V) (k a : K) (v : V) :
    (t.insert k v).get a = if k = a then some v else t.get a := by
  simp only [get, insert, Std.ExtTreeMap.getElem?_insert, Std.LawfulEqCmp.compare_eq_iff_eq]

@[simp] theorem get_insert_self (t : Tree K V) (k : K) (v : V) :
    (t.insert k v).get k = some v := by
  simp [get, insert]

theorem get_insert_ne {t : Tree K V} {k a : K} {v : V} (h : k ≠ a) :
    (t.insert k v).get a = t.get a := by
  simp only [get, insert, Std.ExtTreeMap.getElem?_insert, Std.LawfulEqCmp.compare_eq_iff_eq, h,
    if_false]

theorem get_remove [DecidableEq K] (t : Tree K V) (k a : K) :
    (t.remove k).get a = if k = a then none else t.get a := by
  simp only [get, remove, Std.ExtTreeMap.getElem?_erase, Std.LawfulEqCmp.compare_eq_iff_eq]

@[simp] theorem get_remove_self (t : Tree K V) (k : K) : (t.remove k).get k = none := by
  simp [get, remove]

theorem get_remove_ne {t : Tree K V} {k a : K} (h : k ≠ a) : (t.remove k).get a = t.get a := by
  simp only [get, remove, Std.ExtTreeMap.getElem?_erase, Std.LawfulEqCmp.compare_eq_iff_eq, h,
    if_false]

/-- Deleting rows leaves no new ones. -/
theorem get_of_foldl_remove {k : K} {v : V} : ∀ (ks : List K) {t : Tree K V},
    (ks.foldl (fun t k => t.remove k) t).get k = some v → t.get k = some v
  | [], _, h => h
  | a :: ks, t, h => by
    have hrest := get_of_foldl_remove ks h
    by_cases hk : a = k
    · subst hk
      rw [get_remove_self] at hrest
      cases hrest
    · rwa [get_remove_ne hk] at hrest

/-- Deleting rows deletes exactly those. -/
theorem get_foldl_remove [DecidableEq K] {k : K} : ∀ (ks : List K) (t : Tree K V),
    (ks.foldl (fun t k => t.remove k) t).get k = if k ∈ ks then none else t.get k
  | [], t => by rw [List.foldl_nil, if_neg List.not_mem_nil]
  | a :: ks, t => by
    rw [List.foldl_cons, get_foldl_remove ks, get_remove]
    by_cases hks : k ∈ ks
    · rw [if_pos hks, if_pos (List.mem_cons_of_mem a hks)]
    · rw [if_neg hks]
      by_cases hk : a = k
      · rw [if_pos hk, if_pos (by rw [hk]; exact List.mem_cons_self)]
      · rw [if_neg hk, if_neg]
        rw [List.mem_cons, not_or]
        exact ⟨Ne.symm hk, hks⟩

theorem get_retain (t : Tree K V) (p : K → V → Bool) (k : K) :
    (t.retain p).get k = (t.get k).filter (p k) := by
  simp [retain, get]

/-- **Trees are extensional**: the reads determine the tree. -/
theorem ext {t u : Tree K V} (h : ∀ k, t.get k = u.get k) : t = u := by
  cases t
  cases u
  congr 1
  exact Std.ExtTreeMap.ext_getElem? h

theorem remove_of_get_none {t : Tree K V} {k : K} (h : t.get k = none) : t.remove k = t := by
  refine ext fun a => ?_
  by_cases hk : k = a
  · subst hk
    rw [get_remove_self, h]
  · rw [get_remove_ne hk]

theorem insert_insert (t : Tree K V) (k : K) (v w : V) :
    (t.insert k v).insert k w = t.insert k w := by
  refine ext fun a => ?_
  by_cases h : k = a
  · subst h
    rw [get_insert_self, get_insert_self]
  · rw [get_insert_ne h, get_insert_ne h, get_insert_ne h]

theorem mem_iter {t : Tree K V} {k : K} {v : V} : (k, v) ∈ t.iter ↔ t.get k = some v :=
  Std.ExtTreeMap.mem_toList_iff_getElem?_eq_some

/-- The rows come in strictly increasing key order. -/
theorem iter_sorted (t : Tree K V) : t.iter.Pairwise fun a b => compare a.1 b.1 = .lt :=
  Std.ExtTreeMap.ordered_keys_toList

theorem iter_nodup (t : Tree K V) : t.iter.Nodup :=
  (iter_sorted t).imp fun {a b} h e => by
    rw [e, Std.ReflOrd.compare_self] at h
    exact absurd h (by decide)

theorem keys_nodup (t : Tree K V) : (t.iter.map Prod.fst).Nodup := by
  refine List.Pairwise.map Prod.fst ?_ (iter_sorted t)
  intro a b hlt heq
  rw [show a.1 = b.1 from heq, Std.ReflOrd.compare_self] at hlt
  cases hlt

/-- **What is made of the rows**, in key order, depends on what is made of each. -/
theorem filterMap_iter_congr {β : Type} {f : K → V → Option β} {t u : Tree K V}
    (h : ∀ k, (t.get k).bind (f k) = (u.get k).bind (f k)) :
    t.iter.filterMap (fun r => f r.1 r.2) = u.iter.filterMap fun r => f r.1 r.2 := by
  -- with the keys kept, both lists are sorted and have the same members
  let g : K × V → Option (K × β) := fun r => (f r.1 r.2).map fun b => (r.1, b)
  have hmem : ∀ (t : Tree K V) (k : K) (b : β),
      (k, b) ∈ t.iter.filterMap g ↔ (t.get k).bind (f k) = some b := by
    intro t k b
    rw [List.mem_filterMap, Option.bind_eq_some_iff]
    constructor
    · rintro ⟨⟨a, v⟩, hr, hg⟩
      obtain ⟨b', hb', heq⟩ := Option.map_eq_some_iff.mp hg
      cases heq
      exact ⟨v, mem_iter.mp hr, hb'⟩
    · rintro ⟨v, hv, hb⟩
      exact ⟨(k, v), mem_iter.mpr hv, Option.map_eq_some_iff.mpr ⟨b, hb, rfl⟩⟩
  have hsorted : ∀ t : Tree K V,
      (t.iter.filterMap g).Pairwise fun a b => compare a.1 b.1 = .lt := by
    intro t
    refine List.Pairwise.filterMap g ?_ (iter_sorted t)
    intro a a' hlt b hb b' hb'
    obtain ⟨x, -, rfl⟩ := Option.map_eq_some_iff.mp hb
    obtain ⟨y, -, rfl⟩ := Option.map_eq_some_iff.mp hb'
    exact hlt
  have hnodup : ∀ t : Tree K V, (t.iter.filterMap g).Nodup := fun t =>
    (hsorted t).imp fun {a b} hlt heq => by
      rw [heq, Std.ReflOrd.compare_self] at hlt
      exact absurd hlt (by decide)
  have hsame : t.iter.filterMap g = u.iter.filterMap g := by
    refine List.Perm.eq_of_pairwise ?_ (hsorted t) (hsorted u) ?_
    · intro a b _ _ hab hba
      have hgt : compare b.1 a.1 = .gt := Std.OrientedCmp.gt_of_lt hab
      rw [hba] at hgt
      cases hgt
    · refine (List.perm_ext_iff_of_nodup (hnodup t) (hnodup u)).mpr ?_
      rintro ⟨k, b⟩
      rw [hmem, hmem, h]
  have hdrop : ∀ t : Tree K V,
      (t.iter.filterMap g).map Prod.snd = t.iter.filterMap fun r => f r.1 r.2 := by
    intro t
    rw [List.map_filterMap]
    congr 1
    funext r
    show ((f r.1 r.2).map fun b => (r.1, b)).map Prod.snd = f r.1 r.2
    rw [Option.map_map]
    exact Option.map_id'
  rw [← hdrop t, ← hdrop u, hsame]

/-- What is made of the keys alone depends on which rows there are. -/
theorem filterMap_key_congr {β : Type} {f : K → Option β} {t u : Tree K V}
    (h : ∀ k, (t.get k).isSome = (u.get k).isSome) :
    t.iter.filterMap (fun r => f r.1) = u.iter.filterMap fun r => f r.1 := by
  refine filterMap_iter_congr (f := fun k _ => f k) fun k => ?_
  have hk := h k
  cases ht : t.get k with
  | none =>
    cases hu : u.get k with
    | none => rfl
    | some v =>
      rw [ht, hu] at hk
      cases hk
  | some v =>
    cases hu : u.get k with
    | none =>
      rw [ht, hu] at hk
      cases hk
    | some v' => rfl

/-- The keys depend on which rows there are. -/
theorem keys_congr {t u : Tree K V} (h : ∀ k, (t.get k).isSome = (u.get k).isSome) :
    t.iter.map Prod.fst = u.iter.map Prod.fst := by
  have hkeys := filterMap_key_congr (f := some) h
  have hmap : ∀ t : Tree K V, t.iter.filterMap (fun r => some r.1) = t.iter.map Prod.fst :=
    fun t => congrFun List.filterMap_eq_map t.iter
  rwa [hmap, hmap] at hkeys

/-- The rows with a property, listed in key order. -/
theorem filter_iter_eq {t : Tree K V} {p : K → Bool} {l : List (K × V)}
    (hsorted : l.Pairwise fun a b => compare a.1 b.1 = .lt)
    (hmem : ∀ k v, (k, v) ∈ l ↔ p k = true ∧ t.get k = some v) :
    t.iter.filter (fun r => p r.1) = l := by
  have hiter : (t.iter.filter fun r => p r.1).Pairwise fun a b => compare a.1 b.1 = .lt :=
    t.iter_sorted.filter _
  have hnodup : ∀ {m : List (K × V)}, (m.Pairwise fun a b => compare a.1 b.1 = .lt) → m.Nodup :=
    fun h => h.imp fun {a b} hlt heq => by
      rw [heq, Std.ReflOrd.compare_self] at hlt
      cases hlt
  refine List.Perm.eq_of_pairwise ?_ hiter hsorted ?_
  · intro a b _ _ hab hba
    have hgt : compare b.1 a.1 = .gt := Std.OrientedCmp.gt_of_lt hab
    rw [hba] at hgt
    cases hgt
  · refine (List.perm_ext_iff_of_nodup (hnodup hiter) (hnodup hsorted)).mpr ?_
    rintro ⟨k, v⟩
    rw [List.mem_filter, mem_iter, hmem]
    exact and_comm
/-! ## Batches -/

@[simp] theorem applyBatch_nil (t : Tree K V) : t.applyBatch [] = t := rfl

@[simp] theorem applyBatch_cons (t : Tree K V) (w : K × V) (b : List (K × V)) :
    t.applyBatch (w :: b) = (t.insert w.1 w.2).applyBatch b := rfl

theorem applyBatch_append (t : Tree K V) (b c : List (K × V)) :
    t.applyBatch (b ++ c) = (t.applyBatch b).applyBatch c := List.foldl_append

/-- A batch leaves the keys it does not name alone. -/
theorem get_applyBatch_of_notMem {k : K} : ∀ (b : List (K × V)) (t : Tree K V),
    k ∉ b.map Prod.fst → (t.applyBatch b).get k = t.get k
  | [], _, _ => rfl
  | w :: b, t, h => by
    rw [List.map_cons, List.mem_cons, not_or] at h
    rw [applyBatch_cons, get_applyBatch_of_notMem b _ h.2, get_insert_ne (Ne.symm h.1)]

/-- A key a batch names holds one of the values the batch writes. -/
theorem exists_get_applyBatch {k : K} : ∀ (b : List (K × V)) (t : Tree K V),
    k ∈ b.map Prod.fst → ∃ v, (k, v) ∈ b ∧ (t.applyBatch b).get k = some v
  | [], _, h => by cases h
  | w :: b, t, h => by
    rw [applyBatch_cons]
    by_cases hb : k ∈ b.map Prod.fst
    · obtain ⟨v, hv, hget⟩ := exists_get_applyBatch b (t.insert w.1 w.2) hb
      exact ⟨v, List.mem_cons_of_mem _ hv, hget⟩
    · rw [List.map_cons, List.mem_cons] at h
      have hk : k = w.1 := h.resolve_right hb
      subst hk
      refine ⟨w.2, List.mem_cons_self, ?_⟩
      rw [get_applyBatch_of_notMem b _ hb, get_insert_self]

/-- The rows of a tree, written to the empty one, are the tree. -/
theorem applyBatch_iter (t : Tree K V) : (empty : Tree K V).applyBatch t.iter = t := by
  refine ext fun k => ?_
  cases hk : t.get k with
  | some v =>
    obtain ⟨u, hu, hget⟩ := exists_get_applyBatch t.iter (empty : Tree K V)
      (List.mem_map_of_mem (mem_iter.mpr hk))
    rw [hget, ← mem_iter.mp hu, hk]
  | none =>
    rw [get_applyBatch_of_notMem _ _, get_empty]
    intro hmem
    obtain ⟨⟨a, v⟩, hr, rfl⟩ := List.mem_map.mp hmem
    rw [mem_iter.mp hr] at hk
    cases hk

/-- A batch removes no row. -/
theorem isSome_get_applyBatch {k : K} (b : List (K × V)) {t : Tree K V}
    (h : (t.get k).isSome = true) : ((t.applyBatch b).get k).isSome = true := by
  by_cases hk : k ∈ b.map Prod.fst
  · obtain ⟨v, -, hv⟩ := exists_get_applyBatch b t hk
    rw [hv]
    rfl
  · rw [get_applyBatch_of_notMem b t hk]
    exact h

/-- A batch whose writes of `k` all carry `v`, at least one of them, leaves `v` under `k`. -/
theorem get_applyBatch_of_mem {k : K} {v : V} : ∀ (b : List (K × V)) (t : Tree K V),
    (∀ u, (k, u) ∈ b → u = v) → (t.get k = some v ∨ k ∈ b.map Prod.fst) →
      (t.applyBatch b).get k = some v
  | [], t, _, h => by simpa using h
  | w :: b, t, hall, h => by
    rw [applyBatch_cons]
    refine get_applyBatch_of_mem b _ (fun u hu => hall u (List.mem_cons_of_mem _ hu)) ?_
    by_cases hk : w.1 = k
    · left
      obtain ⟨a, u⟩ := w
      simp only at hk
      subst hk
      rw [get_insert_self, hall u List.mem_cons_self]
    · rw [get_insert_ne hk]
      rcases h with h | h
      · exact Or.inl h
      · rw [List.map_cons, List.mem_cons] at h
        exact Or.inr (h.resolve_left fun e => hk e.symm)

/-! ## Capturing keys and restoring them -/

section Capture

variable [DecidableEq K]

/-- The values of the keys not `seen` before, each key once. -/
def captureFrom (t : Tree K V) : List K → List K → List (K × Option V)
  | _, [] => []
  | seen, k :: ks =>
    if k ∈ seen then captureFrom t seen ks else (k, t.get k) :: captureFrom t (k :: seen) ks

/-- The value of every key of the list, each key once (at its first occurrence). -/
def capture (t : Tree K V) (keys : List K) : List (K × Option V) := captureFrom t [] keys

/-- Write the captured values back; a key captured as absent is removed. -/
def restore (t : Tree K V) (kvs : List (K × Option V)) : Tree K V :=
  kvs.foldl (fun t kv => match kv.2 with
    | some v => t.insert kv.1 v
    | none => t.remove kv.1) t

theorem restore_cons (t : Tree K V) (kv : K × Option V) (kvs : List (K × Option V)) :
    t.restore (kv :: kvs) = (match kv.2 with
      | some v => t.insert kv.1 v
      | none => t.remove kv.1).restore kvs := rfl

theorem get_restore_one (t : Tree K V) (k a : K) (o : Option V) :
    (match o with
      | some v => t.insert k v
      | none => t.remove k).get a = if k = a then o else t.get a := by
  cases o with
  | none => exact get_remove t k a
  | some v => exact get_insert t k a v

theorem get_restore_captureFrom (t₀ : Tree K V) (k : K) : ∀ (keys seen : List K) (t : Tree K V),
    (t.restore (t₀.captureFrom seen keys)).get k =
      if k ∈ keys ∧ k ∉ seen then t₀.get k else t.get k
  | [], seen, t => by simp [captureFrom, restore]
  | a :: ks, seen, t => by
    unfold captureFrom
    by_cases ha : a ∈ seen
    · rw [if_pos ha, get_restore_captureFrom t₀ k ks seen t]
      by_cases hk : k = a
      · subst hk
        simp [ha]
      · simp [hk]
    · rw [if_neg ha, restore_cons, get_restore_captureFrom t₀ k ks (a :: seen), get_restore_one]
      by_cases hk : a = k
      · subst hk
        simp [ha]
      · have hk' : k ≠ a := fun e => hk e.symm
        simp [hk, hk']

/-- **Restoring captured keys** reads the captured tree on those keys and the current one
elsewhere. -/
theorem get_restore_capture (t t₀ : Tree K V) (keys : List K) (k : K) :
    (t.restore (t₀.capture keys)).get k = if k ∈ keys then t₀.get k else t.get k := by
  rw [capture, get_restore_captureFrom]
  simp

/-- **A restore undoes every change confined to the captured keys.** -/
theorem restore_capture {t t₀ : Tree K V} {keys : List K}
    (h : ∀ k, k ∉ keys → t.get k = t₀.get k) : t.restore (t₀.capture keys) = t₀ := by
  refine ext fun k => ?_
  rw [get_restore_capture]
  split
  · rfl
  · exact h k ‹_›

end Capture

/-! ## Sums over the rows -/

/-- The sum of `w k v` over the rows. -/
def sumBy (w : K → V → Nat) (t : Tree K V) : Nat := (t.iter.map fun r => w r.1 r.2).sum

/-- The weight of the row of `k`, `0` when there is none. -/
def rowWeight (w : K → V → Nat) (t : Tree K V) (k : K) : Nat := (t.get k).elim 0 (w k)

@[simp] theorem sumBy_empty (w : K → V → Nat) : (empty : Tree K V).sumBy w = 0 := by
  have : (empty : Tree K V).iter = [] :=
    List.eq_nil_iff_forall_not_mem.mpr fun r hr => by
      have := mem_iter (t := (empty : Tree K V)).mp (show (r.1, r.2) ∈ _ from hr)
      simp at this
  simp [sumBy, this]

section Sums

variable [DecidableEq K]

/-- The rows other than `k`'s, with `k`'s row first when there is one. -/
theorem iter_perm (t : Tree K V) (k : K) :
    t.iter.Perm (((t.get k).map fun v => (k, v)).toList ++ (t.remove k).iter) := by
  refine (List.perm_ext_iff_of_nodup (iter_nodup t) ?_).mpr ?_
  · refine List.nodup_append.mpr ⟨by cases t.get k <;> simp, iter_nodup _, ?_⟩
    rintro r hr r' hr' rfl
    obtain ⟨a, v⟩ := r
    rw [mem_iter, get_remove] at hr'
    cases h : t.get k with
    | none => simp [h] at hr
    | some u =>
      simp only [h, Option.map_some, Option.toList_some, List.mem_singleton,
        Prod.mk.injEq] at hr
      rw [if_pos hr.1.symm] at hr'
      exact absurd hr' (by simp)
  · rintro ⟨a, v⟩
    rw [List.mem_append, mem_iter, mem_iter, get_remove]
    by_cases hk : k = a
    · subst hk
      cases h : t.get k <;> simp [eq_comm]
    · have hk' : a ≠ k := fun e => hk e.symm
      cases h : t.get k <;> simp [hk, hk']

/-- The sum splits into the row of `k` and the rest. -/
theorem sumBy_eq_add_remove (w : K → V → Nat) (t : Tree K V) (k : K) :
    t.sumBy w = t.rowWeight w k + (t.remove k).sumBy w := by
  unfold sumBy rowWeight
  rw [((iter_perm t k).map _).sum_eq, List.map_append, List.sum_append]
  cases t.get k <;> simp

theorem remove_insert (t : Tree K V) (k : K) (v : V) : (t.insert k v).remove k = t.remove k := by
  refine ext fun a => ?_
  rw [get_remove, get_remove, get_insert]
  split <;> rfl

theorem iter_perm_of_get {t : Tree K V} {k : K} {v : V} (h : t.get k = some v) :
    t.iter.Perm ((k, v) :: (t.remove k).iter) := by
  have hperm := t.iter_perm k
  rwa [h] at hperm

/-- The rows after a write: the written one, and those of the other keys. -/
theorem iter_insert_perm (t : Tree K V) (k : K) (v : V) :
    (t.insert k v).iter.Perm ((k, v) :: (t.remove k).iter) := by
  have hperm := iter_perm_of_get (t.get_insert_self k v)
  rwa [remove_insert] at hperm

theorem length_insert_le (t : Tree K V) (k : K) (v : V) :
    (t.insert k v).iter.length ≤ t.iter.length + 1 := by
  have hinsert := (t.iter_insert_perm k v).length_eq
  have hperm := (t.iter_perm k).length_eq
  rw [List.length_cons] at hinsert
  rw [List.length_append] at hperm
  omega

/-- **A write changes the sum by the new row minus the row it replaces.** -/
theorem sumBy_insert (w : K → V → Nat) (t : Tree K V) (k : K) (v : V) :
    (t.insert k v).sumBy w + t.rowWeight w k = t.sumBy w + w k v := by
  rw [sumBy_eq_add_remove w (t.insert k v) k, sumBy_eq_add_remove w t k, remove_insert]
  have : (t.insert k v).rowWeight w k = w k v := by simp [rowWeight]
  omega

/-- **A batch of new rows** adds their weights. -/
theorem sumBy_applyBatch (w : K → V → Nat) : ∀ (b : List (K × V)) {t : Tree K V},
    (b.map Prod.fst).Nodup → (∀ k ∈ b.map Prod.fst, t.get k = none) →
      (t.applyBatch b).sumBy w = t.sumBy w + (b.map fun r => w r.1 r.2).sum
  | [], t, _, _ => by rw [applyBatch_nil, List.map_nil, List.sum_nil, Nat.add_zero]
  | r :: b, t, hnodup, hnew => by
    rw [List.map_cons, List.nodup_cons] at hnodup
    have hins := sumBy_insert w t r.1 r.2
    have hzero : t.rowWeight w r.1 = 0 := by
      rw [rowWeight, hnew r.1 List.mem_cons_self]
      rfl
    rw [applyBatch_cons, sumBy_applyBatch w b hnodup.2, List.map_cons, List.sum_cons]
    · omega
    · intro k hk
      rw [get_insert_ne fun (heq : r.1 = k) => hnodup.1 (heq ▸ hk)]
      exact hnew k (List.mem_cons_of_mem _ hk)

/-- A removal changes the sum by the row it removes. -/
theorem sumBy_remove (w : K → V → Nat) (t : Tree K V) (k : K) :
    (t.remove k).sumBy w + t.rowWeight w k = t.sumBy w := by
  rw [sumBy_eq_add_remove w t k]
  omega

/-- One row weighs at most the sum. -/
theorem rowWeight_le_sumBy (w : K → V → Nat) (t : Tree K V) (k : K) :
    t.rowWeight w k ≤ t.sumBy w := by
  rw [sumBy_eq_add_remove w t k]
  omega

theorem rowWeight_remove (w : K → V → Nat) (t : Tree K V) (k a : K) :
    (t.remove k).rowWeight w a = if k = a then 0 else t.rowWeight w a := by
  unfold rowWeight
  rw [get_remove]
  split <;> rfl

/-- A tree with a row is larger than the tree without it. -/
theorem iter_length_remove {t : Tree K V} {k : K} {v : V} (h : t.get k = some v) :
    (t.remove k).iter.length + 1 = t.iter.length := by
  have := (iter_perm t k).length_eq
  rw [h] at this
  simp only [Option.map_some, Option.toList_some, List.length_append, List.length_singleton] at this
  omega

/-- The sum grows with the weights of the rows, also across trees of different values. -/
theorem sumBy_le {V' : Type} {w : K → V → Nat} {w' : K → V' → Nat} {t : Tree K V} {u : Tree K V'}
    (h : ∀ k, t.rowWeight w k ≤ u.rowWeight w' k) : t.sumBy w ≤ u.sumBy w' := by
  induction hn : t.iter.length generalizing t u with
  | zero =>
    rw [sumBy, List.eq_nil_of_length_eq_zero hn]
    exact Nat.zero_le _
  | succ n ih =>
    obtain ⟨⟨k, v⟩, hr⟩ := List.exists_mem_of_length_pos (by omega : 0 < t.iter.length)
    have hl := iter_length_remove (mem_iter.mp hr)
    have hrow := h k
    have hrest : (t.remove k).sumBy w ≤ (u.remove k).sumBy w' := by
      refine ih (fun a => ?_) (by omega)
      rw [rowWeight_remove, rowWeight_remove]
      split
      · exact Nat.le_refl _
      · exact h a
    rw [sumBy_eq_add_remove w t k, sumBy_eq_add_remove w' u k]
    omega

/-- The sum depends on the weights of the rows alone. -/
theorem sumBy_congr {V' : Type} {w : K → V → Nat} {w' : K → V' → Nat} {t : Tree K V}
    {u : Tree K V'} (h : ∀ k, t.rowWeight w k = u.rowWeight w' k) : t.sumBy w = u.sumBy w' :=
  le_antisymm (sumBy_le fun k => le_of_eq (h k)) (sumBy_le fun k => le_of_eq (h k).symm)

end Sums

end Tree

end TetCore.Lib
