import TetCore.Lib.Tree

/-!
# An index beside a store

The rows of a store, and a second tree that holds one entry for each row. An entry names the row it
is of.

* `IndexOf`: each row has exactly one entry, and an entry names a row.
* `IndexOf.insert`, `IndexOf.rewrite`: writing a new row with its entry, and writing a row again so
  that its entry stays.
* `IndexOf.length_filter`: a count over the entries is the same count over the rows.
* `IndexOf.scan_perm`: the rows of some entries are the rows that the entries are chosen by.
-/

namespace TetCore.Lib

open Std

variable {K V I N : Type} [Ord K] [TransOrd K] [Ord I] [TransOrd I]

/-- The index has exactly one entry that names a row's key, its own, and every entry names a row. -/
structure IndexOf (rows : Tree K V) (index : Tree I Unit) (entry : K → V → I) (key : K → N)
    (name : I → N) : Prop where
  one : ∀ k v, rows.get k = some v → ∀ i, (index.get i = some () ∧ name i = key k) ↔ i = entry k v
  known : ∀ i, index.get i = some () → ∃ k v, rows.get k = some v ∧ name i = key k

/-- The first of what is found, where something is found at every place. -/
theorem filterMap_take {α β : Type} {f : α → Option β} : ∀ {l : List α} {n : Nat},
    (∀ a ∈ l, ∃ b, f a = some b) → (l.take n).filterMap f = (l.filterMap f).take n
  | [], n, _ => by rw [List.take_nil, List.filterMap_nil, List.take_nil]
  | a :: l, 0, _ => rfl
  | a :: l, n + 1, h => by
    obtain ⟨b, hb⟩ := h a List.mem_cons_self
    rw [List.take_succ_cons, List.filterMap_cons_some hb, List.filterMap_cons_some hb,
      List.take_succ_cons, filterMap_take fun x hx => h x (List.mem_cons_of_mem _ hx)]

namespace IndexOf

variable {rows : Tree K V} {index : Tree I Unit} {entry : K → V → I} {key : K → N} {name : I → N}
  {k : K} {v : V}

/-- The entry of a row is there, and names its key. -/
theorem entry_mem (h : IndexOf rows index entry key name) (hk : rows.get k = some v) :
    index.get (entry k v) = some () ∧ name (entry k v) = key k :=
  (h.one k v hk (entry k v)).mpr rfl

/-- The entries are those of the rows. -/
theorem get_iff (h : IndexOf rows index entry key name) {i : I} :
    index.get i = some () ↔ ∃ k v, rows.get k = some v ∧ entry k v = i := by
  constructor
  · intro hi
    obtain ⟨k, v, hk, hname⟩ := h.known i hi
    exact ⟨k, v, hk, ((h.one k v hk i).mp ⟨hi, hname⟩).symm⟩
  · rintro ⟨k, v, hk, rfl⟩
    exact (h.entry_mem hk).1

variable [LawfulEqOrd K] [LawfulEqOrd I]

theorem empty : IndexOf (Tree.empty : Tree K V) (Tree.empty : Tree I Unit) entry key name where
  one k v h := by
    rw [Tree.get_empty] at h
    cases h
  known i h := by
    rw [Tree.get_empty] at h
    cases h

section Writes

variable [DecidableEq K] [DecidableEq I]

/-- A new row, with an entry that names it. -/
theorem insert (hkey : Function.Injective key) (h : IndexOf rows index entry key name)
    (hnew : rows.get k = none) (hname : name (entry k v) = key k) :
    IndexOf (rows.insert k v) (index.insert (entry k v) ()) entry key name where
  one k' v' hk' i := by
    rw [Tree.get_insert] at hk' ⊢
    by_cases hk : k = k'
    · subst hk
      rw [if_pos rfl, Option.some.injEq] at hk'
      subst hk'
      constructor
      · rintro ⟨hi, hnamed⟩
        by_contra hne
        rw [if_neg (Ne.symm hne)] at hi
        obtain ⟨a, b, ha, hnameA⟩ := h.known i hi
        have hsame : a = k := hkey (hnameA.symm.trans hnamed)
        rw [hsame, hnew] at ha
        cases ha
      · rintro rfl
        exact ⟨if_pos rfl, hname⟩
    · rw [if_neg hk] at hk'
      rw [← h.one k' v' hk' i]
      refine and_congr_left fun hnamed => ?_
      -- the new entry names the new row
      rw [if_neg]
      rintro rfl
      exact hk (hkey (hname.symm.trans hnamed))
  known i hi := by
    rw [Tree.get_insert] at hi
    by_cases hentry : entry k v = i
    · subst hentry
      exact ⟨k, v, Tree.get_insert_self _ _ _, hname⟩
    · rw [if_neg hentry] at hi
      obtain ⟨a, b, ha, hnamed⟩ := h.known i hi
      have hne : k ≠ a := by
        rintro rfl
        rw [hnew] at ha
        cases ha
      exact ⟨a, b, (Tree.get_insert_ne hne).trans ha, hnamed⟩

omit [LawfulEqOrd I] [DecidableEq I] in
/-- A row that is written again keeps its entry. -/
theorem rewrite (h : IndexOf rows index entry key name) (hk : rows.get k = some v) {w : V}
    (hentry : entry k w = entry k v) : IndexOf (rows.insert k w) index entry key name where
  one k' v' hk' i := by
    rw [Tree.get_insert] at hk'
    by_cases hsame : k = k'
    · subst hsame
      rw [if_pos rfl, Option.some.injEq] at hk'
      subst hk'
      rw [hentry]
      exact h.one k v hk i
    · rw [if_neg hsame] at hk'
      exact h.one k' v' hk' i
  known i hi := by
    obtain ⟨a, b, ha, hnamed⟩ := h.known i hi
    by_cases hsame : k = a
    · subst hsame
      exact ⟨k, w, Tree.get_insert_self _ _ _, hnamed⟩
    · exact ⟨a, b, (Tree.get_insert_ne hsame).trans ha, hnamed⟩

end Writes

/-- The entries, as a list, are those of the rows. -/
theorem iter_perm (hkey : Function.Injective key) (h : IndexOf rows index entry key name) :
    (index.iter.map Prod.fst).Perm (rows.iter.map fun r => entry r.1 r.2) := by
  refine (List.perm_ext_iff_of_nodup index.keys_nodup ?_).mpr fun i => ?_
  · refine List.Pairwise.map _ ?_ (List.Pairwise.and_mem.mp rows.iter_nodup)
    rintro ⟨k, v⟩ ⟨k', v'⟩ ⟨hmem, hmem', hne⟩ heq
    have hk := Tree.mem_iter.mp hmem
    have hk' := Tree.mem_iter.mp hmem'
    have hnames : key k = key k' := by
      rw [← (h.entry_mem hk).2, ← (h.entry_mem hk').2]
      exact congrArg name heq
    obtain rfl := hkey hnames
    exact hne (by rw [Option.some.inj (hk.symm.trans hk')])
  · rw [List.mem_map, List.mem_map]
    constructor
    · rintro ⟨⟨i, u⟩, hi, rfl⟩
      obtain ⟨k, v, hk, rfl⟩ := h.get_iff.mp (Tree.mem_iter.mp hi)
      exact ⟨(k, v), Tree.mem_iter.mpr hk, rfl⟩
    · rintro ⟨⟨k, v⟩, hk, rfl⟩
      exact ⟨(entry k v, ()), Tree.mem_iter.mpr (h.entry_mem (Tree.mem_iter.mp hk)).1, rfl⟩

/-- As many entries satisfy `p` as there are rows whose entry does. -/
theorem length_filter (hkey : Function.Injective key) (h : IndexOf rows index entry key name)
    (p : I → Bool) : (index.iter.filter fun e => p e.1).length =
      (rows.iter.filter fun r => p (entry r.1 r.2)).length := by
  have hperm := ((h.iter_perm hkey).filter p).length_eq
  rwa [List.filter_map, List.filter_map, List.length_map, List.length_map] at hperm

/-- **The rows of the entries that satisfy `p`**, read one by one, are the rows that satisfy `q`. -/
theorem scan_perm (hkey : Function.Injective key) (h : IndexOf rows index entry key name)
    {read : I → Option V} (hread : ∀ k v, rows.get k = some v → read (entry k v) = some v)
    {p : I → Bool} {q : V → Bool} (hpq : ∀ k v, rows.get k = some v → p (entry k v) = q v) :
    (((index.iter.map Prod.fst).filter p).filterMap read).Perm
      ((rows.iter.map Prod.snd).filter q) := by
  refine (((h.iter_perm hkey).filter p).filterMap read).trans ?_
  refine List.Perm.of_eq ?_
  have hmem : ∀ r ∈ rows.iter, rows.get r.1 = some r.2 := fun r hr => Tree.mem_iter.mp hr
  generalize rows.iter = l at hmem
  induction l with
  | nil => rfl
  | cons r l ih =>
    have hr := hmem r List.mem_cons_self
    have ih := ih fun r hr => hmem r (List.mem_cons_of_mem _ hr)
    have hpr := hpq r.1 r.2 hr
    rw [List.map_cons, List.map_cons]
    cases hq : q r.2 with
    | true =>
      rw [List.filter_cons_of_pos (hpr.trans hq), List.filter_cons_of_pos hq,
        List.filterMap_cons_some (hread r.1 r.2 hr), ih]
    | false =>
      rw [List.filter_cons_of_neg (by rw [hpr, hq]; decide),
        List.filter_cons_of_neg (by rw [hq]; decide), ih]

end IndexOf

end TetCore.Lib
