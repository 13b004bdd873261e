import Mathlib.Data.List.Sort

/-!
# Reading an ordered collection page by page

A reader asks for the first `limit` keys after its cursor, again and again. Keys may be added between
two pages. `Scan.Pending` is what the reader may still be given.

* `turn_advance`: what one page does: it gives pending keys in order, and of the keys that are there
  it leaves none behind.
* `Advance.trans`: the same of several pages, as long as no key goes away.
* `Ordered.advance`: what was given stays in order, each key once.
* `length_turn`: a page that is not the last one is full.
-/

namespace TetCore.Lib

variable {K : Type} [Ord K]

/-- A reader: the last key it was given, whether it is at the end, and all it was given. -/
structure Scan (K : Type) where
  cursor : Option K
  done : Bool
  taken : List K

/-- The keys after a cursor. -/
def keysAfter (cursor : Option K) (keys : List K) : List K :=
  keys.filter fun k => cursor.all fun c => (compare c k).isLT

namespace Scan

/-- The reader asks for one more page. -/
def turn (limit : Nat) (keys : List K) (s : Scan K) : Scan K :=
  if s.done then s
  else
    let page := (keysAfter s.cursor keys).take limit
    if limit < (keysAfter s.cursor keys).length then ⟨page.getLast?, false, s.taken ++ page⟩
    else ⟨s.cursor, true, s.taken ++ page⟩

/-- The key can still be given. -/
def Pending (s : Scan K) (k : K) : Prop :=
  s.done = false ∧ ∀ c, s.cursor = some c → compare c k = .lt

/-- What was given is in order, and nothing of it can be given again. -/
structure Ordered (s : Scan K) : Prop where
  sorted : s.taken.Pairwise fun a b => compare a b = .lt
  passed : ∀ k ∈ s.taken, ¬s.Pending k

/-- **The reader has moved on**: it was given keys that were pending, in order, and of those that
were held none is left behind. -/
structure Advance (held : K → Prop) (s s' : Scan K) (new : List K) : Prop where
  taken : s'.taken = s.taken ++ new
  sorted : new.Pairwise fun a b => compare a b = .lt
  pending : ∀ k ∈ new, s.Pending k
  passed : ∀ k ∈ new, ¬s'.Pending k
  covers : ∀ k, held k → s.Pending k → k ∈ new ∨ s'.Pending k
  shrinks : ∀ k, s'.Pending k → s.Pending k

variable {held held' : K → Prop} {s s' s'' : Scan K} {new new' keys : List K} {limit : Nat} {k : K}

theorem Advance.refl (held : K → Prop) (s : Scan K) : Advance held s s [] where
  taken := (List.append_nil _).symm
  sorted := .nil
  pending := fun _ hk => absurd hk List.not_mem_nil
  passed := fun _ hk => absurd hk List.not_mem_nil
  covers := fun _ _ h => Or.inr h
  shrinks := fun _ h => h

theorem mem_keysAfter (hdone : s.done = false) :
    k ∈ keysAfter s.cursor keys ↔ k ∈ keys ∧ s.Pending k := by
  rw [keysAfter, List.mem_filter, Option.all_eq_true]
  refine and_congr_right fun _ => ⟨fun h => ⟨hdone, fun c hc => ?_⟩, fun h c hc => ?_⟩
  · exact Ordering.isLT_iff_eq_lt.mp (h c hc)
  · exact Ordering.isLT_iff_eq_lt.mpr (h.2 c hc)

/-- A page that is not the last one is full. -/
theorem length_turn (h : (s.turn limit keys).done = false) :
    (s.turn limit keys).taken.length = s.taken.length + limit := by
  unfold turn at h ⊢
  by_cases hdone : s.done = true
  · rw [if_pos hdone, hdone] at h
    cases h
  rw [if_neg hdone] at h ⊢
  by_cases hmore : limit < (keysAfter s.cursor keys).length
  · rw [if_pos hmore, List.length_append, List.length_take]
    omega
  · rw [if_neg hmore] at h
    cases h

section Order

variable [Std.TransOrd K]

/-- What is no longer pending comes before what is. -/
theorem Pending.lt {a : K} (hk : s.Pending k) (ha : ¬s.Pending a) : compare a k = .lt := by
  obtain ⟨c, hc, hle⟩ : ∃ c, s.cursor = some c ∧ compare c a ≠ .lt := by
    by_contra hnone
    refine ha ⟨hk.1, fun c hc => ?_⟩
    by_contra hlt
    exact hnone ⟨c, hc, hlt⟩
  refine Std.TransCmp.lt_of_isLE_of_lt ?_ (hk.2 c hc)
  have hswap : compare a c = (compare c a).swap := Std.OrientedCmp.eq_swap
  rw [hswap]
  cases h : compare c a with
  | lt => exact absurd h hle
  | eq => rfl
  | gt => rfl

theorem Advance.trans (h : Advance held s s' new) (h' : Advance held' s' s'' new')
    (hheld : ∀ k, held k → held' k) : Advance held s s'' (new ++ new') where
  taken := by rw [h'.taken, h.taken, List.append_assoc]
  sorted := List.pairwise_append.mpr
    ⟨h.sorted, h'.sorted, fun a ha k hk => (h'.pending k hk).lt (h.passed a ha)⟩
  pending := by
    intro k hk
    rcases List.mem_append.mp hk with hk | hk
    · exact h.pending k hk
    · exact h.shrinks k (h'.pending k hk)
  passed := by
    intro k hk
    rcases List.mem_append.mp hk with hk | hk
    · exact fun hp => h.passed k hk (h'.shrinks k hp)
    · exact h'.passed k hk
  covers := by
    intro k hk hp
    rcases h.covers k hk hp with hmem | hp'
    · exact Or.inl (List.mem_append_left _ hmem)
    · exact (h'.covers k (hheld k hk) hp').imp_left (List.mem_append_right _)
  shrinks := fun k hk => h.shrinks k (h'.shrinks k hk)

theorem Ordered.advance (h : s.Ordered) (hadv : Advance held s s' new) : s'.Ordered where
  sorted := by
    rw [hadv.taken]
    exact List.pairwise_append.mpr
      ⟨h.sorted, hadv.sorted, fun a ha k hk => (hadv.pending k hk).lt (h.passed a ha)⟩
  passed := by
    intro k hk hp
    rw [hadv.taken] at hk
    rcases List.mem_append.mp hk with hk | hk
    · exact h.passed k hk (hadv.shrinks k hp)
    · exact hadv.passed k hk hp

/-- The last of a sorted list comes after the others. -/
theorem le_getLast {l : List K} (hsorted : l.Pairwise fun a b => compare a b = .lt) {last : K}
    (hlast : l.getLast? = some last) (hk : k ∈ l) : compare last k ≠ .lt := by
  obtain ⟨front, rfl⟩ := List.getLast?_eq_some_iff.mp hlast
  rcases List.mem_append.mp hk with hfront | hself
  · have hlt := (List.pairwise_append.mp hsorted).2.2 k hfront last (List.mem_singleton_self _)
    rw [Std.OrientedCmp.gt_of_lt hlt]
    decide
  · rw [List.mem_singleton.mp hself]
    exact fun hlt => by rw [Std.ReflOrd.compare_self] at hlt; cases hlt

/-- **One page.** -/
theorem turn_advance (hlimit : 0 < limit) (hsorted : keys.Pairwise fun a b => compare a b = .lt)
    (s : Scan K) : ∃ new, Advance (fun k => k ∈ keys) s (s.turn limit keys) new := by
  by_cases hdone : s.done = true
  · refine ⟨[], ?_⟩
    rw [turn, if_pos hdone]
    exact .refl _ s
  rw [Bool.not_eq_true] at hdone
  have hrows : (keysAfter s.cursor keys).Pairwise fun a b => compare a b = .lt :=
    hsorted.sublist List.filter_sublist
  have hsplit := hrows
  rw [← List.take_append_drop limit (keysAfter s.cursor keys), List.pairwise_append] at hsplit
  obtain ⟨hpage, -, hlater⟩ := hsplit
  have hpending : ∀ k ∈ (keysAfter s.cursor keys).take limit, s.Pending k := fun k hk =>
    ((mem_keysAfter hdone).mp (List.mem_of_mem_take hk)).2
  refine ⟨(keysAfter s.cursor keys).take limit, ?_⟩
  unfold turn
  rw [if_neg (by rw [hdone]; decide)]
  by_cases hmore : limit < (keysAfter s.cursor keys).length
  · rw [if_pos hmore]
    have hlen : 0 < ((keysAfter s.cursor keys).take limit).length := by
      rw [List.length_take]
      omega
    obtain ⟨last, hlast⟩ : ∃ last, ((keysAfter s.cursor keys).take limit).getLast? = some last :=
      ⟨_, List.getLast?_eq_some_getLast (List.length_pos_iff.mp hlen)⟩
    have hin : last ∈ (keysAfter s.cursor keys).take limit := List.mem_of_getLast? hlast
    refine ⟨rfl, hpage, hpending, fun k hk hp => ?_, fun k hk hp => ?_, fun k hp => ?_⟩
    · exact le_getLast hpage hlast hk (hp.2 last hlast)
    · have hmem := (mem_keysAfter hdone).mpr ⟨hk, hp⟩
      rw [← List.take_append_drop limit (keysAfter s.cursor keys)] at hmem
      refine (List.mem_append.mp hmem).imp_right fun hdrop => ⟨rfl, fun c hc => ?_⟩
      rw [hlast] at hc
      rw [← Option.some.inj hc]
      exact hlater last hin k hdrop
    · refine ⟨hdone, fun c hc => ?_⟩
      exact Std.TransCmp.lt_trans ((hpending last hin).2 c hc) (hp.2 last hlast)
  · rw [if_neg hmore]
    refine ⟨rfl, hpage, hpending, fun k _ hp => ?_, fun k hk hp => ?_, fun k hp => ?_⟩
    · exact Bool.noConfusion hp.1
    · rw [List.take_of_length_le (Nat.le_of_not_lt hmore)]
      exact Or.inl ((mem_keysAfter hdone).mpr ⟨hk, hp⟩)
    · exact Bool.noConfusion hp.1

end Order

end Scan

end TetCore.Lib
