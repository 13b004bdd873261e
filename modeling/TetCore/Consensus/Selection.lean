import TetCore.Consensus.NoLoss

/-!
# The selection of a block's transactions

`select_block_txs` takes the whole batch when it makes a block. Otherwise it goes over the first
`SELECT_ONE_BY_ONE_MAX` transactions and keeps each one that still makes a block with those kept
before it; the others of these are dropped, the rest waits. All its checks are at one clock.

* `Selection`: what a selection is, with what becomes of each place of the batch (`Pick`).
* `keepWhile_picks`: the loop, over any predicate of lists.
* `select_selection`: where the empty block is valid, `select_block_txs` selects.
-/

namespace TetCore

open TetCore.Lib

namespace Consensus

/-- What becomes of one place of the batch. -/
inductive Pick where
  | kept
  | later
  | dropped
  deriving DecidableEq

section Picks

variable {α : Type}

/-- What has the fate `p`, in its order. -/
def withPick (p : Pick) (picks : List (α × Pick)) : List α :=
  (picks.filter fun q => q.2 = p).map Prod.fst

/-- A selection of the batch `xs` by the predicate `ok`, at most `max` of it examined one by one. -/
structure Selection (ok : List α → Bool) (max : Nat) (xs kept later : List α) : Prop where
  order : (kept ++ later).Sublist xs
  rest : later = [] ∨ later = xs.drop max
  valid : ok kept = true
  picked : ∃ picks : List (α × Pick), picks.map Prod.fst = xs ∧ withPick .kept picks = kept ∧
    withPick .later picks = later ∧
    ∀ before x after, picks = before ++ (x, .dropped) :: after →
      ok (withPick .kept before ++ [x]) = false

@[simp] theorem withPick_nil (p : Pick) : withPick p ([] : List (α × Pick)) = [] := rfl

theorem withPick_cons (p : Pick) (x : α) (q : Pick) (picks : List (α × Pick)) :
    withPick p ((x, q) :: picks) = if q = p then x :: withPick p picks else withPick p picks := by
  unfold withPick
  rw [List.filter_cons]
  by_cases h : q = p
  · rw [if_pos (decide_eq_true h), if_pos h, List.map_cons]
  · rw [if_neg (ne_true_of_eq_false (decide_eq_false h)), if_neg h]

theorem withPick_append (p : Pick) (picks more : List (α × Pick)) :
    withPick p (picks ++ more) = withPick p picks ++ withPick p more := by
  unfold withPick
  rw [List.filter_append, List.map_append]

/-- Places that all have one fate. -/
theorem withPick_map (p q : Pick) (xs : List α) :
    withPick p (xs.map fun x => (x, q)) = if q = p then xs else [] := by
  induction xs with
  | nil => simp
  | cons x xs ih =>
    rw [List.map_cons, withPick_cons, ih]
    by_cases h : q = p
    · rw [if_pos h, if_pos h, if_pos h]
    · rw [if_neg h, if_neg h, if_neg h]

/-- **The loop**: from places kept that are valid together, each next one is kept if it is valid with
those kept so far, and dropped otherwise. -/
theorem keepWhile_picks (ok : List α → Bool) : ∀ (xs : List α) {ks : List α}, ok ks = true →
    ok (xs.foldl (keepWhile ok) ks) = true ∧
    ∃ picks : List (α × Pick), picks.map Prod.fst = xs ∧
      xs.foldl (keepWhile ok) ks = ks ++ withPick .kept picks ∧ withPick .later picks = [] ∧
      ∀ before x after, picks = before ++ (x, .dropped) :: after →
        ok (ks ++ withPick .kept before ++ [x]) = false := by
  intro xs
  induction xs with
  | nil =>
    intro ks hks
    refine ⟨hks, [], rfl, (List.append_nil ks).symm, rfl, fun before x after heq => ?_⟩
    exact absurd heq.symm (List.append_ne_nil_of_right_ne_nil before (List.cons_ne_nil _ _))
  | cons x xs ih =>
    intro ks hks
    rw [List.foldl_cons]
    by_cases hx : ok (ks ++ [x]) = true
    · have hstep : keepWhile ok ks x = ks ++ [x] := if_pos hx
      rw [hstep]
      obtain ⟨hvalid, picks, hfst, hkept, hlater, hdropped⟩ := ih hx
      refine ⟨hvalid, (x, .kept) :: picks, by rw [List.map_cons, hfst], ?_, ?_, ?_⟩
      · rw [hkept, withPick_cons, if_pos rfl, List.append_assoc]
        rfl
      · rw [withPick_cons, if_neg (by decide), hlater]
      · intro before y after heq
        -- the first place is kept, so what is dropped is further on
        cases before with
        | nil => cases heq
        | cons b before =>
          obtain ⟨rfl, htail⟩ := List.cons.inj heq
          rw [withPick_cons, if_pos rfl]
          have hrest := hdropped before y after htail
          rwa [List.append_assoc ks [x]] at hrest
    · have hstep : keepWhile ok ks x = ks := if_neg hx
      rw [hstep]
      obtain ⟨hvalid, picks, hfst, hkept, hlater, hdropped⟩ := ih hks
      refine ⟨hvalid, (x, .dropped) :: picks, by rw [List.map_cons, hfst], ?_, ?_, ?_⟩
      · rw [hkept, withPick_cons, if_neg (by decide)]
      · rw [withPick_cons, if_neg (by decide), hlater]
      · intro before y after heq
        cases before with
        | nil =>
          obtain ⟨hxy, -⟩ := List.cons.inj heq
          cases hxy
          rw [withPick_nil, List.append_nil]
          exact Bool.eq_false_iff.mpr hx
        | cons b before =>
          obtain ⟨rfl, htail⟩ := List.cons.inj heq
          rw [withPick_cons, if_neg (by decide)]
          exact hdropped before y after htail

end Picks

section Select

variable {W : World} {L : Ledger} {nowMs : Nat} {producerId : Str}
  {txs : List SignedTxEnvelopeV1}

/-- **Block selection**: where the empty block is valid, `select_block_txs` keeps a valid block and
leaves a rest, in the order of the batch, and drops only what is invalid after what it kept before. -/
theorem select_selection (hempty : blockTxsOk W L nowMs [] producerId = true) :
    Selection (fun txs => blockTxsOk W L nowMs txs producerId) selectOneByOneMax txs
      (selectBlockTxs W L nowMs txs producerId).1 (selectBlockTxs W L nowMs txs producerId).2 := by
  have horder := select_sublist W L nowMs txs producerId
  unfold selectBlockTxs at horder ⊢
  by_cases hall : blockTxsOk W L nowMs txs producerId = true
  · rw [if_pos hall] at horder ⊢
    refine ⟨horder, Or.inl rfl, hall, txs.map fun env => (env, .kept), ?_, ?_, ?_, ?_⟩
    · rw [List.map_map]
      exact List.map_id _
    · rw [withPick_map, if_pos rfl]
    · rw [withPick_map, if_neg (by decide)]
    · intro before env after heq
      have hmem : (env, Pick.dropped) ∈ txs.map fun env => (env, Pick.kept) := by
        rw [heq]
        exact List.mem_append_right _ List.mem_cons_self
      obtain ⟨env', -, hpair⟩ := List.mem_map.mp hmem
      cases hpair
  · rw [if_neg hall] at horder ⊢
    obtain ⟨hvalid, picks, hfst, hkept, hlater, hdropped⟩ :=
      keepWhile_picks (fun txs => blockTxsOk W L nowMs txs producerId)
        (txs.take selectOneByOneMax) hempty
    rw [List.nil_append] at hkept
    have hrest : ∀ p : Pick, withPick p ((txs.drop selectOneByOneMax).map fun env =>
        (env, Pick.later)) = if Pick.later = p then txs.drop selectOneByOneMax else [] :=
      fun p => withPick_map p .later _
    refine ⟨horder, Or.inr rfl, hvalid,
      picks ++ (txs.drop selectOneByOneMax).map fun env => (env, .later), ?_, ?_, ?_, ?_⟩
    · rw [List.map_append, hfst, List.map_map]
      exact (congrArg (txs.take selectOneByOneMax ++ ·) (List.map_id _)).trans
        (List.take_append_drop _ _)
    · rw [withPick_append, hrest, if_neg (by decide), List.append_nil]
      exact hkept.symm
    · rw [withPick_append, hlater, hrest, if_pos rfl, List.nil_append]
    · intro before env after heq
      -- what is dropped stands among the places examined one by one
      rcases List.append_eq_append_iff.mp heq with ⟨mid, hbefore, hmid⟩ | ⟨mid, hpicks, hmid⟩
      · have hmem : (env, Pick.dropped) ∈ (txs.drop selectOneByOneMax).map fun env =>
            (env, Pick.later) := by
          rw [hmid]
          exact List.mem_append_right _ List.mem_cons_self
        obtain ⟨env', -, hpair⟩ := List.mem_map.mp hmem
        cases hpair
      · cases mid with
        | nil =>
          have hmem : (env, Pick.dropped) ∈ (txs.drop selectOneByOneMax).map fun env =>
              (env, Pick.later) := by
            rw [List.nil_append] at hmid
            rw [← hmid]
            exact List.mem_cons_self
          obtain ⟨env', -, hpair⟩ := List.mem_map.mp hmem
          cases hpair
        | cons q mid =>
          obtain ⟨rfl, -⟩ := List.cons.inj hmid
          have hfalse := hdropped before env mid hpicks
          rwa [List.nil_append] at hfalse

/-- A transfer twice: together they are no block. -/
theorem select_selection_twice :
    let W := World.sample 100000
    let txs := [Sample.transfer, Sample.transfer]
    Selection (fun txs => blockTxsOk W Sample.ledger 0 txs Sample.node) selectOneByOneMax txs
      (selectBlockTxs W Sample.ledger 0 txs Sample.node).1
      (selectBlockTxs W Sample.ledger 0 txs Sample.node).2 := by
  intro W txs
  exact select_selection (by decide +kernel)

end Select

end Consensus

end TetCore
