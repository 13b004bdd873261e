import TetCore.Consensus.OnChain

/-!
# The calls of a node

A node's ledger changes by calls: mining, a block from a peer, a backfilled candidate, a backfilled
reorg, pruning. `Call.Succeeds` is a call that returns without an error. This module takes the
mining calls apart into an applied block, like `Steps` does for the others, and keeps track of the
hashes a block is applied with.
-/

namespace TetCore.Consensus

open TetCore.Lib
open TetCore.Ledger (applyConsensusBlockBatch recordTxIndexesBatch)

/-- A call to the node. The mempool and the count of failed blocks are whatever they are when the
node mines. -/
inductive Call where
  | mine (producerId : Str) (mempool : List SignedTxEnvelopeV1) (blockFailures : Nat)
  | mineCoinbaseOnly (producerId : Str)
  | gossip (block : RemoteBlockGossip)
  | backfill (block : RemoteBlockGossip)
  | tryReorg (newTipId : Str)
  | prune (currentHeight : Nat)

/-- The call returns without an error and leaves the ledger `L'`. -/
def Call.Succeeds (W : World) (nowMs fuel : Nat) (L L' : Ledger) : Call → Prop
  | .mine producerId mempool blockFailures => ∃ outcome node,
      minePendingBlockAs W nowMs producerId ⟨L, mempool, blockFailures⟩ = (.ok outcome, node) ∧
      L' = node.ledger
  | .mineCoinbaseOnly producerId => ∃ outcome,
      mineCoinbaseOnlyBlockAs W nowMs producerId L = (.ok outcome, L')
  | .gossip block => ∃ outcome,
      applyRemoteBlockFromGossipSync W nowMs fuel block L = (.ok outcome, L')
  | .backfill block => ∃ row,
      validateAndRecordBackfillCandidate W nowMs block L = (.ok row, L')
  | .tryReorg newTipId => ∃ done,
      tryReorgBackfilledBranch W nowMs fuel newTipId L = (.ok done, L')
  | .prune currentHeight => L' = L.pruneHistoryAfterBlock W currentHeight

/-! ## Hashes -/

section Hashes

variable {W : World} {L : Ledger}

theorem hashTxs_hashed : ∀ {txs : List SignedTxEnvelopeV1} {seen hashes : List Str},
    hashTxs W txs seen = .ok hashes → txs.mapM (txHashForEnv W) = .ok hashes ∧ hashes.Nodup ∧
      ∀ h ∈ hashes, h ∉ seen := by
  intro txs
  induction txs with
  | nil =>
    intro seen hashes h
    cases h
    exact ⟨rfl, List.nodup_nil, fun h hh => absurd hh List.not_mem_nil⟩
  | cons env txs ih =>
    intro seen hashes h
    unfold hashTxs at h
    cases htx : txHashForEnv W env with
    | error e =>
      rw [htx] at h
      cases h
    | ok txHash =>
      simp only [htx, bind_eq_ok, require_eq_ok, Except.ok.injEq] at h
      obtain ⟨_, hseen, rest, hrest, rfl⟩ := h
      obtain ⟨hmap, hnd, hout⟩ := ih hrest
      refine ⟨?_, List.nodup_cons.mpr ⟨?_, hnd⟩, ?_⟩
      · rw [List.mapM_cons, htx, hmap]
        rfl
      · exact fun hmem => hout txHash hmem List.mem_cons_self
      · intro h hh
        rcases List.mem_cons.mp hh with rfl | hh
        · exact hseen
        · exact fun hmem => hout h hh (List.mem_cons_of_mem _ hmem)

theorem hashed_of_hashTxs {txs : List SignedTxEnvelopeV1} {hashes : List Str}
    (h : hashTxs W txs [] = .ok hashes) : Hashed W txs hashes :=
  ⟨(hashTxs_hashed h).1, (hashTxs_hashed h).2.1⟩

/-- No two transactions have the same hash. -/
def DistinctTxs (W : World) (txs : List SignedTxEnvelopeV1) : Prop :=
  txs.Pairwise fun a b => txHashForEnv W a ≠ txHashForEnv W b

theorem mem_of_mapM {txs : List SignedTxEnvelopeV1} {hashes : List Str} {h : Str} :
    txs.mapM (txHashForEnv W) = .ok hashes → h ∈ hashes →
      ∃ env ∈ txs, txHashForEnv W env = .ok h := by
  induction txs generalizing hashes with
  | nil =>
    intro hm hh
    cases hm
    cases hh
  | cons env txs ih =>
    intro hm hh
    simp only [List.mapM_cons, bind_eq_ok, pure_eq_ok, Except.ok.injEq] at hm
    obtain ⟨x, hx, xs, hxs, rfl⟩ := hm
    rcases List.mem_cons.mp hh with rfl | hh
    · exact ⟨env, List.mem_cons_self, hx⟩
    · obtain ⟨e, he, heq⟩ := ih hxs hh
      exact ⟨e, List.mem_cons_of_mem _ he, heq⟩

/-- The hash of a transaction is among the hashes. -/
theorem hash_mem_of_mapM {txs : List SignedTxEnvelopeV1} {env : SignedTxEnvelopeV1}
    {hashes : List Str} {h : Str} :
    txs.mapM (txHashForEnv W) = .ok hashes → env ∈ txs → txHashForEnv W env = .ok h → h ∈ hashes := by
  induction txs generalizing hashes with
  | nil => exact fun _ he => absurd he List.not_mem_nil
  | cons e txs ih =>
    intro hm he hh
    simp only [List.mapM_cons, bind_eq_ok, pure_eq_ok, Except.ok.injEq] at hm
    obtain ⟨x, hx, xs, hxs, rfl⟩ := hm
    rcases List.mem_cons.mp he with rfl | he
    · rw [hx, Except.ok.injEq] at hh
      exact hh ▸ List.mem_cons_self
    · exact List.mem_cons_of_mem _ (ih hxs he hh)

theorem length_of_mapM {txs : List SignedTxEnvelopeV1} {hashes : List Str} :
    txs.mapM (txHashForEnv W) = .ok hashes → txs.length = hashes.length := by
  induction txs generalizing hashes with
  | nil =>
    intro hm
    cases hm
    rfl
  | cons env txs ih =>
    intro hm
    simp only [List.mapM_cons, bind_eq_ok, pure_eq_ok, Except.ok.injEq] at hm
    obtain ⟨x, -, xs, hxs, rfl⟩ := hm
    rw [List.length_cons, List.length_cons, ih hxs]

theorem DistinctTxs.hashed {txs : List SignedTxEnvelopeV1} {hashes : List Str}
    (h : DistinctTxs W txs) (hm : txs.mapM (txHashForEnv W) = .ok hashes) : Hashed W txs hashes := by
  refine ⟨hm, ?_⟩
  induction txs generalizing hashes with
  | nil =>
    cases hm
    exact List.nodup_nil
  | cons env txs ih =>
    simp only [List.mapM_cons, bind_eq_ok, pure_eq_ok, Except.ok.injEq] at hm
    obtain ⟨x, hx, xs, hxs, rfl⟩ := hm
    have hp := List.pairwise_cons.mp h
    refine List.nodup_cons.mpr ⟨fun hmem => ?_, ih hp.2 hxs⟩
    obtain ⟨e, he, heq⟩ := mem_of_mapM hxs hmem
    exact hp.1 e he (hx.trans heq.symm)

/-- The miner's filter keeps no repetitions. -/
theorem dropSettled_distinct : ∀ {txs kept : List SignedTxEnvelopeV1} {seen : List Str},
    dropSettled W L txs seen = .ok kept → DistinctTxs W kept ∧
      ∀ env ∈ kept, ∀ h, txHashForEnv W env = .ok h → h ∉ seen := by
  intro txs
  induction txs with
  | nil =>
    intro kept seen h
    cases h
    exact ⟨List.Pairwise.nil, fun env he => absurd he List.not_mem_nil⟩
  | cons env txs ih =>
    intro kept seen h
    unfold dropSettled at h
    simp only [bind_eq_ok, mapError_eq_ok] at h
    obtain ⟨x, hx, h⟩ := h
    by_cases hseen : x ∈ seen
    · rw [if_pos hseen] at h
      exact ih h
    · rw [if_neg hseen] at h
      by_cases hset : L.isTxApplied x = true
      · rw [if_pos hset] at h
        obtain ⟨hd, hout⟩ := ih h
        exact ⟨hd, fun e he y hy hmem => hout e he y hy (List.mem_cons_of_mem _ hmem)⟩
      · rw [if_neg hset] at h
        simp only [bind_eq_ok, Except.ok.injEq] at h
        obtain ⟨rest, hrest, rfl⟩ := h
        obtain ⟨hd, hout⟩ := ih hrest
        refine ⟨List.pairwise_cons.mpr ⟨fun e he heq => ?_, hd⟩, fun e he y hy hmem => ?_⟩
        · exact hout e he x (heq.symm.trans hx) List.mem_cons_self
        · rcases List.mem_cons.mp he with rfl | he
          · rw [hx] at hy
            cases hy
            exact hseen hmem
          · exact hout e he y hy (List.mem_cons_of_mem _ hmem)

theorem foldl_select_sublist {α : Type} (p : List α → α → Bool) : ∀ (l acc : List α),
    ∃ ys, l.foldl (fun kept x => if p kept x then kept ++ [x] else kept) acc = acc ++ ys ∧
      List.Sublist ys l := by
  intro l
  induction l with
  | nil =>
    intro acc
    exact ⟨[], (List.append_nil acc).symm, List.Sublist.refl []⟩
  | cons x l ih =>
    intro acc
    rw [List.foldl_cons]
    by_cases hp : p acc x = true
    · rw [if_pos hp]
      obtain ⟨ys, heq, hsub⟩ := ih (acc ++ [x])
      exact ⟨x :: ys, by rw [heq, List.append_assoc]; rfl, hsub.cons_cons x⟩
    · rw [if_neg hp]
      obtain ⟨ys, heq, hsub⟩ := ih acc
      exact ⟨ys, heq, hsub.cons x⟩

/-- The selected transactions are some of the pending ones, in their order. -/
theorem selectBlockTxs_sublist (nowMs : Nat) (txs : List SignedTxEnvelopeV1) (producerId : Str) :
    List.Sublist (selectBlockTxs W L nowMs txs producerId).1 txs := by
  unfold selectBlockTxs
  by_cases h : blockTxsOk W L nowMs txs producerId = true
  · rw [if_pos h]
  · rw [if_neg h]
    obtain ⟨ys, heq, hsub⟩ := foldl_select_sublist
      (fun kept env => blockTxsOk W L nowMs (kept ++ [env]) producerId)
      (txs.take selectOneByOneMax) []
    simp only
    rw [heq]
    exact hsub.trans (List.take_sublist _ _)

end Hashes

/-! ## Mining -/

section Mining

variable {W : World} {nowMs : Nat} {L L' : Ledger}

theorem planBlock_ok {producerId : Str} {txs : List SignedTxEnvelopeV1} {b : PreparedBlock}
    (h : planBlock W nowMs producerId txs L = .ok b) :
    b.blockHeight = satAdd L.blockHeight 1 ∧ txs.mapM (txHashForEnv W) = .ok b.txHashes ∧
      b.txs = txs ∧ parentBlockIdForHeight L b.blockHeight = .ok b.parentBlockId ∧
      validateZkTaskClaims W L txs = .ok () ∧
      ∃ root, b.blockId = blockIdForBlock W b.blockHeight (b.parentBlockId.getD []) root b.txHashes
        producerId := by
  simp only [planBlock, bind_eq_ok, mapError_eq_ok, Except.ok.injEq] at h
  obtain ⟨hashes, hh, parent, hp, _, hzk, reward, -, root, -, rfl⟩ := h
  exact ⟨rfl, hh, rfl, hp, hzk, root, rfl⟩

/-- **A mined block** is applied on top of the ledger. -/
theorem buildAndApplyBlock_ok {producerId : Str} {txs : List SignedTxEnvelopeV1}
    {outcome : MineOutcome}
    (h : buildAndApplyBlock W nowMs producerId txs L = (.ok outcome, L')) :
    ∃ b root M, planBlock W nowMs producerId txs L = .ok b ∧ RecordedIn M L L' ∧
      Applied W nowMs ((b.recordArgs root).row M nowMs b.parentBlockId) L L' := by
  simp only [buildAndApplyBlock, prepareBlock, Proc.bind_eq_ok_iff, Proc.mapErr_eq_ok_iff,
    Proc.check_eq_ok_iff, Proc.write_apply, Proc.pure_apply, Prod.mk.injEq,
    Proc.atomic_eq_ok_iff] at h
  obtain ⟨b, _, ⟨_, _, ⟨hplan, rfl⟩, _, _, ⟨-, rfl⟩, hb, rfl⟩, root, L₁, ha, _, _, ⟨-, rfl⟩, -, rfl⟩ := h
  cases hb
  obtain ⟨-, -, -, hpar, -, root', hid⟩ := planBlock_ok hplan
  obtain ⟨hcan, htip, hrecords⟩ := applyBlock_chain ha
  have hne : trim b.blockId ≠ [] := by
    rw [hid, trim_blockIdForBlock]
    exact blockIdForBlock_ne_nil _ _ _ _ _ _
  -- the records cannot fail: the parent is settled and the id is not empty
  obtain ⟨L₂, hr, hr'⟩ := exists_recordBlockRecord nowMs (b.recordArgs root)
    (L₁.recordBlockSummary nowMs b.blockHeight b.blockId root b.txs.length)
    (recordedParent_eq hcan htip fun hnone => hpar.trans (congrArg Except.ok hnone)) hne
  have hi : recordTxIndexesBatch nowMs b.blockHeight b.txHashes b.txs true L₂ = .ok _ :=
    Ledger.recordTxIndexesBatch_eq_ok.mpr ⟨(Ledger.apply_lengths ha).symm, rfl⟩
  obtain ⟨-, hrec⟩ := Ledger.recorded_of_ok rfl hr' hi
  simp only [finishBlock, hr, valueOr, hi]
  exact ⟨b, root, _, hplan, ⟨hrecords, (congrArg Ledger.metaTree hrec).symm⟩,
    Applied.of_records rfl ha hr' hi⟩

theorem minePendingBlockAs_ok {producerId : Str} {s s' : Node} {outcome : MineOutcome}
    (h : minePendingBlockAs W nowMs producerId s = (.ok outcome, s')) :
    ∃ txs, DistinctTxs W txs ∧
      buildAndApplyBlock W nowMs (minerId W producerId) txs s.ledger = (.ok outcome, s'.ledger) := by
  unfold minePendingBlockAs at h
  simp only at h
  split at h
  · cases h
  cases hdrop : dropSettled W s.ledger s.mempool [] with
  | error e =>
    rw [hdrop] at h
    cases h
  | ok pending =>
    simp only [hdrop] at h
    obtain ⟨hd, -⟩ := dropSettled_distinct hdrop
    have hsub := selectBlockTxs_sublist (W := W) (L := s.ledger) nowMs pending
      (minerId W producerId)
    generalize hsel : selectBlockTxs W s.ledger nowMs pending (minerId W producerId) = sel at h hsub
    -- the block takes all the selected transactions, or the first alone
    generalize htxs : (if (decide (0 < s.blockFailures) && decide (1 < sel.1.length)) = true then
      sel.1.take 1 else sel.1) = txs at h
    have hdist : DistinctTxs W txs := by
      rw [← htxs]
      split
      · exact (hd.sublist hsub).sublist (List.take_sublist _ _)
      · exact hd.sublist hsub
    refine ⟨txs, hdist, ?_⟩
    rcases hrun : buildAndApplyBlock W nowMs (minerId W producerId) txs s.ledger with ⟨r, L₁⟩
    rw [hrun] at h
    cases r with
    | ok out =>
      cases h
      rfl
    | hang => cases h
    | err e =>
      cases e with
      | nothingWritten e =>
        simp only at h
        split at h <;> cases h
      | maybeWritten e => cases h

end Mining

end TetCore.Consensus
