import TetCore.Consensus.Calls
import TetCore.Ledger.Errors

/-!
# Attempts to mine

One call of `mine_pending_block_as` while other transactions arrive (`mineInterleaved`; without
arrivals it is `minePendingBlockAs`). An attempt takes the mempool, filters it, makes a block of some
transactions and leaves others for later (`blockOf`), and the block is made or fails with nothing
written (`buildAndApplyBlock_cases`): a storage error does not come up.
-/

namespace TetCore.Consensus

open TetCore.Lib
open TetCore.Ledger (applyConsensusBlockBatch)

section Attempts

variable {W : World} {nowMs : Nat} {L L' : Ledger} {producerId : Str}
  {txs pending : List SignedTxEnvelopeV1}

/-- The transactions an attempt makes a block of, and those it leaves for later: after a failed
block, one transaction at a time. -/
def blockOf (W : World) (L : Ledger) (nowMs : Nat) (pending : List SignedTxEnvelopeV1)
    (producerId : Str) (blockFailures : Nat) :
    List SignedTxEnvelopeV1 × List SignedTxEnvelopeV1 :=
  let (selected, left) := selectBlockTxs W L nowMs pending producerId
  if decide (0 < blockFailures) && decide (1 < selected.length) then
    (selected.take 1, selected.drop 1 ++ left)
  else (selected, left)

/-- The AI workload check, which refuses the call before the mempool is taken. -/
def gateRefuses (W : World) (producerId : Str) (s : Node) : Bool :=
  blockContainsAiWorkload s.mempool && !producerCanMineAiWorkload s.ledger (minerId W producerId)

/-- `mine_pending_block_as` while transactions arrive: `a₁` before those left for later are put
back, `a₂` before those of a failed block are put back, `a₃` before the call returns. -/
def mineInterleaved (W : World) (nowMs : Nat) (producerId : Str)
    (a₁ a₂ a₃ : List SignedTxEnvelopeV1) : Proc Node MineError MineOutcome := fun s =>
  if gateRefuses W producerId s then
    (.err (.unauthorized ("producer_id=" ++ String.ofList (minerId W producerId) ++
      " is not POC for AI workload")), { s with mempool := s.mempool ++ (a₁ ++ a₂ ++ a₃) })
  else match dropSettled W s.ledger s.mempool [] with
  | .error e => (.err e, { s with mempool := a₁ ++ a₂ ++ a₃ })
  | .ok pending =>
    let (txs, later) := blockOf W s.ledger nowMs pending (minerId W producerId) s.blockFailures
    let mempool := requeueTxsFront W later a₁ ++ a₂
    match buildAndApplyBlock W nowMs (minerId W producerId) txs s.ledger with
    | (.ok outcome, L) => (.ok outcome, ⟨L, mempool ++ a₃, 0⟩)
    | (.err (.nothingWritten e), L) =>
      let n := s.blockFailures + 1
      if requeueAfterFailure n txs.length then
        (.err e, ⟨L, requeueTxsFront W txs mempool ++ a₃, n⟩)
      else (.err e, ⟨L, mempool ++ a₃, 0⟩)
    | (.err (.maybeWritten e), L) => (.err e, ⟨L, mempool ++ a₃, 0⟩)
    | (.hang, L) => (.hang, ⟨L, mempool ++ a₃, s.blockFailures⟩)

/-- **Without arrivals** it is `mine_pending_block_as`. -/
theorem mineInterleaved_nil (s : Node) :
    mineInterleaved W nowMs producerId [] [] [] s = minePendingBlockAs W nowMs producerId s := by
  unfold mineInterleaved minePendingBlockAs gateRefuses blockOf
  simp only [List.append_nil]
  split
  · rfl
  · cases dropSettled W s.ledger s.mempool [] with
    | error e => rfl
    | ok pending =>
      by_cases halone : (decide (0 < s.blockFailures) &&
          decide (1 < (selectBlockTxs W s.ledger nowMs pending (minerId W producerId)).1.length)) = true
      · simp only [if_pos halone] <;> rfl
      · simp only [if_neg halone] <;> rfl

/-! ## The block -/

/-- The transactions of a block that is made: their hashes are the outcome's, and they are stored
in its record. -/
def MadeOf (W : World) (outcome : MineOutcome) (L : Ledger) (txs : List SignedTxEnvelopeV1) :
    Prop :=
  txs.mapM (txHashForEnv W) = .ok outcome.txHashes ∧
    ∃ row, L.blockRecordById outcome.blockId = some row ∧ row.txs = txs

/-- **A block is made or nothing is written.** -/
theorem buildAndApplyBlock_cases (W : World) (nowMs : Nat) (producerId : Str)
    (txs : List SignedTxEnvelopeV1) (L : Ledger) :
    (∃ outcome L', buildAndApplyBlock W nowMs producerId txs L = (.ok outcome, L') ∧
      MadeOf W outcome L' txs) ∨
    ∃ e L', buildAndApplyBlock W nowMs producerId txs L = (.err (.nothingWritten e), L') := by
  cases hplan : planBlock W nowMs producerId txs L with
  | error e =>
    right
    refine ⟨e, L, ?_⟩
    simp only [buildAndApplyBlock, prepareBlock, Proc.bind_apply, Proc.mapErr, Proc.check, hplan, id]
  | ok b =>
    have hstorage := Ledger.apply_noStorageError W nowMs b.blockHeight b.txs b.txHashes b.producerId
      b.reward.totalRewardMicro (L.storeBlockUndo (L.prepareBlockUndo W nowMs b.blockId b.blockHeight
        b.txs b.txHashes b.producerId b.reward.totalRewardMicro))
    cases hr : applyConsensusBlockBatch W nowMs b.blockHeight b.txs b.txHashes b.producerId
      b.reward.totalRewardMicro (L.storeBlockUndo (L.prepareBlockUndo W nowMs b.blockId
        b.blockHeight b.txs b.txHashes b.producerId b.reward.totalRewardMicro)) with
    | error e =>
      right
      have hrun : (buildAndApplyBlock W nowMs producerId txs L).1 = .err (applyError e) := by
        simp only [buildAndApplyBlock, prepareBlock, Proc.bind_apply, Proc.mapErr, Proc.check, hplan,
          Proc.write_apply, Proc.pure_apply, Proc.atomic, hr]
      have he := hstorage e hr
      cases e with
      | sled msg => cases he
      | _ => exact ⟨_, _, Prod.ext hrun rfl⟩
    | ok p =>
      left
      obtain ⟨root, L₁⟩ := p
      have hrun : buildAndApplyBlock W nowMs producerId txs L = (.ok ⟨true, b.blockHeight, b.blockId,
          b.producerId, root, b.txHashes, b.txs.length, b.reward⟩, finishBlock nowMs b root L₁) := by
        simp only [buildAndApplyBlock, prepareBlock, Proc.bind_apply, Proc.mapErr, Proc.check, hplan,
          Proc.write_apply, Proc.pure_apply, Proc.atomic, hr]
      refine ⟨_, _, hrun, ?_⟩
      obtain ⟨b', root', M, hplan', -, happ⟩ := buildAndApplyBlock_ok hrun
      rw [hplan, Except.ok.injEq] at hplan'
      subst hplan'
      obtain ⟨-, hhash, htxs, -⟩ := planBlock_ok hplan
      obtain ⟨-, hby, -⟩ := happ.hidden
      refine ⟨hhash, (b.recordArgs root').row M nowMs b.parentBlockId, ?_, htxs⟩
      rw [Ledger.blockRecordById, hby]
      exact Tree.get_insert_self _ _ _

end Attempts

end TetCore.Consensus
