import TetCore.Consensus.Gossip

/-!
# Mining

Model of the block producer of `consensus.rs`: `mine_pending_block_as` takes the mempool, drops
what is settled or repeated, selects the transactions that make a valid block, and builds, applies
and records the block; `mine_coinbase_only_block_as` mines a block without transactions. The
mempool and the count of failed blocks are part of the node's state; the durable copy of the mempool
and the gossip of the mined block are left out.
-/

namespace TetCore.Consensus

open TetCore.Lib
open TetCore.Ledger (applyConsensusBlockBatch recordTxIndexesBatch recordBlockSummary
  computeStateRootAfterRemoteBlock)

/-- `MineError`. -/
inductive MineError where
  | unauthorized (msg : String)
  | badRequest (msg : String)
  deriving DecidableEq

/-- `MineOutcome`. -/
structure MineOutcome where
  mined : Bool
  blockHeight : Nat
  blockId : Str
  producerId : Str
  stateRoot : Str
  txHashes : List Str
  txCount : Nat
  reward : BlockReward
  deriving DecidableEq

/-- What a node keeps between calls: the ledger, the mempool and `BLOCK_FAILURES`. -/
structure Node where
  ledger : Ledger
  mempool : List SignedTxEnvelopeV1
  blockFailures : Nat

/-! ## Selecting transactions -/

/-- The filter of `mine_pending_block_as`: no repetition, nothing already settled. -/
def dropSettled (W : World) (L : Ledger) :
    List SignedTxEnvelopeV1 → List Str → Except MineError (List SignedTxEnvelopeV1)
  | [], _ => .ok []
  | env :: txs, seen => do
    let h ← (txHashForEnv W env).mapError .unauthorized
    if h ∈ seen then dropSettled W L txs seen
    else if L.isTxApplied h then dropSettled W L txs (h :: seen)
    else do
      let kept ← dropSettled W L txs (h :: seen)
      .ok (env :: kept)

/-- `block_txs_ok`. -/
def blockTxsOk (W : World) (L : Ledger) (nowMs : Nat) (txs : List SignedTxEnvelopeV1)
    (producerId : Str) : Bool :=
  match validateZkTaskClaims W L txs, rewardForBlock W txs with
  | .ok _, .ok reward =>
    (computeStateRootAfterRemoteBlock W L nowMs txs producerId reward.totalRewardMicro).isOk
  | _, _ => false

/-- `SELECT_ONE_BY_ONE_MAX`. -/
def selectOneByOneMax : Nat := 256

/-- `select_block_txs`: the transactions of the block and those left for a later one. -/
def selectBlockTxs (W : World) (L : Ledger) (nowMs : Nat) (txs : List SignedTxEnvelopeV1)
    (producerId : Str) : List SignedTxEnvelopeV1 × List SignedTxEnvelopeV1 :=
  if blockTxsOk W L nowMs txs producerId then (txs, [])
  else
    let kept := (txs.take selectOneByOneMax).foldl (fun kept env =>
      if blockTxsOk W L nowMs (kept ++ [env]) producerId then kept ++ [env] else kept) []
    (kept, txs.drop selectOneByOneMax)

/-- `requeue_txs_front`: back to the front of the mempool, unless already there. -/
def requeueTxsFront (W : World) (txs mempool : List SignedTxEnvelopeV1) :
    List SignedTxEnvelopeV1 :=
  let front := txs.foldl (fun front env =>
    match txHashForEnv W env with
    | .error _ => front
    | .ok h =>
      if (mempool ++ front).any fun e =>
          match txHashForEnv W e with
          | .ok x => x == h
          | .error _ => false
        then front else front ++ [env]) []
  front ++ mempool

/-! ## Making a block -/

/-- `PreparedBlock`, with its height and undo record. -/
structure PreparedBlock where
  blockHeight : Nat
  producerId : Str
  txs : List SignedTxEnvelopeV1
  txHashes : List Str
  parentBlockId : Option Str
  reward : BlockReward
  blockId : Str

/-- The checks and values of `prepare_block` and of the coinbase-only block. -/
def planBlock (W : World) (nowMs : Nat) (producerId : Str) (txs : List SignedTxEnvelopeV1)
    (L : Ledger) : Except MineError PreparedBlock := do
  let txHashes ← (txs.mapM (txHashForEnv W)).mapError .unauthorized
  let nextHeight := satAdd L.blockHeight 1
  let parentBlockId ← (parentBlockIdForHeight L nextHeight).mapError .badRequest
  (validateZkTaskClaims W L txs).mapError .unauthorized
  let reward ← (rewardForBlock W txs).mapError .unauthorized
  let previewStateRoot ← (computeStateRootAfterRemoteBlock W L nowMs txs producerId
    reward.totalRewardMicro).mapError fun e => .badRequest e.text
  let blockId := blockIdForBlock W nextHeight (parentBlockId.getD []) previewStateRoot txHashes
    producerId
  .ok ⟨nextHeight, producerId, txs, txHashes, parentBlockId, reward, blockId⟩

/-- `prepare_block`: the plan, with its undo record stored. -/
def prepareBlock (W : World) (nowMs : Nat) (producerId : Str) (txs : List SignedTxEnvelopeV1) :
    Proc Ledger MineError PreparedBlock := do
  let b ← Proc.check id (planBlock W nowMs producerId txs)
  Proc.write fun L => L.storeBlockUndo (L.prepareBlockUndo W nowMs b.blockId b.blockHeight b.txs
    b.txHashes b.producerId b.reward.totalRewardMicro)
  pure b

/-- The record of a mined block. -/
def PreparedBlock.recordArgs (b : PreparedBlock) (stateRoot : Str) : RecordBlockArgs :=
  ⟨b.blockHeight, b.blockId, b.parentBlockId, b.producerId, b.txHashes, b.txs, stateRoot, b.reward,
    true⟩

/-- The writes of `finish_block`, each best effort. -/
def finishBlock (nowMs : Nat) (b : PreparedBlock) (stateRoot : Str) (L : Ledger) : Ledger :=
  let L := L.recordBlockSummary nowMs b.blockHeight b.blockId stateRoot b.txs.length
  let L := valueOr (recordBlockRecord nowMs (b.recordArgs stateRoot) L) L
  valueOr (recordTxIndexesBatch nowMs b.blockHeight b.txHashes b.txs true L) L

/-- `BuildError`. -/
inductive BuildError where
  | nothingWritten (e : MineError)
  | maybeWritten (e : MineError)
  deriving DecidableEq

/-- The error a caller sees. -/
def BuildError.error : BuildError → MineError
  | .nothingWritten e => e
  | .maybeWritten e => e

/-- The error of a failed apply: only a storage error may have written part of the block. -/
def applyError : LedgerError → BuildError
  | .sled msg => .maybeWritten (.badRequest (LedgerError.sled msg).text)
  | e => .nothingWritten (.badRequest e.text)

/-- `build_and_apply_block`. -/
def buildAndApplyBlock (W : World) (nowMs : Nat) (producerId : Str)
    (txs : List SignedTxEnvelopeV1) : Proc Ledger BuildError MineOutcome := do
  let b ← Proc.mapErr .nothingWritten (prepareBlock W nowMs producerId txs)
  let stateRoot ← Proc.atomic applyError fun L =>
    applyConsensusBlockBatch W nowMs b.blockHeight b.txs b.txHashes b.producerId
      b.reward.totalRewardMicro L
  Proc.write (finishBlock nowMs b stateRoot)
  pure ⟨true, b.blockHeight, b.blockId, b.producerId, stateRoot, b.txHashes, b.txs.length, b.reward⟩

/-- The producer of a mined block. -/
def minerId (W : World) (producerId : Str) : Str := (consensusIdentity producerId).getD W.localNodeId

/-- `mine_coinbase_only_block_as`. Without transactions there are no claims to validate and no index
rows to write, so its steps are those of `build_and_apply_block`. -/
def mineCoinbaseOnlyBlockAs (W : World) (nowMs : Nat) (producerId : Str) :
    Proc Ledger MineError MineOutcome :=
  Proc.mapErr BuildError.error (buildAndApplyBlock W nowMs (minerId W producerId) [])

/-- `PRE_APPLY_REQUEUE_MAX`. -/
def preApplyRequeueMax : Nat := 3

/-- `after_failure`: whether the transactions of a failed block go back to the mempool. -/
def requeueAfterFailure (failuresInARow batchLen : Nat) : Bool :=
  1 < batchLen || failuresInARow < preApplyRequeueMax

/-- `mine_pending_block_as`. -/
def minePendingBlockAs (W : World) (nowMs : Nat) (producerId : Str) :
    Proc Node MineError MineOutcome := fun s =>
  let producerId := minerId W producerId
  if blockContainsAiWorkload s.mempool && !producerCanMineAiWorkload s.ledger producerId then
    (.err (.unauthorized
      ("producer_id=" ++ String.ofList producerId ++ " is not POC for AI workload")), s)
  else match dropSettled W s.ledger s.mempool [] with
  | .error e => (.err e, { s with mempool := [] })
  | .ok pending =>
    let (selected, left) := selectBlockTxs W s.ledger nowMs pending producerId
    -- after a failed block, one transaction at a time
    let alone := decide (0 < s.blockFailures) && decide (1 < selected.length)
    let txs := if alone then selected.take 1 else selected
    let later := if alone then selected.drop 1 ++ left else left
    let mempool := requeueTxsFront W later []
    match buildAndApplyBlock W nowMs producerId txs s.ledger with
    | (.ok outcome, L) => (.ok outcome, ⟨L, mempool, 0⟩)
    | (.err (.nothingWritten e), L) =>
      let n := s.blockFailures + 1
      if requeueAfterFailure n txs.length then (.err e, ⟨L, requeueTxsFront W txs mempool, n⟩)
      else (.err e, ⟨L, mempool, 0⟩)
    | (.err (.maybeWritten e), L) => (.err e, ⟨L, mempool, 0⟩)
    | (.hang, L) => (.hang, ⟨L, mempool, s.blockFailures⟩)

end TetCore.Consensus
