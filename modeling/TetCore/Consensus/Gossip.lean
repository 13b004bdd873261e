import TetCore.Consensus.Reorg

/-!
# Blocks from peers

Model of `apply_remote_block_from_gossip_sync` and `validate_and_record_backfill_candidate`: the
checks a remote block must pass, the append path for the next height, the fork path for the current
height, and the recording of backfilled candidates. Mempool eviction and pruning, which the async
wrapper does afterwards, are steps of their own.
-/

namespace TetCore.Consensus

open TetCore.Lib
open TetCore.Ledger (applyConsensusBlockBatch recordTxIndexesBatch recordBlockSummary
  computeStateRootAfterRemoteBlock)

/-- `RemoteBlockGossip`. -/
structure RemoteBlockGossip where
  blockHeight : Nat
  blockId : Str
  parentBlockId : Option Str
  producerId : Str
  baseRewardMicro : Nat
  computeRewardMicro : Nat
  totalRewardMicro : Nat
  stateRoot : Str
  txs : List SignedTxEnvelopeV1
  deriving DecidableEq

/-- `RemoteBlockApplyError`. -/
inductive RemoteBlockApplyError where
  | rejected (msg : String)
  | ledger (msg : String)
  deriving DecidableEq

/-- `RemoteBlockApplyOutcome`, and the outcome that still has to evict the mempool. -/
inductive RemoteBlockSyncOutcome where
  | applied (blockHeight txCount evictedCount : Nat) (stateRoot : Str)
  | forkLost (reason : String)
  | skipped (reason : String)
  | appliedPendingEviction (blockHeight txCount : Nat) (txHashes : List Str) (stateRoot : Str)
  deriving DecidableEq

/-! ## Checks -/

/-- The producer must be the elected leader of the height. -/
def checkProducer (W : World) (L : Ledger) (blockHeight : Nat) (producerId : Str) :
    Except RemoteBlockApplyError Str :=
  match consensusIdentity producerId with
  | none => .error (.rejected "producer_id required")
  | some producerId => do
    let validators := validatorSetFromEnvOrSingle W
    require (validatorSetContains validators producerId = true)
      (.rejected ("producer_id is not in validator set: " ++ String.ofList producerId))
    match leaderForHeight W L blockHeight validators with
    | none => .error (.rejected "validator set is empty")
    | some leader => do
      require (leader = producerId) (.rejected (s!"invalid leader for height={blockHeight} " ++
        "expected=" ++ String.ofList leader ++ " received=" ++ String.ofList producerId))
      .ok producerId

/-- The hashes of a block's transactions, which must be distinct. -/
def hashTxs (W : World) : List SignedTxEnvelopeV1 → List Str →
    Except RemoteBlockApplyError (List Str)
  | [], _ => .ok []
  | env :: txs, seen => do
    match txHashForEnv W env with
    | .error e => .error (.rejected e)
    | .ok txHash => do
      require (txHash ∉ seen) (.rejected ("duplicate tx in block: " ++ String.ofList txHash))
      let rest ← hashTxs W txs (txHash :: seen)
      .ok (txHash :: rest)

/-- `resolve_parent_block_id`. -/
def resolveParentBlockId (L : Ledger) (blockHeight : Nat) (explicit : Option Str) :
    Except RemoteBlockApplyError (Option Str) := do
  let explicit := (explicit.map trim).filter fun p => !p.isEmpty
  match parentBlockIdForHeight L blockHeight with
  | .error e => .error (.ledger e)
  | .ok expected =>
    match explicit, expected with
    | some got, some exp =>
      if got = exp then .ok (some got)
      else .error (.rejected ("parent_block_id mismatch expected=" ++ String.ofList exp ++
        " received=" ++ String.ofList got))
    | some got, none => .ok (some got)
    | none, exp => .ok exp

/-- The parent of a gossiped block: checked for the next height, taken as given for the current
one. -/
def gossipParent (L : Ledger) (blockHeight : Nat) (explicit : Option Str) :
    Except RemoteBlockApplyError (Option Str) :=
  if blockHeight = satAdd L.blockHeight 1 then resolveParentBlockId L blockHeight explicit
  else .ok (((explicit.map trim).filter fun p => !p.isEmpty).or
    (valueOr (parentBlockIdForHeight L blockHeight) none))

/-- What the checks of a remote block establish. -/
structure CheckedBlock where
  producerId : Str
  txHashes : List Str
  reward : BlockReward

/-- The checks after the parent is known: hashes, block id, AI workload, ZK claims, reward. -/
def checkBlock (W : World) (L : Ledger) (block : RemoteBlockGossip) (producerId : Str)
    (parentBlockId : Option Str) : Except RemoteBlockApplyError CheckedBlock := do
  let txHashes ← hashTxs W block.txs []
  let expectedBlockId := blockIdForBlock W block.blockHeight (parentBlockId.getD [])
    block.stateRoot txHashes producerId
  require (expectedBlockId = block.blockId)
    (.rejected ("block_id mismatch expected=" ++ String.ofList expectedBlockId ++ " received=" ++
      String.ofList block.blockId))
  require (blockContainsAiWorkload block.txs = false ∨
      producerCanMineAiWorkload L producerId = true)
    (.rejected ("producer_id=" ++ String.ofList producerId ++ " is not POC for AI workload"))
  (validateZkTaskClaims W L block.txs).mapError .rejected
  let reward ← (rewardForBlock W block.txs).mapError .rejected
  let got : BlockReward :=
    ⟨block.baseRewardMicro, block.computeRewardMicro, block.totalRewardMicro⟩
  require (reward = got) (.rejected
    (s!"block reward mismatch expected=({reward.baseRewardMicro},{reward.computeRewardMicro}," ++
      s!"{reward.totalRewardMicro}) received=({got.baseRewardMicro},{got.computeRewardMicro}," ++
      s!"{got.totalRewardMicro})"))
  .ok ⟨producerId, txHashes, reward⟩

/-- The record of a checked remote block. -/
def RemoteBlockGossip.recordArgs (block : RemoteBlockGossip) (c : CheckedBlock)
    (parentBlockId : Option Str) (canonical : Bool) : RecordBlockArgs :=
  ⟨block.blockHeight, block.blockId, parentBlockId, c.producerId, c.txHashes, block.txs,
    block.stateRoot, c.reward, canonical⟩

/-! ## Backfill -/

/-- `validate_and_record_backfill_candidate`: the record as stored. -/
def validateAndRecordBackfillCandidate (W : World) (nowMs : Nat) (block : RemoteBlockGossip) :
    Proc Ledger RemoteBlockApplyError BlockRecordV1 := do
  let producerId ← Proc.check id fun L => checkProducer W L block.blockHeight block.producerId
  let c ← Proc.check id fun L => checkBlock W L block producerId block.parentBlockId
  Proc.update .ledger (recordBlockRecord nowMs (block.recordArgs c block.parentBlockId false))
  Proc.observe fun L => match L.blockRecordById block.blockId with
    | none => .err (.ledger ("stored block not found: " ++ String.ofList block.blockId))
    | some row => .ok row

/-! ## Gossip -/

/-- A block of the current height: recorded as a fork and tried as a reorg. -/
def applyFork (W : World) (nowMs fuel : Nat) (block : RemoteBlockGossip) (c : CheckedBlock)
    (parentBlockId : Option Str) : Proc Ledger RemoteBlockApplyError RemoteBlockSyncOutcome := do
  match ← Proc.read (·.blockSummaryByHeight block.blockHeight) with
  | none => pure (.skipped s!"same height already applied height={block.blockHeight}")
  | some summary => do
    let applied ← if summary.blockId = block.blockId then pure false
      else do
        -- the record is best effort
        Proc.write fun L =>
          valueOr (recordBlockRecord nowMs (block.recordArgs c parentBlockId false) L) L
        Proc.mapErr .ledger (reorgToBranch W nowMs fuel block.blockId)
    if applied then
      pure (.applied block.blockHeight block.txs.length 0 block.stateRoot)
    else if remoteWinsFork summary.blockId block.blockId then
      pure (.forkLost ("remote block wins fork by block_id but reorg is not implemented local=" ++
        String.ofList summary.blockId ++ " remote=" ++ String.ofList block.blockId))
    else pure (.skipped ("remote block lost fork choice local=" ++ String.ofList summary.blockId ++
      " remote=" ++ String.ofList block.blockId))

/-- A block of the next height: previewed, applied and recorded. -/
def applyNext (W : World) (nowMs : Nat) (block : RemoteBlockGossip) (c : CheckedBlock)
    (parentBlockId : Option Str) : Proc Ledger RemoteBlockApplyError RemoteBlockSyncOutcome := do
  let expectedStateRoot ← Proc.check (fun e : LedgerError => .rejected e.text) fun L =>
    computeStateRootAfterRemoteBlock W L nowMs block.txs c.producerId c.reward.totalRewardMicro
  Proc.check id fun _ => require (expectedStateRoot = block.stateRoot)
    (.rejected ("state_root mismatch expected=" ++ String.ofList expectedStateRoot ++
      " received=" ++ String.ofList block.stateRoot))
  Proc.write fun L => L.storeBlockUndo (L.prepareBlockUndo W nowMs block.blockId block.blockHeight
    block.txs c.txHashes c.producerId c.reward.totalRewardMicro)
  let actualStateRoot ← Proc.atomic (fun e : LedgerError => .ledger e.text) fun L =>
    applyConsensusBlockBatch W nowMs block.blockHeight block.txs c.txHashes c.producerId
      c.reward.totalRewardMicro L
  -- the batch is committed by now
  Proc.check id fun _ => require (actualStateRoot = block.stateRoot)
    (.ledger ("post-apply state_root mismatch expected=" ++ String.ofList block.stateRoot ++
      " actual=" ++ String.ofList actualStateRoot))
  Proc.write (recordBlockSummary nowMs block.blockHeight block.blockId block.stateRoot
    block.txs.length)
  Proc.update .ledger (recordBlockRecord nowMs (block.recordArgs c parentBlockId true))
  Proc.update (fun e : LedgerError => .ledger e.text)
    (recordTxIndexesBatch nowMs block.blockHeight c.txHashes block.txs true)
  pure (.appliedPendingEviction block.blockHeight block.txs.length c.txHashes block.stateRoot)

/-- `apply_remote_block_from_gossip_sync`. -/
def applyRemoteBlockFromGossipSync (W : World) (nowMs fuel : Nat) (block : RemoteBlockGossip) :
    Proc Ledger RemoteBlockApplyError RemoteBlockSyncOutcome := do
  let localHeight ← Proc.read (·.blockHeight)
  if block.blockHeight < localHeight then
    pure (.skipped s!"stale block height={block.blockHeight} local_height={localHeight}")
  else if satAdd localHeight 1 < block.blockHeight then
    pure (.skipped
      s!"missing previous blocks height={block.blockHeight} local_height={localHeight}")
  else do
    let producerId ← Proc.check id fun L => checkProducer W L block.blockHeight block.producerId
    let parentBlockId ← Proc.check id fun L => gossipParent L block.blockHeight block.parentBlockId
    let c ← Proc.check id fun L => checkBlock W L block producerId parentBlockId
    if block.blockHeight = localHeight then applyFork W nowMs fuel block c parentBlockId
    else applyNext W nowMs block c parentBlockId

end TetCore.Consensus
