import TetCore.Ledger.State

/-!
# Block records, the transaction index and block undo

Model of the bookkeeping of `ledger.rs` around a block: `record_block_summary`,
`record_block_record` (with the canonical height map and the chain tip),
`set_block_record_canonical`, `record_tx_indexes_batch`, and the undo records:
`prepare_block_undo` captures the old values of the keys a block can change, `apply_block_undo`
writes them back, `prune_history_after_block` forgets old ones.

The keys a transaction can change are listed by `undoKeysOf`, kind by kind, as in the source.
-/

namespace TetCore

open TetCore.Lib

namespace Ledger

/-! ## Records -/

/-- `record_block_summary`. -/
def recordBlockSummary (nowMs height : Nat) (blockId stateRoot : Str) (txCount : Nat)
    (L : Ledger) : Ledger :=
  { L with blocks := L.blocks.insert height ⟨height, blockId, stateRoot, txCount, nowMs⟩ }

/-- `block_summary_by_height`. -/
def blockSummaryByHeight (L : Ledger) (height : Nat) : Option BlockSummary := L.blocks.get height

/-- `canonical_block_id_at_height`. -/
def canonicalBlockIdAtHeight (L : Ledger) (height : Nat) : Option Str :=
  L.canonicalByHeight.get height

/-- `block_record_by_id`. -/
def blockRecordById (L : Ledger) (blockId : Str) : Option BlockRecordV1 :=
  L.blocksById.get (trim blockId)

/-- `chain_tip`. -/
def getChainTip (L : Ledger) : Option ChainTipV1 := L.chainTip.get ()

/-- `record_block_record`: the record, and for a canonical one the height map and the tip. -/
def recordBlockRecord (nowMs : Nat) (row : BlockRecordV1) (L : Ledger) :
    Except LedgerError Ledger := do
  let blockId := trim row.blockId
  require (blockId ≠ []) (.invalid "block_id required")
  let L := { L with blocksById := L.blocksById.insert blockId row }
  if row.canonical then
    .ok { L with
      canonicalByHeight := L.canonicalByHeight.insert row.height blockId
      chainTip := L.chainTip.insert ()
        ⟨1, row.height, blockId, row.cumulativeWeight, row.stateRoot, nowMs⟩ }
  else .ok L

/-- `set_block_record_canonical`. The row goes back under its own id, not under the one it was
looked up by. -/
def setBlockRecordCanonical (blockId : Str) (canonical : Bool) (L : Ledger) : Ledger :=
  match L.blockRecordById blockId with
  | none => L
  | some row =>
    { L with blocksById := L.blocksById.insert row.blockId { row with canonical := canonical } }

/-- One row of the transaction index. -/
def txIndexRow (nowMs blockHeight idx : Nat) (hash : Str) (tx : SignedTxEnvelopeV1)
    (canonical : Bool) : TxIndexRecordV1 where
  v := 1
  hash := normalizeTxHash hash
  blockHeight := blockHeight
  txIndex := idx
  txKind := tx.tx.kind
  workloadFlag := tx.tx.workloadFlag.asU8
  signerWallet := trimLower tx.sig.ed25519PubkeyHex
  canonical := canonical
  tx := tx
  indexedAtMs := nowMs

/-- The rows of a block's transactions, numbered from `idx`. -/
def txIndexRows (nowMs blockHeight : Nat) (canonical : Bool) :
    Nat → List (Str × SignedTxEnvelopeV1) → List (Str × TxIndexRecordV1)
  | _, [] => []
  | idx, (hash, tx) :: rest =>
    (normalizeTxHash hash, txIndexRow nowMs blockHeight idx hash tx canonical) ::
      txIndexRows nowMs blockHeight canonical (idx + 1) rest

/-- `record_tx_indexes_batch`. -/
def recordTxIndexesBatch (nowMs blockHeight : Nat) (txHashes : List Str)
    (txs : List SignedTxEnvelopeV1) (canonical : Bool) (L : Ledger) :
    Except LedgerError Ledger := do
  require (txHashes.length = txs.length) (.invalid "tx_hashes/txs length mismatch")
  .ok { L with
    txIndex := L.txIndex.applyBatch
      (txIndexRows nowMs blockHeight canonical 0 (txHashes.zip txs)) }

/-! ## Undo -/

/-- The keys one block part can change, tree by tree. -/
structure UndoKeys where
  balances : List Str
  metaKeys : List MetaKey
  txIndex : List Str
  workersRegistry : List Str

/-- The counters a fee moves. -/
def feeCounterKeys : List MetaKey := [.totalSupply, .totalBurned, .feeTotal]

/-- The keys of one transaction. -/
def undoKeysOf (W : World) (env : SignedTxEnvelopeV1) (txHash : Str) : UndoKeys :=
  let idx := [normalizeTxHash txHash]
  match env.tx with
  | .transfer fromWallet toWallet amountMicro feeBps =>
    let split := valueOr (charge (.transfer feeBps) amountMicro) .default
    let fee := 0 < split.feeMicro
    { balances := trimLower fromWallet :: trimLower toWallet ::
        (if fee then [walletWorkerPool] else [])
      metaKeys := (if fee then feeCounterKeys else []) ++ [remoteTxAppliedMetaKey txHash]
      txIndex := idx
      workersRegistry := [] }
  | .enterpriseInference _ _ _ _ _ _ _ _ => ⟨[], [aiWorkloadTxMetaKey txHash], idx, []⟩
  | .verifyZkProof taskId _ _ receiptB64 =>
    { balances := []
      metaKeys := zkVerifiedMetaKey (W.sha256Hex (utf8 receiptB64)) ::
        (if (trim taskId).isEmpty then [] else [aiWorkloadTxMetaKey taskId])
      txIndex := idx
      workersRegistry := [] }
  | .initialAirdrop walletId =>
    ⟨[walletWorkerPool, trimLower walletId],
      [remoteTxAppliedMetaKey txHash, .faucetInitialRecipientsCount], idx, []⟩
  | .fileFee fromWallet storageWallet _ _ =>
    let treasury := match W.treasuryAddressFromEnv with
      | .ok t => [t]
      | .error _ => []
    let storage := trimLower storageWallet
    { balances := trimLower fromWallet :: treasury ++ (if storage.isEmpty then [] else [storage])
      metaKeys := feeCounterKeys ++ [remoteTxAppliedMetaKey txHash]
      txIndex := idx
      workersRegistry := [] }
  | .workerRegister walletId _ _ _ _ =>
    ⟨[], [remoteTxAppliedMetaKey txHash], idx, [trimLower walletId]⟩
  | _ => ⟨[], [], idx, []⟩

/-- The keys of a block: its reward's, then its transactions'. -/
def blockUndoKeys (W : World) (txs : List SignedTxEnvelopeV1) (txHashes : List Str)
    (producerId : Str) (rewardMicro : Nat) : UndoKeys :=
  let ks := (txs.zip txHashes).map fun p => undoKeysOf W p.1 p.2
  { balances := (if 0 < rewardMicro then [walletWorkerPool, trimLower producerId] else []) ++
      ks.flatMap (·.balances)
    metaKeys := .ledgerBlockHeight :: ks.flatMap (·.metaKeys)
    txIndex := ks.flatMap (·.txIndex)
    workersRegistry := ks.flatMap (·.workersRegistry) }

/-- `prepare_block_undo`. -/
def prepareBlockUndo (W : World) (nowMs : Nat) (blockId : Str) (height : Nat)
    (txs : List SignedTxEnvelopeV1) (txHashes : List Str) (producerId : Str) (rewardMicro : Nat)
    (L : Ledger) : BlockUndoV1 :=
  let keys := blockUndoKeys W txs txHashes producerId rewardMicro
  { v := 1
    blockId := trim blockId
    height := height
    balances := L.balances.capture keys.balances
    metaKvs := L.metaTree.capture keys.metaKeys
    txIndex := L.txIndex.capture keys.txIndex
    canonicalByHeight := L.canonicalByHeight.capture [height]
    chainTip := L.chainTip.capture [()]
    blocks := L.blocks.capture [height]
    workersRegistry := L.workersRegistry.capture keys.workersRegistry
    createdAtMs := nowMs }

/-- `store_block_undo`. -/
def storeBlockUndo (undo : BlockUndoV1) (L : Ledger) : Ledger :=
  { L with blockUndo := L.blockUndo.insert (trim undo.blockId) undo }

/-- `block_undo_by_id`. -/
def blockUndoById (L : Ledger) (blockId : Str) : Option BlockUndoV1 :=
  L.blockUndo.get (trim blockId)

/-- Write the captured values of an undo record back (`restore_kvs` on each tree). -/
def restoreUndo (undo : BlockUndoV1) (L : Ledger) : Ledger :=
  { L with
    txIndex := L.txIndex.restore undo.txIndex
    blocks := L.blocks.restore undo.blocks
    canonicalByHeight := L.canonicalByHeight.restore undo.canonicalByHeight
    chainTip := L.chainTip.restore undo.chainTip
    metaTree := L.metaTree.restore undo.metaKvs
    balances := L.balances.restore undo.balances
    workersRegistry := L.workersRegistry.restore undo.workersRegistry }

/-- `apply_block_undo`. -/
def applyBlockUndo (blockId : Str) (L : Ledger) : Except LedgerError (BlockUndoV1 × Ledger) :=
  match L.blockUndoById blockId with
  | none => invalid ("missing block undo: " ++ String.ofList blockId)
  | some undo => .ok (undo, L.restoreUndo undo)

/-- `prune_history_after_block`, of the undo records. -/
def pruneHistoryAfterBlock (W : World) (currentHeight : Nat) (L : Ledger) : Ledger :=
  let undoFloor := currentHeight - W.pruneDepth
  let stale := (L.blockUndo.iter.filter fun r => decide (r.2.height < undoFloor)).map (·.1)
  { L with blockUndo := stale.foldl (fun t k => t.remove k) L.blockUndo }

end Ledger

end TetCore
