import TetCore.Consensus.Block

/-!
# Fork records and reorgs

Model of the fork handling of `consensus.rs`: the parent and the weight a block is recorded with,
the walks through the block records, `apply_block_record_forward`, `reorg_to_branch` and
`try_reorg_backfilled_branch`. The functions write the ledger as they go, so an error leaves what
was written before it: they are `Proc`s.

A walk through the records follows parent ids and has no bound of its own; here it takes `fuel` and
a walk that needs more does not return (`Outcome.hang`). One clock reading (`nowMs`) serves a call.
-/

namespace TetCore.Consensus

open TetCore.Lib
open TetCore.Ledger (applyConsensusBlockBatch recordTxIndexesBatch recordBlockSummary
  setBlockRecordCanonical applyBlockUndo)

/-! ## Parents, weights, records -/

/-- `parent_block_id_for_height`. -/
def parentBlockIdForHeight (L : Ledger) (blockHeight : Nat) : Except String (Option Str) :=
  if blockHeight = 0 then .ok none
  else if blockHeight = 1 then .ok none
  else
    let parentHeight := blockHeight - 1
    let missing := .error (s!"missing canonical parent for block height={blockHeight} " ++
      s!"(parent_height={parentHeight})")
    match L.canonicalBlockIdAtHeight parentHeight with
    | some id => .ok (some id)
    | none =>
      match L.getChainTip with
      | none => missing
      | some tip => if tip.height = parentHeight then .ok (some tip.blockId) else missing

/-- `cumulative_weight_for_block`. -/
def cumulativeWeightForBlock (L : Ledger) (parentBlockId : Option Str) (caacWeight : Nat) : Nat :=
  let parentWeight := match parentBlockId with
    | none => 0
    | some parentId => ((L.blockRecordById parentId).map (·.cumulativeWeight)).getD 0
  satAdd128 parentWeight (max caacWeight 1)

/-- `RecordBlockArgs`. -/
structure RecordBlockArgs where
  blockHeight : Nat
  blockId : Str
  parentBlockId : Option Str
  producerId : Str
  txHashes : List Str
  txs : List SignedTxEnvelopeV1
  stateRoot : Str
  reward : BlockReward
  canonical : Bool

/-- The record of a block whose parent is settled, with the weights of the ledger. -/
def RecordBlockArgs.row (args : RecordBlockArgs) (L : Ledger) (nowMs : Nat)
    (parentBlockId : Option Str) : BlockRecordV1 where
  v := 1
  height := args.blockHeight
  blockId := args.blockId
  parentBlockId := parentBlockId
  producerId := args.producerId
  txHashes := args.txHashes
  txs := args.txs
  stateRoot := args.stateRoot
  reward := args.reward
  caacWeight := caacBlockWeight L args.producerId
  cumulativeWeight :=
    cumulativeWeightForBlock L parentBlockId (caacBlockWeight L args.producerId)
  canonical := args.canonical
  tsMs := nowMs

/-- The parent a block is recorded with: its own, or the canonical one below it. -/
def recordedParent (L : Ledger) (blockHeight : Nat) : Option Str → Except String (Option Str)
  | some parent => .ok (some parent)
  | none => parentBlockIdForHeight L blockHeight

/-- `record_block_record` of `consensus.rs`. -/
def recordBlockRecord (nowMs : Nat) (args : RecordBlockArgs) (L : Ledger) :
    Except String Ledger := do
  let parentBlockId ← recordedParent L args.blockHeight args.parentBlockId
  (Ledger.recordBlockRecord nowMs (args.row L nowMs parentBlockId) L).mapError LedgerError.text

/-! ## Walks -/

/-- The parent of a stored block. -/
def parentOf (L : Ledger) (id : Str) : Option Str :=
  (L.blockRecordById id).bind (·.parentBlockId)

/-- The loop of `ancestor_ids_from_tip`; `none` when it needs more fuel. -/
def ancestorIdsFrom (L : Ledger) : Nat → Option Str → List Str → Option (List Str)
  | _, none, out => some out
  | 0, some _, _ => none
  | fuel + 1, some id, out =>
    if id ∈ out then some out else ancestorIdsFrom L fuel (parentOf L id) (id :: out)

/-- The second loop of `find_common_ancestor`: the first id in `ancestors`, or the empty id of
genesis at the end of the walk. -/
def walkToAncestor (L : Ledger) (ancestors : List Str) : Nat → Option Str → Option Str
  | _, none => some []
  | 0, some _ => none
  | fuel + 1, some id =>
    if id ∈ ancestors then some id else walkToAncestor L ancestors fuel (parentOf L id)

/-- `find_common_ancestor`. -/
def findCommonAncestor (L : Ledger) (fuel : Nat) (newTipId : Str) : Outcome String (Option Str) :=
  match L.getChainTip with
  | none => .ok none
  | some tip =>
    match ancestorIdsFrom L fuel (some (trim tip.blockId)) [] with
    | none => .hang
    | some ancestors =>
      match walkToAncestor L ancestors fuel (some (trim newTipId)) with
      | none => .hang
      | some id => .ok (some id)

/-- The loop of `branch_from_ancestor_to_tip`; the blocks come out oldest first. -/
def branchFrom (L : Ledger) (ancestorId : Str) :
    Nat → Option Str → List BlockRecordV1 → Outcome String (List BlockRecordV1)
  | _, none, branch => .ok branch
  | 0, some _, _ => .hang
  | fuel + 1, some id, branch =>
    if id = ancestorId then .ok branch
    else match L.blockRecordById id with
      | none => .err ("unknown block in branch: " ++ String.ofList id)
      | some block => branchFrom L ancestorId fuel block.parentBlockId (block :: branch)

/-- `branch_from_ancestor_to_tip`. -/
def branchFromAncestorToTip (L : Ledger) (fuel : Nat) (ancestorId newTipId : Str) :
    Outcome String (List BlockRecordV1) :=
  branchFrom L ancestorId fuel (some (trim newTipId)) []

/-! ## One block forward, one block back -/

/-- The undo record a block is applied under. -/
def undoFor (W : World) (nowMs : Nat) (block : BlockRecordV1) (L : Ledger) : BlockUndoV1 :=
  L.prepareBlockUndo W nowMs block.blockId block.height block.txs block.txHashes block.producerId
    block.reward.totalRewardMicro

/-- `apply_block_record_forward`. -/
def applyBlockRecordForward (W : World) (nowMs : Nat) (block : BlockRecordV1) :
    Proc Ledger String Unit := do
  Proc.check id fun L => validateZkTaskClaims W L block.txs
  let expectedReward ← Proc.check id fun _ => rewardForBlock W block.txs
  Proc.check id fun _ => require (expectedReward = block.reward)
    ("reorg reward mismatch block=" ++ String.ofList block.blockId)
  Proc.write fun L => L.storeBlockUndo (undoFor W nowMs block L)
  let actualRoot ← Proc.atomic LedgerError.text fun L =>
    applyConsensusBlockBatch W nowMs block.height block.txs block.txHashes block.producerId
      block.reward.totalRewardMicro L
  -- the batch is committed by now
  Proc.check id fun _ => require (actualRoot = block.stateRoot)
    ("reorg state_root mismatch block=" ++ String.ofList block.blockId ++ " expected=" ++
      String.ofList block.stateRoot ++ " actual=" ++ String.ofList actualRoot)
  Proc.write (recordBlockSummary nowMs block.height block.blockId block.stateRoot block.txs.length)
  Proc.update LedgerError.text (Ledger.recordBlockRecord nowMs { block with canonical := true })
  Proc.update LedgerError.text (recordTxIndexesBatch nowMs block.height block.txHashes block.txs true)

/-- The branch of a reorg, oldest block first. -/
def applyBranch (W : World) (nowMs : Nat) : List BlockRecordV1 → Proc Ledger String Unit
  | [] => pure ()
  | block :: branch => do
    applyBlockRecordForward W nowMs block
    applyBranch W nowMs branch

/-- One step of the unwind: undo the block `id`, whose record is `block`. -/
def unwindBlock (nowMs : Nat) (id : Str) (block : BlockRecordV1) : Proc Ledger String Unit := do
  let _ ← Proc.atomic LedgerError.text (applyBlockUndo id)
  Proc.write (setBlockRecordCanonical id false)
  Proc.update LedgerError.text
    (recordTxIndexesBatch nowMs block.height block.txHashes block.txs false)

/-- The record of a block on the way down. -/
def blockToUnwind (id : Str) (L : Ledger) : Outcome String BlockRecordV1 :=
  match L.blockRecordById id with
  | none => .err ("missing canonical block during unwind: " ++ String.ofList id)
  | some block => .ok block

/-- The unwind of `reorg_to_branch`, from `cur` down to the ancestor. -/
def unwindTo (nowMs : Nat) (ancestor : Str) : Nat → Option Str → Proc Ledger String Unit
  | _, none => pure ()
  | 0, some _ => Proc.hang
  | fuel + 1, some id =>
    if id = ancestor then pure ()
    else do
      let block ← Proc.observe (blockToUnwind id)
      unwindBlock nowMs id block
      unwindTo nowMs ancestor fuel block.parentBlockId

/-! ## Reorgs -/

/-- What a reorg will do: unwind from a tip to an ancestor, then apply a branch. -/
structure ReorgPlan where
  tip : ChainTipV1
  ancestor : Str
  branch : List BlockRecordV1

/-- The part of `reorg_to_branch` that only reads; `none` when there is no heavier branch. -/
def planReorg (L : Ledger) (fuel : Nat) (newTipId : Str) : Outcome String (Option ReorgPlan) :=
  match L.getChainTip with
  | none => .ok none
  | some currentTip =>
    match L.blockRecordById newTipId with
    | none => .err ("unknown new tip: " ++ String.ofList newTipId)
    | some newTip =>
      if newTip.cumulativeWeight ≤ currentTip.cumulativeWeight then .ok none
      else match findCommonAncestor L fuel newTip.blockId with
        | .hang => .hang
        | .err e => .err e
        | .ok none => .err "no common ancestor found"
        | .ok (some ancestor) =>
          match branchFromAncestorToTip L fuel ancestor newTip.blockId with
          | .hang => .hang
          | .err e => .err e
          | .ok branch => .ok (some ⟨currentTip, ancestor, branch⟩)

/-- The part of `reorg_to_branch` that writes. -/
def runReorg (W : World) (nowMs fuel : Nat) (plan : ReorgPlan) : Proc Ledger String Unit := do
  unwindTo nowMs plan.ancestor fuel (some plan.tip.blockId)
  applyBranch W nowMs plan.branch

/-- `reorg_to_branch`. -/
def reorgToBranch (W : World) (nowMs fuel : Nat) (newTipId : Str) : Proc Ledger String Bool := do
  match ← Proc.observe fun L => planReorg L fuel newTipId with
  | none => pure false
  | some plan => do
    runReorg W nowMs fuel plan
    pure true

/-- Record a branch again with the weights of the ledger, not canonical. -/
def reweighBranch (nowMs : Nat) : List BlockRecordV1 → Proc Ledger String Unit
  | [] => pure ()
  | block :: branch => do
    Proc.update LedgerError.text fun L => Ledger.recordBlockRecord nowMs
      { block with
        caacWeight := caacBlockWeight L block.producerId
        cumulativeWeight := cumulativeWeightForBlock L block.parentBlockId
          (caacBlockWeight L block.producerId)
        canonical := false } L
    reweighBranch nowMs branch

/-- The branch `try_reorg_backfilled_branch` works on; `none` when it declines. -/
def planBackfilled (L : Ledger) (fuel : Nat) (newTipId : Str) :
    Outcome String (Option (List BlockRecordV1)) :=
  match L.blockRecordById newTipId with
  | none => .ok none
  | some _ =>
    match L.getChainTip with
    | none => .ok none
    | some _ =>
      match findCommonAncestor L fuel newTipId with
      | .hang => .hang
      | .err e => .err e
      | .ok none => .ok none
      | .ok (some ancestor) =>
        match branchFromAncestorToTip L fuel ancestor newTipId with
        | .hang => .hang
        | .err e => .err e
        | .ok branch => .ok (some branch)

/-- `try_reorg_backfilled_branch`. -/
def tryReorgBackfilledBranch (W : World) (nowMs fuel : Nat) (newTipId : Str) :
    Proc Ledger String Bool := do
  match ← Proc.observe fun L => planBackfilled L fuel newTipId with
  | none => pure false
  | some branch => do
    reweighBranch nowMs branch
    reorgToBranch W nowMs fuel newTipId

end TetCore.Consensus
