import TetCore.Ledger.State
import Mathlib.Data.List.Sort
import Mathlib.Data.List.Destutter

/-!
# Block preview and block apply

Model of `compute_state_root_after_remote_block` (the preview, which writes nothing) and of
`apply_consensus_block_batch` (the commit). The two are separate folds over the block's
transactions, as in `ledger.rs`: the preview keeps a copy of the balances, the apply also keeps the
counters, the `dirty` balance keys and the batches it writes at the end. All of the apply's checks
come before its first write, so it is an `Except` whose success carries the new ledger.

Every function takes the arithmetic it computes with (`Arith`); the source is the `saturating` one.
The clock is read once per call (`nowMs`).
-/

namespace TetCore

open TetCore.Lib

/-- `FeeSplit::fee_micro` with the given arithmetic. -/
def FeeSplit.feeMicroWith (A : Arith) (s : FeeSplit) : Except LedgerError Nat := do
  A.add (← A.add s.poolMicro s.treasuryMicro) s.burnMicro

/-- `fees::charge`, its error as the ledger reports it. -/
def chargeLedger (kind : FeeKind) (amountMicro : Nat) : Except LedgerError FeeSplit :=
  match charge kind amountMicro with
  | .ok s => .ok s
  | .error e => invalid e.text

namespace Ledger

/-! ## State roots -/

/-- `state_root_from_rows`. A tree's rows come in key order, so the sort of the source is the
identity on them. -/
def stateRootFromRows (W : World) (rows : List (Str × Nat)) : Str :=
  '0' :: 'x' :: W.sha256Hex (rows.flatMap fun r => utf8 r.1 ++ leBytes 8 r.2)

/-- `compute_state_root`. -/
def computeStateRoot (W : World) (L : Ledger) : Except LedgerError Str :=
  .ok (stateRootFromRows W L.balances.iter)

/-! ## Balance effects shared by preview and apply -/

/-- Add `amount` to the balance of `key`. -/
def credit (A : Arith) (balances : Tree Str Nat) (key : Str) (amount : Nat) :
    Except LedgerError (Tree Str Nat) := do
  let cur := amountAt balances key
  let next ← A.add cur amount
  .ok (balances.insert key next)

/-- `FileFeeEffect`. -/
structure FileFeeEffect where
  fromKey : Str
  treasuryKey : Str
  storageKey : Str
  split : FeeSplit

/-- `apply_file_fee_to_balance_map`. -/
def applyFileFeeToBalanceMap (A : Arith) (W : World) (L : Ledger) (nowMs : Nat)
    (balances : Tree Str Nat) (fromWallet storageWallet : Str) (feeMicro : Nat) :
    Except LedgerError (FileFeeEffect × Tree Str Nat) := do
  require (feeMicro = fileFeeMicro) (.invalid s!"file fee must be exactly {fileFeeMicro} µTET")
  let fromK := trimLower fromWallet
  require (fromK ≠ []) (.invalid "file fee sender required")
  let treasury ← W.treasuryAddressFromEnv
  let storage := if (trimLower storageWallet).isEmpty then treasury else trimLower storageWallet
  let split := fileFeeSplit feeMicro
  let fb := amountAt balances fromK
  let lockedSum ← L.lockedBalanceMicro A (trim fromWallet) nowMs
  let spendable ← A.sub fb lockedSum
  require (feeMicro ≤ spendable) .insufficientFunds
  let rest ← A.sub fb feeMicro
  let balances := balances.insert fromK rest
  let balances ← credit A balances treasury split.treasuryMicro
  let balances ← credit A balances storage split.netMicro
  .ok (⟨fromK, treasury, storage, split⟩, balances)

/-- `apply_initial_airdrop_to_balance_map`: the new balances and recipient count when credited,
`none` when skipped by policy. -/
def applyInitialAirdropToBalanceMap (A : Arith) (W : World) (balances : Tree Str Nat)
    (walletId : Str) (airdropCount : Nat) : Except LedgerError (Option (Tree Str Nat × Nat)) := do
  let w := trimLower walletId
  require (isHex64 w = true) (.invalid "airdrop wallet must be 64 hex chars")
  require (isReservedSystemWallet w = false ∧ w ≠ W.aiBurnWallet)
    (.invalid "reserved wallet cannot claim initial airdrop")
  if faucetInitialAirdropMaxRecipients ≤ airdropCount then .ok none
  else
    let amt := faucetInitialAirdropMicroPerUser
    let poolCur := amountAt balances walletWorkerPool
    if poolCur < amt then .ok none
    else do
      let rest ← A.sub poolCur amt
      let balances := balances.insert walletWorkerPool rest
      let balances ← credit A balances w amt
      let count ← A.add airdropCount 1
      .ok (some (balances, count))

/-- `apply_block_reward_to_balance_map`. -/
def applyBlockRewardToBalanceMap (A : Arith) (balances : Tree Str Nat) (producerId : Str)
    (rewardMicro : Nat) : Except LedgerError (Tree Str Nat) :=
  if rewardMicro = 0 then .ok balances
  else do
    let producer := trimLower producerId
    require (producer ≠ []) (.invalid "producer_id required")
    require (isReservedRewardWallet producer none = false)
      (.invalid "reserved wallet cannot receive block reward")
    let poolCur := amountAt balances walletWorkerPool
    require (rewardMicro ≤ poolCur) .insufficientFunds
    let producerCur := amountAt balances producer
    let poolNext ← A.sub poolCur rewardMicro
    let producerNext ← A.add producerCur rewardMicro
    .ok ((balances.insert walletWorkerPool poolNext).insert producer producerNext)

/-- `validate_worker_register_eligible`. -/
def validateWorkerRegisterEligible (L : Ledger) (walletId : Str) : Except LedgerError Unit := do
  let w := trimLower walletId
  require (isHex64 w = true) (.invalid "worker wallet must be 64 hex chars")
  let bond := L.workerBondMicro w
  require (minWorkerStakeMicro ≤ bond)
    (.invalid s!"worker bond below minimum (have {bond}, need {minWorkerStakeMicro})")

/-! ## Preview -/

/-- The `Transfer` arm of the preview. -/
def previewTransfer (A : Arith) (L : Ledger) (nowMs : Nat) (balances : Tree Str Nat)
    (fromWallet toWallet : Str) (amountMicro feeBps : Nat) : Except LedgerError (Tree Str Nat) := do
  require (trim fromWallet ≠ [] ∧ trim toWallet ≠ []) (.invalid "from/to required")
  require (amountMicro ≠ 0 ∧ amountMicro ≤ maxSupplyMicro) (.invalid "amount exceeds hard cap")
  let split ← chargeLedger (.transfer feeBps) amountMicro
  let fromK := trimLower fromWallet
  let toK := trimLower toWallet
  let fb := amountAt balances fromK
  let lockedSum ← L.lockedBalanceMicro A fromK nowMs
  let spendable ← A.sub fb lockedSum
  require (amountMicro ≤ spendable) .insufficientFunds
  let rest ← A.sub fb amountMicro
  let balances := balances.insert fromK rest
  let balances ← credit A balances toK split.netMicro
  if 0 < split.poolMicro then credit A balances walletWorkerPool split.poolMicro
  else .ok balances

/-- One transaction of the preview, over the balances and the airdrop count. -/
def previewTx (A : Arith) (W : World) (L : Ledger) (nowMs : Nat) (acc : Tree Str Nat × Nat)
    (env : SignedTxEnvelopeV1) : Except LedgerError (Tree Str Nat × Nat) := do
  require (signerActsForItself env = true)
    (.invalid "signer must be the wallet the transaction acts for")
  match env.tx with
  | .transfer fromWallet toWallet amountMicro feeBps => do
    let balances ← previewTransfer A L nowMs acc.1 fromWallet toWallet amountMicro feeBps
    .ok (balances, acc.2)
  | .verifyZkProof _ _ _ _ => .ok acc
  | .enterpriseInference _ _ _ _ _ _ _ _ => .ok acc
  | .initialAirdrop walletId => do
    let r ← applyInitialAirdropToBalanceMap A W acc.1 walletId acc.2
    .ok (r.getD acc)
  | .fileFee fromWallet storageWallet _ feeMicro => do
    let r ← applyFileFeeToBalanceMap A W L nowMs acc.1 fromWallet storageWallet feeMicro
    .ok (r.2, acc.2)
  | .workerRegister walletId _ _ _ _ => do
    validateWorkerRegisterEligible L walletId
    .ok acc
  | _ => invalid "unsupported tx in remote block"

/-- The preview's loop. -/
def previewTxs (A : Arith) (W : World) (L : Ledger) (nowMs : Nat) :
    List SignedTxEnvelopeV1 → Tree Str Nat × Nat → Except LedgerError (Tree Str Nat × Nat)
  | [], acc => .ok acc
  | env :: txs, acc => do
    let acc ← previewTx A W L nowMs acc env
    previewTxs A W L nowMs txs acc

/-- `compute_state_root_after_remote_block`. -/
def computeStateRootAfterRemoteBlock (W : World) (L : Ledger) (nowMs : Nat)
    (txs : List SignedTxEnvelopeV1) (producerId : Str) (rewardMicro : Nat) :
    Except LedgerError Str := do
  let acc ← previewTxs .saturating W L nowMs txs
    (L.balances, L.metaU64OrZero .faucetInitialRecipientsCount)
  let balances ← applyBlockRewardToBalanceMap .saturating acc.1 producerId rewardMicro
  .ok (stateRootFromRows W balances.iter)

/-! ## Apply -/

/-- What the apply carries from one transaction to the next. -/
structure Batch where
  balances : Tree Str Nat
  totalSupply : Nat
  totalBurned : Nat
  feeTotal : Nat
  airdropCount : Nat
  airdropCredited : Bool
  dirtyBalances : List Str
  metaBatch : List (MetaKey × MetaVal)
  workersRegistryBatch : List (Str × WorkerRegistryRecordV1)

/-- The batch before the first transaction. -/
def startBatch (L : Ledger) : Batch where
  balances := L.balances
  totalSupply := L.metaU64OrZero .totalSupply
  totalBurned := L.metaU64OrZero .totalBurned
  feeTotal := L.metaU64OrZero .feeTotal
  airdropCount := L.metaU64OrZero .faucetInitialRecipientsCount
  airdropCredited := false
  dirtyBalances := []
  metaBatch := []
  workersRegistryBatch := []

/-- Append a write to the `meta` batch. -/
def Batch.putMeta (b : Batch) (k : MetaKey) (v : MetaVal) : Batch :=
  { b with metaBatch := b.metaBatch ++ [(k, v)] }

/-- Count a fee: its burn leaves the supply, and the fee joins the fee total. -/
def Batch.countFee (A : Arith) (b : Batch) (burnMicro feeMicro : Nat) :
    Except LedgerError Batch := do
  let totalSupply ← A.sub b.totalSupply burnMicro
  let totalBurned ← A.add b.totalBurned burnMicro
  let feeTotal ← A.add b.feeTotal feeMicro
  .ok { b with totalSupply := totalSupply, totalBurned := totalBurned, feeTotal := feeTotal }

/-- The worker pool's share of a transfer fee. -/
def Batch.creditPool (A : Arith) (b : Batch) (poolMicro : Nat) : Except LedgerError Batch :=
  if 0 < poolMicro then do
    let balances ← credit A b.balances walletWorkerPool poolMicro
    .ok { b with balances := balances, dirtyBalances := walletWorkerPool :: b.dirtyBalances }
  else .ok b

/-- The fee leg of a transfer: the pool share is credited, the burn is destroyed. -/
def Batch.settleTransferFee (A : Arith) (b : Batch) (split : FeeSplit) :
    Except LedgerError Batch := do
  let fee ← split.feeMicroWith A
  if 0 < fee then do
    let b ← b.creditPool A split.poolMicro
    b.countFee A split.burnMicro fee
  else .ok b

/-- The `Transfer` arm of the apply. -/
def applyTransfer (A : Arith) (L : Ledger) (nowMs : Nat) (b : Batch) (txHash : Str)
    (fromWallet toWallet : Str) (amountMicro feeBps : Nat) : Except LedgerError Batch := do
  require (trim fromWallet ≠ [] ∧ trim toWallet ≠ []) (.invalid "from/to required")
  require (amountMicro ≠ 0 ∧ amountMicro ≤ maxSupplyMicro) (.invalid "amount exceeds hard cap")
  if L.isTxApplied txHash then .ok b
  else do
    let fromK := trimLower fromWallet
    let toK := trimLower toWallet
    let lockedSum ← L.lockedBalanceMicro A fromK nowMs
    let fb := amountAt b.balances fromK
    let spendable ← A.sub fb lockedSum
    require (amountMicro ≤ spendable) .insufficientFunds
    let split ← chargeLedger (.transfer feeBps) amountMicro
    let rest ← A.sub fb amountMicro
    let balances := b.balances.insert fromK rest
    let balances ← credit A balances toK split.netMicro
    let b := { b with balances := balances, dirtyBalances := toK :: fromK :: b.dirtyBalances }
    let b ← b.settleTransferFee A split
    .ok (b.putMeta (remoteTxAppliedMetaKey txHash) .mark)

/-- The `VerifyZkProof` arm of the apply: the receipt's marker, and the task it claims. -/
def applyVerifyZkProof (W : World) (L : Ledger) (nowMs : Nat) (b : Batch) (signer taskId : Str)
    (imageId : List Nat) (journalB64 receiptB64 : Str) : Except LedgerError Batch := do
  require (imageId = W.nexusGuestId) (.invalid "image_id mismatch")
  let receiptHashHex := W.sha256Hex (utf8 receiptB64)
  let zkKey := zkVerifiedMetaKey receiptHashHex
  let b := if (L.metaTree.get zkKey).isNone then
      b.putMeta zkKey (.zkVerified ⟨imageId, receiptHashHex, W.sha256Hex (utf8 journalB64), nowMs⟩)
    else b
  if (trim taskId).isEmpty then .ok b
  else
    let taskKey := aiWorkloadTxMetaKey taskId
    match L.metaTree.get taskKey with
    | none => invalid "ai_workload_task_missing"
    | some (.task task) =>
      if task.processed then .ok b
      else .ok (b.putMeta taskKey (.task { task with
        processed := true
        processedBy := some (trimLower signer)
        processedReceiptHashHex := some receiptHashHex
        processedAtMs := some nowMs }))
    | some _ => invalid "ai workload json decode"

/-- The task row of an `EnterpriseInference` transaction. -/
def newAiWorkloadTask (txHash : Str) (blockHeight : Nat) (enterpriseWalletId prompt model : Str)
    (amountMicro : Nat) (promptSha256Hex : Str) (workloadFlag : Nat) : AiWorkloadTask where
  v := 1
  kind := "enterprise_inference_demand"
  txHash := trim txHash
  enterpriseWalletId := trimLower enterpriseWalletId
  prompt := prompt
  promptSha256Hex := trimLower promptSha256Hex
  model := trim model
  amountMicro := amountMicro
  workloadFlag := workloadFlag
  blockHeight := blockHeight
  processed := false
  processedBy := none
  processedReceiptHashHex := none
  processedAtMs := none

/-- The `EnterpriseInference` arm of the apply: the task row, unless it exists. -/
def applyEnterpriseInference (L : Ledger) (b : Batch) (txHash : Str) (task : AiWorkloadTask) :
    Batch :=
  let taskKey := aiWorkloadTxMetaKey txHash
  if (L.metaTree.get taskKey).isNone then b.putMeta taskKey (.task task) else b

/-- The `FileFee` arm of the apply. -/
def applyFileFee (A : Arith) (W : World) (L : Ledger) (nowMs : Nat) (b : Batch)
    (txHash fromWallet storageWallet : Str) (feeMicro : Nat) : Except LedgerError Batch :=
  if L.isTxApplied txHash then .ok b
  else do
    let r ← applyFileFeeToBalanceMap A W L nowMs b.balances fromWallet storageWallet feeMicro
    let b := { b with
      balances := r.2
      dirtyBalances := r.1.storageKey :: r.1.treasuryKey :: r.1.fromKey :: b.dirtyBalances }
    let b ← b.countFee A r.1.split.burnMicro feeMicro
    .ok (b.putMeta (remoteTxAppliedMetaKey txHash) .mark)

/-- `caps.sort(); caps.dedup()`. -/
def sortDedup (caps : List Str) : List Str :=
  (caps.insertionSort fun a b => compare a b ≠ .gt).destutter (· ≠ ·)

/-- `apply_worker_register`: the registry row of the wallet. -/
def applyWorkerRegister (L : Ledger) (nowMs blockHeight : Nat)
    (walletId hardwareIdHex hardwareProfile : Str) (capabilities : List Str)
    (tflopsDeclared : F64) : Except LedgerError (Str × WorkerRegistryRecordV1) := do
  match validateWorkerRegisterFields walletId hardwareIdHex hardwareProfile capabilities
      tflopsDeclared with
  | .error e => invalid e
  | .ok _ => do
    validateWorkerRegisterEligible L walletId
    let w := trimLower walletId
    let caps := sortDedup ((capabilities.map trimLower).filter fun c => !c.isEmpty)
    let prevRewards := ((L.workersRegistry.get w).map (·.totalRewardsMicro)).getD 0
    .ok (w, { WorkerRegistryRecordV1.new w (trim hardwareIdHex) (trim hardwareProfile) caps
      tflopsDeclared blockHeight nowMs with totalRewardsMicro := prevRewards })

/-- The `WorkerRegister` arm of the apply. -/
def applyWorkerRegisterTx (L : Ledger) (nowMs blockHeight : Nat) (b : Batch) (txHash : Str)
    (walletId hardwareIdHex hardwareProfile : Str) (capabilities : List Str)
    (tflopsDeclared : F64) : Except LedgerError Batch :=
  if L.isTxApplied txHash then .ok b
  else do
    let row ← applyWorkerRegister L nowMs blockHeight walletId hardwareIdHex hardwareProfile
      capabilities tflopsDeclared
    let b := { b with workersRegistryBatch := b.workersRegistryBatch ++ [row] }
    .ok (b.putMeta (remoteTxAppliedMetaKey txHash) .mark)

/-- The `InitialAirdrop` arm of the apply. -/
def applyInitialAirdrop (A : Arith) (W : World) (L : Ledger) (b : Batch) (txHash walletId : Str) :
    Except LedgerError Batch :=
  if L.isTxApplied txHash then .ok b
  else do
    match ← applyInitialAirdropToBalanceMap A W b.balances walletId b.airdropCount with
    | none => .ok b
    | some (balances, count) =>
      let b := { b with
        balances := balances
        airdropCount := count
        airdropCredited := true
        dirtyBalances := trimLower walletId :: walletWorkerPool :: b.dirtyBalances }
      .ok (b.putMeta (remoteTxAppliedMetaKey txHash) .mark)

/-- One transaction of the apply. -/
def applyTx (A : Arith) (W : World) (L : Ledger) (nowMs blockHeight : Nat) (b : Batch)
    (env : SignedTxEnvelopeV1) (txHash : Str) : Except LedgerError Batch := do
  require (signerActsForItself env = true)
    (.invalid "signer must be the wallet the transaction acts for")
  match env.tx with
  | .transfer fromWallet toWallet amountMicro feeBps =>
    applyTransfer A L nowMs b txHash fromWallet toWallet amountMicro feeBps
  | .verifyZkProof taskId imageId journalB64 receiptB64 =>
    applyVerifyZkProof W L nowMs b env.sig.ed25519PubkeyHex taskId imageId journalB64 receiptB64
  | .enterpriseInference w prompt model amountMicro _ promptHash flag _ =>
    .ok (applyEnterpriseInference L b txHash
      (newAiWorkloadTask txHash blockHeight w prompt model amountMicro promptHash flag))
  | .fileFee fromWallet storageWallet _ feeMicro =>
    applyFileFee A W L nowMs b txHash fromWallet storageWallet feeMicro
  | .workerRegister walletId hardwareIdHex hardwareProfile capabilities tflops =>
    applyWorkerRegisterTx L nowMs blockHeight b txHash walletId hardwareIdHex hardwareProfile
      capabilities tflops
  | .initialAirdrop walletId => applyInitialAirdrop A W L b txHash walletId
  | _ => invalid "unsupported tx in consensus block"

/-- The apply's loop over `txs.iter().zip(tx_hashes)`. -/
def applyTxs (A : Arith) (W : World) (L : Ledger) (nowMs blockHeight : Nat) :
    List (SignedTxEnvelopeV1 × Str) → Batch → Except LedgerError Batch
  | [], b => .ok b
  | (env, txHash) :: txs, b => do
    let b ← applyTx A W L nowMs blockHeight b env txHash
    applyTxs A W L nowMs blockHeight txs b

/-- The airdrop counter's row, once some airdrop was credited. -/
def Batch.closeAirdrop (b : Batch) : Batch :=
  if b.airdropCredited then b.putMeta .faucetInitialRecipientsCount (.u64 b.airdropCount) else b

/-- The reward leg, and the keys it makes dirty. -/
def Batch.payReward (A : Arith) (b : Batch) (producerId : Str) (rewardMicro : Nat) :
    Except LedgerError Batch := do
  let balances ← applyBlockRewardToBalanceMap A b.balances producerId rewardMicro
  .ok { b with
    balances := balances
    dirtyBalances := if 0 < rewardMicro then
        trimLower producerId :: walletWorkerPool :: b.dirtyBalances
      else b.dirtyBalances }

/-- The counters every block writes. -/
def Batch.putCounters (b : Batch) (blockHeight : Nat) : Batch :=
  (((b.putMeta .totalSupply (.u64 b.totalSupply)).putMeta .totalBurned (.u64 b.totalBurned)).putMeta
    .feeTotal (.u64 b.feeTotal)).putMeta .ledgerBlockHeight (.u64 blockHeight)

/-- Write the batches: the dirty balances, the `meta` rows, the registry rows. -/
def Batch.commit (b : Batch) (L : Ledger) : Ledger :=
  { L with
    balances := L.balances.applyBatch (b.dirtyBalances.map fun k => (k, amountAt b.balances k))
    metaTree := L.metaTree.applyBatch b.metaBatch
    workersRegistry := L.workersRegistry.applyBatch b.workersRegistryBatch }

/-- The batch of a whole block, ready to commit. -/
def blockBatch (A : Arith) (W : World) (L : Ledger) (nowMs blockHeight : Nat)
    (txs : List SignedTxEnvelopeV1) (txHashes : List Str) (producerId : Str) (rewardMicro : Nat) :
    Except LedgerError Batch := do
  require (txs.length = txHashes.length) (.invalid "txs/tx_hashes length mismatch")
  let b ← applyTxs A W L nowMs blockHeight (txs.zip txHashes) (startBatch L)
  let b ← b.closeAirdrop.payReward A producerId rewardMicro
  .ok (b.putCounters blockHeight)

/-- `apply_consensus_block_batch` with the given arithmetic. -/
def applyConsensusBlockBatchWith (A : Arith) (W : World) (nowMs blockHeight : Nat)
    (txs : List SignedTxEnvelopeV1) (txHashes : List Str) (producerId : Str) (rewardMicro : Nat)
    (L : Ledger) : Except LedgerError (Str × Ledger) := do
  let b ← blockBatch A W L nowMs blockHeight txs txHashes producerId rewardMicro
  .ok (stateRootFromRows W b.balances.iter, b.commit L)

/-- `apply_consensus_block_batch`: the state root and the ledger after the commit. -/
def applyConsensusBlockBatch (W : World) (nowMs blockHeight : Nat)
    (txs : List SignedTxEnvelopeV1) (txHashes : List Str) (producerId : Str) (rewardMicro : Nat)
    (L : Ledger) : Except LedgerError (Str × Ledger) :=
  applyConsensusBlockBatchWith .saturating W nowMs blockHeight txs txHashes producerId rewardMicro L

end Ledger

end TetCore
