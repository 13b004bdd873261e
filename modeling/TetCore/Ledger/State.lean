import TetCore.Lib.Tree
import TetCore.Lib.Proc
import TetCore.Fees
import TetCore.Protocol

/-!
# The ledger's trees

Model of the `Ledger` of `ledger.rs`: one `Tree` for each sled tree that block apply, undo, the
block records and the direct operations touch. Rows are the decoded values: `encrypt_value` and
`decrypt_value` are inverse to each other, every writer of `balances` and of the counters stores the
eight bytes of a `u64`, and JSON rows are read back as they were written.

* `MetaKey`, `MetaVal`: the `meta` tree holds counters, markers and JSON rows under prefixed keys; a
  key here is the prefix (a constructor) and what follows it.
* `World`: what the code takes from outside the ledger: digests, signature and receipt
  verification, the environment variables.
* `Arith`: the `u64` additions and subtractions of the balance code. The code runs with
  `saturating`; `checked` stops where `saturating` would clamp.
-/

namespace TetCore

open TetCore.Lib

/-! ## Constants -/

/-- `WALLET_WORKER_POOL`, also `WALLET_SYSTEM_WORKER_POOL`. -/
def walletWorkerPool : Str :=
  "0000000000000000000000000000000000000000000000000000000000000001".toList
def walletEcosystem : Str :=
  "0000000000000000000000000000000000000000000000000000000000000002".toList
def walletProtocolReserve : Str :=
  "0000000000000000000000000000000000000000000000000000000000000003".toList
def walletDexTreasury : Str := "dex:treasury".toList
def walletAiBurnDefault : Str := "tet-api-pool".toList

/-- Worker bond that makes a wallet an active worker. -/
def minWorkerStakeMicro : Nat := 1000 * stevemon
/-- Welcome airdrop, per wallet. -/
def faucetInitialAirdropMicroPerUser : Nat := 1000 * stevemon
def faucetInitialAirdropMaxRecipients : Nat := 10000

/-! ## Errors -/

/-- `LedgerError`. -/
inductive LedgerError where
  | insufficientFunds
  | hardCapExceeded
  | founderWalletMissing
  | genesisAlreadyApplied
  | attestationRequired
  | hybridSigRejected (msg : String)
  | sled (msg : String)
  | invalid (msg : String)
  deriving DecidableEq

/-- The text of the error (`thiserror`). -/
def LedgerError.text : LedgerError → String
  | .insufficientFunds => "insufficient funds"
  | .hardCapExceeded => "hard cap exceeded"
  | .founderWalletMissing => "founder wallet not configured"
  | .genesisAlreadyApplied => "genesis already applied (total supply > 0)"
  | .attestationRequired => "attestation required"
  | .hybridSigRejected m => "hybrid signature verification failed: " ++ m
  | .sled m => "sled: " ++ m
  | .invalid m => "invalid: " ++ m

/-- `LedgerError::Invalid`, as the result of a check. -/
def invalid {α : Type} (msg : String) : Except LedgerError α := .error (.invalid msg)

/-! ## Arithmetic -/

/-- How `u64` additions and subtractions behave. -/
structure Arith where
  add : Nat → Nat → Except LedgerError Nat
  sub : Nat → Nat → Except LedgerError Nat

namespace Arith

/-- `saturating_add` and `saturating_sub`: what the code does. -/
def saturating : Arith where
  add a b := .ok (satAdd a b)
  sub a b := .ok (a - b)

/-- Arithmetic that fails where `saturating` would clamp. -/
def checked : Arith where
  add a b := if a + b ≤ u64Max then .ok (a + b) else invalid "u64 overflow"
  sub a b := if b ≤ a then .ok (a - b) else invalid "u64 underflow"

@[simp] theorem saturating_add (a b : Nat) : saturating.add a b = .ok (satAdd a b) := rfl

@[simp] theorem saturating_sub (a b : Nat) : saturating.sub a b = .ok (a - b) := rfl

theorem checked_add {a b : Nat} (h : a + b ≤ u64Max) : checked.add a b = .ok (a + b) := if_pos h

theorem checked_sub {a b : Nat} (h : b ≤ a) : checked.sub a b = .ok (a - b) := if_pos h

end Arith

/-! ## What the code takes from outside the ledger -/

/-- `VerifiedZkJournal`, with the one field consensus reads. -/
inductive VerifiedZkJournal where
  | inference
  | tmailAnon
  | zkCourt (flopsU64 : Nat)
  deriving DecidableEq

/-- `LeaderElectionMode`. -/
inductive LeaderElectionMode where
  | hash
  | caac
  deriving DecidableEq

/-- Cryptography and environment. The fields named after a variable hold its raw value. -/
structure World where
  /-- `Sha256::digest`. -/
  sha256 : Bytes → Bytes
  /-- `verify_envelope_v1`: the signed bytes of an envelope whose signatures verify. -/
  verifyEnvelopeV1 : SignedTxEnvelopeV1 → Except String Bytes
  /-- `zk_verifier::verify_tx_receipt_and_journal` on image id, journal and receipt. -/
  verifyTxReceiptAndJournal : List Nat → Str → Str → Except String VerifiedZkJournal
  /-- `methods::NEXUS_GUEST_ID`, generated by the guest build. -/
  nexusGuestId : List Nat
  /-- `discrete_thermodynamic_reward_stevemon_micro` at the configured difficulty. -/
  thermodynamicReward : Nat → Nat
  /-- `TET_TREASURY_ADDRESS`. -/
  treasuryAddressVar : Option Str
  /-- `TET_AI_BURN_WALLET`. -/
  aiBurnWalletVar : Option Str
  /-- `base_block_reward_micro_from_env`. -/
  baseBlockRewardMicro : Nat
  /-- `local_node_id_from_env`. -/
  localNodeId : Str
  /-- `TET_VALIDATOR_IDS`. -/
  validatorIdsVar : Option Str
  /-- `leader_election_mode_from_env`. -/
  leaderMode : LeaderElectionMode
  /-- `prune_depth_from_env`. -/
  pruneDepth : Nat
  /-- `TET_PRUNE_EVERY_BLOCKS`, `16` when unset or `0`. -/
  pruneEveryBlocks : Nat
  /-- `zkcourt_challenger_bond_micro`. -/
  zkcourtChallengerBondMicro : Nat
  /-- `attestation_required`. -/
  attestationRequired : Bool
  /-- `presale_lock_duration_ms`. -/
  presaleLockMs : Nat
  /-- `founder_genesis_cliff_ms`. -/
  founderCliffMs : Nat
  /-- `worker_reward_vest_duration_ms`. -/
  workerVestMs : Nat
  /-- `mainnet_env_enabled`. -/
  mainnet : Bool
  /-- `TET_GENESIS_FOUNDER_WALLET_ID`. -/
  genesisFounderWalletIdVar : Option Str

/-- `normalize_treasury_address`. -/
def normalizeTreasuryAddress (raw : Str) : Except LedgerError Str :=
  let w := trimLower raw
  if w.isEmpty then invalid "TET_TREASURY_ADDRESS must not be empty"
  else if !isHex64 w then invalid "TET_TREASURY_ADDRESS must be 64 hex chars"
  else .ok w

/-- `treasury_address_from_env`. -/
def World.treasuryAddressFromEnv (W : World) : Except LedgerError Str :=
  match W.treasuryAddressVar with
  | none => invalid "TET_TREASURY_ADDRESS is required"
  | some raw => normalizeTreasuryAddress raw

/-- `ai_burn_wallet`. -/
def World.aiBurnWallet (W : World) : Str :=
  match W.aiBurnWalletVar with
  | none => walletAiBurnDefault
  | some raw => if (trimLower raw).isEmpty then walletAiBurnDefault else trimLower raw

/-- `hex::encode(Sha256::digest(..))`. -/
def World.sha256Hex (W : World) (b : Bytes) : Str := hexEncode (W.sha256 b)

/-! ## Rows -/

/-- `AiWorkloadTask`. -/
structure AiWorkloadTask where
  v : Nat
  kind : String
  txHash : Str
  enterpriseWalletId : Str
  prompt : Str
  promptSha256Hex : Str
  model : Str
  amountMicro : Nat
  workloadFlag : Nat
  blockHeight : Nat
  processed : Bool
  processedBy : Option Str
  processedReceiptHashHex : Option Str
  processedAtMs : Option Nat
  deriving DecidableEq

/-- The JSON row under a `zk_verified_v1:` key. -/
structure ZkVerifiedRow where
  imageId : List Nat
  receiptHashHex : Str
  journalHashHex : Str
  tsMs : Nat
  deriving DecidableEq

/-- `CaacWorkerRecord`. -/
structure CaacWorkerRecord where
  role : Str
  latencyMs : Nat
  seedHex : Str
  serverWallMs : Nat
  deriving DecidableEq

/-- `VestLockV1`. -/
structure VestLockV1 where
  v : Nat
  wallet : Str
  amountMicro : Nat
  unlockAtMs : Nat
  deriving DecidableEq

/-- `BlockSummary`. -/
structure BlockSummary where
  height : Nat
  blockId : Str
  stateRoot : Str
  txCount : Nat
  tsMs : Nat
  deriving DecidableEq

/-- `BlockRewardRecordV1` and `BlockRewardBreakdown`. -/
structure BlockReward where
  baseRewardMicro : Nat
  computeRewardMicro : Nat
  totalRewardMicro : Nat
  deriving DecidableEq

/-- `BlockRecordV1`. -/
structure BlockRecordV1 where
  v : Nat
  height : Nat
  blockId : Str
  parentBlockId : Option Str
  producerId : Str
  txHashes : List Str
  txs : List SignedTxEnvelopeV1
  stateRoot : Str
  reward : BlockReward
  caacWeight : Nat
  cumulativeWeight : Nat
  canonical : Bool
  tsMs : Nat
  deriving DecidableEq

/-- `ChainTipV1`. -/
structure ChainTipV1 where
  v : Nat
  height : Nat
  blockId : Str
  cumulativeWeight : Nat
  stateRoot : Str
  updatedAtMs : Nat
  deriving DecidableEq

/-- `TxIndexRecordV1`. -/
structure TxIndexRecordV1 where
  v : Nat
  hash : Str
  blockHeight : Nat
  txIndex : Nat
  txKind : String
  workloadFlag : Nat
  signerWallet : Str
  canonical : Bool
  tx : SignedTxEnvelopeV1
  indexedAtMs : Nat
  deriving DecidableEq

/-! ## The `meta` tree -/

/-- The keys of the `meta` tree. -/
inductive MetaKey where
  | totalSupply
  | totalBurned
  | feeTotal
  | ledgerBlockHeight
  | faucetInitialRecipientsCount
  | genesisGuardiansFilled
  | treasuryWithdrawNonce
  | proofSeq
  | inferenceBlockHeight
  | inferConsensusLastMs
  | genesis1kFilled
  | workerCommunity
  | nextVestSeq
  | founderGenesisUnlockAtMs
  | founderGenesisLockedMicro
  | founderWallet
  | treasuryWallet
  | genesisGuardianGrant (wallet : Str)
  | genesis1kSlot (wallet : Str)
  | walletNonce (wallet : Str)
  | walletStake (wallet : Str)
  | walletPresaleLockUntil (wallet : Str)
  | walletInferBurn (wallet : Str)
  | remoteTxApplied (txHash : Str)
  | aiWorkloadTx (txHash : Str)
  | zkVerified (receiptHashHex : Str)
  | caacWallet (wallet : Str)
  deriving DecidableEq

/-- The values of the `meta` tree. -/
inductive MetaVal where
  | u64 (n : Nat)
  | text (s : Str)
  /-- The marker `1`. -/
  | mark
  | task (t : AiWorkloadTask)
  | zkVerified (row : ZkVerifiedRow)
  | caac (rec : CaacWorkerRecord)
  deriving DecidableEq

namespace MetaKey

/-- A prefix tag and what follows the prefix. -/
def code : MetaKey → List Char
  | totalSupply => ['a']
  | totalBurned => ['b']
  | feeTotal => ['c']
  | ledgerBlockHeight => ['d']
  | faucetInitialRecipientsCount => ['e']
  | genesisGuardiansFilled => ['f']
  | treasuryWithdrawNonce => ['g']
  | proofSeq => ['h']
  | inferenceBlockHeight => ['i']
  | inferConsensusLastMs => ['j']
  | genesis1kFilled => ['k']
  | workerCommunity => ['l']
  | nextVestSeq => ['m']
  | founderGenesisUnlockAtMs => ['n']
  | founderGenesisLockedMicro => ['o']
  | founderWallet => ['p']
  | treasuryWallet => ['q']
  | genesisGuardianGrant w => 'A' :: w
  | genesis1kSlot w => 'B' :: w
  | walletNonce w => 'C' :: w
  | walletStake w => 'D' :: w
  | walletPresaleLockUntil w => 'E' :: w
  | remoteTxApplied h => 'F' :: h
  | aiWorkloadTx h => 'G' :: h
  | zkVerified h => 'H' :: h
  | caacWallet w => 'I' :: w
  | walletInferBurn w => 'J' :: w

/-- The key a code stands for. -/
def decode : List Char → MetaKey
  | ['a'] => totalSupply
  | ['b'] => totalBurned
  | ['c'] => feeTotal
  | ['d'] => ledgerBlockHeight
  | ['e'] => faucetInitialRecipientsCount
  | ['f'] => genesisGuardiansFilled
  | ['g'] => treasuryWithdrawNonce
  | ['h'] => proofSeq
  | ['i'] => inferenceBlockHeight
  | ['j'] => inferConsensusLastMs
  | ['k'] => genesis1kFilled
  | ['l'] => workerCommunity
  | ['m'] => nextVestSeq
  | ['n'] => founderGenesisUnlockAtMs
  | ['o'] => founderGenesisLockedMicro
  | ['p'] => founderWallet
  | ['q'] => treasuryWallet
  | 'A' :: w => genesisGuardianGrant w
  | 'B' :: w => genesis1kSlot w
  | 'C' :: w => walletNonce w
  | 'D' :: w => walletStake w
  | 'E' :: w => walletPresaleLockUntil w
  | 'F' :: h => remoteTxApplied h
  | 'G' :: h => aiWorkloadTx h
  | 'H' :: h => zkVerified h
  | 'I' :: w => caacWallet w
  | 'J' :: w => walletInferBurn w
  | _ => totalSupply

theorem decode_code (k : MetaKey) : decode k.code = k := by
  cases k <;> rfl

theorem code_injective {a b : MetaKey} (h : a.code = b.code) : a = b := by
  rw [← decode_code a, ← decode_code b, h]

instance : Ord MetaKey := ⟨compareOn code⟩

instance : Std.TransOrd MetaKey :=
  inferInstanceAs (Std.TransCmp (compareOn code))

instance : Std.LawfulEqOrd MetaKey where
  compare_self {a} := (Std.ReflCmp.compare_self : compareOn code a a = .eq)
  eq_of_compare {_ _} h := code_injective (Std.LawfulEqCmp.eq_of_compare h)

/-- The keys that hold a counter, read as `0` when absent. -/
def isCounter : MetaKey → Bool
  | totalSupply | totalBurned | feeTotal | ledgerBlockHeight
  | faucetInitialRecipientsCount | genesisGuardiansFilled | treasuryWithdrawNonce | proofSeq
  | inferenceBlockHeight | inferConsensusLastMs | genesis1kFilled | workerCommunity
  | nextVestSeq | founderGenesisUnlockAtMs | founderGenesisLockedMicro
  | walletNonce _ | walletStake _ | walletPresaleLockUntil _ | walletInferBurn _ => true
  | _ => false

end MetaKey

/-! ## The ledger -/

/-- `UndoKvV1`: a key and the value it had, `none` when it had none. -/
abbrev UndoKvs (K V : Type) := List (K × Option V)

/-- `BlockUndoV1`. -/
structure BlockUndoV1 where
  v : Nat
  blockId : Str
  height : Nat
  balances : UndoKvs Str Nat
  metaKvs : UndoKvs MetaKey MetaVal
  txIndex : UndoKvs Str TxIndexRecordV1
  canonicalByHeight : UndoKvs Nat Str
  chainTip : UndoKvs Unit ChainTipV1
  blocks : UndoKvs Nat BlockSummary
  workersRegistry : UndoKvs Str WorkerRegistryRecordV1
  createdAtMs : Nat
  deriving DecidableEq

/-- The trees of the ledger. `metaTree` is the `meta` tree, `chainTip` has the one key
`canonical`. -/
structure Ledger where
  balances : Tree Str Nat
  metaTree : Tree MetaKey MetaVal
  vestLocks : Tree Str VestLockV1
  workerStakes : Tree Str Nat
  workersRegistry : Tree Str WorkerRegistryRecordV1
  blocks : Tree Nat BlockSummary
  blocksById : Tree Str BlockRecordV1
  canonicalByHeight : Tree Nat Str
  chainTip : Tree Unit ChainTipV1
  blockUndo : Tree Str BlockUndoV1
  txIndex : Tree Str TxIndexRecordV1
  zkcourtBonds : Tree Str Nat

namespace Ledger

/-- A fresh database. -/
def empty : Ledger where
  balances := .empty
  metaTree := .empty
  vestLocks := .empty
  workerStakes := .empty
  workersRegistry := .empty
  blocks := .empty
  blocksById := .empty
  canonicalByHeight := .empty
  chainTip := .empty
  blockUndo := .empty
  txIndex := .empty
  zkcourtBonds := .empty

/-- The amount under a balance or bond key, `0` when absent. -/
def amountAt (t : Tree Str Nat) (k : Str) : Nat := (t.get k).getD 0

/-- The number in a `meta` row: `bytes_to_u64`, `0` on anything but a counter. -/
def u64Of : Option MetaVal → Nat
  | some (.u64 n) => n
  | _ => 0

/-- `meta_u64_or_zero`. -/
def metaU64OrZero (L : Ledger) (k : MetaKey) : Nat := u64Of (L.metaTree.get k)

/-- `block_height`. -/
def blockHeight (L : Ledger) : Nat := L.metaU64OrZero .ledgerBlockHeight

/-- `balance_micro`. -/
def balanceMicro (L : Ledger) (peer : Str) : Nat := amountAt L.balances peer

/-- `remote_tx_applied_meta_key`. -/
def remoteTxAppliedMetaKey (txHash : Str) : MetaKey := .remoteTxApplied (trim txHash)

/-- `ai_workload_tx_meta_key`. -/
def aiWorkloadTxMetaKey (txHash : Str) : MetaKey := .aiWorkloadTx (trim txHash)

/-- `zk_verified_meta_key`. -/
def zkVerifiedMetaKey (receiptHashHex : Str) : MetaKey := .zkVerified (trim receiptHashHex)

/-- `is_tx_applied`. -/
def isTxApplied (L : Ledger) (txHash : Str) : Bool :=
  (L.metaTree.get (remoteTxAppliedMetaKey txHash)).isSome

/-- `founder_wallet`. -/
def founderWallet (L : Ledger) : Except LedgerError Str :=
  match L.metaTree.get .founderWallet with
  | some (.text s) => .ok s
  | _ => .error .founderWalletMissing

/-- The amounts locked for a wallet at `nowMs`: its vest locks still running, in key order, then the
founder's genesis allocation until the cliff. -/
def lockedAmounts (L : Ledger) (peer : Str) (nowMs : Nat) : List Nat :=
  let peer := trim peer
  let vest := (L.vestLocks.iter.filter fun row =>
    row.2.wallet == peer && decide (nowMs < row.2.unlockAtMs)).map (·.2.amountMicro)
  let unlockAt := L.metaU64OrZero .founderGenesisUnlockAtMs
  let isFounder := match L.founderWallet with
    | .ok founder => !peer.isEmpty && founder == peer
    | .error _ => false
  if isFounder && decide (0 < unlockAt) && decide (nowMs < unlockAt) then
    vest ++ [L.metaU64OrZero .founderGenesisLockedMicro]
  else vest

/-- `locked_balance_micro`. -/
def lockedBalanceMicro (A : Arith) (L : Ledger) (peer : Str) (nowMs : Nat) :
    Except LedgerError Nat :=
  (L.lockedAmounts peer nowMs).foldlM A.add 0

/-- `worker_bond_micro`. -/
def workerBondMicro (L : Ledger) (wallet : Str) : Nat := amountAt L.workerStakes (trimLower wallet)

/-- `ai_workload_task`. -/
def aiWorkloadTask (L : Ledger) (txHash : Str) : Except LedgerError (Option AiWorkloadTask) :=
  if (trim txHash).isEmpty then .ok none
  else match L.metaTree.get (aiWorkloadTxMetaKey txHash) with
  | none => .ok none
  | some (.task t) => .ok (some t)
  | some _ => invalid "ai workload json decode"

/-- `caac_get_worker_record`. -/
def caacGetWorkerRecord (L : Ledger) (wallet : Str) : Option CaacWorkerRecord :=
  match L.metaTree.get (.caacWallet (trimLower wallet)) with
  | some (.caac r) => some r
  | _ => none

/-- `is_reserved_system_wallet`. -/
def isReservedSystemWallet (wallet : Str) : Bool :=
  wallet == walletWorkerPool || wallet == walletDexTreasury || wallet == walletProtocolReserve ||
    wallet == walletEcosystem

/-- `is_reserved_reward_wallet`. -/
def isReservedRewardWallet (wallet : Str) (treasuryWallet : Option Str) : Bool :=
  isReservedSystemWallet wallet || treasuryWallet == some wallet

/-- `normalize_tx_hash`: trimmed, lowercase, with one `0x`. -/
def normalizeTxHash (hash : Str) : Str :=
  match trimLower hash with
  | '0' :: 'x' :: rest => '0' :: 'x' :: rest
  | h => '0' :: 'x' :: h

end Ledger

end TetCore
