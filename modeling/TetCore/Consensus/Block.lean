import TetCore.Ledger.Records
import TetCore.Ledger.Apply

/-!
# Blocks as consensus sees them

Model of the pure parts of `consensus.rs`: identities, the validator set and leader election,
transaction hashes and block ids, the reward of a block, and the checks of AI workloads and ZK task
claims. Nothing here writes.
-/

namespace TetCore

open TetCore.Lib

/-! ## Validators and leaders -/

/-- `ConsensusIdentity::new`. -/
def consensusIdentity (id : Str) : Option Str :=
  let id := trimLower id
  if id.isEmpty then none else some id

/-- `ValidatorSet::new`: sorted, without repetitions. -/
def validatorSet (ids : List Str) : List Str := Ledger.sortDedup (ids.filterMap consensusIdentity)

/-- `ValidatorSet::from_env_or_single`. -/
def validatorSetFromEnvOrSingle (W : World) : List Str :=
  let ids := match W.validatorIdsVar with
    | none => []
    | some v => ((v.splitOn ',').map trim).filter fun s => !s.isEmpty
  validatorSet (if ids.isEmpty then [W.localNodeId] else ids)

/-- `ValidatorSet::contains`. -/
def validatorSetContains (validators : List Str) (id : Str) : Bool :=
  match consensusIdentity id with
  | none => false
  | some id => validators.contains id

/-- `Iterator::min_by`: the first of the smallest elements. -/
def minBy {α : Type} (cmp : α → α → Ordering) : List α → Option α
  | [] => none
  | x :: xs => some (xs.foldl (fun m y => if cmp m y = .gt then y else m) x)

/-- `leader_score`. -/
def leaderScore (W : World) (height : Nat) (validatorId : Str) : Bytes :=
  W.sha256 (beBytes 8 height ++ utf8 validatorId)

/-- `weighted_score`. -/
def weightedScore (W : World) (height : Nat) (validatorId : Str) (weight : Nat) : Nat :=
  ofBeBytes ((leaderScore W height validatorId).take 8) / max weight 1

def caacPocBaseWeight : Nat := 100
def caacPorBaseWeight : Nat := 25
def caacUnregisteredWeight : Nat := 10

/-- `caac_weight_from_record`. -/
def caacWeightFromRecord : Option CaacWorkerRecord → Nat
  | none => caacUnregisteredWeight
  | some rec =>
    let role := toAsciiUppercase (trim rec.role)
    let base := if role = "POC".toList then caacPocBaseWeight
      else if role = "POR".toList then caacPorBaseWeight
      else caacUnregisteredWeight
    let latencyScore := min (max (1000 / max rec.latencyMs 1) 1) 1000
    let serverPenalty := if 1000 < rec.serverWallMs then 2 else 1
    max (satAdd base (latencyScore / serverPenalty)) 1

/-- `caac_block_weight`. -/
def caacBlockWeight (L : Ledger) (producerId : Str) : Nat :=
  max (caacWeightFromRecord (L.caacGetWorkerRecord producerId)) 1

/-- `leader_for_height_with_mode`. -/
def leaderForHeight (W : World) (L : Ledger) (height : Nat) (validators : List Str) : Option Str :=
  match W.leaderMode with
  | .hash => minBy (fun a b => compare (leaderScore W height a) (leaderScore W height b)) validators
  | .caac =>
    let score := fun id =>
      weightedScore W height id (caacWeightFromRecord (L.caacGetWorkerRecord id))
    minBy (fun a b => (compare (score a) (score b)).then (compare a b)) validators

/-! ## Hashes and ids -/

/-- `tx_hash_for_env`. -/
def txHashForEnv (W : World) (env : SignedTxEnvelopeV1) : Except String Str := do
  let txBytes ← W.verifyEnvelopeV1 env
  .ok ('0' :: 'x' :: W.sha256Hex txBytes)

/-- `GENESIS_ZERO_PARENT_BLOCK_ID`. -/
def genesisZeroParentBlockId : Str := '0' :: 'x' :: List.replicate 64 '0'

/-- `block_id_for_block`, the V2 schema. -/
def blockIdForBlock (W : World) (blockHeight : Nat) (parentBlockId stateRoot : Str)
    (txHashes : List Str) (producerId : Str) : Str :=
  let parent := if (trim parentBlockId).isEmpty then genesisZeroParentBlockId else parentBlockId
  '0' :: 'x' :: W.sha256Hex (utf8 "TET_BLOCK_ID_V2|".toList ++ leBytes 8 blockHeight ++
    utf8 "|parent=".toList ++ utf8 parent ++ utf8 "|state=".toList ++ utf8 stateRoot ++
    utf8 "|txs=".toList ++ utf8 ([','].intercalate txHashes) ++ utf8 "|producer=".toList ++
    utf8 producerId)

/-- `remote_wins_fork`. -/
def remoteWinsFork (localBlockId remoteBlockId : Str) : Bool :=
  compare remoteBlockId localBlockId == .lt

/-! ## AI workloads and rewards -/

/-- `block_contains_ai_workload`. -/
def blockContainsAiWorkload (txs : List SignedTxEnvelopeV1) : Bool :=
  txs.any fun env => env.tx.isAiWorkload

/-- `producer_can_mine_ai_workload`. -/
def producerCanMineAiWorkload (L : Ledger) (producerId : Str) : Bool :=
  match L.caacGetWorkerRecord producerId with
  | some rec => eqIgnoreAsciiCase (trim rec.role) "POC".toList
  | none => false

/-- `validate_enterprise_inference_tx`. -/
def validateEnterpriseInferenceTx (W : World) : TxV1 → Except String Unit
  | .enterpriseInference wallet prompt _ amountMicro nonce promptSha256Hex workloadFlag _ => do
    require (isHex64 (trimLower wallet) = true) "enterprise_wallet_id must be 64 hex characters"
    require (trim prompt ≠ []) "prompt required"
    require (nonce ≠ 0) "nonce required"
    require (amountMicro ≠ 0 ∧ amountMicro ≤ maxSupplyMicro) "invalid amount_micro"
    require (workloadFlag = WorkloadFlag.aiInference.asU8)
      "enterprise_inference requires workload_flag=1"
    require (W.sha256Hex (utf8 (trim prompt)) = trimLower promptSha256Hex)
      "prompt does not match prompt_sha256_hex"
  | _ => .error "expected enterprise_inference tx"

/-- The flops one transaction adds to `compute_reward_for_block`. -/
def txFlops (W : World) (env : SignedTxEnvelopeV1) : Except String Nat :=
  match env.tx with
  | .transfer _ _ _ _ | .initialAirdrop _ | .fileFee _ _ _ _ | .workerRegister _ _ _ _ _ => .ok 0
  | .verifyZkProof _ imageId journalB64 receiptB64 => do
    match ← W.verifyTxReceiptAndJournal imageId journalB64 receiptB64 with
    | .zkCourt flops => .ok flops
    | _ => .ok 0
  | .enterpriseInference _ _ _ _ _ _ _ _ => do
    validateEnterpriseInferenceTx W env.tx
    .ok 0
  | _ => .error "unsupported tx in block reward calculation"

/-- `compute_reward_for_block`. -/
def computeRewardForBlock (W : World) (txs : List SignedTxEnvelopeV1) : Except String Nat := do
  let flopsSum ← txs.foldlM (fun sum env => do .ok (satAdd128 sum (← txFlops W env))) 0
  if flopsSum = 0 then .ok 0 else .ok (W.thermodynamicReward flopsSum)

/-- `reward_for_block`. -/
def rewardForBlock (W : World) (txs : List SignedTxEnvelopeV1) : Except String BlockReward := do
  let computeRewardMicro ← computeRewardForBlock W txs
  .ok ⟨W.baseBlockRewardMicro, computeRewardMicro, satAdd W.baseBlockRewardMicro computeRewardMicro⟩

/-! ## ZK task claims -/

/-- The task one proof claims: open, known and not claimed twice in the block. -/
def claimTask (L : Ledger) (seenTaskIds : List Str) (taskId : Str) :
    Except String (List Str) := do
  require (taskId ≠ []) "zk court proof requires task_id"
  require (taskId ∉ seenTaskIds) ("duplicate zk proof task_id in block: " ++ String.ofList taskId)
  match L.aiWorkloadTask taskId with
  | .error e => .error e.text
  | .ok none => .error ("zk proof references unknown task_id: " ++ String.ofList taskId)
  | .ok (some task) => do
    require (task.processed = false)
      ("zk proof references already processed task_id: " ++ String.ofList taskId)
    .ok (taskId :: seenTaskIds)

/-- The loop of `validate_zk_task_claims`. -/
def claimTasks (W : World) (L : Ledger) :
    List SignedTxEnvelopeV1 → List Str → Except String Unit
  | [], _ => .ok ()
  | env :: txs, seen =>
    match env.tx with
    | .verifyZkProof taskId imageId journalB64 receiptB64 =>
      match W.verifyTxReceiptAndJournal imageId journalB64 receiptB64 with
      | .error e => .error e
      | .ok (.zkCourt _) => do
        let seen ← claimTask L seen (trim taskId)
        claimTasks W L txs seen
      | .ok _ => claimTasks W L txs seen
    | _ => claimTasks W L txs seen

/-- `validate_zk_task_claims`. -/
def validateZkTaskClaims (W : World) (L : Ledger) (txs : List SignedTxEnvelopeV1) :
    Except String Unit :=
  claimTasks W L txs []

/-! ## Ids have no blanks -/

theorem trim_hexId (b : Bytes) : trim ('0' :: 'x' :: hexEncode b) = '0' :: 'x' :: hexEncode b := by
  refine trim_of_forall ?_
  intro c hc
  rcases List.mem_cons.mp hc with rfl | hc
  · decide
  rcases List.mem_cons.mp hc with rfl | hc
  · decide
  · exact hexEncode_not_whitespace b c hc

@[simp] theorem trim_blockIdForBlock (W : World) (height : Nat) (parent root : Str)
    (hashes : List Str) (producer : Str) :
    trim (blockIdForBlock W height parent root hashes producer) =
      blockIdForBlock W height parent root hashes producer :=
  trim_hexId _

theorem blockIdForBlock_ne_nil (W : World) (height : Nat) (parent root : Str) (hashes : List Str)
    (producer : Str) : blockIdForBlock W height parent root hashes producer ≠ [] :=
  List.cons_ne_nil _ _

/-- A transaction hash is its own normal form, and has no blanks. -/
theorem trim_txHashForEnv {W : World} {env : SignedTxEnvelopeV1} {h : Str}
    (hh : txHashForEnv W env = .ok h) : trim h = h := by
  simp only [txHashForEnv, bind_eq_ok, Except.ok.injEq] at hh
  obtain ⟨b, -, rfl⟩ := hh
  exact trim_hexId _

end TetCore
