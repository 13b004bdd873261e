import TetCore.Ledger.Apply

/-!
# Direct operations

Model of the `ledger.rs` operations that move value outside blocks: the genesis allocation, wallet
stakes and worker bonds, ZK-court bonds, slashing, reward payouts, AI settlements and the two direct
transfers. Each runs in one sled transaction, so it either commits all of its writes or none: an
`Except` whose success carries the new ledger. The genesis allocation clears two trees before its
transaction and panics when an assertion fails, so it is a `Proc`.

The `proofs` tree, the audit log and the snapshots are left out: nothing here reads them.
-/

namespace TetCore

open TetCore.Lib

/-! ## Constants -/

def genesisFounderShareMicro : Nat := 2500000000 * stevemon
def genesisWorkerPoolShareMicro : Nat := 5000000000 * stevemon
def genesisTreasuryShareMicro : Nat := 2500000000 * stevemon
def genesisProtocolReserveShareMicro : Nat := 0
def genesisTotalMintMicro : Nat := maxSupplyMicro
def genesisGuardiansTotal : Nat := 10000
def genesisGuardianGrantMicro : Nat := 10000 * stevemon
def genesis1kMax : Nat := 10000
def genesis1kWorkerGrossNum : Nat := 11
def genesis1kWorkerGrossDen : Nat := 10

namespace Ledger

/-! ## Rows -/

/-- Write a balance. -/
def putBalance (L : Ledger) (k : Str) (n : Nat) : Ledger :=
  { L with balances := L.balances.insert k n }

/-- Read a balance, add to it with `saturating_add`, write it back. -/
def addBalance (L : Ledger) (k : Str) (n : Nat) : Ledger :=
  L.putBalance k (satAdd (L.balanceMicro k) n)

/-- Write a `meta` row. -/
def putRow (L : Ledger) (k : MetaKey) (v : MetaVal) : Ledger :=
  { L with metaTree := L.metaTree.insert k v }

/-- Read a counter, add to it with `saturating_add`, write it back. -/
def addCounter (L : Ledger) (k : MetaKey) (n : Nat) : Ledger :=
  L.putRow k (.u64 (satAdd (L.metaU64OrZero k) n))

/-- Write a worker bond. -/
def putBond (L : Ledger) (k : Str) (n : Nat) : Ledger :=
  { L with workerStakes := L.workerStakes.insert k n }

/-- A burn: the burned total grows, the supply shrinks. -/
def burnSupply (L : Ledger) (burnMicro : Nat) : Ledger :=
  let L := L.addCounter .totalBurned burnMicro
  L.putRow .totalSupply (.u64 (L.metaU64OrZero .totalSupply - burnMicro))

/-- `wallet_nonce_meta_key`. -/
def walletNonceMetaKey (wallet : Str) : MetaKey := .walletNonce (trimLower wallet)

/-- `wallet_stake_meta_key`. -/
def walletStakeMetaKey (wallet : Str) : MetaKey := .walletStake (trimLower wallet)

/-- `wallet_presale_lock_until_meta_key`. -/
def walletPresaleLockUntilMetaKey (wallet : Str) : MetaKey :=
  .walletPresaleLockUntil (trimLower wallet)

/-- `wallet_infer_burn_meta_key`. -/
def walletInferBurnMetaKey (wallet : Str) : MetaKey := .walletInferBurn (trimLower wallet)

/-- `genesis_guardian_grant_meta_key`. -/
def genesisGuardianGrantMetaKey (wallet : Str) : MetaKey := .genesisGuardianGrant (trim wallet)

/-- `zkcourt_bond_key`. -/
def zkcourtBondKey (inferenceId challenger : Str) : Str :=
  trim inferenceId ++ ':' :: trimLower challenger

/-- `staked_balance_micro`. -/
def stakedBalanceMicro (L : Ledger) (wallet : Str) : Nat :=
  L.metaU64OrZero (walletStakeMetaKey wallet)

/-! ## Nonces and the pre-sale lock -/

/-- A signed nonce must exceed the wallet's last one. -/
def checkNonce (L : Ledger) (wallet : Str) (msg : String) : Option Nat → Except LedgerError Unit
  | none => .ok ()
  | some n => require (L.metaU64OrZero (walletNonceMetaKey wallet) < n) (.invalid msg)

/-- Store a signed nonce. -/
def putNonce (L : Ledger) (wallet : Str) : Option Nat → Ledger
  | none => L
  | some n => L.putRow (walletNonceMetaKey wallet) (.u64 n)

/-- While the sender's pre-sale lock runs it may only pay the AI burn wallet. -/
def checkPresaleLock (W : World) (nowMs : Nat) (L : Ledger) (fromWallet toWallet : Str) :
    Except LedgerError Unit :=
  let lockedUntil := L.metaU64OrZero (walletPresaleLockUntilMetaKey fromWallet)
  require (¬(0 < lockedUntil ∧ nowMs < lockedUntil) ∨ trimLower toWallet = W.aiBurnWallet)
    (.invalid ("wallet is locked (pre-sale vest). Transfers are restricted until unlock; " ++
      "burn-only is allowed."))

/-- An allocation from `dex:treasury` locks its recipient, when a lock is configured. -/
def lockPresale (W : World) (nowMs : Nat) (L : Ledger) (fromWallet toWallet : Str) : Ledger :=
  if 0 < W.presaleLockMs ∧ trimLower fromWallet = walletDexTreasury then
    L.putRow (walletPresaleLockUntilMetaKey toWallet) (.u64 (satAdd nowMs W.presaleLockMs))
  else L

/-! ## Genesis -/

/-- The checks of a genesis founder on mainnet, where a mismatch panics. -/
def genesisFounderAccepted (W : World) (founder : Str) : Bool :=
  !W.mainnet || match W.genesisFounderWalletIdVar with
    | none => false
    | some raw => !(trimLower raw).isEmpty && trimLower founder == trimLower raw

/-- The rows of the genesis transaction. -/
def genesisRows (W : World) (nowMs : Nat) (founder treasury : Str) (L : Ledger) : Ledger :=
  let L := L.addBalance founder genesisFounderShareMicro
  let L := L.addBalance walletWorkerPool genesisWorkerPoolShareMicro
  let L := L.addBalance treasury 0
  let L := L.addBalance treasury genesisTreasuryShareMicro
  let L := L.addBalance walletProtocolReserve genesisProtocolReserveShareMicro
  let L := L.putRow .totalSupply (.u64 genesisTotalMintMicro)
  let L := L.putRow .founderWallet (.text founder)
  let L := L.putRow .treasuryWallet (.text treasury)
  let L := L.putRow .founderGenesisUnlockAtMs (.u64 (satAdd nowMs W.founderCliffMs))
  L.putRow .founderGenesisLockedMicro (.u64 genesisFounderShareMicro)

/-- `apply_genesis_allocation`. -/
def applyGenesisAllocation (W : World) (nowMs : Nat) (founderWalletId : Str) :
    Proc Ledger LedgerError Unit := do
  let founder := trim founderWalletId
  Proc.check id fun _ => require (founder ≠ []) (.invalid "founder_wallet_id required")
  if genesisFounderAccepted W founder then do
    Proc.check id fun L =>
      require (L.metaU64OrZero .totalSupply = 0) .genesisAlreadyApplied
    Proc.write fun L => { L with balances := .empty, workerStakes := .empty }
    let treasury ← Proc.check id fun _ => W.treasuryAddressFromEnv
    Proc.write (genesisRows W nowMs founder treasury)
    let credited ← Proc.read fun L =>
      L.metaU64OrZero .totalSupply == genesisTotalMintMicro &&
      L.balanceMicro founder == genesisFounderShareMicro &&
      L.balanceMicro walletWorkerPool == genesisWorkerPoolShareMicro &&
      L.balanceMicro treasury == genesisTreasuryShareMicro
    -- the assertions after the flush
    if credited then pure () else Proc.hang
  else Proc.hang

/-- `grant_genesis_guardian_if_eligible`: whether the grant was paid. -/
def grantGenesisGuardianIfEligible (W : World) (wallet : Str) (L : Ledger) :
    Except LedgerError (Bool × Ledger) := do
  let w := trimLower wallet
  require (w ≠ []) (.invalid "wallet required")
  require (isHex64 w = true) (.invalid "wallet must be 64-hex id")
  let founder := trimLower (valueOr L.founderWallet [])
  let filled := L.metaU64OrZero .genesisGuardiansFilled
  let poolCur := L.balanceMicro walletWorkerPool
  if w = walletWorkerPool ∨ w = walletDexTreasury ∨ w = W.aiBurnWallet ∨ founder = w then
    .ok (false, L)
  else if (L.metaTree.get (genesisGuardianGrantMetaKey w)).isSome then .ok (false, L)
  else if genesisGuardiansTotal ≤ filled then .ok (false, L)
  else if poolCur < genesisGuardianGrantMicro then .ok (false, L)
  else
    let wCur := L.balanceMicro w
    let L := L.putBalance walletWorkerPool (poolCur - genesisGuardianGrantMicro)
    let L := L.putBalance w (satAdd wCur genesisGuardianGrantMicro)
    let L := L.putRow (genesisGuardianGrantMetaKey w) .mark
    .ok (true, L.putRow .genesisGuardiansFilled (.u64 (satAdd filled 1)))

/-- `withdraw_treasury_to_founder`. Both balances are read before either is written. -/
def withdrawTreasuryToFounder (amountMicro nonce : Nat) (L : Ledger) :
    Except LedgerError (Unit × Ledger) := do
  require (amountMicro ≠ 0 ∧ amountMicro ≤ maxSupplyMicro) (.invalid "invalid amount")
  require (nonce ≠ 0) (.invalid "nonce must be > 0")
  let founder ← L.founderWallet
  require (L.metaU64OrZero .treasuryWithdrawNonce < nonce) (.invalid "stale nonce")
  let tCur := L.balanceMicro walletDexTreasury
  require (amountMicro ≤ tCur) .insufficientFunds
  let fCur := L.balanceMicro founder
  let L := L.putBalance walletDexTreasury (tCur - amountMicro)
  let L := L.putBalance founder (satAdd fCur amountMicro)
  .ok ((), L.putRow .treasuryWithdrawNonce (.u64 nonce))

/-! ## Stakes and bonds -/

/-- The checks and the debit that `stake_micro` and `stake_worker_bond_micro` share: the wallet and
the ledger without the amount. -/
def takeForStake (nowMs : Nat) (wallet : Str) (amountMicro : Nat) (signedNonce : Option Nat)
    (L : Ledger) : Except LedgerError (Str × Ledger) := do
  let w := trimLower wallet
  require (w ≠ []) (.invalid "wallet required")
  require (amountMicro ≠ 0) (.invalid "amount must be > 0")
  let lockedSum ← L.lockedBalanceMicro .saturating w nowMs
  L.checkNonce w "stale nonce" signedNonce
  let fb := L.balanceMicro w
  require (amountMicro ≤ fb - lockedSum) .insufficientFunds
  .ok (w, (L.putBalance w (fb - amountMicro)).putNonce w signedNonce)

/-- `stake_micro`: the amount and the new stake. -/
def stakeMicro (nowMs : Nat) (wallet : Str) (amountMicro : Nat) (signedNonce : Option Nat)
    (L : Ledger) : Except LedgerError ((Nat × Nat) × Ledger) := do
  let (w, L) ← takeForStake nowMs wallet amountMicro signedNonce L
  let L := L.addCounter (walletStakeMetaKey w) amountMicro
  .ok ((amountMicro, L.stakedBalanceMicro w), L)

/-- `stake_worker_bond_micro`: the amount and the new bond. -/
def stakeWorkerBondMicro (nowMs : Nat) (wallet : Str) (amountMicro : Nat)
    (signedNonce : Option Nat) (L : Ledger) : Except LedgerError ((Nat × Nat) × Ledger) := do
  let (w, L) ← takeForStake nowMs wallet amountMicro signedNonce L
  let L := L.putBond w (satAdd (amountAt L.workerStakes w) amountMicro)
  .ok ((amountMicro, L.workerBondMicro w), L)

/-- `unstake_worker_bond_micro`: the amount and the new bond. -/
def unstakeWorkerBondMicro (wallet : Str) (amountMicro : Nat) (signedNonce : Option Nat)
    (L : Ledger) : Except LedgerError ((Nat × Nat) × Ledger) := do
  let w := trimLower wallet
  require (w ≠ []) (.invalid "wallet required")
  require (amountMicro ≠ 0) (.invalid "amount must be > 0")
  L.checkNonce w "stale nonce" signedNonce
  let curBond := amountAt L.workerStakes w
  require (amountMicro ≤ curBond) (.invalid "insufficient worker bond")
  let L := (L.putBond w (curBond - amountMicro)).addBalance w amountMicro
  let L := L.putNonce w signedNonce
  .ok ((amountMicro, L.workerBondMicro w), L)

/-- `slash_worker_bond_to_ecosystem_all`: the bond taken. -/
def slashWorkerBondToEcosystemAll (wallet : Str) (L : Ledger) :
    Except LedgerError (Nat × Ledger) := do
  let w := trimLower wallet
  require (w ≠ []) (.invalid "wallet required")
  let curBond := amountAt L.workerStakes w
  require (curBond ≠ 0) (.invalid "no worker bond to slash")
  let L := { L with workerStakes := L.workerStakes.remove w }
  .ok (curBond, L.addBalance walletEcosystem curBond)

/-- `slash_stake_micro`: the amount and the stake left. -/
def slashStakeMicro (wallet : Str) (amountMicro : Nat) (L : Ledger) :
    Except LedgerError ((Nat × Nat) × Ledger) := do
  let w := trimLower wallet
  require (w ≠ []) (.invalid "wallet required")
  require (amountMicro ≠ 0) (.invalid "amount must be > 0")
  let curStake := L.metaU64OrZero (walletStakeMetaKey w)
  require (amountMicro ≤ curStake) (.invalid "insufficient staked balance")
  let L := L.putRow (walletStakeMetaKey w) (.u64 (curStake - amountMicro))
  let L := L.burnSupply amountMicro
  .ok ((amountMicro, L.stakedBalanceMicro w), L)

/-! ## ZK-court bonds -/

/-- `zkcourt_lock_challenger_bond`: the bond. -/
def zkcourtLockChallengerBond (W : World) (inferenceId challenger : Str) (L : Ledger) :
    Except LedgerError (Nat × Ledger) := do
  let bond := W.zkcourtChallengerBondMicro
  let c := trimLower challenger
  require (c ≠ []) (.invalid "challenger wallet required")
  let bondK := zkcourtBondKey inferenceId c
  require ((L.zkcourtBonds.get bondK).isNone = true) (.invalid "challenger bond already locked")
  let bal := L.balanceMicro c
  require (bond ≤ bal) .insufficientFunds
  let L := L.putBalance c (bal - bond)
  .ok (bond, { L with zkcourtBonds := L.zkcourtBonds.insert bondK bond })

/-- `zkcourt_settle_challenger_bond`: the bond returned or slashed. -/
def zkcourtSettleChallengerBond (inferenceId challenger : Str) (validChallenge : Bool)
    (L : Ledger) : Except LedgerError (Nat × Ledger) :=
  let c := trimLower challenger
  let bondK := zkcourtBondKey inferenceId c
  let cur := amountAt L.zkcourtBonds bondK
  if cur = 0 then .ok (0, L)
  else
    let L := { L with zkcourtBonds := L.zkcourtBonds.remove bondK }
    .ok (cur, L.addBalance (if validChallenge then c else walletEcosystem) cur)

/-! ## Rewards -/

/-- The Genesis 1,000 slot of `mint_reward_with_proof`, when the call commits one. -/
def claimGenesis1kSlot (L : Ledger) (peer : Str) : Bool → Except LedgerError Ledger
  | false => .ok L
  | true => do
    require ((L.metaTree.get (.genesis1kSlot peer)).isNone = true)
      (.invalid "genesis 1,000 bonus already claimed")
    let cur := L.metaU64OrZero .genesis1kFilled
    require (cur < genesis1kMax) (.invalid "genesis 1,000 program is full")
    let nextSlot := satAdd cur 1
    .ok ((L.putRow .genesis1kFilled (.u64 nextSlot)).putRow (.genesis1kSlot peer) (.u64 nextSlot))

/-- `mint_reward_with_proof`: gross, net, fee and proof id. -/
def mintRewardWithProof (W : World) (peer : Str) (grossMicro : Nat) (attested : Bool)
    (commitGenesis1kSlot : Bool) (L : Ledger) :
    Except LedgerError ((Nat × Nat × Nat × Nat) × Ledger) :=
  if grossMicro = 0 then .ok ((0, 0, 0, 0), L)
  else do
    require (W.attestationRequired = false ∨ attested = true) .attestationRequired
    let peer := trim peer
    require (commitGenesis1kSlot = false ∨ peer ≠ [])
      (.invalid "genesis 1k commit requires peer wallet")
    let L ← L.claimGenesis1kSlot peer commitGenesis1kSlot
    let newTotal := satAdd (L.metaU64OrZero .totalSupply) grossMicro
    require (newTotal ≤ maxSupplyMicro) .hardCapExceeded
    let L := L.addCounter .proofSeq 1
    let proofId := L.metaU64OrZero .proofSeq
    let L := L.addBalance peer grossMicro
    .ok ((grossMicro, grossMicro, 0, proofId), L.putRow .totalSupply (.u64 newTotal))

/-- `genesis_1k_participant`. -/
def genesis1kParticipant (L : Ledger) (wallet : Str) : Bool :=
  let w := trim wallet
  !w.isEmpty && (L.metaTree.get (.genesis1kSlot w)).isSome

/-- The key of a vest lock: `vl1`, a zero byte and the sequence number in little endian. -/
def vestLockKey (vestId : Nat) : Str :=
  "vl1\x00".toList ++ (leBytes 8 vestId).map fun b => Char.ofNat b.toNat

/-- `mint_worker_network_reward`: gross, net, fee and proof id. -/
def mintWorkerNetworkReward (W : World) (nowMs : Nat) (workerWallet imperialVaultWallet : Str)
    (grossMicro : Nat) (attested : Bool) (L : Ledger) :
    Except LedgerError ((Nat × Nat × Nat × Nat) × Ledger) :=
  if grossMicro = 0 then .ok ((0, 0, 0, 0), L)
  else do
    let grossMicro := if L.genesis1kParticipant workerWallet then
        grossMicro * genesis1kWorkerGrossNum / genesis1kWorkerGrossDen % 2 ^ 64
      else grossMicro
    require (workerWallet ≠ imperialVaultWallet)
      (.invalid "worker wallet must differ from imperial vault")
    require (W.attestationRequired = false ∨ attested = true) .attestationRequired
    let w := trim workerWallet
    let poolBal := L.balanceMicro walletWorkerPool
    require (grossMicro ≤ poolBal) .insufficientFunds
    let L := L.addCounter .proofSeq 1
    let proofId := L.metaU64OrZero .proofSeq
    let L := L.putBalance walletWorkerPool (poolBal - grossMicro)
    let L := L.addBalance w grossMicro
    let L := L.addCounter .workerCommunity grossMicro
    let L := L.addCounter .nextVestSeq 1
    let vest : VestLockV1 := ⟨1, w, grossMicro, satAdd128 nowMs W.workerVestMs⟩
    let vestK := vestLockKey (L.metaU64OrZero .nextVestSeq)
    .ok ((grossMicro, grossMicro, 0, proofId),
      { L with vestLocks := L.vestLocks.insert vestK vest })

/-! ## AI settlements -/

/-- `settle_ai_utility_payment`: the worker's, the treasury's and the burned part. -/
def settleAiUtilityPayment (W : World) (payerWallet workerWallet : Str) (grossMicro : Nat)
    (L : Ledger) : Except LedgerError ((Nat × Nat × Nat) × Ledger) := do
  let payer := trim payerWallet
  let worker := trim workerWallet
  require (payer ≠ [] ∧ worker ≠ []) (.invalid "wallet ids required")
  require (grossMicro ≠ 0 ∧ grossMicro ≤ maxSupplyMicro) (.invalid "invalid gross amount")
  require (payer ≠ worker) (.invalid "payer and worker must differ")
  let split ← chargeLedger .aiUtility grossMicro
  let treasury ← W.treasuryAddressFromEnv
  let payerCur := L.balanceMicro payer
  require (grossMicro ≤ payerCur) .insufficientFunds
  let L := L.putBalance payer (payerCur - grossMicro)
  let L := L.addBalance worker split.netMicro
  let L := if 0 < split.treasuryMicro then
      (L.addBalance treasury split.treasuryMicro).addCounter .feeTotal split.treasuryMicro
    else L
  let L := if 0 < split.burnMicro then L.burnSupply split.burnMicro else L
  .ok ((split.netMicro, split.treasuryMicro, split.burnMicro), L)

/-- `settle_ai_inference_dynamic_charge`: the pool's and the burned half. -/
def settleAiInferenceDynamicCharge (nowMs : Nat) (payerWallet : Str) (costMicro : Nat)
    (L : Ledger) : Except LedgerError ((Nat × Nat) × Ledger) := do
  let payer := trim payerWallet
  require (payer ≠ []) (.invalid "payer wallet required")
  require (costMicro ≠ 0 ∧ costMicro ≤ maxSupplyMicro) (.invalid "invalid inference cost")
  let heightAt := L.metaU64OrZero .inferenceBlockHeight
  let split ← chargeLedger .aiInference costMicro
  let payerCur := L.balanceMicro payer
  require (costMicro ≤ payerCur) .insufficientFunds
  let L := L.putBalance payer (payerCur - costMicro)
  let L := L.addBalance walletWorkerPool split.poolMicro
  let L := if 0 < split.burnMicro then L.burnSupply split.burnMicro else L
  let L := L.addCounter (walletInferBurnMetaKey payer) split.burnMicro
  let L := L.putRow .inferenceBlockHeight (.u64 (satAdd heightAt 1))
  .ok ((split.poolMicro, split.burnMicro),
    L.putRow .inferConsensusLastMs (.u64 (min nowMs u64Max)))

/-! ## Direct transfers -/

/-- `transfer_no_fee`: the amount moved. -/
def transferNoFee (W : World) (nowMs : Nat) (fromWallet toWallet : Str) (amountMicro : Nat)
    (L : Ledger) : Except LedgerError (Nat × Ledger) :=
  if fromWallet = toWallet ∨ amountMicro = 0 then .ok (0, L)
  else do
    require (amountMicro ≤ maxSupplyMicro) (.invalid "amount exceeds hard cap")
    require (W.attestationRequired = false) .attestationRequired
    let lockedSum ← L.lockedBalanceMicro .saturating fromWallet nowMs
    L.checkPresaleLock W nowMs fromWallet toWallet
    let fb := L.balanceMicro fromWallet
    require (amountMicro ≤ fb - lockedSum) .insufficientFunds
    let tb := L.balanceMicro toWallet
    let L := L.putBalance fromWallet (fb - amountMicro)
    let L := L.putBalance toWallet (satAdd tb amountMicro)
    .ok (amountMicro, L.lockPresale W nowMs fromWallet toWallet)

/-- `settle_transfer_internal`: the net amount and the fee. -/
def settleTransferInternal (W : World) (nowMs : Nat) (fromWallet toWallet : Str)
    (amountMicro : Nat) (feeBps : Option Nat) (attested : Bool) (signedTransferNonce : Option Nat)
    (L : Ledger) : Except LedgerError ((Nat × Nat) × Ledger) :=
  if fromWallet = toWallet ∨ amountMicro = 0 then .ok ((0, 0), L)
  else do
    require (amountMicro ≤ maxSupplyMicro) (.invalid "amount exceeds hard cap")
    require (W.attestationRequired = false ∨ attested = true) .attestationRequired
    let split ← chargeLedger (.transfer (feeBps.getD transferFeeBpsDefault)) amountMicro
    let lockedSum ← L.lockedBalanceMicro .saturating fromWallet nowMs
    L.checkPresaleLock W nowMs fromWallet toWallet
    L.checkNonce fromWallet "stale or replay nonce" signedTransferNonce
    let fb := L.balanceMicro fromWallet
    require (amountMicro ≤ fb - lockedSum) .insufficientFunds
    let tb := L.balanceMicro toWallet
    let L := L.putBalance fromWallet (fb - amountMicro)
    let L := L.putBalance toWallet (satAdd tb split.netMicro)
    let L := L.lockPresale W nowMs fromWallet toWallet
    let L := if 0 < split.feeMicro then
        let L := L.addBalance walletWorkerPool split.poolMicro
        let L := if 0 < split.burnMicro then L.burnSupply split.burnMicro else L
        L.addCounter .feeTotal split.feeMicro
      else L
    .ok ((split.netMicro, split.feeMicro), L.putNonce fromWallet signedTransferNonce)

/-! ## Runs -/

/-- An operation on the ledger with its arguments. -/
inductive Op where
  | applyConsensusBlockBatch (blockHeight : Nat) (txs : List SignedTxEnvelopeV1)
      (txHashes : List Str) (producerId : Str) (rewardMicro : Nat)
  | grantGenesisGuardian (wallet : Str)
  | withdrawTreasuryToFounder (amountMicro nonce : Nat)
  | stake (wallet : Str) (amountMicro : Nat) (signedNonce : Option Nat)
  | stakeWorkerBond (wallet : Str) (amountMicro : Nat) (signedNonce : Option Nat)
  | unstakeWorkerBond (wallet : Str) (amountMicro : Nat) (signedNonce : Option Nat)
  | slashWorkerBondToEcosystemAll (wallet : Str)
  | slashStake (wallet : Str) (amountMicro : Nat)
  | zkcourtLockChallengerBond (inferenceId challenger : Str)
  | zkcourtSettleChallengerBond (inferenceId challenger : Str) (validChallenge : Bool)
  | mintRewardWithProof (peer : Str) (grossMicro : Nat) (attested commitGenesis1kSlot : Bool)
  | mintWorkerNetworkReward (workerWallet imperialVaultWallet : Str) (grossMicro : Nat)
      (attested : Bool)
  | settleAiUtilityPayment (payerWallet workerWallet : Str) (grossMicro : Nat)
  | settleAiInferenceDynamicCharge (payerWallet : Str) (costMicro : Nat)
  | transferNoFee (fromWallet toWallet : Str) (amountMicro : Nat)
  | settleTransferInternal (fromWallet toWallet : Str) (amountMicro : Nat) (feeBps : Option Nat)
      (attested : Bool) (signedTransferNonce : Option Nat)

/-- The ledger an operation commits. -/
def Op.exec (W : World) (nowMs : Nat) (op : Op) (L : Ledger) : Except LedgerError Ledger :=
  match op with
  | .applyConsensusBlockBatch height txs txHashes producer reward =>
    Prod.snd <$> L.applyConsensusBlockBatch W nowMs height txs txHashes producer reward
  | .grantGenesisGuardian w => Prod.snd <$> grantGenesisGuardianIfEligible W w L
  | .withdrawTreasuryToFounder amount nonce => Prod.snd <$> L.withdrawTreasuryToFounder amount nonce
  | .stake w amount nonce => Prod.snd <$> stakeMicro nowMs w amount nonce L
  | .stakeWorkerBond w amount nonce => Prod.snd <$> stakeWorkerBondMicro nowMs w amount nonce L
  | .unstakeWorkerBond w amount nonce => Prod.snd <$> unstakeWorkerBondMicro w amount nonce L
  | .slashWorkerBondToEcosystemAll w => Prod.snd <$> L.slashWorkerBondToEcosystemAll w
  | .slashStake w amount => Prod.snd <$> slashStakeMicro w amount L
  | .zkcourtLockChallengerBond inf chal => Prod.snd <$> L.zkcourtLockChallengerBond W inf chal
  | .zkcourtSettleChallengerBond inf chal valid =>
    Prod.snd <$> L.zkcourtSettleChallengerBond inf chal valid
  | .mintRewardWithProof peer gross attested commit =>
    Prod.snd <$> L.mintRewardWithProof W peer gross attested commit
  | .mintWorkerNetworkReward worker vault gross attested =>
    Prod.snd <$> L.mintWorkerNetworkReward W nowMs worker vault gross attested
  | .settleAiUtilityPayment payer worker gross =>
    Prod.snd <$> L.settleAiUtilityPayment W payer worker gross
  | .settleAiInferenceDynamicCharge payer cost =>
    Prod.snd <$> L.settleAiInferenceDynamicCharge nowMs payer cost
  | .transferNoFee f t amount => Prod.snd <$> L.transferNoFee W nowMs f t amount
  | .settleTransferInternal f t amount bps attested nonce =>
    Prod.snd <$> L.settleTransferInternal W nowMs f t amount bps attested nonce

/-- One call: a failed one commits nothing. -/
def Op.run (W : World) (nowMs : Nat) (op : Op) (L : Ledger) : Ledger := valueOr (op.exec W nowMs L) L

/-- A sequence of calls, each at its own time. -/
def runOps (W : World) : List (Nat × Op) → Ledger → Ledger
  | [], L => L
  | (nowMs, op) :: ops, L => runOps W ops (op.run W nowMs L)

end Ledger

end TetCore
