import TetCore.Ledger.Ops
import TetCore.Ledger.Frame

/-!
# The rows an operation writes

The balance and `meta` keys of a direct operation are read off its arguments (`Op.balanceKeys`,
`Op.rowKeys`), up to the founder's wallet and the treasury's address. An operation writes no other
row of these trees, and of the other trees only the vesting locks, the worker bonds and the ZK-court
bonds (`exec_within`).
-/

namespace TetCore

open TetCore.Lib

namespace Ledger

/-- Whether the operation is the apply of a block. -/
def Op.isBlock : Op → Bool
  | .applyConsensusBlockBatch _ _ _ _ _ => true
  | _ => false

/-- The one operation that adds a vesting lock. -/
def Op.addsLock : Op → Bool
  | .mintWorkerNetworkReward _ _ _ _ => true
  | _ => false

/-- The balance keys an operation may write. -/
def Op.balanceKeys (W : World) (L : Ledger) : Op → List Str
  | .applyConsensusBlockBatch _ txs hashes producer reward =>
    (blockUndoKeys W txs hashes producer reward).balances
  | .grantGenesisGuardian w => [walletWorkerPool, trimLower w]
  | .withdrawTreasuryToFounder _ _ => [walletDexTreasury, valueOr L.founderWallet []]
  | .stake w _ _ | .stakeWorkerBond w _ _ | .unstakeWorkerBond w _ _ => [trimLower w]
  | .slashWorkerBondToEcosystemAll _ => [walletEcosystem]
  | .slashStake _ _ => []
  | .zkcourtLockChallengerBond _ challenger => [trimLower challenger]
  | .zkcourtSettleChallengerBond _ challenger _ => [trimLower challenger, walletEcosystem]
  | .mintRewardWithProof peer _ _ _ => [trim peer]
  | .mintWorkerNetworkReward worker _ _ _ => [walletWorkerPool, trim worker]
  | .settleAiUtilityPayment payer worker _ =>
    [trim payer, trim worker, valueOr W.treasuryAddressFromEnv []]
  | .settleAiInferenceDynamicCharge payer _ => [trim payer, walletWorkerPool]
  | .transferNoFee f t _ => [f, t]
  | .settleTransferInternal f t _ _ _ _ => [f, t, walletWorkerPool]

/-- The `meta` keys an operation may write. -/
def Op.rowKeys (W : World) : Op → List MetaKey
  | .applyConsensusBlockBatch _ txs hashes producer reward =>
    (blockUndoKeys W txs hashes producer reward).metaKeys
  | .grantGenesisGuardian w => [genesisGuardianGrantMetaKey (trimLower w), .genesisGuardiansFilled]
  | .withdrawTreasuryToFounder _ _ => [.treasuryWithdrawNonce]
  | .stake w _ _ => [walletStakeMetaKey (trimLower w), walletNonceMetaKey (trimLower w)]
  | .stakeWorkerBond w _ _ | .unstakeWorkerBond w _ _ => [walletNonceMetaKey (trimLower w)]
  | .slashWorkerBondToEcosystemAll _ => []
  | .slashStake w _ => [walletStakeMetaKey (trimLower w), .totalBurned, .totalSupply]
  | .zkcourtLockChallengerBond _ _ | .zkcourtSettleChallengerBond _ _ _ => []
  | .mintRewardWithProof peer _ _ _ =>
    [.genesis1kFilled, .genesis1kSlot (trim peer), .proofSeq, .totalSupply]
  | .mintWorkerNetworkReward _ _ _ _ => [.proofSeq, .workerCommunity, .nextVestSeq]
  | .settleAiUtilityPayment _ _ _ => [.feeTotal, .totalBurned, .totalSupply]
  | .settleAiInferenceDynamicCharge payer _ => [.totalBurned, .totalSupply,
    walletInferBurnMetaKey (trim payer), .inferenceBlockHeight, .inferConsensusLastMs]
  | .transferNoFee _ t _ => [walletPresaleLockUntilMetaKey t]
  | .settleTransferInternal f t _ _ _ _ => [walletPresaleLockUntilMetaKey t, .totalBurned,
    .totalSupply, .feeTotal, walletNonceMetaKey f]

/-- From `L` to `L'` only these balances and rows were written, and in the other trees only vesting
locks and bonds. -/
structure Within (ks : List Str) (rs : List MetaKey) (L L' : Ledger) : Prop where
  rest : L' = { L with
    balances := L'.balances
    metaTree := L'.metaTree
    vestLocks := L'.vestLocks
    workerStakes := L'.workerStakes
    zkcourtBonds := L'.zkcourtBonds }
  balances : ∀ k, k ∉ ks → L'.balances.get k = L.balances.get k
  rows : ∀ k, k ∉ rs → L'.metaTree.get k = L.metaTree.get k

/-- Single writes lead from `L` to the second ledger: of these balances and rows, and of bonds. -/
inductive Writes (ks : List Str) (rs : List MetaKey) (L : Ledger) : Ledger → Prop where
  | refl : Writes ks rs L L
  | balance {M : Ledger} (h : Writes ks rs L M) {k : Str} (hk : k ∈ ks) (n : Nat) :
      Writes ks rs L (M.putBalance k n)
  | row {M : Ledger} (h : Writes ks rs L M) {k : MetaKey} (hk : k ∈ rs) (v : MetaVal) :
      Writes ks rs L (M.putRow k v)
  | bonds {M : Ledger} (h : Writes ks rs L M) (stakes bonds : Tree Str Nat) :
      Writes ks rs L { M with workerStakes := stakes, zkcourtBonds := bonds }

section Footprint

variable {W : World} {nowMs : Nat} {ks : List Str} {rs : List MetaKey} {L L' : Ledger}

namespace Writes

/-- Single writes stay within their keys. -/
theorem within (h : Writes ks rs L L') : Within ks rs L L' := by
  induction h with
  | refl => exact ⟨rfl, fun _ _ => rfl, fun _ _ => rfl⟩
  | balance _ hk n ih =>
    refine ⟨by rw [putBalance, ih.rest], fun a ha => ?_, ih.rows⟩
    unfold putBalance
    rw [Tree.get_insert_ne]
    · exact ih.balances a ha
    · rintro rfl
      exact ha hk
  | row _ hk v ih =>
    refine ⟨by rw [putRow, ih.rest], ih.balances, fun a ha => ?_⟩
    unfold putRow
    rw [Tree.get_insert_ne]
    · exact ih.rows a ha
    · rintro rfl
      exact ha hk
  | bonds _ stakes bonds ih => exact ⟨by rw [ih.rest], ih.balances, ih.rows⟩

/-- They leave the vesting locks. -/
theorem vestLocks (h : Writes ks rs L L') : L'.vestLocks = L.vestLocks := by
  induction h with
  | refl => rfl
  | balance _ _ _ ih => exact ih
  | row _ _ _ ih => exact ih
  | bonds _ _ _ ih => exact ih

theorem credit (h : Writes ks rs L L') {k : Str} (hk : k ∈ ks) (n : Nat) :
    Writes ks rs L (L'.addBalance k n) := h.balance hk _

theorem counter (h : Writes ks rs L L') {k : MetaKey} (hk : k ∈ rs) (n : Nat) :
    Writes ks rs L (L'.addCounter k n) := h.row hk _

theorem bond (h : Writes ks rs L L') (k : Str) (n : Nat) : Writes ks rs L (L'.putBond k n) :=
  h.bonds _ _

theorem burn (h : Writes ks rs L L') (hb : .totalBurned ∈ rs) (hs : .totalSupply ∈ rs) (n : Nat) :
    Writes ks rs L (if 0 < n then L'.burnSupply n else L') := by
  split
  · exact (h.counter hb n).row hs _
  · exact h

theorem nonce (h : Writes ks rs L L') {w : Str} (hk : walletNonceMetaKey w ∈ rs)
    (n : Option Nat) : Writes ks rs L (L'.putNonce w n) := by
  cases n with
  | none => exact h
  | some n => exact h.row hk _

theorem lockPresale (h : Writes ks rs L L') (W : World) (nowMs : Nat) (s : Str) {t : Str}
    (hk : walletPresaleLockUntilMetaKey t ∈ rs) :
    Writes ks rs L (L'.lockPresale W nowMs s t) := by
  unfold Ledger.lockPresale
  split
  · exact h.row hk _
  · exact h

end Writes

/-- A grant is not due, or is paid from the pool to another wallet. -/
theorem grantGenesisGuardian_ok {wallet : Str} {r : Bool}
    (h : grantGenesisGuardianIfEligible W wallet L = .ok (r, L')) :
    r = false ∧ L' = L ∨
    r = true ∧ trimLower wallet ≠ walletWorkerPool ∧
      genesisGuardianGrantMicro ≤ L.balanceMicro walletWorkerPool ∧
      L' = (((L.putBalance walletWorkerPool
          (L.balanceMicro walletWorkerPool - genesisGuardianGrantMicro)).putBalance (trimLower wallet)
          (satAdd (L.balanceMicro (trimLower wallet)) genesisGuardianGrantMicro)).putRow
          (genesisGuardianGrantMetaKey (trimLower wallet)) .mark).putRow .genesisGuardiansFilled
          (.u64 (satAdd (L.metaU64OrZero .genesisGuardiansFilled) 1)) := by
  simp only [grantGenesisGuardianIfEligible, bind_eq_ok, require_eq_ok] at h
  obtain ⟨_, -, _, -, h⟩ := h
  split at h
  · cases h
    exact Or.inl ⟨rfl, rfl⟩
  rename_i hres
  split at h
  · cases h
    exact Or.inl ⟨rfl, rfl⟩
  split at h
  · cases h
    exact Or.inl ⟨rfl, rfl⟩
  split at h
  · cases h
    exact Or.inl ⟨rfl, rfl⟩
  rename_i hpool
  cases h
  exact Or.inr ⟨rfl, fun heq => hres (Or.inl heq), Nat.le_of_not_lt hpool, rfl⟩

theorem grantGenesisGuardian_writes {wallet : Str} {r : Bool}
    (h : grantGenesisGuardianIfEligible W wallet L = .ok (r, L')) :
    Writes [walletWorkerPool, trimLower wallet]
      [genesisGuardianGrantMetaKey (trimLower wallet), .genesisGuardiansFilled] L L' := by
  rcases grantGenesisGuardian_ok h with ⟨-, rfl⟩ | ⟨-, -, -, rfl⟩
  · exact .refl
  · exact (((Writes.refl.balance (by simp) _).balance (by simp) _).row (by simp) .mark).row
      (by simp) _

theorem takeForStake_writes {wallet w : Str} {amount : Nat} {n : Option Nat}
    (hn : walletNonceMetaKey (trimLower wallet) ∈ rs)
    (h : takeForStake nowMs wallet amount n L = .ok (w, L')) :
    w = trimLower wallet ∧ Writes [trimLower wallet] rs L L' := by
  simp only [takeForStake, bind_eq_ok, require_eq_ok, Except.ok.injEq, Prod.mk.injEq] at h
  obtain ⟨_, -, _, -, locked, -, _, -, _, -, rfl, rfl⟩ := h
  exact ⟨rfl, (Writes.refl.balance (by simp) _).nonce hn n⟩

theorem mintReward_writes {peer : Str} {gross : Nat} {attested commit : Bool}
    {r : Nat × Nat × Nat × Nat}
    (h : mintRewardWithProof W peer gross attested commit L = .ok (r, L')) :
    Writes [trim peer] [.genesis1kFilled, .genesis1kSlot (trim peer), .proofSeq, .totalSupply]
      L L' := by
  unfold mintRewardWithProof at h
  split at h
  · cases h
    exact .refl
  simp only [bind_eq_ok, require_eq_ok, Except.ok.injEq, Prod.mk.injEq] at h
  obtain ⟨_, -, _, -, L₁, h₁, _, -, -, rfl⟩ := h
  have hslot : Writes [trim peer]
      [.genesis1kFilled, .genesis1kSlot (trim peer), .proofSeq, .totalSupply] L L₁ := by
    cases commit with
    | false =>
      cases h₁
      exact .refl
    | true =>
      simp only [claimGenesis1kSlot, bind_eq_ok, require_eq_ok, Except.ok.injEq] at h₁
      obtain ⟨_, -, _, -, rfl⟩ := h₁
      exact (Writes.refl.row (by simp) _).row (by simp) _
  exact ((hslot.counter (k := .proofSeq) (by simp) 1).credit (by simp) _).row (by simp) _

theorem mintWorkerNetworkReward_within {worker vault : Str} {gross : Nat} {attested : Bool}
    {r : Nat × Nat × Nat × Nat}
    (h : mintWorkerNetworkReward W nowMs worker vault gross attested L = .ok (r, L')) :
    Within [walletWorkerPool, trim worker] [.proofSeq, .workerCommunity, .nextVestSeq] L L' := by
  have h₀ : Writes [walletWorkerPool, trim worker] [.proofSeq, .workerCommunity, .nextVestSeq]
      L L := .refl
  unfold mintWorkerNetworkReward at h
  split at h
  · cases h
    exact h₀.within
  simp only [bind_eq_ok, require_eq_ok, Except.ok.injEq, Prod.mk.injEq] at h
  obtain ⟨_, -, _, -, _, -, -, rfl⟩ := h
  have h₁ := fun n => (h₀.counter (k := .proofSeq) (by simp) 1).balance
    (k := walletWorkerPool) (by simp) n
  have h₂ := fun n m => ((h₁ n).credit (k := trim worker) (by simp) m).counter
    (k := .workerCommunity) (by simp) m
  have h₃ := fun n m => (h₂ n m).counter (k := .nextVestSeq) (by simp) 1
  exact ⟨rfl, (h₃ _ _).within.balances, (h₃ _ _).within.rows⟩

theorem settleAiUtility_writes {payer worker : Str} {gross : Nat} {r : Nat × Nat × Nat}
    (h : settleAiUtilityPayment W payer worker gross L = .ok (r, L')) :
    Writes [trim payer, trim worker, valueOr W.treasuryAddressFromEnv []]
      [.feeTotal, .totalBurned, .totalSupply] L L' := by
  simp only [settleAiUtilityPayment, bind_eq_ok, require_eq_ok, Except.ok.injEq,
    Prod.mk.injEq] at h
  obtain ⟨_, -, _, -, _, -, split, -, treasury, ht, _, -, -, rfl⟩ := h
  have hmem : treasury ∈ [trim payer, trim worker, valueOr W.treasuryAddressFromEnv []] := by
    rw [ht]
    simp [valueOr]
  refine Writes.burn ?_ (by simp) (by simp) _
  split
  · exact (((Writes.refl.balance (by simp) _).credit (by simp) _).credit hmem _).counter
      (k := .feeTotal) (by simp) _
  · exact (Writes.refl.balance (by simp) _).credit (by simp) _

theorem settleAiInference_writes {payer : Str} {cost : Nat} {r : Nat × Nat}
    (h : settleAiInferenceDynamicCharge nowMs payer cost L = .ok (r, L')) :
    Writes [trim payer, walletWorkerPool] [.totalBurned, .totalSupply,
      walletInferBurnMetaKey (trim payer), .inferenceBlockHeight, .inferConsensusLastMs] L L' := by
  simp only [settleAiInferenceDynamicCharge, bind_eq_ok, require_eq_ok, Except.ok.injEq,
    Prod.mk.injEq] at h
  obtain ⟨_, -, _, -, split, -, _, -, -, rfl⟩ := h
  refine (((Writes.burn ?_ (by simp) (by simp) _).counter
    (k := walletInferBurnMetaKey (trim payer)) (by simp) _).row (by simp) _).row (by simp) _
  exact (Writes.refl.balance (by simp) _).credit (by simp) _

theorem transferNoFee_writes {s t : Str} {amount r : Nat}
    (h : transferNoFee W nowMs s t amount L = .ok (r, L')) :
    Writes [s, t] [walletPresaleLockUntilMetaKey t] L L' := by
  unfold transferNoFee at h
  split at h
  · cases h
    exact .refl
  simp only [bind_eq_ok, require_eq_ok, Except.ok.injEq, Prod.mk.injEq] at h
  obtain ⟨_, -, _, -, locked, -, _, -, _, -, -, rfl⟩ := h
  exact ((Writes.refl.balance (by simp) _).balance (by simp) _).lockPresale W nowMs s (by simp)

theorem settleTransfer_writes {s t : Str} {amount : Nat} {bps n : Option Nat} {attested : Bool}
    {r : Nat × Nat} (h : settleTransferInternal W nowMs s t amount bps attested n L = .ok (r, L')) :
    Writes [s, t, walletWorkerPool] [walletPresaleLockUntilMetaKey t, .totalBurned, .totalSupply,
      .feeTotal, walletNonceMetaKey s] L L' := by
  have h₀ : Writes [s, t, walletWorkerPool] [walletPresaleLockUntilMetaKey t, .totalBurned,
    .totalSupply, .feeTotal, walletNonceMetaKey s] L L := .refl
  unfold settleTransferInternal at h
  split at h
  · cases h
    exact h₀
  simp only [bind_eq_ok, require_eq_ok, Except.ok.injEq, Prod.mk.injEq] at h
  obtain ⟨_, -, _, -, split, -, locked, -, _, -, _, -, _, -, -, rfl⟩ := h
  refine Writes.nonce ?_ (by simp) n
  have h₁ := fun a b => ((h₀.balance (k := s) (by simp) a).balance (k := t) (by simp) b).lockPresale
    (t := t) W nowMs s (by simp)
  split
  · exact (Writes.burn ((h₁ _ _).credit (by simp) _) (by simp) (by simp) _).counter
      (k := .feeTotal) (by simp) _
  · exact h₁ _ _

/-- **A direct operation** is made of single writes, unless it adds a lock. -/
theorem exec_writes {op : Op} (hop : op.isBlock = false) (hadd : op.addsLock = false)
    (h : op.exec W nowMs L = .ok L') : Writes (op.balanceKeys W L) (op.rowKeys W) L L' := by
  cases op <;> rw [Op.exec, map_snd_eq_ok] at h <;> obtain ⟨r, h⟩ := h <;>
    simp only [Op.balanceKeys, Op.rowKeys]
  case applyConsensusBlockBatch => cases hop
  case grantGenesisGuardian => exact grantGenesisGuardian_writes h
  case withdrawTreasuryToFounder =>
    simp only [withdrawTreasuryToFounder, bind_eq_ok, require_eq_ok, Except.ok.injEq, Prod.mk.injEq,
      true_and] at h
    obtain ⟨_, -, _, -, founder, hf, _, -, _, -, rfl⟩ := h
    have hmem : founder ∈ [walletDexTreasury, valueOr L.founderWallet []] := by
      rw [hf]
      simp [valueOr]
    exact ((Writes.refl.balance (by simp) _).balance hmem _).row (by simp) _
  case stake =>
    simp only [stakeMicro, bind_eq_ok, Except.ok.injEq, Prod.mk.injEq] at h
    obtain ⟨⟨w, L₁⟩, h₁, -, rfl⟩ := h
    obtain ⟨rfl, hwrites⟩ := takeForStake_writes (List.mem_cons_of_mem _ List.mem_cons_self) h₁
    exact hwrites.counter (by simp) _
  case stakeWorkerBond =>
    simp only [stakeWorkerBondMicro, bind_eq_ok, Except.ok.injEq, Prod.mk.injEq] at h
    obtain ⟨⟨w, L₁⟩, h₁, -, rfl⟩ := h
    obtain ⟨rfl, hwrites⟩ := takeForStake_writes List.mem_cons_self h₁
    exact hwrites.bond _ _
  case unstakeWorkerBond =>
    simp only [unstakeWorkerBondMicro, bind_eq_ok, require_eq_ok, Except.ok.injEq,
      Prod.mk.injEq] at h
    obtain ⟨_, -, _, -, _, -, _, -, -, rfl⟩ := h
    exact ((Writes.refl.bond _ _).credit (by simp) _).nonce (by simp) _
  case slashWorkerBondToEcosystemAll =>
    simp only [slashWorkerBondToEcosystemAll, bind_eq_ok, require_eq_ok, Except.ok.injEq,
      Prod.mk.injEq] at h
    obtain ⟨_, -, _, -, rfl, rfl⟩ := h
    exact (Writes.refl.bonds _ _).credit (by simp) _
  case slashStake =>
    simp only [slashStakeMicro, bind_eq_ok, require_eq_ok, Except.ok.injEq, Prod.mk.injEq] at h
    obtain ⟨_, -, _, -, _, -, -, rfl⟩ := h
    exact ((Writes.refl.row (by simp) _).counter (k := .totalBurned) (by simp) _).row
      (by simp) _
  case zkcourtLockChallengerBond inf challenger =>
    simp only [zkcourtLockChallengerBond, bind_eq_ok, require_eq_ok, Except.ok.injEq,
      Prod.mk.injEq] at h
    obtain ⟨_, -, _, -, _, -, rfl, rfl⟩ := h
    exact (Writes.refl.balance (by simp) _).bonds _ _
  case zkcourtSettleChallengerBond inf challenger valid =>
    simp only [zkcourtSettleChallengerBond] at h
    split at h
    · cases h
      exact .refl
    · cases h
      exact (Writes.refl.bonds _ _).credit (by cases valid <;> simp) _
  case mintRewardWithProof => exact mintReward_writes h
  case mintWorkerNetworkReward => cases hadd
  case settleAiUtilityPayment => exact settleAiUtility_writes h
  case settleAiInferenceDynamicCharge => exact settleAiInference_writes h
  case transferNoFee => exact transferNoFee_writes h
  case settleTransferInternal => exact settleTransfer_writes h

/-- **A direct operation** writes within its keys. -/
theorem exec_within {op : Op} (hop : op.isBlock = false) (h : op.exec W nowMs L = .ok L') :
    Within (op.balanceKeys W L) (op.rowKeys W) L L' := by
  cases hadd : op.addsLock with
  | false => exact (exec_writes hop hadd h).within
  | true =>
    cases op
    case mintWorkerNetworkReward =>
      rw [Op.exec, map_snd_eq_ok] at h
      obtain ⟨r, h⟩ := h
      exact mintWorkerNetworkReward_within h
    all_goals cases hadd

/-- **An operation** leaves every row that is not among its keys, as the code reads it. -/
theorem exec_readMeta {op : Op} (h : op.exec W nowMs L = .ok L') {k : MetaKey}
    (hk : k ∉ op.rowKeys W) : readMeta L'.metaTree k = readMeta L.metaTree k := by
  cases hop : op.isBlock with
  | false => exact readMeta_congr ((exec_within hop h).rows k hk)
  | true =>
    cases op
    case applyConsensusBlockBatch =>
      rw [Op.exec, map_snd_eq_ok] at h
      obtain ⟨r, h⟩ := h
      exact (apply_frame h).readMeta k hk
    all_goals cases hop

/-- The same for a counter. -/
theorem exec_counter {op : Op} (h : op.exec W nowMs L = .ok L') {k : MetaKey}
    (hc : k.isCounter = true) (hk : k ∉ op.rowKeys W) :
    L'.metaU64OrZero k = L.metaU64OrZero k := u64Of_of_readMeta hc (exec_readMeta h hk)

/-- A block writes no wallet's nonce, stake or pre-sale lock. -/
theorem block_noWalletRow (W : World) (txs : List SignedTxEnvelopeV1) (hashes : List Str)
    (producer : Str) (reward : Nat) (w : Str) :
    .walletNonce w ∉ (blockUndoKeys W txs hashes producer reward).metaKeys ∧
      .walletStake w ∉ (blockUndoKeys W txs hashes producer reward).metaKeys ∧
      .walletPresaleLockUntil w ∉ (blockUndoKeys W txs hashes producer reward).metaKeys := by
  refine ⟨fun hmem => ?_, fun hmem => ?_, fun hmem => ?_⟩ <;>
  · simp only [blockUndoKeys, List.mem_cons, List.mem_flatMap, List.mem_map] at hmem
    rcases hmem with h | ⟨ks, ⟨p, -, rfl⟩, hmem⟩
    · cases h
    · unfold undoKeysOf feeCounterKeys remoteTxAppliedMetaKey aiWorkloadTxMetaKey
        zkVerifiedMetaKey at hmem
      split at hmem <;> simp at hmem

end Footprint

end Ledger

end TetCore
