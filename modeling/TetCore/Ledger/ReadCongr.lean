import TetCore.Ledger.UndoInverse

/-!
# Block apply reads the readable state

Ledgers that read the same (`ReadEq`) accept the same blocks and give the same roots, and their
ledgers after the block read the same again. The rows a counter reads as `0` when absent, the block
records, the undo records and the transaction index make no difference. A block does not read the
rows of direct requests, the ZK-court bonds and the chain's records either: `BlockEq` is what is left,
and the congruences hold of it.
-/

namespace TetCore

open TetCore.Lib

/-- The `meta` rows of direct requests that no block reads or writes. -/
def MetaKey.ofRequest : MetaKey → Bool
  | .walletNonce _ | .walletStake _ | .walletPresaleLockUntil _ | .genesisGuardianGrant _
  | .genesisGuardiansFilled | .treasuryWithdrawNonce => true
  | _ => false

namespace Ledger

/-- What blocks read is the same. -/
structure BlockEq (L L' : Ledger) : Prop where
  balances : L.balances = L'.balances
  metaRows : ∀ k : MetaKey, k.ofRequest = false → readMeta L.metaTree k = readMeta L'.metaTree k
  vestLocks : L.vestLocks = L'.vestLocks
  workerStakes : L.workerStakes = L'.workerStakes
  workersRegistry : L.workersRegistry = L'.workersRegistry

theorem ReadEq.blockEq {L L' : Ledger} (h : ReadEq L L') : BlockEq L L' :=
  ⟨h.balances, fun k _ => h.metaRows k, h.vestLocks, h.workerStakes, h.workersRegistry⟩

section Congr

variable {A : Arith} {W : World} {L L' : Ledger} {nowMs height : Nat}

/-- A batch writes a row of two trees alike. -/
theorem readMeta_applyBatch {t u : Tree MetaKey MetaVal} {k : MetaKey}
    (h : readMeta t k = readMeta u k) (m : List (MetaKey × MetaVal)) :
    readMeta (t.applyBatch m) k = readMeta (u.applyBatch m) k := by
  induction m generalizing t u with
  | nil => exact h
  | cons p m ih =>
    refine ih ?_
    by_cases hp : p.1 = k
    · subst hp
      exact readMeta_congr (by rw [Tree.get_insert_self, Tree.get_insert_self])
    · unfold readMeta at h ⊢
      rw [Tree.get_insert_ne hp, Tree.get_insert_ne hp]
      exact h

/-- An undo record restores a row of two trees alike. -/
theorem readMeta_restore {t u : Tree MetaKey MetaVal} {k : MetaKey}
    (h : readMeta t k = readMeta u k) (kvs : UndoKvs MetaKey MetaVal) :
    readMeta (t.restore kvs) k = readMeta (u.restore kvs) k := by
  induction kvs generalizing t u with
  | nil => exact h
  | cons kv kvs ih =>
    rw [Tree.restore_cons, Tree.restore_cons]
    refine ih ?_
    unfold readMeta at h ⊢
    rw [Tree.get_restore_one, Tree.get_restore_one]
    by_cases hk : kv.1 = k
    · rw [if_pos hk, if_pos hk]
    · rw [if_neg hk, if_neg hk]
      exact h

namespace BlockEq

theorem refl (L : Ledger) : BlockEq L L := (ReadEq.refl L).blockEq

theorem symm (h : BlockEq L L') : BlockEq L' L :=
  ⟨h.1.symm, fun k hk => (h.2 k hk).symm, h.3.symm, h.4.symm, h.5.symm⟩

theorem trans {L'' : Ledger} (h : BlockEq L L') (h' : BlockEq L' L'') : BlockEq L L'' :=
  ⟨h.1.trans h'.1, fun k hk => (h.2 k hk).trans (h'.2 k hk), h.3.trans h'.3, h.4.trans h'.4,
    h.5.trans h'.5⟩

theorem metaU64 (h : BlockEq L L') {k : MetaKey} (hk : k.isCounter = true)
    (hr : k.ofRequest = false) : L.metaU64OrZero k = L'.metaU64OrZero k :=
  u64Of_of_readMeta hk (h.metaRows k hr)

theorem get (h : BlockEq L L') {k : MetaKey} (hk : k.isCounter = false)
    (hr : k.ofRequest = false) : L.metaTree.get k = L'.metaTree.get k := by
  have := h.metaRows k hr
  simpa only [readMeta, hk, Bool.false_eq_true, if_false] using this

theorem isTxApplied (h : BlockEq L L') (txHash : Str) :
    L.isTxApplied txHash = L'.isTxApplied txHash := by
  unfold Ledger.isTxApplied
  rw [h.get rfl rfl]

theorem lockedBalance (h : BlockEq L L') (peer : Str) :
    L.lockedBalanceMicro A peer nowMs = L'.lockedBalanceMicro A peer nowMs := by
  have hf : L.founderWallet = L'.founderWallet := by
    unfold founderWallet
    rw [h.get rfl rfl]
  unfold lockedBalanceMicro lockedAmounts
  rw [h.vestLocks, hf, h.metaU64 rfl rfl, h.metaU64 rfl rfl]

theorem workerRegisterEligible (h : BlockEq L L') (w : Str) :
    validateWorkerRegisterEligible L w = validateWorkerRegisterEligible L' w := by
  unfold validateWorkerRegisterEligible workerBondMicro
  rw [h.workerStakes]

theorem applyTransfer (h : BlockEq L L') (b : Batch) (txHash f t : Str) (amount bps : Nat) :
    Ledger.applyTransfer A L nowMs b txHash f t amount bps =
      Ledger.applyTransfer A L' nowMs b txHash f t amount bps := by
  unfold Ledger.applyTransfer
  simp only [h.isTxApplied, h.lockedBalance]

theorem applyFileFee (h : BlockEq L L') (b : Batch) (txHash f s : Str) (fee : Nat) :
    Ledger.applyFileFee A W L nowMs b txHash f s fee =
      Ledger.applyFileFee A W L' nowMs b txHash f s fee := by
  unfold Ledger.applyFileFee applyFileFeeToBalanceMap
  simp only [h.isTxApplied, h.lockedBalance]

theorem applyVerifyZkProof (h : BlockEq L L') (b : Batch) (signer taskId : Str) (img : List Nat)
    (journal receipt : Str) :
    Ledger.applyVerifyZkProof W L nowMs b signer taskId img journal receipt =
      Ledger.applyVerifyZkProof W L' nowMs b signer taskId img journal receipt := by
  have hz : ∀ r, L.metaTree.get (zkVerifiedMetaKey r) = L'.metaTree.get (zkVerifiedMetaKey r) :=
    fun r => h.get rfl rfl
  have ht : ∀ r, L.metaTree.get (aiWorkloadTxMetaKey r) = L'.metaTree.get (aiWorkloadTxMetaKey r) :=
    fun r => h.get rfl rfl
  unfold Ledger.applyVerifyZkProof
  simp only [hz, ht]

theorem applyEnterpriseInference (h : BlockEq L L') (b : Batch) (txHash : Str)
    (task : AiWorkloadTask) : Ledger.applyEnterpriseInference L b txHash task =
      Ledger.applyEnterpriseInference L' b txHash task := by
  have ht : L.metaTree.get (aiWorkloadTxMetaKey txHash) =
      L'.metaTree.get (aiWorkloadTxMetaKey txHash) := h.get rfl rfl
  simp only [Ledger.applyEnterpriseInference, ht]

theorem applyWorkerRegisterTx (h : BlockEq L L') (b : Batch) (txHash w hw hp : Str)
    (caps : List Str) (tflops : F64) :
    Ledger.applyWorkerRegisterTx L nowMs height b txHash w hw hp caps tflops =
      Ledger.applyWorkerRegisterTx L' nowMs height b txHash w hw hp caps tflops := by
  unfold Ledger.applyWorkerRegisterTx applyWorkerRegister
  simp only [h.isTxApplied, h.workerRegisterEligible, h.workersRegistry]

theorem applyInitialAirdrop (h : BlockEq L L') (b : Batch) (txHash w : Str) :
    Ledger.applyInitialAirdrop A W L b txHash w = Ledger.applyInitialAirdrop A W L' b txHash w := by
  unfold Ledger.applyInitialAirdrop
  rw [h.isTxApplied]

/-- **One transaction** reads the readable state. -/
theorem applyTx (h : BlockEq L L') (b : Batch) (env : SignedTxEnvelopeV1) (txHash : Str) :
    Ledger.applyTx A W L nowMs height b env txHash =
      Ledger.applyTx A W L' nowMs height b env txHash := by
  unfold Ledger.applyTx
  simp only [h.applyTransfer, h.applyFileFee, h.applyVerifyZkProof, h.applyEnterpriseInference,
    h.applyWorkerRegisterTx, h.applyInitialAirdrop]

theorem applyTxs (h : BlockEq L L') (l : List (SignedTxEnvelopeV1 × Str)) :
    ∀ b, Ledger.applyTxs A W L nowMs height l b = Ledger.applyTxs A W L' nowMs height l b := by
  induction l with
  | nil =>
    intro b
    rfl
  | cons p l ih =>
    intro b
    obtain ⟨env, txHash⟩ := p
    simp only [Ledger.applyTxs, h.applyTx, ih]

theorem startBatch (h : BlockEq L L') : L.startBatch = L'.startBatch := by
  unfold Ledger.startBatch
  rw [h.balances, h.metaU64 rfl rfl, h.metaU64 rfl rfl, h.metaU64 rfl rfl, h.metaU64 rfl rfl]

theorem blockBatch (h : BlockEq L L') (txs : List SignedTxEnvelopeV1) (hashes : List Str)
    (producer : Str) (reward : Nat) :
    Ledger.blockBatch A W L nowMs height txs hashes producer reward =
      Ledger.blockBatch A W L' nowMs height txs hashes producer reward := by
  unfold Ledger.blockBatch
  rw [h.startBatch]
  simp only [h.applyTxs]

theorem commit (h : BlockEq L L') (b : Batch) : BlockEq (b.commit L) (b.commit L') where
  balances := by
    unfold Batch.commit
    rw [h.balances]
  metaRows k hk := readMeta_applyBatch (h.metaRows k hk) _
  vestLocks := h.vestLocks
  workerStakes := h.workerStakes
  workersRegistry := by
    unfold Batch.commit
    rw [h.workersRegistry]

/-- **Block apply** goes alike on ledgers that blocks cannot tell apart. -/
theorem applyBlock (h : BlockEq L L') {txs : List SignedTxEnvelopeV1} {hashes : List Str}
    {producer root : Str} {reward : Nat} {M : Ledger}
    (ha : applyConsensusBlockBatch W nowMs height txs hashes producer reward L = .ok (root, M)) :
    ∃ M', applyConsensusBlockBatch W nowMs height txs hashes producer reward L' = .ok (root, M') ∧
      BlockEq M M' := by
  simp only [applyConsensusBlockBatch, applyConsensusBlockBatchWith, bind_eq_ok, Except.ok.injEq,
    Prod.mk.injEq] at ha ⊢
  obtain ⟨b, hb, rfl, rfl⟩ := ha
  rw [h.blockBatch] at hb
  exact ⟨_, ⟨b, hb, rfl, rfl⟩, h.commit b⟩

theorem previewTx (h : BlockEq L L') (acc : Tree Str Nat × Nat) (env : SignedTxEnvelopeV1) :
    Ledger.previewTx A W L nowMs acc env = Ledger.previewTx A W L' nowMs acc env := by
  unfold Ledger.previewTx previewTransfer applyFileFeeToBalanceMap
  simp only [h.lockedBalance, h.workerRegisterEligible]

theorem previewTxs (h : BlockEq L L') (txs : List SignedTxEnvelopeV1) :
    ∀ acc, Ledger.previewTxs A W L nowMs txs acc = Ledger.previewTxs A W L' nowMs txs acc := by
  induction txs with
  | nil =>
    intro acc
    rfl
  | cons env txs ih =>
    intro acc
    simp only [Ledger.previewTxs, h.previewTx, ih]

/-- **The preview** gives the same root. -/
theorem preview (h : BlockEq L L') (txs : List SignedTxEnvelopeV1) (producer : Str) (reward : Nat) :
    computeStateRootAfterRemoteBlock W L nowMs txs producer reward =
      computeStateRootAfterRemoteBlock W L' nowMs txs producer reward := by
  unfold computeStateRootAfterRemoteBlock
  rw [h.balances, h.metaU64 rfl rfl]
  simp only [h.previewTxs]

end BlockEq

namespace ReadEq

theorem metaU64 (h : ReadEq L L') {k : MetaKey} (hk : k.isCounter = true) :
    L.metaU64OrZero k = L'.metaU64OrZero k := u64Of_of_readMeta hk (h.metaRows k)

theorem get (h : ReadEq L L') {k : MetaKey} (hk : k.isCounter = false) :
    L.metaTree.get k = L'.metaTree.get k := by
  have := h.metaRows k
  simpa only [readMeta, hk, Bool.false_eq_true, if_false] using this

theorem isTxApplied (h : ReadEq L L') (txHash : Str) :
    L.isTxApplied txHash = L'.isTxApplied txHash := h.blockEq.isTxApplied txHash

theorem commit (h : ReadEq L L') (b : Batch) : ReadEq (b.commit L) (b.commit L') where
  balances := by
    unfold Batch.commit
    rw [h.balances]
  metaRows k := readMeta_applyBatch (h.metaRows k) _
  vestLocks := h.vestLocks
  workerStakes := h.workerStakes
  workersRegistry := by
    unfold Batch.commit
    rw [h.workersRegistry]
  blocks := h.blocks
  canonicalByHeight := h.canonicalByHeight
  chainTip := h.chainTip
  zkcourtBonds := h.zkcourtBonds

/-- **Block apply reads the readable state.** -/
theorem applyBlock (h : ReadEq L L') {txs : List SignedTxEnvelopeV1} {hashes : List Str}
    {producer root : Str} {reward : Nat} {M : Ledger}
    (ha : applyConsensusBlockBatch W nowMs height txs hashes producer reward L = .ok (root, M)) :
    ∃ M', applyConsensusBlockBatch W nowMs height txs hashes producer reward L' = .ok (root, M') ∧
      ReadEq M M' := by
  simp only [applyConsensusBlockBatch, applyConsensusBlockBatchWith, bind_eq_ok, Except.ok.injEq,
    Prod.mk.injEq] at ha ⊢
  obtain ⟨b, hb, rfl, rfl⟩ := ha
  rw [h.blockEq.blockBatch] at hb
  exact ⟨_, ⟨b, hb, rfl, rfl⟩, h.commit b⟩

/-- Writes to the records, the undo records and the index do not show. -/
theorem recorded (h : ReadEq L L') (sum : BlockSummary) (row : BlockRecordV1) (t₃ t₄ : Nat)
    (hashes : List Str) (txs : List SignedTxEnvelopeV1) :
    ReadEq (L.recorded sum row t₃ t₄ hashes txs) (L'.recorded sum row t₃ t₄ hashes txs) where
  balances := h.balances
  metaRows := h.metaRows
  vestLocks := h.vestLocks
  workerStakes := h.workerStakes
  workersRegistry := h.workersRegistry
  blocks := by
    unfold Ledger.recorded
    rw [h.blocks]
  canonicalByHeight := by
    unfold Ledger.recorded
    rw [h.canonicalByHeight]
  chainTip := by
    unfold Ledger.recorded
    rw [h.chainTip]
  zkcourtBonds := h.zkcourtBonds

theorem restoreUndo (h : ReadEq L L') (u : BlockUndoV1) :
    ReadEq (L.restoreUndo u) (L'.restoreUndo u) where
  balances := by
    unfold Ledger.restoreUndo
    rw [h.balances]
  metaRows k := readMeta_restore (h.metaRows k) _
  vestLocks := h.vestLocks
  workerStakes := h.workerStakes
  workersRegistry := by
    unfold Ledger.restoreUndo
    rw [h.workersRegistry]
  blocks := by
    unfold Ledger.restoreUndo
    rw [h.blocks]
  canonicalByHeight := by
    unfold Ledger.restoreUndo
    rw [h.canonicalByHeight]
  chainTip := by
    unfold Ledger.restoreUndo
    rw [h.chainTip]
  zkcourtBonds := h.zkcourtBonds

theorem hidden (L : Ledger) (byId : Tree Str BlockRecordV1) (undo : Tree Str BlockUndoV1)
    (idx : Tree Str TxIndexRecordV1) :
    ReadEq { L with blocksById := byId, blockUndo := undo, txIndex := idx } L :=
  ⟨rfl, fun _ => rfl, rfl, rfl, rfl, rfl, rfl, rfl, rfl⟩

end ReadEq

end Congr

end Ledger

end TetCore
