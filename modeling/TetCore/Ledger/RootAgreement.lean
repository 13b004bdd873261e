import TetCore.Ledger.Frame
import TetCore.Ledger.Sample

/-!
# Preview and apply compute the same root

The miner commits to the root the preview computes, before the block is applied. The preview folds
over the balances alone; the apply folds over a `Batch` and skips transactions that carry an applied
marker. Transaction by transaction the apply has the preview's effect or, on a settled one, none
(`previewTx_of_applyTx`, `applyTx_settled`), so on a block without settled transactions the roots
agree, and the dirty keys make the stored tree the one the root was computed from.
-/

namespace TetCore

open TetCore.Lib

namespace Ledger

variable {W : World} {L L' : Ledger} {nowMs height : Nat} {b b' : Batch}

/-- What the preview sees of a batch. -/
def Batch.view (b : Batch) : Tree Str Nat × Nat := (b.balances, b.airdropCount)

@[simp] theorem Batch.view_putMeta (b : Batch) (k : MetaKey) (v : MetaVal) :
    (b.putMeta k v).view = b.view := rfl

theorem countFee_view {burn fee : Nat} (h : b.countFee .saturating burn fee = .ok b') :
    b'.view = b.view := by
  simp only [Batch.countFee, Arith.saturating_sub, Arith.saturating_add, ok_bind,
    Except.ok.injEq] at h
  subst h
  rfl

theorem credit_saturating (m : Tree Str Nat) (k : Str) (a : Nat) :
    credit .saturating m k a = .ok (m.insert k (satAdd (amountAt m k) a)) := rfl

/-- The pool share of a transfer fee is credited by both, whenever it is positive. -/
theorem settleTransferFee_view {split : FeeSplit}
    (h : b.settleTransferFee .saturating split = .ok b') :
    (if 0 < split.poolMicro then credit .saturating b.balances walletWorkerPool split.poolMicro
      else .ok b.balances) = .ok b'.balances ∧ b'.airdropCount = b.airdropCount := by
  unfold Batch.settleTransferFee at h
  rw [feeMicroWith_saturating, ok_bind] at h
  split at h
  · rw [bind_eq_ok] at h
    obtain ⟨b₁, h₁, h₂⟩ := h
    have hview := countFee_view h₂
    simp only [Batch.view, Prod.mk.injEq] at hview
    rw [hview.1, hview.2]
    unfold Batch.creditPool at h₁
    split at h₁
    · rw [credit_saturating, ok_bind] at h₁
      cases h₁
      exact ⟨if_pos ‹_›, rfl⟩
    · cases h₁
      exact ⟨if_neg ‹_›, rfl⟩
  · rename_i hfee
    have hpool : split.poolMicro = 0 := by
      have : 0 < split.poolMicro → 0 < split.feeMicro := by
        intro hp
        simp only [FeeSplit.feeMicro, satAdd, u64Max]
        omega
      omega
    cases h
    exact ⟨if_neg (by omega), rfl⟩

theorem previewTransfer_of_apply {f t h : Str} {amount bps : Nat}
    (hfresh : L.isTxApplied h = false)
    (ha : applyTransfer .saturating L nowMs b h f t amount bps = .ok b') :
    previewTransfer .saturating L nowMs b.balances f t amount bps = .ok b'.balances ∧
      b'.airdropCount = b.airdropCount := by
  simp only [applyTransfer, hfresh, Arith.saturating_sub, credit_saturating, bind_eq_ok, ok_bind,
    require_eq_ok, Bool.false_eq_true, if_false, Except.ok.injEq] at ha
  obtain ⟨_, h1, _, h2, locked, h3, _, h4, split, h5, b₂, h₂, rfl⟩ := ha
  obtain ⟨hbal, hcount⟩ := settleTransferFee_view h₂
  refine ⟨?_, hcount⟩
  simp only [previewTransfer, Arith.saturating_sub, credit_saturating, bind_eq_ok, ok_bind,
    require_eq_ok]
  exact ⟨(), h1, (), h2, split, h5, locked, h3, (), h4, hbal⟩

theorem previewFileFee_of_apply {f s h : Str} {fee : Nat} (hfresh : L.isTxApplied h = false)
    (ha : applyFileFee .saturating W L nowMs b h f s fee = .ok b') :
    ∃ r, applyFileFeeToBalanceMap .saturating W L nowMs b.balances f s fee = .ok r ∧
      b'.view = (r.2, b.airdropCount) := by
  simp only [applyFileFee, hfresh, Bool.false_eq_true, if_false, bind_eq_ok, Except.ok.injEq] at ha
  obtain ⟨r, hr, b₂, h₂, rfl⟩ := ha
  refine ⟨r, hr, ?_⟩
  rw [Batch.view_putMeta, countFee_view h₂]
  rfl

theorem previewAirdrop_of_apply {w h : Str} (hfresh : L.isTxApplied h = false)
    (ha : applyInitialAirdrop .saturating W L b h w = .ok b') :
    ∃ r, applyInitialAirdropToBalanceMap .saturating W b.balances w b.airdropCount = .ok r ∧
      b'.view = r.getD b.view := by
  simp only [applyInitialAirdrop, hfresh, Bool.false_eq_true, if_false, bind_eq_ok] at ha
  obtain ⟨r, hr, ha⟩ := ha
  refine ⟨r, hr, ?_⟩
  cases r with
  | none =>
    cases ha
    rfl
  | some p =>
    cases ha
    rfl

theorem applyVerifyZkProof_view {signer taskId journal receipt : Str} {imageId : List Nat}
    (h : applyVerifyZkProof W L nowMs b signer taskId imageId journal receipt = .ok b') :
    b'.view = b.view := by
  simp only [applyVerifyZkProof, bind_eq_ok, require_eq_ok] at h
  obtain ⟨_, -, h⟩ := h
  have hzk : ∀ (c : Bool) (k : MetaKey) (v : MetaVal),
      (if c then b.putMeta k v else b).view = b.view := by
    intro c k v
    cases c <;> rfl
  split at h
  · cases h
    exact hzk _ _ _
  · split at h
    · cases h
    · split at h <;> cases h
      · exact hzk _ _ _
      · exact hzk _ _ _
    · cases h

theorem applyWorkerRegisterTx_view {h w hw hp : Str} {caps : List Str} {tf : F64}
    (ha : applyWorkerRegisterTx L nowMs height b h w hw hp caps tf = .ok b') :
    b'.view = b.view ∧
      (L.isTxApplied h = false → validateWorkerRegisterEligible L w = .ok ()) := by
  unfold applyWorkerRegisterTx at ha
  split at ha
  · rename_i hset
    cases ha
    exact ⟨rfl, fun hfresh => by rw [hset] at hfresh; cases hfresh⟩
  · simp only [bind_eq_ok, Except.ok.injEq] at ha
    obtain ⟨row, hrow, rfl⟩ := ha
    refine ⟨rfl, fun _ => ?_⟩
    unfold applyWorkerRegister at hrow
    split at hrow
    · cases hrow
    · simp only [bind_eq_ok] at hrow
      obtain ⟨_, hel, -⟩ := hrow
      exact hel

/-- **One unsettled transaction**: what the apply accepts the preview accepts, with the same
effect. -/
theorem previewTx_of_applyTx {env : SignedTxEnvelopeV1} {h : Str}
    (hfresh : L.isTxApplied h = false)
    (ha : applyTx .saturating W L nowMs height b env h = .ok b') :
    previewTx .saturating W L nowMs b.view env = .ok b'.view := by
  simp only [applyTx, bind_eq_ok, require_eq_ok] at ha
  obtain ⟨_, hsig, ha⟩ := ha
  simp only [previewTx, require_of hsig, ok_bind]
  cases he : env.tx with
  | transfer f t amount bps =>
    rw [he] at ha
    obtain ⟨hp, hcount⟩ := previewTransfer_of_apply hfresh ha
    simp only [Batch.view, hp, ok_bind, hcount]
  | verifyZkProof tid img j r =>
    rw [he] at ha
    simp only [applyVerifyZkProof_view ha]
  | enterpriseInference w p m amount nonce ph flag att =>
    simp only [he, Except.ok.injEq] at ha
    subst ha
    simp only [applyEnterpriseInference]
    split <;> rfl
  | fileFee f s fid fee =>
    rw [he] at ha
    obtain ⟨r, hr, hview⟩ := previewFileFee_of_apply hfresh ha
    rw [hview]
    simp only [Batch.view, hr, ok_bind]
  | workerRegister w hw hpr caps tf =>
    rw [he] at ha
    obtain ⟨hview, hel⟩ := applyWorkerRegisterTx_view ha
    simp only [hel hfresh, ok_bind, hview]
  | initialAirdrop w =>
    rw [he] at ha
    obtain ⟨r, hr, hview⟩ := previewAirdrop_of_apply hfresh ha
    rw [hview]
    simp only [Batch.view, hr, ok_bind]
  | signerLink w => simp [he, invalid] at ha
  | foundingMemberEnroll w => simp [he, invalid] at ha
  | genesisBridge f t amount => simp [he, invalid] at ha

/-- **One settled transaction** has no effect on what the preview sees. -/
theorem applyTx_settled {env : SignedTxEnvelopeV1} {h : Str} (hset : L.isTxApplied h = true)
    (ha : applyTx .saturating W L nowMs height b env h = .ok b') : b'.view = b.view := by
  simp only [applyTx, bind_eq_ok, require_eq_ok] at ha
  obtain ⟨_, -, ha⟩ := ha
  cases he : env.tx with
  | transfer f t amount bps =>
    simp only [he, applyTransfer, hset, if_true, bind_eq_ok, require_eq_ok, Except.ok.injEq] at ha
    obtain ⟨_, -, _, -, rfl⟩ := ha
    rfl
  | verifyZkProof tid img j r =>
    rw [he] at ha
    exact applyVerifyZkProof_view ha
  | enterpriseInference w p m amount nonce ph flag att =>
    simp only [he, Except.ok.injEq] at ha
    subst ha
    simp only [applyEnterpriseInference]
    split <;> rfl
  | fileFee f s fid fee =>
    simp only [he, applyFileFee, hset, if_true, Except.ok.injEq] at ha
    rw [ha]
  | workerRegister w hw hpr caps tf =>
    rw [he] at ha
    exact (applyWorkerRegisterTx_view ha).1
  | initialAirdrop w =>
    simp only [he, applyInitialAirdrop, hset, if_true, Except.ok.injEq] at ha
    rw [ha]
  | signerLink w => simp [he, invalid] at ha
  | foundingMemberEnroll w => simp [he, invalid] at ha
  | genesisBridge f t amount => simp [he, invalid] at ha

/-- The transactions that carry no applied marker. -/
def unsettled (L : Ledger) (l : List (SignedTxEnvelopeV1 × Str)) : List SignedTxEnvelopeV1 :=
  (l.filter fun p => !L.isTxApplied p.2).map Prod.fst

theorem unsettled_of_fresh : ∀ {txs : List SignedTxEnvelopeV1} {hashes : List Str},
    txs.length = hashes.length → (∀ h ∈ hashes, L.isTxApplied h = false) →
    L.unsettled (txs.zip hashes) = txs := by
  intro txs hashes hlen hfresh
  unfold unsettled
  rw [List.filter_eq_self.mpr, List.map_fst_zip (le_of_eq hlen)]
  intro p hp
  rw [hfresh p.2 (List.of_mem_zip hp).2]
  rfl

/-- **The two loops**: the apply has the effect of the preview on the unsettled transactions. -/
theorem previewTxs_of_applyTxs : ∀ (l : List (SignedTxEnvelopeV1 × Str)) {b b' : Batch},
    applyTxs .saturating W L nowMs height l b = .ok b' →
    previewTxs .saturating W L nowMs (L.unsettled l) b.view = .ok b'.view := by
  intro l
  induction l with
  | nil =>
    intro b b' ha
    cases ha
    rfl
  | cons p l ih =>
    intro b b' ha
    obtain ⟨env, h⟩ := p
    simp only [applyTxs, bind_eq_ok] at ha
    obtain ⟨b₁, ha₁, ha₂⟩ := ha
    have hrest := ih ha₂
    cases hset : L.isTxApplied h with
    | true =>
      rw [applyTx_settled hset ha₁] at hrest
      simpa only [unsettled, List.filter_cons, hset, Bool.not_true, Bool.false_eq_true,
        if_false] using hrest
    | false =>
      simp only [unsettled, List.filter_cons, hset, Bool.not_false, if_true, List.map_cons,
        previewTxs, previewTx_of_applyTx hset ha₁, ok_bind]
      exact hrest

/-- **The balances of an applied block** are those of a preview of its unsettled transactions, with
the reward paid; the root is theirs. -/
theorem apply_balances_eq_preview {txs : List SignedTxEnvelopeV1} {txHashes : List Str}
    {producer root : Str} {reward : Nat}
    (ha : applyConsensusBlockBatch W nowMs height txs txHashes producer reward L =
      .ok (root, L')) :
    ∃ acc, previewTxs .saturating W L nowMs (L.unsettled (txs.zip txHashes))
        (L.balances, L.metaU64OrZero .faucetInitialRecipientsCount) = .ok acc ∧
      applyBlockRewardToBalanceMap .saturating acc.1 producer reward = .ok L'.balances ∧
      root = stateRootFromRows W L'.balances.iter := by
  simp only [applyConsensusBlockBatch, applyConsensusBlockBatchWith, bind_eq_ok, Except.ok.injEq,
    Prod.mk.injEq] at ha
  obtain ⟨b, hb, rfl, rfl⟩ := ha
  obtain ⟨-, b₁, hb₁, hg⟩ := blockBatch_grows hb
  have hcommit : (b.commit L).balances = b.balances := by
    have := commit_balances hg
    rw [hb₁]
    exact this
  simp only [blockBatch, bind_eq_ok, require_eq_ok, Except.ok.injEq, Batch.payReward] at hb
  obtain ⟨_, -, b₀, h₀, _, ⟨m, hm, rfl⟩, rfl⟩ := hb
  have hpre := previewTxs_of_applyTxs _ h₀
  have hclose : b₀.closeAirdrop.balances = b₀.balances := by
    unfold Batch.closeAirdrop
    split <;> rfl
  rw [hclose] at hm
  rw [hcommit]
  exact ⟨b₀.view, hpre, hm, rfl⟩

/-- **The root of an applied block** is the preview's root of its unsettled transactions, and the
stored state has that root. -/
theorem apply_root_eq_preview {txs : List SignedTxEnvelopeV1} {txHashes : List Str}
    {producer root : Str} {reward : Nat}
    (ha : applyConsensusBlockBatch W nowMs height txs txHashes producer reward L =
      .ok (root, L')) :
    computeStateRootAfterRemoteBlock W L nowMs (L.unsettled (txs.zip txHashes)) producer reward =
      .ok root ∧ computeStateRoot W L' = .ok root := by
  obtain ⟨acc, hacc, hreward, rfl⟩ := apply_balances_eq_preview ha
  refine ⟨?_, rfl⟩
  simp only [computeStateRootAfterRemoteBlock, hacc, ok_bind, hreward]

/-- **Preview and apply agree on the root, and the stored state has that root.** The preview is
taken on the same ledger and at the same time; no hash of the block carries an applied marker. -/
theorem preview_apply_root_agree {txs : List SignedTxEnvelopeV1} {txHashes : List Str}
    {producer root root' : Str} {reward : Nat}
    (hfresh : ∀ h ∈ txHashes, L.isTxApplied h = false)
    (hp : computeStateRootAfterRemoteBlock W L nowMs txs producer reward = .ok root)
    (ha : applyConsensusBlockBatch W nowMs height txs txHashes producer reward L =
      .ok (root', L')) :
    root = root' ∧ computeStateRoot W L' = .ok root := by
  obtain ⟨hroot, hstored⟩ := apply_root_eq_preview ha
  rw [unsettled_of_fresh (apply_lengths ha) hfresh, hp] at hroot
  cases hroot
  exact ⟨rfl, hstored⟩

/-- A transfer of 10 TET in a block of `node` that earns 0.1 TET. -/
theorem preview_apply_root_agree_transfer :
    ∃ root L', computeStateRootAfterRemoteBlock (World.sample 100000) Sample.ledger 0
        [Sample.transfer] Sample.node 100000 = .ok root ∧
      applyConsensusBlockBatch (World.sample 100000) 0 1 [Sample.transfer] ["0x1".toList]
        Sample.node 100000 Sample.ledger = .ok (root, L') ∧
      computeStateRoot (World.sample 100000) L' = .ok root := by
  obtain ⟨root, hp⟩ : ∃ root, computeStateRootAfterRemoteBlock (World.sample 100000) Sample.ledger
      0 [Sample.transfer] Sample.node 100000 = .ok root := exists_ok (by decide +kernel)
  obtain ⟨⟨root', L'⟩, ha⟩ : ∃ r, applyConsensusBlockBatch (World.sample 100000) 0 1
      [Sample.transfer] ["0x1".toList] Sample.node 100000 Sample.ledger = .ok r :=
    exists_ok (by decide +kernel)
  obtain ⟨rfl, hr⟩ := preview_apply_root_agree (by decide +kernel) hp ha
  exact ⟨root, L', hp, ha, hr⟩

end Ledger

end TetCore
