import TetCore.Consensus.Calls
import TetCore.Ledger.RootAgreement

/-!
# What the miner's preview leaves open

`block_txs_ok` asks the ZK claims, the reward and the preview whether a block can be made of some
transactions. The apply makes the same checks on balances, signers and the reward, and three more
that none of them makes: the fields of a worker registration, the image id of a proof, and that the
task a proof names exists even when the proof is not one of the ZK court. `Appliable` is these
checks, and a block that previews is applied exactly when its transactions pass them
(`preview_suffices_iff`).
-/

namespace TetCore

open TetCore.Lib

namespace Ledger

variable {W : World} {L : Ledger} {nowMs height : Nat} {b : Batch}

/-- The checks of the apply that no preview makes. -/
def Appliable (W : World) (L : Ledger) : TxV1 → Prop
  | .workerRegister walletId hardwareIdHex hardwareProfile capabilities tflops =>
    validateWorkerRegisterFields walletId hardwareIdHex hardwareProfile capabilities tflops = .ok ()
  | .verifyZkProof taskId imageId _ _ => imageId = W.nexusGuestId ∧
      (trim taskId ≠ [] → ∃ task, L.aiWorkloadTask taskId = .ok (some task))
  | _ => True

/-- The checks of the apply on a transaction that is settled. -/
def SettledAppliable (W : World) (L : Ledger) (env : SignedTxEnvelopeV1) : Prop :=
  signerActsForItself env = true ∧ match env.tx with
    | .transfer fromWallet toWallet amountMicro _ => (trim fromWallet ≠ [] ∧ trim toWallet ≠ []) ∧
        amountMicro ≠ 0 ∧ amountMicro ≤ maxSupplyMicro
    | .verifyZkProof _ _ _ _ => Appliable W L env.tx
    | .signerLink _ | .foundingMemberEnroll _ | .genesisBridge _ _ _ => False
    | _ => True

/-- The checks of the apply on a transaction of a block, with its hash, that the preview of the
unsettled ones does not make. -/
def PassesApply (W : World) (L : Ledger) (p : SignedTxEnvelopeV1 × Str) : Prop :=
  if L.isTxApplied p.2 then SettledAppliable W L p.1 else Appliable W L p.1.tx

/-! ## One transaction -/

theorem settleTransferFee_total (b : Batch) (split : FeeSplit) :
    ∃ b', b.settleTransferFee .saturating split = .ok b' := by
  unfold Batch.settleTransferFee Batch.creditPool
  rw [feeMicroWith_saturating, ok_bind]
  split
  · split
    · exact ⟨_, rfl⟩
    · exact ⟨_, rfl⟩
  · exact ⟨b, rfl⟩

theorem applyTransfer_of_preview {f t h : Str} {amount bps : Nat} {m : Tree Str Nat}
    (hfresh : L.isTxApplied h = false)
    (hp : previewTransfer .saturating L nowMs b.balances f t amount bps = .ok m) :
    ∃ b', applyTransfer .saturating L nowMs b h f t amount bps = .ok b' := by
  simp only [previewTransfer, Arith.saturating_sub, credit_saturating, bind_eq_ok, ok_bind,
    require_eq_ok] at hp
  obtain ⟨_, h1, _, h2, split, h5, locked, h3, _, h4, -⟩ := hp
  simp only [applyTransfer, hfresh, Arith.saturating_sub, credit_saturating, bind_eq_ok, ok_bind,
    require_eq_ok, Bool.false_eq_true, if_false, Except.ok.injEq]
  obtain ⟨b₂, h₂⟩ := settleTransferFee_total
    { b with
      balances := (b.balances.insert (trimLower f) (amountAt b.balances (trimLower f) - amount)).insert
        (trimLower t) (satAdd (amountAt (b.balances.insert (trimLower f)
          (amountAt b.balances (trimLower f) - amount)) (trimLower t)) split.netMicro)
      dirtyBalances := trimLower t :: trimLower f :: b.dirtyBalances } split
  exact ⟨_, (), h1, (), h2, locked, h3, (), h4, split, h5, b₂, h₂, rfl⟩

theorem applyFileFee_of_preview {f s h : Str} {fee : Nat} {r : FileFeeEffect × Tree Str Nat}
    (hfresh : L.isTxApplied h = false)
    (hp : applyFileFeeToBalanceMap .saturating W L nowMs b.balances f s fee = .ok r) :
    ∃ b', applyFileFee .saturating W L nowMs b h f s fee = .ok b' := by
  simp only [applyFileFee, hfresh, Bool.false_eq_true, if_false, hp, ok_bind, Batch.countFee,
    Arith.saturating_sub, Arith.saturating_add]
  exact ⟨_, rfl⟩

theorem applyInitialAirdrop_of_preview {w h : Str} {r : Option (Tree Str Nat × Nat)}
    (hp : applyInitialAirdropToBalanceMap .saturating W b.balances w b.airdropCount = .ok r) :
    ∃ b', applyInitialAirdrop .saturating W L b h w = .ok b' := by
  unfold applyInitialAirdrop
  split
  · exact ⟨b, rfl⟩
  · rw [hp, ok_bind]
    cases r with
    | none => exact ⟨b, rfl⟩
    | some p => exact ⟨_, rfl⟩

theorem applyWorkerRegisterTx_ok_iff {h w hw hp : Str} {caps : List Str} {tf : F64}
    (hfresh : L.isTxApplied h = false) (hel : validateWorkerRegisterEligible L w = .ok ()) :
    (∃ b', applyWorkerRegisterTx L nowMs height b h w hw hp caps tf = .ok b') ↔
      validateWorkerRegisterFields w hw hp caps tf = .ok () := by
  simp only [applyWorkerRegisterTx, hfresh, Bool.false_eq_true, if_false, applyWorkerRegister]
  cases hf : validateWorkerRegisterFields w hw hp caps tf with
  | error e => simp [invalid]
  | ok u => simp [hel]

theorem applyVerifyZkProof_ok_iff {signer taskId journal receipt : Str} {imageId : List Nat} :
    (∃ b', applyVerifyZkProof W L nowMs b signer taskId imageId journal receipt = .ok b') ↔
      imageId = W.nexusGuestId ∧
        (trim taskId ≠ [] → ∃ task, L.aiWorkloadTask taskId = .ok (some task)) := by
  unfold applyVerifyZkProof aiWorkloadTask
  by_cases himg : imageId = W.nexusGuestId
  · rw [require_of himg, ok_bind]
    by_cases hblank : trim taskId = []
    · simp [hblank, himg]
    · have hne : (trim taskId).isEmpty = false := by simpa using hblank
      simp only [hne, Bool.false_eq_true, if_false, himg, true_and, ne_eq, hblank,
        not_false_eq_true, true_implies]
      cases hget : L.metaTree.get (aiWorkloadTxMetaKey taskId) with
      | none => simp [invalid]
      | some v =>
        cases v with
        | task t =>
          simp only [Except.ok.injEq, Option.some.injEq, exists_eq', iff_true]
          split <;> exact ⟨_, rfl⟩
        | u64 n => simp [invalid]
        | text s => simp [invalid]
        | mark => simp [invalid]
        | zkVerified r => simp [invalid]
        | caac r => simp [invalid]
  · simp [require, himg]

/-- **One transaction that previews** is applied exactly when it passes the other checks. -/
theorem applyTx_ok_iff (height : Nat) {env : SignedTxEnvelopeV1} {h : Str} {acc : Tree Str Nat × Nat}
    (hfresh : L.isTxApplied h = false)
    (hp : previewTx .saturating W L nowMs b.view env = .ok acc) :
    (∃ b', applyTx .saturating W L nowMs height b env h = .ok b') ↔ Appliable W L env.tx := by
  simp only [previewTx, bind_eq_ok, require_eq_ok] at hp
  obtain ⟨_, hsig, hp⟩ := hp
  simp only [applyTx, require_of hsig, ok_bind]
  cases he : env.tx with
  | transfer f t amount bps =>
    simp only [he, bind_eq_ok] at hp
    obtain ⟨m, hm, -⟩ := hp
    exact iff_of_true (applyTransfer_of_preview hfresh hm) trivial
  | verifyZkProof tid img j r => exact applyVerifyZkProof_ok_iff
  | enterpriseInference w p m amount nonce ph flag att => exact iff_of_true ⟨_, rfl⟩ trivial
  | fileFee f s fid fee =>
    simp only [he, bind_eq_ok] at hp
    obtain ⟨r, hr, -⟩ := hp
    exact iff_of_true (applyFileFee_of_preview hfresh hr) trivial
  | workerRegister w hw hpr caps tf =>
    simp only [he, bind_eq_ok] at hp
    obtain ⟨_, hel, -⟩ := hp
    exact applyWorkerRegisterTx_ok_iff hfresh hel
  | initialAirdrop w =>
    simp only [he, bind_eq_ok] at hp
    obtain ⟨r, hr, -⟩ := hp
    exact iff_of_true (applyInitialAirdrop_of_preview hr) trivial
  | signerLink w => simp [he, invalid] at hp
  | foundingMemberEnroll w => simp [he, invalid] at hp
  | genesisBridge f t amount => simp [he, invalid] at hp

/-- **One settled transaction** is applied exactly when it passes the checks made before it is
skipped. -/
theorem applyTx_settled_ok_iff (height : Nat) {env : SignedTxEnvelopeV1} {h : Str}
    (hset : L.isTxApplied h = true) :
    (∃ b', applyTx .saturating W L nowMs height b env h = .ok b') ↔ SettledAppliable W L env := by
  simp only [applyTx, SettledAppliable, bind_eq_ok, require_eq_ok, exists_and_left, exists_const,
    and_congr_right_iff]
  intro _
  cases he : env.tx with
  | transfer f t amount bps => simp [applyTransfer, hset, bind_eq_ok]
  | verifyZkProof tid img j r => exact applyVerifyZkProof_ok_iff
  | enterpriseInference w p m amount nonce ph flag att => exact iff_of_true ⟨_, rfl⟩ trivial
  | fileFee f s fid fee => simp [applyFileFee, hset]
  | workerRegister w hw hpr caps tf => simp [applyWorkerRegisterTx, hset]
  | initialAirdrop w => simp [applyInitialAirdrop, hset]
  | signerLink w => simp [invalid]
  | foundingMemberEnroll w => simp [invalid]
  | genesisBridge f t amount => simp [invalid]

/-! ## The block -/

/-- **The loop**: when the unsettled transactions preview, the block is applied exactly when each
transaction passes the other checks. -/
theorem applyTxs_ok_iff (height : Nat) : ∀ {l : List (SignedTxEnvelopeV1 × Str)} {b : Batch}
    {acc : Tree Str Nat × Nat},
    previewTxs .saturating W L nowMs (L.unsettled l) b.view = .ok acc →
    ((∃ b', applyTxs .saturating W L nowMs height l b = .ok b') ↔ ∀ p ∈ l, PassesApply W L p) := by
  intro l
  induction l with
  | nil =>
    intro b acc _
    exact iff_of_true ⟨b, rfl⟩ fun p hp => absurd hp List.not_mem_nil
  | cons p l ih =>
    intro b acc hp
    obtain ⟨env, h⟩ := p
    -- the head, and what the rest previews from once it is applied
    have hhead : (∃ b', applyTx .saturating W L nowMs height b env h = .ok b') ↔
        PassesApply W L (env, h) := by
      unfold PassesApply
      cases hset : L.isTxApplied h with
      | true => exact applyTx_settled_ok_iff height hset
      | false =>
        simp only [unsettled, List.filter_cons, hset, Bool.not_false, if_true, List.map_cons,
          previewTxs, bind_eq_ok] at hp
        obtain ⟨acc₁, h₁, -⟩ := hp
        exact applyTx_ok_iff height hset h₁
    have hrest : ∀ {b₁ : Batch}, applyTx .saturating W L nowMs height b env h = .ok b₁ →
        previewTxs .saturating W L nowMs (L.unsettled l) b₁.view = .ok acc := by
      intro b₁ hb₁
      cases hset : L.isTxApplied h with
      | true =>
        simp only [unsettled, List.filter_cons, hset, Bool.not_true, Bool.false_eq_true,
          if_false] at hp
        rw [applyTx_settled hset hb₁]
        exact hp
      | false =>
        simp only [unsettled, List.filter_cons, hset, Bool.not_false, if_true, List.map_cons,
          previewTxs, previewTx_of_applyTx hset hb₁, ok_bind] at hp
        exact hp
    rw [List.forall_mem_cons, ← hhead]
    simp only [applyTxs, bind_eq_ok]
    constructor
    · rintro ⟨b', b₁, hb₁, hb'⟩
      exact ⟨⟨b₁, hb₁⟩, (ih (hrest hb₁)).mp ⟨b', hb'⟩⟩
    · rintro ⟨⟨b₁, hb₁⟩, hall⟩
      obtain ⟨b', hb'⟩ := (ih (hrest hb₁)).mpr hall
      exact ⟨b', b₁, hb₁, hb'⟩

/-- **A block whose unsettled transactions preview** is applied exactly when its transactions pass
the other checks. -/
theorem apply_ok_iff_of_unsettled {txs : List SignedTxEnvelopeV1} {hashes : List Str}
    {producer root : Str} {reward : Nat} (height : Nat) (hlen : txs.length = hashes.length)
    (hp : computeStateRootAfterRemoteBlock W L nowMs (L.unsettled (txs.zip hashes)) producer
      reward = .ok root) :
    (∃ r, applyConsensusBlockBatch W nowMs height txs hashes producer reward L = .ok r) ↔
      ∀ p ∈ txs.zip hashes, PassesApply W L p := by
  simp only [computeStateRootAfterRemoteBlock, bind_eq_ok] at hp
  obtain ⟨acc, hacc, m, hm, -⟩ := hp
  have hstart : previewTxs .saturating W L nowMs (L.unsettled (txs.zip hashes))
      (startBatch L).view = .ok acc := hacc
  rw [← applyTxs_ok_iff height hstart]
  simp only [applyConsensusBlockBatch, applyConsensusBlockBatchWith, blockBatch, bind_eq_ok,
    require_eq_ok, Except.ok.injEq]
  constructor
  · rintro ⟨r, b, ⟨_, -, b₀, h₀, -⟩, -⟩
    exact ⟨b₀, h₀⟩
  · rintro ⟨b₀, h₀⟩
    -- the reward is paid out of the previewed balances
    have hview := previewTxs_of_applyTxs _ h₀
    have hacc₀ : acc = b₀.view := Except.ok.inj (hacc.symm.trans hview)
    have hclose : b₀.closeAirdrop.balances = b₀.balances := by
      unfold Batch.closeAirdrop
      split <;> rfl
    have hpay : ∃ b₁, b₀.closeAirdrop.payReward .saturating producer reward = .ok b₁ := by
      rw [hacc₀] at hm
      simp only [Batch.payReward, hclose]
      rw [show b₀.balances = b₀.view.1 from rfl, hm]
      exact ⟨_, rfl⟩
    obtain ⟨b₁, h₁⟩ := hpay
    exact ⟨_, _, ⟨(), hlen, b₀, h₀, b₁, h₁, rfl⟩, rfl⟩

/-- **When a block is applied with a root**: its unsettled transactions preview to it, and all pass
the other checks. -/
theorem apply_root_iff {txs : List SignedTxEnvelopeV1} {hashes : List Str} {producer root : Str}
    {reward : Nat} (height : Nat) (hlen : txs.length = hashes.length) :
    (∃ L', applyConsensusBlockBatch W nowMs height txs hashes producer reward L =
      .ok (root, L')) ↔
      computeStateRootAfterRemoteBlock W L nowMs (L.unsettled (txs.zip hashes)) producer reward =
        .ok root ∧ ∀ p ∈ txs.zip hashes, PassesApply W L p := by
  constructor
  · rintro ⟨L', ha⟩
    have hp := (apply_root_eq_preview ha).1
    exact ⟨hp, (apply_ok_iff_of_unsettled height hlen hp).mp ⟨_, ha⟩⟩
  · rintro ⟨hp, hall⟩
    obtain ⟨⟨root', L'⟩, ha⟩ := (apply_ok_iff_of_unsettled height hlen hp).mpr hall
    have hroot := (apply_root_eq_preview ha).1
    rw [hp] at hroot
    cases hroot
    exact ⟨L', ha⟩

/-- **A block that previews**, none of whose transactions is settled. -/
theorem apply_ok_iff_of_preview {txs : List SignedTxEnvelopeV1} {hashes : List Str}
    {producer root : Str} {reward : Nat} (height : Nat) (hlen : txs.length = hashes.length)
    (hfresh : ∀ h ∈ hashes, L.isTxApplied h = false)
    (hp : computeStateRootAfterRemoteBlock W L nowMs txs producer reward = .ok root) :
    (∃ r, applyConsensusBlockBatch W nowMs height txs hashes producer reward L = .ok r) ↔
      ∀ env ∈ txs, Appliable W L env.tx := by
  rw [← unsettled_of_fresh hlen hfresh] at hp
  rw [apply_ok_iff_of_unsettled height hlen hp]
  have hpass : ∀ p ∈ txs.zip hashes, PassesApply W L p ↔ Appliable W L p.1.tx := by
    intro p hp
    rw [PassesApply, hfresh p.2 (List.of_mem_zip hp).2]
    exact Iff.rfl
  constructor
  · intro h env henv
    rw [← List.map_fst_zip (le_of_eq hlen)] at henv
    obtain ⟨p, hp, rfl⟩ := List.mem_map.mp henv
    exact (hpass p hp).mp (h p hp)
  · exact fun h p hp => (hpass p hp).mpr (h p.1 (List.of_mem_zip hp).1)

end Ledger

namespace Consensus

open TetCore.Ledger (Appliable applyConsensusBlockBatch)

/-- **The miner's preview is sufficient** exactly when the transactions pass the checks it leaves
out: for transactions with distinct hashes none of which is settled, that `block_txs_ok` accepts. -/
theorem preview_suffices_iff {W : World} {L : Ledger} {nowMs : Nat} (height : Nat)
    {txs : List SignedTxEnvelopeV1} {hashes : List Str} {producer : Str} {reward : BlockReward}
    (hhash : Hashed W txs hashes) (hfresh : ∀ h ∈ hashes, L.isTxApplied h = false)
    (hok : blockTxsOk W L nowMs txs producer = true) (hreward : rewardForBlock W txs = .ok reward) :
    (∃ r, applyConsensusBlockBatch W nowMs height txs hashes producer reward.totalRewardMicro L =
      .ok r) ↔ ∀ env ∈ txs, Appliable W L env.tx := by
  unfold blockTxsOk at hok
  rw [hreward] at hok
  cases hzk : validateZkTaskClaims W L txs with
  | error e =>
    rw [hzk] at hok
    cases hok
  | ok u =>
    simp only [hzk] at hok
    obtain ⟨root, hroot⟩ := exists_ok hok
    exact Ledger.apply_ok_iff_of_preview height (length_of_mapM hhash.eq) hfresh hroot

/-- A transfer. -/
theorem preview_suffices_transfer :
    let W := World.sample 100000
    let h := valueOr (txHashForEnv W Sample.transfer) []
    ∃ reward r, rewardForBlock W [Sample.transfer] = .ok reward ∧
      applyConsensusBlockBatch W 0 1 [Sample.transfer] [h] Sample.node reward.totalRewardMicro
        Sample.ledger = .ok r := by
  intro W h
  let reward := valueOr (rewardForBlock W [Sample.transfer]) ⟨0, 0, 0⟩
  have hall : [Sample.transfer].mapM (txHashForEnv W) = .ok [h] ∧
      Sample.ledger.isTxApplied h = false ∧
      blockTxsOk W Sample.ledger 0 [Sample.transfer] Sample.node = true ∧
      rewardForBlock W [Sample.transfer] = .ok reward := by decide +kernel
  obtain ⟨hhash, hfresh, hok, hreward⟩ := hall
  have hiff := preview_suffices_iff 1 ⟨hhash, List.nodup_singleton h⟩ (fun x hx => by
    rw [List.mem_singleton.mp hx]
    exact hfresh) hok hreward
  obtain ⟨r, hr⟩ := hiff.mpr fun env henv => by
    rw [List.mem_singleton.mp henv]
    trivial
  exact ⟨reward, r, hreward, hr⟩

/-- The registration of a bonded worker that leaves its hardware profile blank previews, and no
block with it can be applied. -/
theorem preview_suffices_blankProfile :
    let W := World.sample 100000
    let L := { Sample.ledger with
      workerStakes := Tree.empty.insert Sample.alice minWorkerStakeMicro }
    let tx := Sample.signed (.workerRegister Sample.alice "01".toList " ".toList [] ⟨0⟩)
    ∃ h reward e, Hashed W [tx] [h] ∧ L.isTxApplied h = false ∧
      blockTxsOk W L 0 [tx] Sample.node = true ∧ rewardForBlock W [tx] = .ok reward ∧
      applyConsensusBlockBatch W 0 1 [tx] [h] Sample.node reward.totalRewardMicro L = .error e := by
  intro W L tx
  let h := valueOr (txHashForEnv W tx) []
  let reward := valueOr (rewardForBlock W [tx]) ⟨0, 0, 0⟩
  have hall : [tx].mapM (txHashForEnv W) = .ok [h] ∧ L.isTxApplied h = false ∧
      blockTxsOk W L 0 [tx] Sample.node = true ∧ rewardForBlock W [tx] = .ok reward ∧
      (applyConsensusBlockBatch W 0 1 [tx] [h] Sample.node reward.totalRewardMicro L).isOk = false := by
    decide +kernel
  obtain ⟨hhash, hfresh, hok, hreward, herr⟩ := hall
  cases ha : applyConsensusBlockBatch W 0 1 [tx] [h] Sample.node reward.totalRewardMicro L with
  | error e => exact ⟨h, reward, e, ⟨hhash, List.nodup_singleton h⟩, hfresh, hok, hreward, ha⟩
  | ok r =>
    rw [ha] at herr
    cases herr

end Consensus

end TetCore
