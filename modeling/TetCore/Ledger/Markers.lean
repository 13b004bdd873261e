import TetCore.Ledger.RootAgreement

/-!
# The applied markers

A transfer, a file fee, a worker registration and a credited airdrop leave a marker under their
hash; a transaction whose hash carries one is skipped. Block apply sets markers for hashes of the
block only (`apply_marks_only`), never removes one (`apply_keeps_marks`), and sets one for every
transaction that settles once (`apply_marks`).
-/

namespace TetCore

open TetCore.Lib

/-- The kinds of transaction that always leave a marker. An airdrop leaves one when it is
credited. -/
def TxV1.settlesOnce : TxV1 → Bool
  | .transfer _ _ _ _ | .fileFee _ _ _ _ | .workerRegister _ _ _ _ _ => true
  | _ => false

namespace Ledger

section Markers

variable {W : World} {L L' : Ledger} {nowMs height : Nat}

theorem isTxApplied_trim (L : Ledger) (h : Str) : L.isTxApplied (trim h) = L.isTxApplied h := by
  unfold isTxApplied remoteTxAppliedMetaKey
  rw [trim_trim]

/-- One transaction that settles once has its marker, or puts it. -/
theorem applyTx_marks {b b' : Batch} {env : SignedTxEnvelopeV1} {h : Str}
    (ha : applyTx .saturating W L nowMs height b env h = .ok b')
    (hk : env.tx.settlesOnce = true) :
    L.isTxApplied h = true ∨ (remoteTxAppliedMetaKey h, MetaVal.mark) ∈ b'.metaBatch := by
  cases hset : L.isTxApplied h with
  | true => exact Or.inl rfl
  | false =>
    right
    have hput : ∀ b : Batch, (remoteTxAppliedMetaKey h, MetaVal.mark) ∈
        (b.putMeta (remoteTxAppliedMetaKey h) .mark).metaBatch := fun b =>
      List.mem_append_right _ (List.mem_singleton.mpr rfl)
    simp only [applyTx, bind_eq_ok, require_eq_ok] at ha
    obtain ⟨_, -, ha⟩ := ha
    cases he : env.tx with
    | transfer f t amount bps =>
      simp only [he, applyTransfer, hset, Bool.false_eq_true, if_false, bind_eq_ok, require_eq_ok,
        Except.ok.injEq] at ha
      obtain ⟨_, -, _, -, _, -, _, -, _, -, _, -, _, -, _, -, b₁, -, rfl⟩ := ha
      exact hput b₁
    | fileFee f s fid fee =>
      simp only [he, applyFileFee, hset, Bool.false_eq_true, if_false, bind_eq_ok,
        Except.ok.injEq] at ha
      obtain ⟨_, -, b₁, -, rfl⟩ := ha
      exact hput b₁
    | workerRegister w hw hp caps tf =>
      simp only [he, applyWorkerRegisterTx, hset, Bool.false_eq_true, if_false, bind_eq_ok,
        Except.ok.injEq] at ha
      obtain ⟨_, -, rfl⟩ := ha
      exact hput _
    | initialAirdrop w => rw [he] at hk; cases hk
    | verifyZkProof tid img j r => rw [he] at hk; cases hk
    | enterpriseInference w p m amount nonce ph flag att => rw [he] at hk; cases hk
    | signerLink w => rw [he] at hk; cases hk
    | foundingMemberEnroll w => rw [he] at hk; cases hk
    | genesisBridge f t amount => rw [he] at hk; cases hk

/-- Transactions only append to the batch. -/
theorem applyTxs_metaBatch {w : MetaKey × MetaVal} : ∀ {l : List (SignedTxEnvelopeV1 × Str)}
    {b b' : Batch}, applyTxs .saturating W L nowMs height l b = .ok b' → w ∈ b.metaBatch →
      w ∈ b'.metaBatch := by
  intro l
  induction l with
  | nil =>
    intro b b' ha hw
    cases ha
    exact hw
  | cons q l ih =>
    intro b b' ha hw
    obtain ⟨env, h⟩ := q
    simp only [applyTxs, bind_eq_ok] at ha
    obtain ⟨b₁, ha₁, ha₂⟩ := ha
    obtain ⟨m, hm, -⟩ := (applyTx_grows ha₁).metaBatch
    refine ih ha₂ ?_
    rw [hm]
    exact List.mem_append_left _ hw

/-- One of the transactions, and what it left in the batch. -/
theorem applyTxs_mem : ∀ {l : List (SignedTxEnvelopeV1 × Str)} {b b' : Batch},
    applyTxs .saturating W L nowMs height l b = .ok b' → ∀ p ∈ l, ∃ b₁ b₂,
      applyTx .saturating W L nowMs height b₁ p.1 p.2 = .ok b₂ ∧
        ∀ w ∈ b₂.metaBatch, w ∈ b'.metaBatch := by
  intro l
  induction l with
  | nil => exact fun _ p hp => absurd hp List.not_mem_nil
  | cons q l ih =>
    intro b b' ha p hp
    simp only [applyTxs, bind_eq_ok] at ha
    obtain ⟨b₁, ha₁, ha₂⟩ := ha
    rcases List.mem_cons.mp hp with rfl | hp
    · exact ⟨b, b₁, ha₁, fun w hw => applyTxs_metaBatch ha₂ hw⟩
    · exact ih ha₂ p hp

theorem applyTxs_marks {l : List (SignedTxEnvelopeV1 × Str)} {b b' : Batch}
    (ha : applyTxs .saturating W L nowMs height l b = .ok b') :
    ∀ p ∈ l, p.1.tx.settlesOnce = true →
      L.isTxApplied p.2 = true ∨ (remoteTxAppliedMetaKey p.2, MetaVal.mark) ∈ b'.metaBatch := by
  intro p hp hk
  obtain ⟨b₁, b₂, hb, hmem⟩ := applyTxs_mem ha p hp
  rcases applyTx_marks hb hk with hset | hmark
  · exact Or.inl hset
  · exact Or.inr (hmem _ hmark)

section Blocks

variable {txs : List SignedTxEnvelopeV1} {hashes : List Str} {producer root : Str} {reward : Nat}

/-- The `meta` rows of a block: what its transactions wrote, apart from the counters. -/
theorem apply_meta
    (ha : applyConsensusBlockBatch W nowMs height txs hashes producer reward L = .ok (root, L')) :
    ∃ b, applyTxs .saturating W L nowMs height (txs.zip hashes) (startBatch L) = .ok b ∧
      ∀ k, k.isCounter = false →
        L'.metaTree.get k = (L.metaTree.applyBatch b.metaBatch).get k := by
  simp only [applyConsensusBlockBatch, applyConsensusBlockBatchWith, bind_eq_ok, Except.ok.injEq,
    Prod.mk.injEq, blockBatch, require_eq_ok, Batch.payReward] at ha
  obtain ⟨_, ⟨_, -, b₀, h₀, _, ⟨m, -, rfl⟩, rfl⟩, -, rfl⟩ := ha
  refine ⟨b₀, h₀, fun k hk => ?_⟩
  have hne : ∀ c : MetaKey, c.isCounter = true → k ≠ c := by
    rintro c hc rfl
    rw [hk] at hc
    cases hc
  unfold Batch.commit
  simp only
  rw [get_putCounters, if_neg (hne _ rfl), if_neg (hne _ rfl), if_neg (hne _ rfl),
    if_neg (hne _ rfl)]
  unfold Batch.closeAirdrop
  split
  · simp only [Batch.putMeta]
    rw [Tree.applyBatch_append, Tree.applyBatch_cons, Tree.applyBatch_nil,
      Tree.get_insert_ne (Ne.symm (hne _ rfl))]
  · rfl

/-- Markers stay. -/
theorem apply_keeps_marks {h : Str}
    (ha : applyConsensusBlockBatch W nowMs height txs hashes producer reward L = .ok (root, L'))
    (hset : L.isTxApplied h = true) : L'.isTxApplied h = true := by
  simp only [applyConsensusBlockBatch, applyConsensusBlockBatchWith, bind_eq_ok, Except.ok.injEq,
    Prod.mk.injEq] at ha
  obtain ⟨b, -, -, rfl⟩ := ha
  exact Tree.isSome_get_applyBatch _ hset

/-- A marker in the batch of the transactions is set after the block. -/
theorem apply_marks_of_batch
    (ha : applyConsensusBlockBatch W nowMs height txs hashes producer reward L = .ok (root, L'))
    {h : Str} (hmem : ∀ b, applyTxs .saturating W L nowMs height (txs.zip hashes) (startBatch L) =
      .ok b → (remoteTxAppliedMetaKey h, MetaVal.mark) ∈ b.metaBatch) : L'.isTxApplied h = true := by
  obtain ⟨b, hb, hget⟩ := apply_meta ha
  have hkey : remoteTxAppliedMetaKey h ∈ b.metaBatch.map Prod.fst :=
    List.mem_map.mpr ⟨_, hmem b hb, rfl⟩
  obtain ⟨v, -, hv⟩ := Tree.exists_get_applyBatch _ L.metaTree hkey
  unfold isTxApplied
  rw [hget (remoteTxAppliedMetaKey h) rfl, hv]
  rfl

/-- **Every transaction that settles once** is marked after its block. -/
theorem apply_marks
    (ha : applyConsensusBlockBatch W nowMs height txs hashes producer reward L = .ok (root, L')) :
    ∀ p ∈ txs.zip hashes, p.1.tx.settlesOnce = true → L'.isTxApplied p.2 = true := by
  intro p hp hk
  by_cases hset : L.isTxApplied p.2 = true
  · exact apply_keeps_marks ha hset
  · refine apply_marks_of_batch ha fun b hb => ?_
    exact (applyTxs_marks hb p hp hk).resolve_left hset

/-- The marker keys a block can write are those of its hashes. -/
theorem blockUndoKeys_marker (W : World) (producer : Str) (reward : Nat) {x : Str}
    (h : MetaKey.remoteTxApplied x ∈ (blockUndoKeys W txs hashes producer reward).metaKeys) :
    ∃ p ∈ txs.zip hashes, trim p.2 = x := by
  simp only [blockUndoKeys, List.mem_cons, List.mem_flatMap, List.mem_map] at h
  rcases h with h | ⟨ks, ⟨p, hp, rfl⟩, hmem⟩
  · cases h
  · refine ⟨p, hp, ?_⟩
    unfold undoKeysOf at hmem
    split at hmem <;>
      simp [feeCounterKeys, remoteTxAppliedMetaKey, aiWorkloadTxMetaKey, zkVerifiedMetaKey] at hmem
    all_goals exact hmem.symm

/-- A new marker belongs to a hash of the block. -/
theorem apply_marks_only {h : Str}
    (ha : applyConsensusBlockBatch W nowMs height txs hashes producer reward L = .ok (root, L'))
    (hset : L'.isTxApplied h = true) (hnot : L.isTxApplied h = false) :
    ∃ p ∈ txs.zip hashes, trim p.2 = trim h := by
  refine blockUndoKeys_marker W producer reward ?_
  by_contra hout
  have hread := (apply_frame ha).readMeta _ hout
  simp only [readMeta, MetaKey.isCounter, Bool.false_eq_true, if_false] at hread
  unfold isTxApplied remoteTxAppliedMetaKey at hset hnot
  rw [hread, hnot] at hset
  cases hset

end Blocks

end Markers

end Ledger

end TetCore
