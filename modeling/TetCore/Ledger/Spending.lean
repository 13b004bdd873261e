import TetCore.Ledger.Conservation
import TetCore.Ledger.Locks
import TetCore.Ledger.RootCommit
import TetCore.Lib.InHand

/-!
# What a block takes from a wallet

Transfers and file fees are taken from the wallet of their sender, under its trimmed lowercase name;
everything else a block does to a wallet other than the worker pool is a credit, and locks are not
touched by a block.

* `apply_spends`: a block takes from a wallet at most what its own transfers and file fees add up to.
* `apply_locked`: what is locked for a wallet stays.
* `lockedMicro_anti`: less is locked at a later time.
-/

namespace TetCore

open TetCore.Lib

namespace Ledger

/-- What a transaction takes from a wallet. -/
def outgoingMicro (wallet : Str) (env : SignedTxEnvelopeV1) : Nat :=
  match env.tx with
  | .transfer f _ amountMicro _ => if trimLower f = wallet then amountMicro else 0
  | .fileFee f _ _ feeMicro => if trimLower f = wallet then feeMicro else 0
  | _ => 0

section Spending

variable {W : World} {L L' : Ledger} {nowMs height : Nat} {m m' : Tree Str Nat} {w k : Str}

/-- A credit takes nothing. -/
theorem le_credit {n : Nat} (hm : Bounded m) (h : credit .saturating m k n = .ok m') :
    amountAt m w ≤ amountAt m' w := by
  rw [credit_saturating, Except.ok.injEq] at h
  subst h
  rw [amountAt_insert]
  split
  · rename_i hk
    subst hk
    have := hm.amountAt k
    unfold satAdd
    omega
  · exact Nat.le_refl _

/-- A debit takes its amount from its wallet. -/
theorem le_debit (m : Tree Str Nat) (k w : Str) (n : Nat) :
    amountAt m w ≤ amountAt (m.insert k (amountAt m k - n)) w + if k = w then n else 0 := by
  rw [amountAt_insert]
  by_cases hk : k = w
  · subst hk
    rw [if_pos rfl, if_pos rfl]
    omega
  · rw [if_neg hk, if_neg hk]
    exact Nat.le_refl _

theorem previewTransfer_spends {f t : Str} {amount bps : Nat} (hm : Bounded m)
    (h : previewTransfer .saturating L nowMs m f t amount bps = .ok m') :
    amountAt m w ≤ amountAt m' w + if trimLower f = w then amount else 0 := by
  simp only [previewTransfer, bind_eq_ok, require_eq_ok, Arith.saturating_sub,
    Except.ok.injEq] at h
  obtain ⟨_, -, _, -, split, -, locked, -, _, -, _, -, _, rfl, m₁, h₁, h⟩ := h
  have hdebited := hm.debit (trimLower f) amount
  have hdebit := le_debit m (trimLower f) w amount
  have hcredit := le_credit (w := w) hdebited h₁
  split at h
  · have hpool := le_credit (w := w) (hdebited.credit h₁) h
    omega
  · rw [Except.ok.injEq] at h
    subst h
    omega

theorem applyFileFeeToBalanceMap_spends {f s : Str} {fee : Nat}
    {r : FileFeeEffect × Tree Str Nat} (hm : Bounded m)
    (h : applyFileFeeToBalanceMap .saturating W L nowMs m f s fee = .ok r) :
    amountAt m w ≤ amountAt r.2 w + if trimLower f = w then fee else 0 := by
  simp only [applyFileFeeToBalanceMap, bind_eq_ok, require_eq_ok, Arith.saturating_sub,
    Except.ok.injEq] at h
  obtain ⟨_, -, _, -, t, -, _, -, _, -, _, -, _, rfl, m₁, h₁, m₂, h₂, rfl⟩ := h
  have hdebited := hm.debit (trimLower f) fee
  have hdebit := le_debit m (trimLower f) w fee
  have htreasury := le_credit (w := w) hdebited h₁
  have hstorage := le_credit (w := w) (hdebited.credit h₁) h₂
  simp only
  omega

theorem applyInitialAirdropToBalanceMap_spends {wallet : Str} {count count' : Nat}
    (hm : Bounded m) (hw : w ≠ walletWorkerPool)
    (h : applyInitialAirdropToBalanceMap .saturating W m wallet count = .ok (some (m', count'))) :
    amountAt m w ≤ amountAt m' w := by
  simp only [applyInitialAirdropToBalanceMap, bind_eq_ok, require_eq_ok] at h
  obtain ⟨_, -, _, -, h⟩ := h
  split at h
  · cases h
  split at h
  · cases h
  simp only [Arith.saturating_sub, bind_eq_ok, Except.ok.injEq, Option.some.injEq,
    Prod.mk.injEq] at h
  obtain ⟨_, rfl, m₁, h₁, _, -, rfl, -⟩ := h
  have hpool := le_debit m walletWorkerPool w faucetInitialAirdropMicroPerUser
  rw [if_neg fun h => hw h.symm] at hpool
  exact hpool.trans (le_credit (hm.debit _ _) h₁)

theorem applyBlockRewardToBalanceMap_spends {producer : Str} {reward : Nat} (hm : Bounded m)
    (hw : w ≠ walletWorkerPool)
    (h : applyBlockRewardToBalanceMap .saturating m producer reward = .ok m') :
    amountAt m w ≤ amountAt m' w := by
  unfold applyBlockRewardToBalanceMap at h
  split at h
  · cases h
    exact Nat.le_refl _
  · simp only [bind_eq_ok, require_eq_ok, Arith.saturating_sub, Arith.saturating_add,
      Except.ok.injEq] at h
    obtain ⟨_, -, _, -, _, -, _, rfl, _, rfl, rfl⟩ := h
    rw [amountAt_insert]
    by_cases hp : trimLower producer = w
    · subst hp
      rw [if_pos rfl]
      have := hm.amountAt (trimLower producer)
      unfold satAdd
      omega
    · rw [if_neg hp, amountAt_insert, if_neg fun h => hw h.symm]

/-- **One transaction** takes from a wallet what goes out of it. -/
theorem previewTx_spends {acc acc' : Tree Str Nat × Nat} {env : SignedTxEnvelopeV1}
    (hm : Bounded acc.1) (hw : w ≠ walletWorkerPool)
    (h : previewTx .saturating W L nowMs acc env = .ok acc') :
    amountAt acc.1 w ≤ amountAt acc'.1 w + outgoingMicro w env := by
  simp only [previewTx, bind_eq_ok, require_eq_ok] at h
  obtain ⟨_, -, h⟩ := h
  unfold outgoingMicro
  cases he : env.tx with
  | transfer f t amount bps =>
    simp only [he, bind_eq_ok, Except.ok.injEq] at h
    obtain ⟨m, hp, rfl⟩ := h
    exact previewTransfer_spends hm hp
  | verifyZkProof tid img j r =>
    simp only [he, Except.ok.injEq] at h
    rw [h]
    exact Nat.le_refl _
  | enterpriseInference w p m amount nonce ph flag att =>
    simp only [he, Except.ok.injEq] at h
    rw [h]
    exact Nat.le_refl _
  | initialAirdrop w =>
    simp only [he, bind_eq_ok, Except.ok.injEq] at h
    obtain ⟨r, hr, rfl⟩ := h
    cases r with
    | none => exact Nat.le_refl _
    | some p => exact applyInitialAirdropToBalanceMap_spends hm hw hr
  | fileFee f s fid fee =>
    simp only [he, bind_eq_ok, Except.ok.injEq] at h
    obtain ⟨r, hr, rfl⟩ := h
    exact applyFileFeeToBalanceMap_spends hm hr
  | workerRegister w hw hpr caps tf =>
    simp only [he, bind_eq_ok, Except.ok.injEq] at h
    obtain ⟨_, -, rfl⟩ := h
    exact Nat.le_refl _
  | signerLink w => simp [he, invalid] at h
  | foundingMemberEnroll w => simp [he, invalid] at h
  | genesisBridge f t amount => simp [he, invalid] at h

theorem previewTxs_spends (hw : w ≠ walletWorkerPool) : ∀ {txs : List SignedTxEnvelopeV1}
    {acc acc' : Tree Str Nat × Nat}, Bounded acc.1 →
    previewTxs .saturating W L nowMs txs acc = .ok acc' →
      amountAt acc.1 w ≤ amountAt acc'.1 w + weigh (outgoingMicro w) txs := by
  intro txs
  induction txs with
  | nil =>
    intro acc acc' _ h
    cases h
    exact Nat.le_refl _
  | cons env txs ih =>
    intro acc acc' hm h
    simp only [previewTxs, bind_eq_ok] at h
    obtain ⟨acc₁, h₁, h₂⟩ := h
    have hone := previewTx_spends hm hw h₁
    have hrest := ih (previewTx_bounded hm h₁) h₂
    have hcons : weigh (outgoingMicro w) (env :: txs) =
        outgoingMicro w env + weigh (outgoingMicro w) txs := List.sum_cons
    omega

/-- **A block** takes from a wallet at most what goes out of it in its transactions. -/
theorem apply_spends {txs : List SignedTxEnvelopeV1} {hashes : List Str} {producer root : Str}
    {reward : Nat} (hm : Bounded L.balances) (hw : w ≠ walletWorkerPool)
    (ha : applyConsensusBlockBatch W nowMs height txs hashes producer reward L = .ok (root, L')) :
    amountAt L.balances w ≤ amountAt L'.balances w + weigh (outgoingMicro w) txs := by
  obtain ⟨acc, hacc, hreward, -⟩ := apply_balances_eq_preview ha
  have htxs := previewTxs_spends hw hm hacc
  have hrew := applyBlockRewardToBalanceMap_spends (previewTxs_bounded hm hacc) hw hreward
  -- the settled transactions take nothing
  have hsub : List.Sublist (L.unsettled (txs.zip hashes)) txs := by
    have hmap : List.Sublist (L.unsettled (txs.zip hashes)) ((txs.zip hashes).map Prod.fst) :=
      List.filter_sublist.map Prod.fst
    rwa [List.map_fst_zip (le_of_eq (apply_lengths ha))] at hmap
  have hle := weigh_sublist (a := outgoingMicro w) hsub
  simp only at htxs
  omega

/-! ## Locks -/

/-- A row of the founder's genesis lock is not among the keys of a block. -/
theorem genesisLock_notMem (W : World) (txs : List SignedTxEnvelopeV1) (hashes : List Str)
    (producer : Str) (reward : Nat) {k : MetaKey}
    (hk : k = .founderWallet ∨ k = .founderGenesisUnlockAtMs ∨ k = .founderGenesisLockedMicro) :
    k ∉ (blockUndoKeys W txs hashes producer reward).metaKeys := by
  intro hmem
  simp only [blockUndoKeys, List.mem_cons, List.mem_flatMap, List.mem_map] at hmem
  rcases hmem with rfl | ⟨ks, ⟨p, -, rfl⟩, hmem⟩
  · rcases hk with hk | hk | hk <;> cases hk
  · unfold undoKeysOf feeCounterKeys remoteTxAppliedMetaKey aiWorkloadTxMetaKey
      zkVerifiedMetaKey at hmem
    rcases hk with rfl | rfl | rfl <;> split at hmem <;> simp at hmem

/-- The locks of a wallet are read off the lock rows and the founder's rows. -/
theorem lockedMicro_congr (hvest : L'.vestLocks = L.vestLocks)
    (hfounder : L'.founderWallet = L.founderWallet)
    (hunlock : L'.metaU64OrZero .founderGenesisUnlockAtMs =
      L.metaU64OrZero .founderGenesisUnlockAtMs)
    (hlocked : L'.metaU64OrZero .founderGenesisLockedMicro =
      L.metaU64OrZero .founderGenesisLockedMicro) (w : Str) (t : Nat) :
    L'.lockedMicro w t = L.lockedMicro w t := by
  unfold lockedMicro lockedAmounts
  rw [hvest, hfounder, hunlock, hlocked]

/-- A block leaves the genesis lock. -/
theorem apply_genesisLock {txs : List SignedTxEnvelopeV1} {hashes : List Str} {producer root : Str}
    {reward : Nat}
    (ha : applyConsensusBlockBatch W nowMs height txs hashes producer reward L = .ok (root, L')) :
    L'.vestLocks = L.vestLocks ∧ L'.metaTree.get .founderWallet = L.metaTree.get .founderWallet ∧
      L'.metaU64OrZero .founderGenesisUnlockAtMs = L.metaU64OrZero .founderGenesisUnlockAtMs ∧
      L'.metaU64OrZero .founderGenesisLockedMicro = L.metaU64OrZero .founderGenesisLockedMicro := by
  have hf := apply_frame ha
  have hrow := fun k hk => hf.readMeta k (genesisLock_notMem W txs hashes producer reward hk)
  exact ⟨by rw [hf.rest], hrow _ (Or.inl rfl),
    u64Of_of_readMeta rfl (hrow _ (Or.inr (Or.inl rfl))),
    u64Of_of_readMeta rfl (hrow _ (Or.inr (Or.inr rfl)))⟩

/-- **Locks** are not touched by a block. -/
theorem apply_locked {txs : List SignedTxEnvelopeV1} {hashes : List Str} {producer root : Str}
    {reward : Nat}
    (ha : applyConsensusBlockBatch W nowMs height txs hashes producer reward L = .ok (root, L'))
    (w : Str) (t : Nat) : L'.lockedMicro w t = L.lockedMicro w t := by
  obtain ⟨hvest, hfounder, hunlock, hlocked⟩ := apply_genesisLock ha
  exact lockedMicro_congr hvest (by unfold founderWallet; rw [hfounder]) hunlock hlocked w t

theorem foldl_satAdd_le : ∀ {l l' : List Nat}, List.Sublist l l' → ∀ {a a' : Nat}, a ≤ a' →
    a' ≤ u64Max → l.foldl satAdd a ≤ l'.foldl satAdd a' := by
  intro l l' h
  induction h with
  | slnil => exact fun ha _ => ha
  | cons n _ ih =>
    intro a a' ha hmax
    exact ih (by unfold satAdd; omega) (satAdd_le _ _)
  | cons_cons n _ ih =>
    intro a a' ha hmax
    exact ih (by unfold satAdd; omega) (satAdd_le _ _)

theorem sublist_ite_append {c c' : Prop} [Decidable c] [Decidable c'] {l l' : List Nat}
    (hc : c' → c) (h : List.Sublist l' l) (x : List Nat) :
    List.Sublist (if c' then l' ++ x else l') (if c then l ++ x else l) := by
  by_cases hc' : c'
  · rw [if_pos hc', if_pos (hc hc')]
    exact h.append (List.Sublist.refl x)
  · rw [if_neg hc']
    split
    · exact h.trans (List.sublist_append_left _ _)
    · exact h

/-- **Less is locked later**. -/
theorem lockedMicro_anti (L : Ledger) (w : Str) {t t' : Nat} (ht : t ≤ t') :
    L.lockedMicro w t' ≤ L.lockedMicro w t := by
  refine foldl_satAdd_le ?_ (Nat.le_refl 0) (Nat.zero_le _)
  unfold lockedAmounts
  have hvest : List.Sublist
      ((L.vestLocks.iter.filter fun row => row.2.wallet == trim w &&
        decide (t' < row.2.unlockAtMs)).map (·.2.amountMicro))
      ((L.vestLocks.iter.filter fun row => row.2.wallet == trim w &&
        decide (t < row.2.unlockAtMs)).map (·.2.amountMicro)) := by
    refine (List.monotone_filter_right _ fun row hrow => ?_).map _
    rw [Bool.and_eq_true, decide_eq_true_iff] at hrow ⊢
    exact ⟨hrow.1, by omega⟩
  refine sublist_ite_append (fun hlater => ?_) hvest _
  rw [Bool.and_eq_true, decide_eq_true_iff] at hlater ⊢
  exact ⟨hlater.1, by omega⟩

end Spending

end Ledger

end TetCore
