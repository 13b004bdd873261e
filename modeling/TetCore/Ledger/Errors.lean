import TetCore.Ledger.Locks

/-!
# The errors of block apply

`apply_consensus_block_batch` makes all its checks before it writes. With writes that do not fail its
errors are those of the checks, never a storage error (`apply_noStorageError`), so a block that is
refused has written nothing.
-/

namespace TetCore

open TetCore.Lib

/-- `LedgerError::Sled`. -/
def LedgerError.isStorage : LedgerError → Bool
  | .sled _ => true
  | _ => false

/-- The result is no storage error. -/
def NoStorageError {α : Type} (x : Except LedgerError α) : Prop :=
  ∀ e, x = .error e → e.isStorage = false

namespace NoStorageError

variable {α β : Type}

theorem ok (a : α) : NoStorageError (.ok a : Except LedgerError α) := nofun

theorem error {e : LedgerError} (he : e.isStorage = false) :
    NoStorageError (.error e : Except LedgerError α) := by
  intro e' h
  cases h
  exact he

theorem require (c : Prop) [Decidable c] {e : LedgerError} (he : e.isStorage = false) :
    NoStorageError (Lib.require c e) := by
  unfold Lib.require
  split
  · exact .ok ()
  · exact .error he

theorem bind {x : Except LedgerError α} {f : α → Except LedgerError β} (hx : NoStorageError x)
    (hf : ∀ a, NoStorageError (f a)) : NoStorageError (x >>= f) := by
  cases x with
  | error e => exact .error (hx e rfl)
  | ok a => exact hf a

theorem ite {c : Prop} [Decidable c] {x y : Except LedgerError α} (hx : NoStorageError x)
    (hy : NoStorageError y) : NoStorageError (if c then x else y) := by
  split
  · exact hx
  · exact hy

end NoStorageError

theorem chargeLedger_noStorageError (kind : FeeKind) (amount : Nat) :
    NoStorageError (chargeLedger kind amount) := by
  unfold chargeLedger
  split
  · exact .ok _
  · exact .error rfl

theorem World.treasuryAddressFromEnv_noStorageError (W : World) :
    NoStorageError W.treasuryAddressFromEnv := by
  unfold World.treasuryAddressFromEnv
  split
  · exact .error rfl
  · exact .ite (.error rfl) (.ite (.error rfl) (.ok _))

namespace Ledger

variable {W : World} {L : Ledger} {nowMs height : Nat} {b : Batch} {h : Str}

theorem countFee_noStorageError (burn fee : Nat) :
    NoStorageError (b.countFee .saturating burn fee) := .ok _

theorem settleTransferFee_noStorageError (split : FeeSplit) :
    NoStorageError (b.settleTransferFee .saturating split) := by
  unfold Batch.settleTransferFee Batch.creditPool FeeSplit.feeMicroWith
  simp only [Arith.saturating_add, ok_bind, credit_saturating]
  exact .ite (NoStorageError.bind (.ite (.ok _) (.ok _)) fun _ => countFee_noStorageError _ _) (.ok _)

theorem applyTransfer_noStorageError (f t : Str) (amount bps : Nat) :
    NoStorageError (applyTransfer .saturating L nowMs b h f t amount bps) := by
  unfold applyTransfer
  simp only [lockedBalanceMicro_saturating, Arith.saturating_sub, ok_bind, credit_saturating]
  refine (NoStorageError.require _ rfl).bind fun _ => (NoStorageError.require _ rfl).bind
    fun _ => .ite (.ok _) ?_
  refine (NoStorageError.require _ rfl).bind fun _ => (chargeLedger_noStorageError _ _).bind
    fun split => ?_
  exact (settleTransferFee_noStorageError split).bind fun _ => .ok _

theorem applyVerifyZkProof_noStorageError (signer taskId journal receipt : Str)
    (imageId : List Nat) :
    NoStorageError (applyVerifyZkProof W L nowMs b signer taskId imageId journal receipt) := by
  unfold applyVerifyZkProof
  refine (NoStorageError.require _ rfl).bind fun _ => .ite (.ok _) ?_
  simp only
  split
  · exact .error rfl
  · exact .ite (.ok _) (.ok _)
  · exact .error rfl

theorem applyFileFee_noStorageError (f s : Str) (fee : Nat) :
    NoStorageError (applyFileFee .saturating W L nowMs b h f s fee) := by
  unfold applyFileFee applyFileFeeToBalanceMap
  simp only [lockedBalanceMicro_saturating, Arith.saturating_sub, ok_bind, credit_saturating]
  refine .ite (.ok _) (NoStorageError.bind ?_ fun r => ?_)
  · refine (NoStorageError.require _ rfl).bind fun _ => (NoStorageError.require _ rfl).bind
      fun _ => W.treasuryAddressFromEnv_noStorageError.bind fun _ => ?_
    exact (NoStorageError.require _ rfl).bind fun _ => .ok _
  · exact (countFee_noStorageError _ _).bind fun _ => .ok _

theorem validateWorkerRegisterEligible_noStorageError (w : Str) :
    NoStorageError (validateWorkerRegisterEligible L w) := by
  unfold validateWorkerRegisterEligible
  exact (NoStorageError.require _ rfl).bind fun _ => NoStorageError.require _ rfl

theorem applyWorkerRegisterTx_noStorageError (w hw hp : Str) (caps : List Str) (tf : F64) :
    NoStorageError (applyWorkerRegisterTx L nowMs height b h w hw hp caps tf) := by
  unfold applyWorkerRegisterTx applyWorkerRegister
  refine .ite (.ok _) (NoStorageError.bind ?_ fun _ => .ok _)
  split
  · exact .error rfl
  · exact (validateWorkerRegisterEligible_noStorageError w).bind fun _ => .ok _

theorem applyInitialAirdrop_noStorageError (w : Str) :
    NoStorageError (applyInitialAirdrop .saturating W L b h w) := by
  unfold applyInitialAirdrop applyInitialAirdropToBalanceMap
  simp only [Arith.saturating_sub, Arith.saturating_add, ok_bind, credit_saturating]
  refine .ite (.ok _) (NoStorageError.bind ?_ fun r => ?_)
  · exact (NoStorageError.require _ rfl).bind fun _ => (NoStorageError.require _ rfl).bind
      fun _ => .ite (.ok _) (.ite (.ok _) (.ok _))
  · split <;> exact .ok _

theorem applyTx_noStorageError (env : SignedTxEnvelopeV1) :
    NoStorageError (applyTx .saturating W L nowMs height b env h) := by
  unfold applyTx
  refine (NoStorageError.require _ rfl).bind fun _ => ?_
  split
  · exact applyTransfer_noStorageError _ _ _ _
  · exact applyVerifyZkProof_noStorageError _ _ _ _ _
  · exact .ok _
  · exact applyFileFee_noStorageError _ _ _
  · exact applyWorkerRegisterTx_noStorageError _ _ _ _ _
  · exact applyInitialAirdrop_noStorageError _
  · exact .error rfl

theorem applyTxs_noStorageError : ∀ (l : List (SignedTxEnvelopeV1 × Str)) (b : Batch),
    NoStorageError (applyTxs .saturating W L nowMs height l b) := by
  intro l
  induction l with
  | nil => exact fun b => .ok b
  | cons p l ih =>
    intro b
    obtain ⟨env, h⟩ := p
    exact (applyTx_noStorageError env).bind fun b₁ => ih b₁

/-- The checks of a block apply never fail with a storage error. -/
theorem blockBatch_noStorageError (W : World) (L : Ledger) (nowMs height : Nat)
    (txs : List SignedTxEnvelopeV1) (hashes : List Str) (producer : Str) (reward : Nat) :
    NoStorageError (blockBatch .saturating W L nowMs height txs hashes producer reward) := by
  unfold blockBatch
  refine (NoStorageError.require _ rfl).bind fun _ => (applyTxs_noStorageError _ _).bind fun b => ?_
  refine NoStorageError.bind ?_ fun _ => .ok _
  unfold Batch.payReward applyBlockRewardToBalanceMap
  simp only [Arith.saturating_sub, Arith.saturating_add, ok_bind]
  refine NoStorageError.bind (.ite (.ok _) ?_) fun _ => .ok _
  exact (NoStorageError.require _ rfl).bind fun _ => (NoStorageError.require _ rfl).bind
    fun _ => (NoStorageError.require _ rfl).bind fun _ => .ok _

/-- **Block apply** never fails with a storage error. -/
theorem apply_noStorageError (W : World) (nowMs height : Nat) (txs : List SignedTxEnvelopeV1)
    (hashes : List Str) (producer : Str) (reward : Nat) (L : Ledger) :
    NoStorageError (applyConsensusBlockBatch W nowMs height txs hashes producer reward L) :=
  (blockBatch_noStorageError W L nowMs height txs hashes producer reward).bind fun _ => .ok _

end Ledger

end TetCore
