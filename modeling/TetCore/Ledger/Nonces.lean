import TetCore.Ledger.PresaleLocks

/-!
# Signed requests

`stake_micro`, `stake_worker_bond_micro`, `unstake_worker_bond_micro` and `settle_transfer_internal`
share one nonce row for a wallet. A signed request that is carried out exceeds the row and stores its
nonce there; nothing else writes the row (`exec_nonce`). `settle_transfer_internal` answers a transfer
to oneself, or of nothing, before it looks at the nonce (`Op.isNoop`).
-/

namespace TetCore

open TetCore.Lib

namespace Ledger

/-- The last nonce of the wallet, in its key's spelling. -/
def walletNonce (L : Ledger) (w : Str) : Nat := L.metaU64OrZero (.walletNonce w)

/-- The wallet a request is signed for, in its key's spelling, and the nonce. -/
def Op.signedBy : Op → Option (Str × Nat)
  | .stake wallet _ (some n) | .stakeWorkerBond wallet _ (some n)
  | .unstakeWorkerBond wallet _ (some n) | .settleTransferInternal wallet _ _ _ _ (some n) =>
    some (trimLower wallet, n)
  | _ => none

/-- A transfer to oneself, or of nothing. -/
def Op.isNoop : Op → Bool
  | .settleTransferInternal f t amountMicro _ _ _ => decide (f = t ∨ amountMicro = 0)
  | _ => false

/-- The nonce after a request that carried `n`, by the wallet itself or by another. -/
def nonceAfter (old : Nat) (own : Prop) [Decidable own] : Option Nat → Nat
  | some n => if own then n else old
  | none => old

/-- From `L` to `L'` the operation either was a signed request of `w`, exceeded its nonce and stored
its own, or left the nonce. -/
def NonceStep (w : Str) (op : Op) (L L' : Ledger) : Prop :=
  (∃ n, op.signedBy = some (w, n) ∧ op.isNoop = false ∧ L.walletNonce w < n ∧
    L'.walletNonce w = n) ∨
  ((∀ n, op.signedBy = some (w, n) → op.isNoop = true) ∧ L'.walletNonce w = L.walletNonce w)

section Nonce

variable {W : World} {nowMs : Nat} {L L' : Ledger} {w : Str}

theorem walletNonce_putRow (L : Ledger) {k : MetaKey} (v : MetaVal) (hk : k ≠ .walletNonce w) :
    (L.putRow k v).walletNonce w = L.walletNonce w := by
  unfold walletNonce
  rw [metaU64_putRow, if_neg hk]

/-- Storing the nonce of a request. -/
theorem walletNonce_putNonce (L : Ledger) (a w : Str) (n : Option Nat) :
    (L.putNonce a n).walletNonce w = nonceAfter (L.walletNonce w) (trimLower a = w) n := by
  cases n with
  | none => rfl
  | some n =>
    unfold putNonce walletNonce walletNonceMetaKey
    rw [metaU64_putRow]
    by_cases heq : trimLower a = w
    · rw [if_pos (congrArg _ heq)]
      exact (if_pos heq).symm
    · rw [if_neg fun h => heq (MetaKey.walletNonce.inj h)]
      exact (if_neg heq).symm

/-- The rows that a settled transfer writes before it stores the nonce. -/
theorem walletNonce_lockPresale (W : World) (nowMs : Nat) (L : Ledger) (s t w : Str) :
    (L.lockPresale W nowMs s t).walletNonce w = L.walletNonce w := by
  unfold lockPresale
  split
  · exact walletNonce_putRow L _ MetaKey.noConfusion
  · rfl

theorem walletNonce_burn (L : Ledger) (c : Prop) [Decidable c] (x y : Nat) (w : Str) :
    ((if c then L.burnSupply x else L).addCounter .feeTotal y).walletNonce w = L.walletNonce w := by
  refine (walletNonce_putRow _ _ MetaKey.noConfusion).trans ?_
  split
  · exact (walletNonce_putRow _ _ MetaKey.noConfusion).trans
      (walletNonce_putRow _ _ MetaKey.noConfusion)
  · rfl

/-- A signed request passes the check of its nonce. -/
theorem checkNonce_ok {a : Str} {msg : String} {n : Nat} {u : Unit}
    (h : L.checkNonce a msg (some n) = .ok u) : L.walletNonce (trimLower a) < n :=
  require_eq_ok.mp h

theorem takeForStake_nonce {wallet v : Str} {amount : Nat} {n : Option Nat}
    (h : takeForStake nowMs wallet amount n L = .ok (v, L')) :
    (∀ m, n = some m → L.walletNonce (trimLower wallet) < m) ∧
      L'.walletNonce w = nonceAfter (L.walletNonce w) (trimLower wallet = w) n := by
  simp only [takeForStake, bind_eq_ok, require_eq_ok, Except.ok.injEq, Prod.mk.injEq] at h
  obtain ⟨_, -, _, -, locked, -, _, hcheck, _, -, -, rfl⟩ := h
  constructor
  · rintro m rfl
    have hlt := checkNonce_ok hcheck
    rwa [trimLower_trimLower] at hlt
  · rw [walletNonce_putNonce, trimLower_trimLower]
    rfl

theorem settleTransfer_nonce {s t : Str} {amount : Nat} {bps n : Option Nat} {attested : Bool}
    {r : Nat × Nat} (hne : ¬(s = t ∨ amount = 0))
    (h : settleTransferInternal W nowMs s t amount bps attested n L = .ok (r, L')) :
    (∀ m, n = some m → L.walletNonce (trimLower s) < m) ∧
      L'.walletNonce w = nonceAfter (L.walletNonce w) (trimLower s = w) n := by
  unfold settleTransferInternal at h
  rw [if_neg hne] at h
  simp only [bind_eq_ok, require_eq_ok, Except.ok.injEq, Prod.mk.injEq] at h
  obtain ⟨_, -, _, -, split, -, locked, -, _, -, _, hcheck, _, -, -, rfl⟩ := h
  constructor
  · rintro m rfl
    exact checkNonce_ok hcheck
  · have hmoved := fun x y => walletNonce_lockPresale W nowMs
      ((L.putBalance s x).putBalance t y) s t w
    have hpaid : ∀ M : Ledger, M.walletNonce w = L.walletNonce w →
        (M.putNonce s n).walletNonce w =
          nonceAfter (L.walletNonce w) (trimLower s = w) n := by
      intro M hM
      rw [walletNonce_putNonce, hM]
    refine hpaid _ ?_
    split
    · exact (walletNonce_burn _ _ _ _ w).trans (hmoved _ _)
    · exact hmoved _ _

/-- The nonce of a signed request is among the rows it writes. -/
theorem Op.signedBy_row {op : Op} {n : Nat} (h : op.signedBy = some (w, n)) :
    .walletNonce w ∈ op.rowKeys W := by
  cases op
  case stake wallet amount m =>
    cases m <;> cases h
    simp [Op.rowKeys, walletNonceMetaKey, trimLower_trimLower]
  case stakeWorkerBond wallet amount m =>
    cases m <;> cases h
    simp [Op.rowKeys, walletNonceMetaKey, trimLower_trimLower]
  case unstakeWorkerBond wallet amount m =>
    cases m <;> cases h
    simp [Op.rowKeys, walletNonceMetaKey, trimLower_trimLower]
  case settleTransferInternal s t amount bps attested m =>
    cases m <;> cases h
    simp [Op.rowKeys, walletNonceMetaKey]
  all_goals cases h

/-- **One operation and the nonce of `w`**: a signed request of `w` that is carried out exceeds the
nonce and stores its own; any other operation leaves the nonce. -/
theorem exec_nonce {op : Op} (h : op.exec W nowMs L = .ok L') (w : Str) :
    NonceStep w op L L' := by
  -- a request with the nonce `n` of the wallet `a`
  have hsigned : ∀ {a : Str} {n : Option Nat},
      op.signedBy = n.map (fun m => (trimLower a, m)) → op.isNoop = false →
      (∀ m, n = some m → L.walletNonce (trimLower a) < m) →
      L'.walletNonce w = nonceAfter (L.walletNonce w) (trimLower a = w) n →
      NonceStep w op L L' := by
    intro a n hs hnoop hlt hL'
    cases n with
    | none =>
      refine Or.inr ⟨fun n hn => ?_, hL'⟩
      rw [hs] at hn
      cases hn
    | some m =>
      by_cases heq : trimLower a = w
      · subst heq
        exact Or.inl ⟨m, hs, hnoop, hlt m rfl, hL'.trans (if_pos rfl)⟩
      · refine Or.inr ⟨fun n hn => ?_, hL'.trans (if_neg heq)⟩
        rw [hs] at hn
        exact absurd (Prod.mk.inj (Option.some.inj hn)).1 heq
  by_cases hmem : MetaKey.walletNonce w ∈ op.rowKeys W
  · cases op
    case applyConsensusBlockBatch => exact absurd hmem (block_noWalletRow W _ _ _ _ _).1
    case stake wallet amount n =>
      rw [Op.exec, map_snd_eq_ok] at h
      obtain ⟨r, h⟩ := h
      simp only [stakeMicro, bind_eq_ok, Except.ok.injEq, Prod.mk.injEq] at h
      obtain ⟨⟨v, L₁⟩, h₁, -, rfl⟩ := h
      obtain ⟨hlt, hL₁⟩ := takeForStake_nonce (w := w) h₁
      refine hsigned (by cases n <;> rfl) rfl hlt ?_
      exact (walletNonce_putRow _ _ MetaKey.noConfusion).trans hL₁
    case stakeWorkerBond wallet amount n =>
      rw [Op.exec, map_snd_eq_ok] at h
      obtain ⟨r, h⟩ := h
      simp only [stakeWorkerBondMicro, bind_eq_ok, Except.ok.injEq, Prod.mk.injEq] at h
      obtain ⟨⟨v, L₁⟩, h₁, -, rfl⟩ := h
      obtain ⟨hlt, hL₁⟩ := takeForStake_nonce (w := w) h₁
      exact hsigned (by cases n <;> rfl) rfl hlt hL₁
    case unstakeWorkerBond wallet amount n =>
      rw [Op.exec, map_snd_eq_ok] at h
      obtain ⟨r, h⟩ := h
      simp only [unstakeWorkerBondMicro, bind_eq_ok, require_eq_ok, Except.ok.injEq,
        Prod.mk.injEq] at h
      obtain ⟨_, -, _, -, _, hcheck, _, -, -, rfl⟩ := h
      refine hsigned (a := wallet) (n := n) (by cases n <;> rfl) rfl ?_ ?_
      · rintro m rfl
        have hlt := checkNonce_ok hcheck
        rwa [trimLower_trimLower] at hlt
      · rw [walletNonce_putNonce, trimLower_trimLower]
        rfl
    case settleTransferInternal s t amount bps attested n =>
      rw [Op.exec, map_snd_eq_ok] at h
      obtain ⟨r, h⟩ := h
      by_cases hne : s = t ∨ amount = 0
      · rw [settleTransferInternal, if_pos hne] at h
        cases h
        exact Or.inr ⟨fun _ _ => decide_eq_true hne, rfl⟩
      · obtain ⟨hlt, hL'⟩ := settleTransfer_nonce (w := w) hne h
        exact hsigned (by cases n <;> rfl) (decide_eq_false hne) hlt hL'
    all_goals
      simp [Op.rowKeys, walletPresaleLockUntilMetaKey, genesisGuardianGrantMetaKey,
        walletInferBurnMetaKey, walletStakeMetaKey] at hmem
  · -- no request of `w` is signed without its nonce among the rows
    exact Or.inr ⟨fun n hn => absurd (Op.signedBy_row hn) hmem, exec_counter h rfl hmem⟩

theorem Op.run_of_ok {op : Op} {nowMs : Nat} (h : op.exec W nowMs L = .ok L') :
    op.run W nowMs L = L' := by
  rw [Op.run, h]
  rfl

theorem Op.run_of_error {op : Op} {nowMs : Nat} {e : LedgerError}
    (h : op.exec W nowMs L = .error e) : op.run W nowMs L = L := by
  rw [Op.run, h]
  rfl

/-- A transfer to oneself, or of nothing, does nothing. -/
theorem Op.run_of_noop {op : Op} {nowMs : Nat} (h : op.isNoop = true) : op.run W nowMs L = L := by
  cases op
  case settleTransferInternal s t amount bps attested n =>
    refine Op.run_of_ok ?_
    rw [Op.exec, Ledger.settleTransferInternal, if_pos (of_decide_eq_true h)]
    rfl
  all_goals cases h

/-- **A signed request that does not exceed the nonce** is refused or does nothing. -/
theorem Op.run_of_stale {op : Op} {nowMs n : Nat} (hs : op.signedBy = some (w, n))
    (hn : n ≤ L.walletNonce w) : op.run W nowMs L = L := by
  cases hrun : op.exec W nowMs L with
  | error e => exact Op.run_of_error hrun
  | ok L' =>
    rcases exec_nonce hrun w with ⟨m, hm, -, hlt, -⟩ | ⟨hnoop, -⟩
    · rw [hs, Option.some.injEq, Prod.mk.injEq] at hm
      omega
    · exact Op.run_of_noop (hnoop n hs)

end Nonce

end Ledger

end TetCore
