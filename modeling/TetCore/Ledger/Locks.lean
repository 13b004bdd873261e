import TetCore.Ledger.RootAgreement

/-!
# Locked funds

A transfer and a file fee debit a wallet only by what is not locked. Balances are kept under the
trimmed lowercase name. A transfer looks the locks up under that name too; a file fee looks them up
under the name as it is written, trimmed only. Lock rows carry the name a wallet is written with
elsewhere, so another spelling of the sender finds fewer locks, and a file fee can spend what is
locked (`locks_held_uppercase`). `locks_held_iff` says exactly when no debit of a block does.
-/

namespace TetCore

open TetCore.Lib

namespace Ledger

variable {W : World} {L L' : Ledger} {nowMs height : Nat} {b b' : Batch}

/-- What is locked for a wallet: `locked_balance_micro`, which does not fail. -/
def lockedMicro (L : Ledger) (peer : Str) (nowMs : Nat) : Nat :=
  (L.lockedAmounts peer nowMs).foldl satAdd 0

theorem foldlM_saturating (l : List Nat) (acc : Nat) :
    l.foldlM Arith.saturating.add acc = .ok (l.foldl satAdd acc) := by
  induction l generalizing acc with
  | nil => rfl
  | cons a l ih =>
    rw [List.foldlM_cons, Arith.saturating_add, ok_bind, ih]
    rfl

@[simp] theorem lockedBalanceMicro_saturating (L : Ledger) (peer : Str) (nowMs : Nat) :
    L.lockedBalanceMicro .saturating peer nowMs = .ok (L.lockedMicro peer nowMs) :=
  foldlM_saturating _ _

/-! ## Debits -/

/-- The debit of a transaction on the balances of `b`: the wallet and what it has left right after,
before anything is credited. A settled transaction has none. -/
def debitOf (L : Ledger) (b : Batch) (env : SignedTxEnvelopeV1) (txHash : Str) : Option (Str × Nat) :=
  if L.isTxApplied txHash then none
  else match env.tx with
    | .transfer fromWallet _ amountMicro _ =>
      some (trimLower fromWallet, amountAt b.balances (trimLower fromWallet) - amountMicro)
    | .fileFee fromWallet _ _ feeMicro =>
      some (trimLower fromWallet, amountAt b.balances (trimLower fromWallet) - feeMicro)
    | _ => none

/-- The balances after some credits. -/
def creditAll (m : Tree Str Nat) (credits : List (Str × Nat)) : Tree Str Nat :=
  credits.foldl (fun m c => m.insert c.1 (satAdd (amountAt m c.1) c.2)) m

/-- What a transfer checks before its debit, and its effect: the debit, then credits. -/
theorem applyTransfer_debit {f t h : Str} {amount bps : Nat} (hfresh : L.isTxApplied h = false)
    (ha : applyTransfer .saturating L nowMs b h f t amount bps = .ok b') :
    0 < amount ∧
      amount ≤ amountAt b.balances (trimLower f) - L.lockedMicro (trimLower f) nowMs ∧
      ∃ credits, b'.balances = creditAll (b.balances.insert (trimLower f)
        (amountAt b.balances (trimLower f) - amount)) credits := by
  obtain ⟨hp, -⟩ := previewTransfer_of_apply hfresh ha
  simp only [previewTransfer, lockedBalanceMicro_saturating, Arith.saturating_sub,
    credit_saturating, bind_eq_ok, ok_bind, require_eq_ok] at hp
  obtain ⟨_, -, _, ⟨hne, -⟩, split, -, _, hspend, hm⟩ := hp
  refine ⟨by omega, hspend, ?_⟩
  by_cases hpool : 0 < split.poolMicro
  · rw [if_pos hpool, Except.ok.injEq] at hm
    exact ⟨[(trimLower t, split.netMicro), (walletWorkerPool, split.poolMicro)], hm.symm⟩
  · rw [if_neg hpool, Except.ok.injEq] at hm
    exact ⟨[(trimLower t, split.netMicro)], hm.symm⟩

/-- What a file fee checks before its debit, and its effect. The locks are those of the name as it is
written. -/
theorem applyFileFee_debit {f s h : Str} {fee : Nat} (hfresh : L.isTxApplied h = false)
    (ha : applyFileFee .saturating W L nowMs b h f s fee = .ok b') :
    0 < fee ∧ fee ≤ amountAt b.balances (trimLower f) - L.lockedMicro (trim f) nowMs ∧
      ∃ credits, b'.balances = creditAll (b.balances.insert (trimLower f)
        (amountAt b.balances (trimLower f) - fee)) credits := by
  obtain ⟨r, hr, hview⟩ := previewFileFee_of_apply hfresh ha
  simp only [applyFileFeeToBalanceMap, lockedBalanceMicro_saturating, Arith.saturating_sub,
    credit_saturating, bind_eq_ok, ok_bind, require_eq_ok, Except.ok.injEq] at hr
  obtain ⟨_, rfl, _, -, treasury, -, _, hspend, rfl⟩ := hr
  have hbal : b'.balances = _ := congrArg Prod.fst hview
  have hpos : 0 < fileFeeMicro := by decide
  exact ⟨hpos, hspend, [(treasury, _), (_, _)], hbal⟩

/-! ## Blocks -/

theorem applyTxs_append {l l' : List (SignedTxEnvelopeV1 × Str)} :
    applyTxs .saturating W L nowMs height (l ++ l') b =
      applyTxs .saturating W L nowMs height l b >>= applyTxs .saturating W L nowMs height l' := by
  induction l generalizing b with
  | nil => rfl
  | cons p l ih =>
    obtain ⟨env, h⟩ := p
    simp only [List.cons_append, applyTxs]
    cases applyTx .saturating W L nowMs height b env h with
    | error e => rfl
    | ok b₁ => exact ih

/-- The transaction `env` with the hash `h` of a block, and the batch it is applied to. -/
def StepAt (W : World) (L : Ledger) (nowMs height : Nat) (block : List (SignedTxEnvelopeV1 × Str))
    (b : Batch) (env : SignedTxEnvelopeV1) (h : Str) : Prop :=
  ∃ l l', block = l ++ (env, h) :: l' ∧
    applyTxs .saturating W L nowMs height l (startBatch L) = .ok b

/-- **Locked funds are not spent**: what a debit leaves covers what is locked under the wallet's
balance key. -/
def LocksHeld (W : World) (L : Ledger) (nowMs height : Nat)
    (block : List (SignedTxEnvelopeV1 × Str)) : Prop :=
  ∀ b env h, StepAt W L nowMs height block b env h →
    ∀ k v, debitOf L b env h = some (k, v) → L.lockedMicro k nowMs ≤ v

/-- Every file fee that is not settled finds its sender's locks under the name as it is written, or
the balance it is taken from covers them anyway. -/
def FileFeesFindLocks (W : World) (L : Ledger) (nowMs height : Nat)
    (block : List (SignedTxEnvelopeV1 × Str)) : Prop :=
  ∀ b env h, StepAt W L nowMs height block b env h → L.isTxApplied h = false →
    ∀ f s fid fee, env.tx = .fileFee f s fid fee →
      L.lockedMicro (trimLower f) nowMs ≤ L.lockedMicro (trim f) nowMs ∨
        L.lockedMicro (trimLower f) nowMs + fee ≤ amountAt b.balances (trimLower f)

/-- A step of a block that is applied is applied. -/
theorem StepAt.applies {txs : List SignedTxEnvelopeV1} {hashes : List Str} {producer : Str}
    {reward : Nat} {r : Str × Ledger} {env : SignedTxEnvelopeV1} {h : Str}
    (hs : StepAt W L nowMs height (txs.zip hashes) b env h)
    (ha : applyConsensusBlockBatch W nowMs height txs hashes producer reward L = .ok r) :
    ∃ b', applyTx .saturating W L nowMs height b env h = .ok b' := by
  obtain ⟨l, l', hblock, hb⟩ := hs
  simp only [applyConsensusBlockBatch, applyConsensusBlockBatchWith, blockBatch, hblock,
    applyTxs_append, hb, ok_bind, applyTxs, bind_eq_ok] at ha
  obtain ⟨_, ⟨_, -, _, ⟨b', hb', -⟩, -⟩, -⟩ := ha
  exact ⟨b', hb'⟩

/-- **Locked funds are not spent by a block** exactly when its file fees find their locks. -/
theorem locks_held_iff {txs : List SignedTxEnvelopeV1} {hashes : List Str} {producer : Str}
    {reward : Nat} {r : Str × Ledger}
    (ha : applyConsensusBlockBatch W nowMs height txs hashes producer reward L = .ok r) :
    LocksHeld W L nowMs height (txs.zip hashes) ↔
      FileFeesFindLocks W L nowMs height (txs.zip hashes) := by
  constructor
  · intro hheld b env h hs hfresh f s fid fee he
    right
    obtain ⟨b', hb'⟩ := hs.applies ha
    simp only [applyTx, he, bind_eq_ok, require_eq_ok] at hb'
    obtain ⟨_, -, hb'⟩ := hb'
    obtain ⟨-, hspend, -⟩ := applyFileFee_debit hfresh hb'
    have hd : debitOf L b env h =
        some (trimLower f, amountAt b.balances (trimLower f) - fee) := by
      simp [debitOf, hfresh, he]
    have := hheld b env h hs _ _ hd
    omega
  · intro hfind b env h hs k v hd
    obtain ⟨b', hb'⟩ := hs.applies ha
    simp only [applyTx, bind_eq_ok, require_eq_ok] at hb'
    obtain ⟨_, -, hb'⟩ := hb'
    unfold debitOf at hd
    cases hfresh : L.isTxApplied h with
    | true =>
      rw [hfresh] at hd
      cases hd
    | false =>
      simp only [hfresh, Bool.false_eq_true, if_false] at hd
      cases he : env.tx with
      | transfer f t amount bps =>
        simp only [he, Option.some.injEq, Prod.mk.injEq] at hb' hd
        obtain ⟨rfl, rfl⟩ := hd
        obtain ⟨hpos, hspend, -⟩ := applyTransfer_debit hfresh hb'
        omega
      | fileFee f s fid fee =>
        simp only [he, Option.some.injEq, Prod.mk.injEq] at hb' hd
        obtain ⟨rfl, rfl⟩ := hd
        obtain ⟨hpos, hspend, -⟩ := applyFileFee_debit hfresh hb'
        have := hfind b env h hs hfresh f s fid fee he
        omega
      | _ => simp [he] at hd

end Ledger

/-- The sample ledger with the given amount of `alice`'s balance locked until time 100. -/
def Sample.locked (amountMicro : Nat) : Ledger :=
  { Sample.ledger with
    vestLocks := Tree.empty.insert ['v'] ⟨1, Sample.alice, amountMicro, 100⟩ }

namespace Ledger

/-- A file fee of `alice`, her name in lower case. -/
theorem locks_held_lowercase :
    let W := World.sample 100000
    let env := Sample.signed (.fileFee Sample.alice [] ['f'] fileFeeMicro)
    ∃ r, applyConsensusBlockBatch W 0 1 [env] [['1']] Sample.node 100000
        (Sample.locked (40 * stevemon)) = .ok r ∧
      LocksHeld W (Sample.locked (40 * stevemon)) 0 1 ([env].zip [['1']]) := by
  intro W env
  obtain ⟨r, hr⟩ : ∃ r, applyConsensusBlockBatch W 0 1 [env] [['1']] Sample.node 100000
      (Sample.locked (40 * stevemon)) = .ok r := exists_ok (by decide +kernel)
  refine ⟨r, hr, (locks_held_iff hr).mpr ?_⟩
  rintro b env' h ⟨l, l', hblock, -⟩ - f s fid fee he
  left
  have henv : env' = env := by
    have hmem : (env', h) ∈ [env].zip [['1']] := by
      rw [hblock]
      exact List.mem_append_right _ List.mem_cons_self
    rw [List.zip_cons_cons, List.zip_nil_right, List.mem_singleton] at hmem
    exact congrArg Prod.fst hmem
  rw [henv] at he
  cases he
  decide +kernel

/-- The same with all of her balance locked and her name in upper case: the fee is taken out of the
locked amount. -/
theorem locks_held_uppercase :
    let W := World.sample 100000
    let env := Sample.signed (.fileFee (toAsciiUppercase Sample.alice) [] ['f'] fileFeeMicro)
    ∃ r, applyConsensusBlockBatch W 0 1 [env] [['1']] Sample.node 100000
        (Sample.locked (50 * stevemon)) = .ok r ∧
      ¬ LocksHeld W (Sample.locked (50 * stevemon)) 0 1 ([env].zip [['1']]) := by
  intro W env
  obtain ⟨r, hr⟩ : ∃ r, applyConsensusBlockBatch W 0 1 [env] [['1']] Sample.node 100000
      (Sample.locked (50 * stevemon)) = .ok r := exists_ok (by decide +kernel)
  have hall : debitOf (Sample.locked (50 * stevemon)) (startBatch (Sample.locked (50 * stevemon))) env ['1'] =
        some (Sample.alice, 50 * stevemon - fileFeeMicro) ∧
      ¬ (Sample.locked (50 * stevemon)).lockedMicro Sample.alice 0 ≤ 50 * stevemon - fileFeeMicro := by
    decide +kernel
  exact ⟨r, hr, fun hheld => hall.2 (hheld _ env ['1'] ⟨[], [], rfl, rfl⟩ _ _ hall.1)⟩

end Ledger

end TetCore
