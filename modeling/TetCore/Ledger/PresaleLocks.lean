import TetCore.Ledger.DirectDebits

/-!
# The pre-sale lock

An allocation from `dex:treasury` locks its recipient for a while: until then the wallet may pay the
AI burn wallet only. The two direct transfers check the lock; the transfers and file fees of a block
do not (`presale_lock_block`).

* `exec_sendsOut_iff`: before the lock ends, an operation moves value of the wallet elsewhere exactly
  when it is a block with an unsettled transaction of the wallet that pays elsewhere, or a direct
  transfer whose fee does (its worker pool share; the recipient is checked).
* `exec_presaleLocked`: a later allocation only moves the end of the lock on.
* `presale_lock_holds_iff`: so over every run that follows the allocation.
-/

namespace TetCore

open TetCore.Lib

namespace Ledger

/-! ## Locked wallets and payments -/

/-- `presale_locked_until_ms`. -/
def presaleLockedUntilMs (L : Ledger) (wallet : Str) : Nat :=
  L.metaU64OrZero (walletPresaleLockUntilMetaKey wallet)

/-- A wallet that is, in any spelling, neither `w` nor the AI burn wallet. -/
def Outside (W : World) (w k : Str) : Prop := trimLower k ≠ w ∧ trimLower k ≠ W.aiBurnWallet

/-- The wallet a transaction of a block debits. -/
def senderOf (env : SignedTxEnvelopeV1) : Option Str :=
  match env.tx with
  | .transfer f _ _ _ => some (trimLower f)
  | .fileFee f _ _ _ => some (trimLower f)
  | _ => none

/-- The wallets a transaction of a block pays, with their amounts. -/
def paidBy (W : World) (env : SignedTxEnvelopeV1) : List (Str × Nat) :=
  match env.tx with
  | .transfer _ t amountMicro feeBps =>
    match chargeLedger (.transfer feeBps) amountMicro with
    | .ok split => [(trimLower t, split.netMicro), (walletWorkerPool, split.poolMicro)]
    | .error _ => []
  | .fileFee _ s _ feeMicro =>
    let treasury := valueOr W.treasuryAddressFromEnv []
    let storage := if (trimLower s).isEmpty then treasury else trimLower s
    [(treasury, (fileFeeSplit feeMicro).treasuryMicro), (storage, (fileFeeSplit feeMicro).netMicro)]
  | _ => []

/-- The operation took from the wallet `w` and an outside wallet has more: over a transaction of the
wallet in a block, or over a direct transfer of it. -/
def SendsOut (W : World) (w : Str) (t : Nat) (op : Op) (L L' : Ledger) : Prop :=
  match op with
  | .applyConsensusBlockBatch height txs hashes _ _ =>
    ∃ b b' env h, StepAt W L t height (txs.zip hashes) b env h ∧
      applyTx .saturating W L t height b env h = .ok b' ∧ senderOf env = some w ∧
      ∃ k, Outside W w k ∧ amountAt b.balances k < amountAt b'.balances k
  | .transferNoFee f _ _ | .settleTransferInternal f _ _ _ _ _ =>
    trimLower f = w ∧ ∃ k, Outside W w k ∧ L.balanceMicro k < L'.balanceMicro k
  | _ => False

/-- The operation is a block with an unsettled transaction of the wallet `w` that pays an outside
wallet, or a fee-bearing direct transfer of `w` while the worker pool is outside. The paid balance
is not full. -/
def PaysOut (W : World) (w : Str) (t : Nat) (op : Op) (L : Ledger) : Prop :=
  match op with
  | .applyConsensusBlockBatch height txs hashes _ _ =>
    ∃ b env h, StepAt W L t height (txs.zip hashes) b env h ∧ L.isTxApplied h = false ∧
      senderOf env = some w ∧ ∃ c ∈ paidBy W env, Outside W w c.1 ∧ 0 < c.2 ∧
        amountAt b.balances c.1 < u64Max
  | .settleTransferInternal f toWallet amountMicro feeBps _ _ =>
    trimLower f = w ∧ f ≠ toWallet ∧ amountMicro ≠ 0 ∧ Outside W w walletWorkerPool ∧
      L.balanceMicro walletWorkerPool < u64Max ∧
      ∃ split, chargeLedger (.transfer (feeBps.getD transferFeeBpsDefault)) amountMicro = .ok split ∧
        0 < split.poolMicro
  | _ => False

/-! ## Credits -/

section Credits

variable {m : Tree Str Nat} {k : Str}

theorem lt_satAdd_iff {a n : Nat} : a < satAdd a n ↔ a < u64Max ∧ 0 < n := by
  unfold satAdd
  omega

theorem creditAll_le_max : ∀ {cs : List (Str × Nat)} {m : Tree Str Nat}, amountAt m k ≤ u64Max →
    amountAt (creditAll m cs) k ≤ u64Max := by
  intro cs
  induction cs with
  | nil => exact fun h => h
  | cons c cs ih =>
    intro m h
    refine ih ?_
    rw [amountAt_insert]
    split
    · exact satAdd_le _ _
    · exact h

theorem le_creditAll : ∀ {cs : List (Str × Nat)} {m : Tree Str Nat}, amountAt m k ≤ u64Max →
    amountAt m k ≤ amountAt (creditAll m cs) k := by
  intro cs
  induction cs with
  | nil => exact fun _ => Nat.le_refl _
  | cons c cs ih =>
    intro m h
    have hone : amountAt m k ≤ amountAt (m.insert c.1 (satAdd (amountAt m c.1) c.2)) k := by
      rw [amountAt_insert]
      split
      · rename_i hk
        subst hk
        unfold satAdd
        omega
      · exact Nat.le_refl _
    refine hone.trans (ih ?_)
    rw [amountAt_insert]
    split
    · exact satAdd_le _ _
    · exact h

/-- **Credits raise a balance** exactly when one of them pays it and it is not full. -/
theorem lt_creditAll_iff : ∀ {cs : List (Str × Nat)} {m : Tree Str Nat},
    amountAt m k < amountAt (creditAll m cs) k ↔
      amountAt m k < u64Max ∧ ∃ c ∈ cs, c.1 = k ∧ 0 < c.2 := by
  intro cs
  induction cs with
  | nil =>
    intro m
    exact ⟨fun h => absurd h (Nat.lt_irrefl _), fun ⟨_, _, hc, _⟩ => absurd hc List.not_mem_nil⟩
  | cons c cs ih =>
    intro m
    show _ < amountAt (creditAll (m.insert c.1 (satAdd (amountAt m c.1) c.2)) cs) k ↔ _
    by_cases hk : c.1 = k
    · subst hk
      have hhead : amountAt (m.insert c.1 (satAdd (amountAt m c.1) c.2)) c.1 =
          satAdd (amountAt m c.1) c.2 := by
        rw [amountAt_insert, if_pos rfl]
      have hmax := satAdd_le (amountAt m c.1) c.2
      by_cases hfull : amountAt m c.1 < u64Max
      · by_cases hpos : 0 < c.2
        · -- the first credit raises it, the rest keep it there
          have hle : _ ≤ amountAt (creditAll _ cs) c.1 := le_creditAll (hhead ▸ hmax)
          have hlt := lt_satAdd_iff.mpr ⟨hfull, hpos⟩
          rw [hhead] at hle
          exact ⟨fun _ => ⟨hfull, c, List.mem_cons_self, rfl, hpos⟩, fun _ => hlt.trans_le hle⟩
        · have hsame : satAdd (amountAt m c.1) c.2 = amountAt m c.1 := by
            unfold satAdd
            omega
          have hrest := ih (m := m.insert c.1 (satAdd (amountAt m c.1) c.2))
          rw [hhead, hsame] at hrest
          rw [hsame, hrest]
          refine and_congr_right fun _ => ⟨?_, ?_⟩
          · rintro ⟨d, hd, hdk, hdpos⟩
            exact ⟨d, List.mem_cons_of_mem _ hd, hdk, hdpos⟩
          · rintro ⟨d, hd, hdk, hdpos⟩
            rcases List.mem_cons.mp hd with rfl | hd
            · exact absurd hdpos hpos
            · exact ⟨d, hd, hdk, hdpos⟩
      · have hle : amountAt (creditAll _ cs) c.1 ≤ u64Max := creditAll_le_max (hhead ▸ hmax)
        exact ⟨fun h => absurd h (by omega), fun h => absurd h.1 hfull⟩
    · have hhead : amountAt (m.insert c.1 (satAdd (amountAt m c.1) c.2)) k = amountAt m k := by
        rw [amountAt_insert, if_neg hk]
      have hrest := ih (m := m.insert c.1 (satAdd (amountAt m c.1) c.2))
      rw [hhead] at hrest
      rw [hrest]
      refine and_congr_right fun _ => ⟨?_, ?_⟩
      · rintro ⟨d, hd, hdk, hdpos⟩
        exact ⟨d, List.mem_cons_of_mem _ hd, hdk, hdpos⟩
      · rintro ⟨d, hd, hdk, hdpos⟩
        rcases List.mem_cons.mp hd with rfl | hd
        · exact absurd hdk hk
        · exact ⟨d, hd, hdk, hdpos⟩

end Credits

/-! ## One transaction of a block -/

section Transactions

variable {W : World} {L : Ledger} {nowMs height : Nat} {b b' : Batch} {w : Str}

theorem senderOf_trimLower {env : SignedTxEnvelopeV1} (hw : senderOf env = some w) :
    trimLower w = w := by
  unfold senderOf at hw
  split at hw <;> first | (cases hw; exact trimLower_trimLower _) | cases hw

/-- The balances after an unsettled transaction of `w`: its debit, then what it pays. -/
theorem applyTx_pays {env : SignedTxEnvelopeV1} {h : Str} (hfresh : L.isTxApplied h = false)
    (hw : senderOf env = some w) (ha : applyTx .saturating W L nowMs height b env h = .ok b') :
    ∃ rest cs, b'.balances = creditAll (b.balances.insert w rest) cs ∧
      ∀ k, (∃ c ∈ cs, c.1 = k ∧ 0 < c.2) ↔ ∃ c ∈ paidBy W env, c.1 = k ∧ 0 < c.2 := by
  simp only [applyTx, bind_eq_ok, require_eq_ok] at ha
  obtain ⟨_, -, ha⟩ := ha
  unfold senderOf at hw
  cases he : env.tx with
  | transfer f t amount bps =>
    simp only [he, Option.some.injEq] at ha hw
    subst hw
    obtain ⟨hp, -⟩ := previewTransfer_of_apply hfresh ha
    simp only [previewTransfer, lockedBalanceMicro_saturating, Arith.saturating_sub,
      credit_saturating, bind_eq_ok, ok_bind, require_eq_ok] at hp
    obtain ⟨_, -, _, -, split, hsplit, _, -, hm⟩ := hp
    have hpaid : paidBy W env =
        [(trimLower t, split.netMicro), (walletWorkerPool, split.poolMicro)] := by
      simp only [paidBy, he, hsplit]
    rw [hpaid]
    by_cases hpool : 0 < split.poolMicro
    · rw [if_pos hpool, Except.ok.injEq] at hm
      exact ⟨_, [(trimLower t, split.netMicro), (walletWorkerPool, split.poolMicro)], hm.symm,
        fun k => Iff.rfl⟩
    · rw [if_neg hpool, Except.ok.injEq] at hm
      refine ⟨_, [(trimLower t, split.netMicro)], hm.symm, fun k => ?_⟩
      simp [hpool]
  | fileFee f s fid fee =>
    simp only [he, Option.some.injEq] at ha hw
    subst hw
    obtain ⟨r, hr, hview⟩ := previewFileFee_of_apply hfresh ha
    simp only [applyFileFeeToBalanceMap, lockedBalanceMicro_saturating, Arith.saturating_sub,
      credit_saturating, bind_eq_ok, ok_bind, require_eq_ok, Except.ok.injEq] at hr
    obtain ⟨_, rfl, _, -, treasury, ht, _, -, rfl⟩ := hr
    have hbal : b'.balances = _ := congrArg Prod.fst hview
    refine ⟨amountAt b.balances (trimLower f) - fileFeeMicro, paidBy W env, ?_, fun k => Iff.rfl⟩
    simp only [paidBy, he, ht, valueOr]
    exact hbal
  | _ => simp [he] at hw

/-- **One transaction** of a wallet raises an outside balance exactly when it is not settled and pays
it. -/
theorem applyTx_raises_iff {env : SignedTxEnvelopeV1} {h k : Str} (hw : senderOf env = some w)
    (hk : k ≠ w) (ha : applyTx .saturating W L nowMs height b env h = .ok b') :
    amountAt b.balances k < amountAt b'.balances k ↔
      L.isTxApplied h = false ∧ amountAt b.balances k < u64Max ∧
        ∃ c ∈ paidBy W env, c.1 = k ∧ 0 < c.2 := by
  cases hset : L.isTxApplied h with
  | true =>
    have hsame : b'.balances = b.balances := congrArg Prod.fst (applyTx_settled hset ha)
    rw [hsame]
    exact ⟨fun h => absurd h (Nat.lt_irrefl _), fun h => absurd h.1 Bool.noConfusion⟩
  | false =>
    obtain ⟨rest, cs, hbal, hpays⟩ := applyTx_pays hset hw ha
    have hdebit : amountAt (b.balances.insert w rest) k = amountAt b.balances k := by
      rw [amountAt_insert, if_neg (Ne.symm hk)]
    have hiff : amountAt (b.balances.insert w rest) k <
        amountAt (creditAll (b.balances.insert w rest) cs) k ↔ _ := lt_creditAll_iff
    rw [hdebit, ← hbal, hpays] at hiff
    rw [hiff]
    exact ⟨fun h => ⟨rfl, h⟩, fun h => h.2⟩

end Transactions

/-! ## The direct transfers -/

section Direct

variable {W : World} {L L' : Ledger} {nowMs : Nat} {w : Str}

theorem checkPresaleLock_ok {s t : Str} {u : Unit}
    (h : L.checkPresaleLock W nowMs s t = .ok u) (hlock : nowMs < L.presaleLockedUntilMs s) :
    trimLower t = W.aiBurnWallet := by
  rw [checkPresaleLock, require_eq_ok] at h
  unfold presaleLockedUntilMs at hlock
  exact h.resolve_left fun hno => hno ⟨by omega, hlock⟩

theorem balanceMicro_lockPresale (W : World) (nowMs : Nat) (L : Ledger) (s t k : Str) :
    (L.lockPresale W nowMs s t).balanceMicro k = L.balanceMicro k := by
  unfold lockPresale
  split <;> rfl

theorem balanceMicro_putNonce (L : Ledger) (w : Str) (n : Option Nat) (k : Str) :
    (L.putNonce w n).balanceMicro k = L.balanceMicro k := by
  cases n <;> rfl

/-- A direct transfer without a fee pays nobody outside. -/
theorem transferNoFee_keeps {s t k : Str} {amount r : Nat}
    (h : transferNoFee W nowMs s t amount L = .ok (r, L'))
    (hlock : nowMs < L.presaleLockedUntilMs s) (hk : Outside W (trimLower s) k) :
    L'.balanceMicro k = L.balanceMicro k := by
  unfold transferNoFee at h
  split at h
  · cases h
    rfl
  · simp only [bind_eq_ok, require_eq_ok, Except.ok.injEq, Prod.mk.injEq] at h
    obtain ⟨_, -, _, -, locked, -, _, hcheck, _, -, -, rfl⟩ := h
    have hburn := checkPresaleLock_ok hcheck hlock
    rw [balanceMicro_lockPresale, balanceMicro_putBalance_ne _ _ (fun ht : t = k => hk.2 (ht ▸ hburn)),
      balanceMicro_putBalance_ne _ _ (fun hs : s = k => hk.1 (hs ▸ rfl))]

/-- A fee-bearing one pays the worker pool its share, and nobody else outside. -/
theorem settleTransfer_raises_iff {s t k : Str} {amount : Nat} {bps n : Option Nat}
    {attested : Bool} {r : Nat × Nat}
    (h : settleTransferInternal W nowMs s t amount bps attested n L = .ok (r, L'))
    (hlock : nowMs < L.presaleLockedUntilMs s) (hk : Outside W (trimLower s) k) :
    L.balanceMicro k < L'.balanceMicro k ↔
      k = walletWorkerPool ∧ s ≠ t ∧ amount ≠ 0 ∧ L.balanceMicro walletWorkerPool < u64Max ∧
        ∃ split, chargeLedger (.transfer (bps.getD transferFeeBpsDefault)) amount = .ok split ∧
          0 < split.poolMicro := by
  unfold settleTransferInternal at h
  split at h
  · rename_i hnone
    cases h
    refine ⟨fun h => absurd h (Nat.lt_irrefl _), fun h => ?_⟩
    rcases hnone with heq | hzero
    · exact absurd heq h.2.1
    · exact absurd hzero h.2.2.1
  · rename_i hsome
    rw [not_or] at hsome
    simp only [bind_eq_ok, require_eq_ok, Except.ok.injEq, Prod.mk.injEq] at h
    obtain ⟨_, -, _, -, split, hsplit, locked, -, _, hcheck, _, -, _, -, -, rfl⟩ := h
    have hburn := checkPresaleLock_ok hcheck hlock
    have hs : s ≠ k := fun hs => hk.1 (hs ▸ rfl)
    have ht : t ≠ k := fun ht => hk.2 (ht ▸ hburn)
    -- what the transfer itself leaves of the balance
    have hmoved : ∀ x y, (((L.putBalance s x).putBalance t y).lockPresale W nowMs s t).balanceMicro k =
        L.balanceMicro k := fun x y => by
      rw [balanceMicro_lockPresale, balanceMicro_putBalance_ne _ _ ht,
        balanceMicro_putBalance_ne _ _ hs]
    have hfee := feeMicro_eq (chargeLedger_eq_ok.mp hsplit)
    rw [balanceMicro_putNonce]
    by_cases hpos : 0 < split.feeMicro
    · rw [if_pos hpos]
      have hburned : ∀ (M : Ledger) (c : Prop) [Decidable c] (x : Nat),
          ((if c then M.burnSupply x else M).addCounter .feeTotal split.feeMicro).balanceMicro k =
            M.balanceMicro k := fun M c _ x => by
        split <;> rfl
      rw [hburned]
      unfold addBalance putBalance balanceMicro
      by_cases hpool : walletWorkerPool = k
      · subst hpool
        have hcur := hmoved (amountAt L.balances s - amount)
          (satAdd (amountAt L.balances t) split.netMicro)
        unfold putBalance balanceMicro at hcur
        rw [amountAt_insert, if_pos rfl, hcur, lt_satAdd_iff]
        constructor
        · intro h
          exact ⟨rfl, hsome.1, hsome.2, h.1, split, hsplit, h.2⟩
        · rintro ⟨-, -, -, hfull, sp, hsp, hp⟩
          rw [hsplit] at hsp
          cases hsp
          exact ⟨hfull, hp⟩
      · have hcur := hmoved (amountAt L.balances s - amount)
          (satAdd (amountAt L.balances t) split.netMicro)
        unfold putBalance balanceMicro at hcur
        rw [amountAt_insert, if_neg hpool, hcur]
        exact ⟨fun h => absurd h (Nat.lt_irrefl _), fun h => absurd h.1.symm hpool⟩
    · rw [if_neg hpos, hmoved]
      constructor
      · exact fun h => absurd h (Nat.lt_irrefl _)
      rintro ⟨_, _, _, _, sp, hsp, hp⟩
      rw [hsplit] at hsp
      cases hsp
      omega

end Direct

/-! ## Operations -/

section Operations

variable {W : World} {L L' : Ledger} {nowMs : Nat} {w : Str}

/-- **One operation** before the lock of `w` ends moves value of `w` outside exactly when it pays
outside. -/
theorem exec_sendsOut_iff {op : Op} (h : op.exec W nowMs L = .ok L')
    (hlock : nowMs < L.presaleLockedUntilMs w) :
    SendsOut W w nowMs op L L' ↔ PaysOut W w nowMs op L := by
  have hkey : ∀ s, trimLower s = w → L.presaleLockedUntilMs s = L.presaleLockedUntilMs w := by
    rintro s rfl
    simp only [presaleLockedUntilMs, walletPresaleLockUntilMetaKey, trimLower_trimLower]
  have hself : ∀ {env k}, senderOf env = some w → Outside W w k → k ≠ w := by
    rintro env k hw hk rfl
    exact hk.1 (senderOf_trimLower hw)
  cases op <;> rw [Op.exec, map_snd_eq_ok] at h <;> obtain ⟨r, h⟩ := h
  case applyConsensusBlockBatch height txs hashes producer reward =>
    constructor
    · rintro ⟨b, b', env, x, hs, hb, hw, k, hk, hlt⟩
      obtain ⟨hfresh, hfull, c, hc, rfl, hpos⟩ := (applyTx_raises_iff hw (hself hw hk) hb).mp hlt
      exact ⟨b, env, x, hs, hfresh, hw, c, hc, hk, hpos, hfull⟩
    · rintro ⟨b, env, x, hs, hfresh, hw, c, hc, hk, hpos, hfull⟩
      obtain ⟨b', hb⟩ := hs.applies h
      exact ⟨b, b', env, x, hs, hb, hw, c.1, hk, (applyTx_raises_iff hw (hself hw hk) hb).mpr
        ⟨hfresh, hfull, c, hc, rfl, hpos⟩⟩
  case transferNoFee s t amount =>
    refine ⟨?_, fun h => h.elim⟩
    rintro ⟨hs, k, hk, hlt⟩
    rw [← hkey s hs] at hlock
    subst hs
    rw [transferNoFee_keeps h hlock hk] at hlt
    exact absurd hlt (Nat.lt_irrefl _)
  case settleTransferInternal s t amount bps attested n =>
    constructor
    · rintro ⟨hs, k, hk, hlt⟩
      rw [← hkey s hs] at hlock
      subst hs
      obtain ⟨rfl, hne, hamount, hfull, split, hsplit, hpos⟩ :=
        (settleTransfer_raises_iff h hlock hk).mp hlt
      exact ⟨rfl, hne, hamount, hk, hfull, split, hsplit, hpos⟩
    · rintro ⟨hs, hne, hamount, hk, hfull, split, hsplit, hpos⟩
      rw [← hkey s hs] at hlock
      subst hs
      exact ⟨rfl, walletWorkerPool, hk, (settleTransfer_raises_iff h hlock hk).mpr
        ⟨rfl, hne, hamount, hfull, split, hsplit, hpos⟩⟩
  all_goals exact Iff.rfl

/-! ## The end of the lock -/

theorem presaleLockedUntilMs_putRow (L : Ledger) {k : MetaKey} (v : MetaVal) (w : Str)
    (hk : k ≠ walletPresaleLockUntilMetaKey w) :
    (L.putRow k v).presaleLockedUntilMs w = L.presaleLockedUntilMs w := by
  unfold presaleLockedUntilMs
  rw [metaU64_putRow, if_neg hk]

/-- An allocation sets the end of its recipient's lock; any other transfer leaves the locks. -/
theorem presaleLockedUntilMs_lockPresale (W : World) (nowMs : Nat) (L : Ledger) (s t w : Str) :
    (L.lockPresale W nowMs s t).presaleLockedUntilMs w =
      if (0 < W.presaleLockMs ∧ trimLower s = walletDexTreasury) ∧ trimLower t = trimLower w then
        satAdd nowMs W.presaleLockMs
      else L.presaleLockedUntilMs w := by
  unfold lockPresale
  by_cases hlock : 0 < W.presaleLockMs ∧ trimLower s = walletDexTreasury
  · rw [if_pos hlock]
    by_cases ht : trimLower t = trimLower w
    · rw [if_pos ⟨hlock, ht⟩]
      unfold presaleLockedUntilMs walletPresaleLockUntilMetaKey
      rw [metaU64_putRow, if_pos (by rw [ht])]
      rfl
    · rw [if_neg fun h => ht h.2, presaleLockedUntilMs_putRow]
      unfold walletPresaleLockUntilMetaKey
      exact fun h => ht (MetaKey.walletPresaleLockUntil.inj h)
  · rw [if_neg hlock, if_neg fun h => hlock h.1]

theorem presaleLockedUntilMs_putNonce (L : Ledger) (a w : Str) (n : Option Nat) :
    (L.putNonce a n).presaleLockedUntilMs w = L.presaleLockedUntilMs w := by
  cases n with
  | none => rfl
  | some n => exact presaleLockedUntilMs_putRow L _ w MetaKey.noConfusion

/-- The lock of `w` after a direct transfer that moves something. -/
theorem transferNoFee_presaleLocked {s t : Str} {amount r : Nat} (hne : ¬(s = t ∨ amount = 0))
    (h : transferNoFee W nowMs s t amount L = .ok (r, L')) :
    L'.presaleLockedUntilMs w =
      if (0 < W.presaleLockMs ∧ trimLower s = walletDexTreasury) ∧ trimLower t = trimLower w then
        satAdd nowMs W.presaleLockMs
      else L.presaleLockedUntilMs w := by
  unfold transferNoFee at h
  rw [if_neg hne] at h
  simp only [bind_eq_ok, require_eq_ok, Except.ok.injEq, Prod.mk.injEq] at h
  obtain ⟨_, -, _, -, locked, -, _, -, _, -, -, rfl⟩ := h
  exact presaleLockedUntilMs_lockPresale W nowMs _ s t w

theorem settleTransfer_presaleLocked {s t : Str} {amount : Nat} {bps n : Option Nat}
    {attested : Bool} {r : Nat × Nat} (hne : ¬(s = t ∨ amount = 0))
    (h : settleTransferInternal W nowMs s t amount bps attested n L = .ok (r, L')) :
    L'.presaleLockedUntilMs w =
      if (0 < W.presaleLockMs ∧ trimLower s = walletDexTreasury) ∧ trimLower t = trimLower w then
        satAdd nowMs W.presaleLockMs
      else L.presaleLockedUntilMs w := by
  unfold settleTransferInternal at h
  rw [if_neg hne] at h
  simp only [bind_eq_ok, require_eq_ok, Except.ok.injEq, Prod.mk.injEq] at h
  obtain ⟨_, -, _, -, split, -, locked, -, _, -, _, -, _, -, -, rfl⟩ := h
  have hmoved := fun x y => presaleLockedUntilMs_lockPresale W nowMs
    ((L.putBalance s x).putBalance t y) s t w
  have hburned : ∀ (M : Ledger) (c : Prop) [Decidable c] (x y : Nat),
      ((if c then M.burnSupply x else M).addCounter .feeTotal y).presaleLockedUntilMs w =
        M.presaleLockedUntilMs w := by
    intro M c _ x y
    refine (presaleLockedUntilMs_putRow _ _ w MetaKey.noConfusion).trans ?_
    split
    · exact (presaleLockedUntilMs_putRow _ _ w MetaKey.noConfusion).trans
        (presaleLockedUntilMs_putRow _ _ w MetaKey.noConfusion)
    · rfl
  rw [presaleLockedUntilMs_putNonce]
  split
  · exact (hburned _ _ _ _).trans (hmoved _ _)
  · exact hmoved _ _

/-- **The end of a lock only moves on**, as long as the clock does not go back behind the allocation
that set it. -/
theorem exec_presaleLocked {op : Op} {T : Nat} (h : op.exec W nowMs L = .ok L')
    (hT : T ≤ satAdd nowMs W.presaleLockMs) (hL : T ≤ L.presaleLockedUntilMs w) :
    T ≤ L'.presaleLockedUntilMs w := by
  by_cases hmem : walletPresaleLockUntilMetaKey w ∈ op.rowKeys W
  · cases op
    case applyConsensusBlockBatch => exact absurd hmem (block_noWalletRow W _ _ _ _ _).2.2
    case transferNoFee s t amount =>
      rw [Op.exec, map_snd_eq_ok] at h
      obtain ⟨r, h⟩ := h
      by_cases hne : s = t ∨ amount = 0
      · rw [transferNoFee, if_pos hne] at h
        cases h
        exact hL
      · rw [transferNoFee_presaleLocked hne h]
        split
        · exact hT
        · exact hL
    case settleTransferInternal s t amount bps attested n =>
      rw [Op.exec, map_snd_eq_ok] at h
      obtain ⟨r, h⟩ := h
      by_cases hne : s = t ∨ amount = 0
      · rw [settleTransferInternal, if_pos hne] at h
        cases h
        exact hL
      · rw [settleTransfer_presaleLocked hne h]
        split
        · exact hT
        · exact hL
    all_goals
      simp [Op.rowKeys, walletPresaleLockUntilMetaKey, genesisGuardianGrantMetaKey,
        walletStakeMetaKey, walletNonceMetaKey, walletInferBurnMetaKey] at hmem
  · unfold presaleLockedUntilMs
    rw [exec_counter h rfl hmem]
    exact hL

/-- A treasury allocation to the wallet `w`, by either of the direct transfers. -/
def Allocates (W : World) (w : Str) : Op → Prop
  | .transferNoFee f t amountMicro | .settleTransferInternal f t amountMicro _ _ _ =>
    0 < W.presaleLockMs ∧ trimLower f = walletDexTreasury ∧ trimLower t = trimLower w ∧ f ≠ t ∧
      amountMicro ≠ 0
  | _ => False

/-- An allocation locks its recipient. -/
theorem exec_allocates {op : Op} (h : op.exec W nowMs L = .ok L') (ha : Allocates W w op) :
    L'.presaleLockedUntilMs w = satAdd nowMs W.presaleLockMs := by
  cases op
  case transferNoFee s t amount =>
    rw [Op.exec, map_snd_eq_ok] at h
    obtain ⟨r, h⟩ := h
    obtain ⟨hlock, hs, ht, hne, hamount⟩ := ha
    rw [transferNoFee_presaleLocked (not_or.mpr ⟨hne, hamount⟩) h, if_pos ⟨⟨hlock, hs⟩, ht⟩]
  case settleTransferInternal s t amount bps attested n =>
    rw [Op.exec, map_snd_eq_ok] at h
    obtain ⟨r, h⟩ := h
    obtain ⟨hlock, hs, ht, hne, hamount⟩ := ha
    rw [settleTransfer_presaleLocked (not_or.mpr ⟨hne, hamount⟩) h, if_pos ⟨⟨hlock, hs⟩, ht⟩]
  all_goals exact ha.elim

end Operations

/-! ## Runs -/

section Runs

variable {W : World} {w : Str}

/-- Before `T` no operation of the run moves value of `w` outside. -/
def LockHolds (W : World) (w : Str) (T : Nat) : List (Nat × Op) → Ledger → Prop :=
  EachCall W fun t op L L' => t < T → ¬ SendsOut W w t op L L'

/-- Before `T` no operation of the run pays outside. -/
def NothingPaidOut (W : World) (w : Str) (T : Nat) : List (Nat × Op) → Ledger → Prop :=
  EachCall W fun t op L _ => t < T → ¬ PaysOut W w t op L

theorem lockHolds_iff {T : Nat} : ∀ {ops : List (Nat × Op)} {L : Ledger},
    T ≤ L.presaleLockedUntilMs w → (∀ p ∈ ops, T ≤ satAdd p.1 W.presaleLockMs) →
    (LockHolds W w T ops L ↔ NothingPaidOut W w T ops L) := by
  intro ops
  induction ops with
  | nil => exact fun _ _ => Iff.rfl
  | cons p ops ih =>
    intro L hL htimes
    refine and_congr (forall_congr' fun L' => ?_) (ih ?_ fun q hq =>
      htimes q (List.mem_cons_of_mem _ hq))
    · exact forall_congr' fun h => forall_congr' fun ht =>
        not_congr (exec_sendsOut_iff h (lt_of_lt_of_le ht hL))
    · unfold Op.run
      cases h : p.2.exec W p.1 L with
      | error e => exact hL
      | ok L' => exact exec_presaleLocked h (htimes p List.mem_cons_self) hL

/-- **The pre-sale lock**. After a treasury allocation at the time `t₀` the wallet is locked until
`t₀` plus the configured duration. Over the run that follows, no operation before then moves value
of the wallet to anyone but the AI burn wallet exactly when none pays anyone else. -/
theorem presale_lock_holds_iff {t₀ : Nat} {alloc : Op} {L₀ L : Ledger} {ops : List (Nat × Op)}
    (ha : Allocates W w alloc) (hrun : alloc.exec W t₀ L₀ = .ok L) (hops : ∀ p ∈ ops, t₀ ≤ p.1) :
    L.presaleLockedUntilMs w = satAdd t₀ W.presaleLockMs ∧
      (LockHolds W w (satAdd t₀ W.presaleLockMs) ops L ↔
        NothingPaidOut W w (satAdd t₀ W.presaleLockMs) ops L) := by
  have hlock := exec_allocates hrun ha
  refine ⟨hlock, lockHolds_iff (le_of_eq hlock.symm) fun p hp => ?_⟩
  have := hops p hp
  unfold satAdd
  omega

end Runs

end Ledger

/-- The sample world with a pre-sale lock of 1000 ms. -/
def Sample.presaleWorld : World := { World.sample 0 with presaleLockMs := 1000 }

/-- The sample ledger with 100 TET on `dex:treasury`. -/
def Sample.dexLedger : Ledger :=
  Sample.ledger.putBalance walletDexTreasury (100 * stevemon)

namespace Ledger

/-- `bob` gets an allocation at time 5. He then pays the burn wallet without a fee. -/
theorem presale_lock_burns :
    let W := Sample.presaleWorld
    let alloc := Op.transferNoFee walletDexTreasury Sample.bob (20 * stevemon)
    let ops := [(6, Op.transferNoFee Sample.bob walletAiBurnDefault stevemon)]
    ∃ L, alloc.exec W 5 Sample.dexLedger = .ok L ∧ LockHolds W Sample.bob 1005 ops L := by
  intro W alloc ops
  obtain ⟨L, hrun⟩ : ∃ L, alloc.exec W 5 Sample.dexLedger = .ok L := exists_ok (by decide +kernel)
  have halloc : Allocates W Sample.bob alloc := by
    show 0 < W.presaleLockMs ∧ trimLower walletDexTreasury = walletDexTreasury ∧
      trimLower Sample.bob = trimLower Sample.bob ∧ walletDexTreasury ≠ Sample.bob ∧
      20 * stevemon ≠ 0
    decide +kernel
  have hafter : ∀ p ∈ ops, 5 ≤ p.1 := by
    decide
  obtain ⟨-, hiff⟩ := presale_lock_holds_iff halloc hrun hafter
  exact ⟨L, hrun, hiff.mpr ⟨fun _ _ _ h => h, trivial⟩⟩

/-- `bob` gets an allocation at time 5 and sends `carol` 10 TET of it in a block at time 6: the block
is applied. -/
theorem presale_lock_block :
    let W := Sample.presaleWorld
    let alloc := Op.transferNoFee walletDexTreasury Sample.bob (20 * stevemon)
    let block := Op.applyConsensusBlockBatch 1
      [Sample.signed (.transfer Sample.bob Sample.carol (10 * stevemon) 100)] [['1']] Sample.node 0
    ∃ L L', alloc.exec W 5 Sample.dexLedger = .ok L ∧ L.presaleLockedUntilMs Sample.bob = 1005 ∧
      block.exec W 6 L = .ok L' ∧ SendsOut W Sample.bob 6 block L L' := by
  intro W alloc block
  obtain ⟨L, hrun⟩ : ∃ L, alloc.exec W 5 Sample.dexLedger = .ok L := exists_ok (by decide +kernel)
  have hall : (alloc.exec W 5 Sample.dexLedger).toOption.map (fun L =>
      decide (L.presaleLockedUntilMs Sample.bob = 1005 ∧ (block.exec W 6 L).isOk = true ∧
        L.isTxApplied ['1'] = false ∧ amountAt L.balances Sample.carol < u64Max)) = some true := by
    decide +kernel
  rw [hrun] at hall
  obtain ⟨hlock, hblock, hfresh, hroom⟩ := of_decide_eq_true (Option.some.inj hall)
  obtain ⟨L', hblock⟩ := exists_ok hblock
  refine ⟨L, L', hrun, hlock, hblock, (exec_sendsOut_iff hblock (by omega)).mpr ?_⟩
  refine ⟨startBatch L, _, ['1'], ⟨[], [], rfl, rfl⟩, hfresh, ?_, (Sample.carol, 9900000), ?_, ?_,
    ?_, hroom⟩
  · decide +kernel
  · decide +kernel
  · exact ⟨by decide +kernel, by decide +kernel⟩
  · decide

end Ledger

end TetCore
