import TetCore.Ledger.Spending
import TetCore.Ledger.VestLocks

/-!
# Locked funds and the operations outside blocks

A stake, a worker bond and the two direct transfers take from a wallet only what is not locked. A
ZK-court challenger's bond is taken from the whole balance, locked or not: a challenge can spend
vested rewards and the founder's genesis share before they unlock
(`challenger_bond_spends_locked`).

* `exec_takes`: a direct operation takes from one wallet, and what it takes is not locked unless it
  is a challenger's bond.
* `direct_debits_keep_locks_iff`: over a run, every debit leaves what is locked exactly when the
  challengers' bonds do; a wallet that holds what is locked for it then still does afterwards.
-/

namespace TetCore

open TetCore.Lib

namespace Ledger

/-- The operations a wallet's owner asks for: stakes, bonds, challenges and transfers. -/
def Op.isDirect : Op → Bool
  | .stake _ _ _ | .stakeWorkerBond _ _ _ | .unstakeWorkerBond _ _ _
  | .zkcourtLockChallengerBond _ _ | .zkcourtSettleChallengerBond _ _ _
  | .transferNoFee _ _ _ | .settleTransferInternal _ _ _ _ _ _ => true
  | _ => false

/-- `P` holds of every call of a run that succeeds: of its time, the operation and the ledgers before
and after it. -/
def EachCall (W : World) (P : Nat → Op → Ledger → Ledger → Prop) : List (Nat × Op) → Ledger → Prop
  | [], _ => True
  | (t, op) :: ops, L =>
    (∀ L', op.exec W t L = .ok L' → P t op L L') ∧ EachCall W P ops (op.run W t L)

/-- A wallet that was debited holds what is locked for it. -/
def KeepsLocked (t : Nat) (L L' : Ledger) : Prop :=
  ∀ w, L'.balanceMicro w < L.balanceMicro w → L'.lockedMicro w t ≤ L'.balanceMicro w

/-- A challenger's bond is free, or covered by what the challenger holds beyond what is locked. -/
def SparesLocked (W : World) (t : Nat) (L : Ledger) : Op → Prop
  | .zkcourtLockChallengerBond _ challenger => W.zkcourtChallengerBondMicro = 0 ∨
      L.lockedMicro (trimLower challenger) t + W.zkcourtChallengerBondMicro ≤
        L.balanceMicro (trimLower challenger)
  | _ => True

/-! ## What one operation takes -/

/-- At most `n` was taken from the wallet `k` and nothing from another; the locks are the same. -/
structure Takes (k : Str) (n : Nat) (L L' : Ledger) : Prop where
  bounded : Bounded L'.balances
  debit : ∀ w, L.balanceMicro w ≤ L'.balanceMicro w + if k = w then n else 0
  locks : ∀ w t, L'.lockedMicro w t = L.lockedMicro w t

section Takes

variable {W : World} {nowMs n : Nat} {k : Str} {L L' : Ledger}

theorem lockedMicro_putRow (L : Ledger) {a : MetaKey} (v : MetaVal)
    (ha : a ≠ .founderWallet ∧ a ≠ .founderGenesisUnlockAtMs ∧ a ≠ .founderGenesisLockedMicro)
    (w : Str) (t : Nat) : (L.putRow a v).lockedMicro w t = L.lockedMicro w t := by
  refine lockedMicro_congr (show (L.putRow a v).vestLocks = L.vestLocks from rfl) ?_ ?_ ?_ w t
  · unfold founderWallet putRow
    rw [Tree.get_insert_ne ha.1]
  · rw [metaU64_putRow, if_neg ha.2.1]
  · rw [metaU64_putRow, if_neg ha.2.2]

namespace Takes

theorem none (hm : Bounded L.balances) (k : Str) : Takes k 0 L L :=
  ⟨hm, fun _ => Nat.le_add_right _ _, fun _ _ => rfl⟩

theorem take (hm : Bounded L.balances) (k : Str) (n : Nat) :
    Takes k n L (L.putBalance k (L.balanceMicro k - n)) where
  bounded := hm.debit k n
  debit w := le_debit L.balances k w n
  locks _ _ := rfl

theorem credit (h : Takes k n L L') (a : Str) (m : Nat) : Takes k n L (L'.addBalance a m) where
  bounded := h.bounded.insert a (satAdd_le _ _)
  debit w := (h.debit w).trans
    (Nat.add_le_add_right (le_credit h.bounded (credit_saturating L'.balances a m)) _)
  locks := h.locks

/-- A credit over a balance read before the debit of another wallet. -/
theorem creditRead {a : Str} {b : Nat} (h : Takes k n L (L'.putBalance k b)) (ha : k ≠ a)
    (m : Nat) : Takes k n L ((L'.putBalance k b).putBalance a (satAdd (L'.balanceMicro a) m)) := by
  have hcredit := h.credit a m
  unfold addBalance at hcredit
  rwa [balanceMicro_putBalance_ne L' b ha] at hcredit

theorem row (h : Takes k n L L') {a : MetaKey} (v : MetaVal)
    (ha : a ≠ .founderWallet ∧ a ≠ .founderGenesisUnlockAtMs ∧ a ≠ .founderGenesisLockedMicro) :
    Takes k n L (L'.putRow a v) where
  bounded := h.bounded
  debit := h.debit
  locks w t := (lockedMicro_putRow L' v ha w t).trans (h.locks w t)

theorem nonce (h : Takes k n L L') (w : Str) (m : Option Nat) : Takes k n L (L'.putNonce w m) := by
  cases m with
  | none => exact h
  | some m => exact h.row _ ⟨by simp [walletNonceMetaKey], by simp [walletNonceMetaKey],
      by simp [walletNonceMetaKey]⟩

theorem lockPresale (h : Takes k n L L') (W : World) (nowMs : Nat) (s t : Str) :
    Takes k n L (L'.lockPresale W nowMs s t) := by
  unfold Ledger.lockPresale
  split
  · exact h.row _ ⟨by simp [walletPresaleLockUntilMetaKey],
      by simp [walletPresaleLockUntilMetaKey], by simp [walletPresaleLockUntilMetaKey]⟩
  · exact h

theorem burn (h : Takes k n L L') (m : Nat) : Takes k n L (L'.burnSupply m) :=
  (h.row _ (by simp)).row _ (by simp)

/-- What is taken leaves what is locked, when it is not locked itself. -/
theorem keepsLocked (h : Takes k n L L')
    (hfree : n = 0 ∨ L.lockedMicro k nowMs + n ≤ L.balanceMicro k) : KeepsLocked nowMs L L' := by
  intro w hlt
  have htaken := h.debit w
  rw [h.locks]
  by_cases hk : k = w
  · subst hk
    rw [if_pos rfl] at htaken
    omega
  · rw [if_neg hk] at htaken
    omega

end Takes

/-! ## The operations -/

/-- A stake takes what is not locked. -/
theorem takeForStake_takes {wallet w : Str} {amount : Nat} {signed : Option Nat}
    (hm : Bounded L.balances) (h : takeForStake nowMs wallet amount signed L = .ok (w, L')) :
    Takes w amount L L' ∧ L.lockedMicro w nowMs + amount ≤ L.balanceMicro w := by
  simp only [takeForStake, bind_eq_ok, require_eq_ok, lockedBalanceMicro_saturating,
    Except.ok.injEq, Prod.mk.injEq] at h
  obtain ⟨_, -, _, hpos, _, rfl, _, -, _, hfree, rfl, rfl⟩ := h
  exact ⟨(Takes.take hm _ amount).nonce _ signed, by omega⟩

theorem transferNoFee_takes {s t : Str} {amount r : Nat} (hm : Bounded L.balances)
    (h : transferNoFee W nowMs s t amount L = .ok (r, L')) :
    ∃ n, Takes s n L L' ∧ (n = 0 ∨ L.lockedMicro s nowMs + n ≤ L.balanceMicro s) := by
  unfold transferNoFee at h
  split at h
  · cases h
    exact ⟨0, Takes.none hm s, Or.inl rfl⟩
  · rename_i hne
    simp only [bind_eq_ok, require_eq_ok, lockedBalanceMicro_saturating, Except.ok.injEq,
      Prod.mk.injEq] at h
    obtain ⟨_, -, _, -, _, rfl, _, -, _, hfree, -, rfl⟩ := h
    refine ⟨amount, ?_, Or.inr (by omega)⟩
    exact ((Takes.take hm s amount).creditRead (fun hst => hne (Or.inl hst)) amount).lockPresale
      W nowMs s t

theorem settleTransfer_takes {s t : Str} {amount : Nat} {bps signed : Option Nat} {attested : Bool}
    {r : Nat × Nat} (hm : Bounded L.balances)
    (h : settleTransferInternal W nowMs s t amount bps attested signed L = .ok (r, L')) :
    ∃ n, Takes s n L L' ∧ (n = 0 ∨ L.lockedMicro s nowMs + n ≤ L.balanceMicro s) := by
  unfold settleTransferInternal at h
  split at h
  · cases h
    exact ⟨0, Takes.none hm s, Or.inl rfl⟩
  · rename_i hne
    simp only [bind_eq_ok, require_eq_ok, lockedBalanceMicro_saturating, Except.ok.injEq,
      Prod.mk.injEq] at h
    obtain ⟨_, -, _, -, split, -, _, rfl, _, -, _, -, _, hfree, -, rfl⟩ := h
    refine ⟨amount, Takes.nonce ?_ s signed, Or.inr (by omega)⟩
    have hmoved := ((Takes.take hm s amount).creditRead (fun hst => hne (Or.inl hst))
      split.netMicro).lockPresale W nowMs s t
    split
    · refine Takes.row ?_ _ (by simp)
      split
      · exact (hmoved.credit _ _).burn _
      · exact hmoved.credit _ _
    · exact hmoved

/-- The bond is taken from the whole balance. -/
theorem zkcourtLock_takes {inferenceId challenger : Str} {r : Nat} (hm : Bounded L.balances)
    (h : zkcourtLockChallengerBond W inferenceId challenger L = .ok (r, L')) :
    Takes (trimLower challenger) W.zkcourtChallengerBondMicro L L' ∧
      L'.balanceMicro (trimLower challenger) + W.zkcourtChallengerBondMicro =
        L.balanceMicro (trimLower challenger) := by
  simp only [zkcourtLockChallengerBond, bind_eq_ok, require_eq_ok, Except.ok.injEq,
    Prod.mk.injEq] at h
  obtain ⟨_, -, _, -, _, hle, -, rfl⟩ := h
  have htake := Takes.take hm (trimLower challenger) W.zkcourtChallengerBondMicro
  refine ⟨⟨htake.bounded, htake.debit, htake.locks⟩, ?_⟩
  show amountAt (L.balances.insert (trimLower challenger) _) (trimLower challenger) + _ = _
  rw [amountAt_insert, if_pos rfl]
  exact Nat.sub_add_cancel hle

/-- **A direct operation** takes from one wallet, and nothing locked unless it is a challenger's
bond. -/
theorem exec_takes {op : Op} (hop : op.isDirect = true) (hm : Bounded L.balances)
    (h : op.exec W nowMs L = .ok L') :
    ∃ k n, Takes k n L L' ∧
      (SparesLocked W nowMs L op → n = 0 ∨ L.lockedMicro k nowMs + n ≤ L.balanceMicro k) := by
  cases op <;> try exact absurd hop Bool.false_ne_true
  all_goals rw [Op.exec, map_snd_eq_ok] at h
  all_goals obtain ⟨r, h⟩ := h
  case stake =>
    simp only [stakeMicro, bind_eq_ok, Except.ok.injEq, Prod.mk.injEq] at h
    obtain ⟨⟨w, L₁⟩, htake, -, rfl⟩ := h
    obtain ⟨htakes, hfree⟩ := takeForStake_takes hm htake
    exact ⟨w, _, htakes.row _ (by simp [walletStakeMetaKey]), fun _ => Or.inr hfree⟩
  case stakeWorkerBond =>
    simp only [stakeWorkerBondMicro, bind_eq_ok, Except.ok.injEq, Prod.mk.injEq] at h
    obtain ⟨⟨w, L₁⟩, htake, -, rfl⟩ := h
    obtain ⟨htakes, hfree⟩ := takeForStake_takes hm htake
    exact ⟨w, _, ⟨htakes.bounded, htakes.debit, htakes.locks⟩, fun _ => Or.inr hfree⟩
  case unstakeWorkerBond wallet amount signed =>
    simp only [unstakeWorkerBondMicro, bind_eq_ok, require_eq_ok, Except.ok.injEq,
      Prod.mk.injEq] at h
    obtain ⟨_, -, _, -, _, -, _, -, -, rfl⟩ := h
    have hnone := (Takes.none hm (trimLower wallet)).credit (trimLower wallet) amount
    refine ⟨trimLower wallet, 0, Takes.nonce ?_ _ signed, fun _ => Or.inl rfl⟩
    exact ⟨hnone.bounded, hnone.debit, hnone.locks⟩
  case zkcourtLockChallengerBond =>
    obtain ⟨htakes, -⟩ := zkcourtLock_takes hm h
    exact ⟨_, _, htakes, fun hspare => hspare⟩
  case zkcourtSettleChallengerBond inf challenger valid =>
    simp only [zkcourtSettleChallengerBond] at h
    split at h
    · cases h
      exact ⟨challenger, 0, Takes.none hm _, fun _ => Or.inl rfl⟩
    · cases h
      have hnone := (Takes.none hm challenger).credit
        (if valid then trimLower challenger else walletEcosystem)
        (amountAt L.zkcourtBonds (zkcourtBondKey inf (trimLower challenger)))
      exact ⟨challenger, 0, ⟨hnone.bounded, hnone.debit, hnone.locks⟩, fun _ => Or.inl rfl⟩
  case transferNoFee =>
    obtain ⟨n, htakes, hfree⟩ := transferNoFee_takes hm h
    exact ⟨_, n, htakes, fun _ => hfree⟩
  case settleTransferInternal =>
    obtain ⟨n, htakes, hfree⟩ := settleTransfer_takes hm h
    exact ⟨_, n, htakes, fun _ => hfree⟩

/-- **One operation** leaves what is locked exactly when it spares it. -/
theorem exec_keepsLocked_iff {op : Op} (hop : op.isDirect = true) (hm : Bounded L.balances)
    (h : op.exec W nowMs L = .ok L') : KeepsLocked nowMs L L' ↔ SparesLocked W nowMs L op := by
  constructor
  · intro hkeep
    cases op
    case zkcourtLockChallengerBond inf challenger =>
      rw [Op.exec, map_snd_eq_ok] at h
      obtain ⟨r, h⟩ := h
      obtain ⟨htakes, hbal⟩ := zkcourtLock_takes hm h
      by_cases hzero : W.zkcourtChallengerBondMicro = 0
      · exact Or.inl hzero
      · have hheld := hkeep (trimLower challenger) (by omega)
        rw [htakes.locks] at hheld
        exact Or.inr (by omega)
    all_goals trivial
  · intro hspare
    obtain ⟨k, n, htakes, hfree⟩ := exec_takes hop hm h
    exact htakes.keepsLocked (hfree hspare)

end Takes

/-! ## Runs -/

section Runs

variable {W : World} {L : Ledger}

/-- A run of direct operations keeps the balances in range. -/
theorem run_bounded {op : Op} {nowMs : Nat} (hop : op.isDirect = true) (hm : Bounded L.balances) :
    Bounded (op.run W nowMs L).balances := by
  unfold Op.run
  cases h : op.exec W nowMs L with
  | error e => exact hm
  | ok L' =>
    obtain ⟨k, n, htakes, -⟩ := exec_takes hop hm h
    exact htakes.bounded

/-- A wallet that holds what is locked still does after an operation that spares it. -/
theorem run_covered {op : Op} {t₀ nowMs : Nat} (hop : op.isDirect = true)
    (hm : Bounded L.balances) (ht : t₀ ≤ nowMs)
    (hspare : ∀ L', op.exec W nowMs L = .ok L' → SparesLocked W nowMs L op) {w : Str}
    (hw : L.lockedMicro w t₀ ≤ L.balanceMicro w) :
    (op.run W nowMs L).lockedMicro w nowMs ≤ (op.run W nowMs L).balanceMicro w := by
  have hnow := lockedMicro_anti L w ht
  unfold Op.run
  cases h : op.exec W nowMs L with
  | error e => exact hnow.trans hw
  | ok L' =>
    obtain ⟨k, n, htakes, hfree⟩ := exec_takes hop hm h
    by_cases hlt : L'.balanceMicro w < L.balanceMicro w
    · exact htakes.keepsLocked (hfree (hspare L' h)) w hlt
    · have hlocks := htakes.locks w nowMs
      show L'.lockedMicro w nowMs ≤ L'.balanceMicro w
      omega

theorem runOps_covered {w : Str} : ∀ {ops : List (Nat × Op)} {t₀ : Nat} {L : Ledger},
    Bounded L.balances → (∀ p ∈ ops, p.2.isDirect = true) →
    EachCall W (fun t op L _ => SparesLocked W t L op) ops L →
    (t₀ :: ops.map Prod.fst).Pairwise (· ≤ ·) → L.lockedMicro w t₀ ≤ L.balanceMicro w →
    ∀ t, (∀ t' ∈ t₀ :: ops.map Prod.fst, t' ≤ t) →
      (runOps W ops L).lockedMicro w t ≤ (runOps W ops L).balanceMicro w := by
  intro ops
  induction ops with
  | nil =>
    intro t₀ L _ _ _ _ hw t ht
    exact (lockedMicro_anti L w (ht t₀ List.mem_cons_self)).trans hw
  | cons p ops ih =>
    intro t₀ L hm hops hspare htimes hw t ht
    obtain ⟨hhead, htail⟩ := List.pairwise_cons.mp htimes
    have hdirect := hops p List.mem_cons_self
    exact ih (run_bounded hdirect hm) (fun q hq => hops q (List.mem_cons_of_mem _ hq)) hspare.2
      htail (run_covered hdirect hm (hhead p.1 List.mem_cons_self) hspare.1 hw) t
      fun t' ht' => ht t' (List.mem_cons_of_mem _ ht')

theorem eachCall_keeps_iff : ∀ {ops : List (Nat × Op)} {L : Ledger}, Bounded L.balances →
    (∀ p ∈ ops, p.2.isDirect = true) →
    (EachCall W (fun t _ L L' => KeepsLocked t L L') ops L ↔
      EachCall W (fun t op L _ => SparesLocked W t L op) ops L) := by
  intro ops
  induction ops with
  | nil => exact fun _ _ => Iff.rfl
  | cons p ops ih =>
    intro L hm hops
    have hdirect := hops p List.mem_cons_self
    refine and_congr (forall_congr' fun L' => ?_)
      (ih (run_bounded hdirect hm) fun q hq => hops q (List.mem_cons_of_mem _ hq))
    constructor
    · exact fun hkeep h => (exec_keepsLocked_iff hdirect hm h).mp (hkeep h)
    · exact fun hspare h => (exec_keepsLocked_iff hdirect hm h).mpr (hspare h)

/-- **Locked funds under direct operations**. Every debit of a run leaves what is locked exactly when
every challenger's bond does; then a wallet that holds what is locked for it never comes to hold
less. -/
theorem direct_debits_keep_locks_iff {ops : List (Nat × Op)} (hm : Bounded L.balances)
    (hops : ∀ p ∈ ops, p.2.isDirect = true) :
    (EachCall W (fun t _ L L' => KeepsLocked t L L') ops L ↔
      EachCall W (fun t op L _ => SparesLocked W t L op) ops L) ∧
    (EachCall W (fun t op L _ => SparesLocked W t L op) ops L →
      ∀ w t₀, (t₀ :: ops.map Prod.fst).Pairwise (· ≤ ·) → L.lockedMicro w t₀ ≤ L.balanceMicro w →
        ∀ t, (∀ t' ∈ t₀ :: ops.map Prod.fst, t' ≤ t) →
          (runOps W ops L).lockedMicro w t ≤ (runOps W ops L).balanceMicro w) :=
  ⟨eachCall_keeps_iff hm hops, fun hspare _ _ htimes hw t ht =>
    runOps_covered hm hops hspare htimes hw t ht⟩

end Runs

end Ledger

namespace Ledger

theorem locked_bounded (n : Nat) : Bounded (Sample.locked n).balances :=
  (show Bounded (Sample.ledger.balances) from
    (show Bounded ((Tree.empty.insert walletWorkerPool (1000 * stevemon)).insert Sample.alice
      (50 * stevemon)) from
      Bounded.insert (Bounded.insert (fun k v h => by rw [Tree.get_empty] at h; cases h) _
        (by decide)) _ (by decide)))

/-- `alice` has 30 of her 50 TET locked: she stakes 10 and challenges with a bond of 10. -/
theorem direct_debits_within_locks :
    let W := World.sample 0
    let L := Sample.locked (30 * stevemon)
    let ops := [(0, Op.stake Sample.alice (10 * stevemon) none),
      (1, Op.zkcourtLockChallengerBond ['i'] Sample.alice)]
    EachCall W (fun t _ L L' => KeepsLocked t L L') ops L ∧
      (runOps W ops L).lockedMicro Sample.alice 1 ≤ (runOps W ops L).balanceMicro Sample.alice := by
  intro W L ops
  have hops : ∀ p ∈ ops, p.2.isDirect = true := by decide
  have hspare : EachCall W (fun t op L _ => SparesLocked W t L op) ops L :=
    ⟨fun _ _ => trivial, fun _ _ => Or.inr (by decide +kernel), trivial⟩
  obtain ⟨hiff, hcovered⟩ := direct_debits_keep_locks_iff (W := W) (locked_bounded _) hops
  exact ⟨hiff.mpr hspare, hcovered hspare Sample.alice 0 (by decide) (by decide +kernel) 1
    (by decide)⟩

/-- `alice` has 45 of her 50 TET locked and challenges: her bond of 10 TET takes 5 of the locked
ones. -/
theorem challenger_bond_spends_locked :
    let W := World.sample 0
    let L := Sample.locked (45 * stevemon)
    ∃ L', (Op.zkcourtLockChallengerBond ['i'] Sample.alice).exec W 0 L = .ok L' ∧
      L'.balanceMicro Sample.alice < L.balanceMicro Sample.alice ∧
      L'.balanceMicro Sample.alice < L'.lockedMicro Sample.alice 0 := by
  intro W L
  obtain ⟨L', hrun⟩ : ∃ L', (Op.zkcourtLockChallengerBond ['i'] Sample.alice).exec W 0 L = .ok L' :=
    exists_ok (by decide +kernel)
  have hall : ((Op.zkcourtLockChallengerBond ['i'] Sample.alice).exec W 0 L).toOption.map
      (fun L' => decide (L'.balanceMicro Sample.alice < L.balanceMicro Sample.alice ∧
        L'.balanceMicro Sample.alice < L'.lockedMicro Sample.alice 0)) = some true := by
    decide +kernel
  rw [hrun] at hall
  exact ⟨L', hrun, of_decide_eq_true (Option.some.inj hall)⟩

end Ledger

end TetCore
