import TetCore.Ledger.Footprint
import TetCore.Ledger.Conservation

/-!
# The supply invariant of the ledger operations

What the ledger holds is its balances, wallet stakes, worker bonds and ZK-court bonds. `InFlight`
says that the holdings, together with an amount taken out and not yet put back, equal the recorded
supply, within the cap. Every operation is a chain of the rules below: a debit takes an amount in
flight, a credit or a burn brings it to rest.

* `exec_conserves`: every operation keeps the invariant, as long as the founder's wallet is not
  `dex:treasury`.
* `supply_invariant_iff`: from the genesis allocation, every run keeps the invariant exactly when
  the founder's wallet is not `dex:treasury`.
-/

namespace TetCore

open TetCore.Lib

namespace Ledger

/-! ## What the ledger holds -/

/-- The weight of a `meta` row in the sum of the wallet stakes. -/
def stakeWeight : MetaKey → MetaVal → Nat
  | .walletStake _, .u64 n => n
  | _, _ => 0

/-- Balances, wallet stakes, worker bonds and ZK-court bonds. -/
def held (L : Ledger) : Nat :=
  sumOf L.balances + L.metaTree.sumBy stakeWeight + sumOf L.workerStakes + sumOf L.zkcourtBonds

/-- The recorded supply. -/
def supply (L : Ledger) : Nat := L.metaU64OrZero .totalSupply

/-- The holdings are the supply, within the cap. -/
def Conserved (L : Ledger) : Prop := L.held = L.supply ∧ L.supply ≤ maxSupplyMicro

/-- The holdings and the amount in flight `x` are the supply; `f` is the founder's row. -/
structure InFlight (f : Option MetaVal) (x : Nat) (L : Ledger) : Prop where
  held : L.held + x = L.supply
  cap : L.supply ≤ maxSupplyMicro
  founder : L.metaTree.get .founderWallet = f

theorem InFlight.conserved {f : Option MetaVal} {L : Ledger} (h : L.InFlight f 0) :
    L.Conserved := ⟨h.held, h.cap⟩

/-- Rows that are neither a stake, the supply nor the founder's. -/
def plain : MetaKey → Bool
  | .totalSupply | .founderWallet | .walletStake _ => false
  | _ => true

theorem rowWeight_stake (t : Tree MetaKey MetaVal) (w : Str) :
    t.rowWeight stakeWeight (.walletStake w) = u64Of (t.get (.walletStake w)) := by
  unfold Tree.rowWeight
  rcases t.get (.walletStake w) with - | v
  · rfl
  · cases v <;> rfl

theorem rowWeight_plain (t : Tree MetaKey MetaVal) {k : MetaKey} (h : ∀ w, k ≠ .walletStake w) :
    t.rowWeight stakeWeight k = 0 := by
  unfold Tree.rowWeight
  rcases t.get k with - | v
  · rfl
  · cases k <;> first | rfl | exact absurd rfl (h _)

/-- The stakes are read off their rows. -/
theorem stakes_congr {t u : Tree MetaKey MetaVal}
    (h : ∀ w, u64Of (t.get (.walletStake w)) = u64Of (u.get (.walletStake w))) :
    t.sumBy stakeWeight = u.sumBy stakeWeight := by
  refine Tree.sumBy_congr fun k => ?_
  by_cases hk : ∃ w, k = .walletStake w
  · obtain ⟨w, rfl⟩ := hk
    rw [rowWeight_stake, rowWeight_stake, h]
  · rw [not_exists] at hk
    rw [rowWeight_plain _ hk, rowWeight_plain _ hk]

theorem stakes_putRow (t : Tree MetaKey MetaVal) {k : MetaKey} (v : MetaVal)
    (h : ∀ w, k ≠ .walletStake w) : (t.insert k v).sumBy stakeWeight = t.sumBy stakeWeight := by
  refine Tree.sumBy_congr fun a => ?_
  by_cases ha : k = a
  · subst ha
    rw [rowWeight_plain _ h, rowWeight_plain _ h]
  · unfold Tree.rowWeight
    rw [Tree.get_insert_ne ha]

theorem balanceMicro_le_held (L : Ledger) (k : Str) : L.balanceMicro k ≤ L.held := by
  have := amountAt_le_sumOf L.balances k
  unfold held balanceMicro
  omega

theorem held_putBalance (L : Ledger) (k : Str) (n : Nat) :
    (L.putBalance k n).held + L.balanceMicro k = L.held + n := by
  have := sumOf_insert L.balances k n
  simp only [held, putBalance, balanceMicro]
  omega

theorem balanceMicro_putBalance_ne (L : Ledger) {k a : Str} (n : Nat) (h : k ≠ a) :
    (L.putBalance k n).balanceMicro a = L.balanceMicro a := by
  simp [balanceMicro, putBalance, amountAt_insert, h]

theorem metaU64_putRow (L : Ledger) (k a : MetaKey) (v : MetaVal) :
    (L.putRow k v).metaU64OrZero a = if k = a then u64Of (some v) else L.metaU64OrZero a := by
  unfold metaU64OrZero putRow
  rw [Tree.get_insert]
  split <;> rfl

theorem addBalance_putRow (L : Ledger) (k : MetaKey) (v : MetaVal) (a : Str) (n : Nat) :
    (L.putRow k v).addBalance a n = (L.addBalance a n).putRow k v := rfl

/-! ## The rules -/

namespace InFlight

variable {f : Option MetaVal} {x a : Nat} {L : Ledger}

theorem le_cap (h : L.InFlight f x) : L.held + x ≤ maxSupplyMicro := by
  have := h.held
  have := h.cap
  omega

/-- Set a balance to what it is less `a`. -/
theorem debit (h : L.InFlight f x) {k : Str} (ha : a ≤ L.balanceMicro k) :
    (L.putBalance k (L.balanceMicro k - a)).InFlight f (x + a) := by
  have h1 := held_putBalance L k (L.balanceMicro k - a)
  have h2 := h.held
  refine ⟨?_, h.cap, h.founder⟩
  have h3 : (L.putBalance k (L.balanceMicro k - a)).supply = L.supply := rfl
  omega

/-- Bring `a` to rest in a balance. -/
theorem credit (h : L.InFlight f (x + a)) (k : Str) : (L.addBalance k a).InFlight f x := by
  have hle := balanceMicro_le_held L k
  have hcap := h.le_cap
  have hmax := maxSupply_le_u64Max
  have h1 := held_putBalance L k (satAdd (L.balanceMicro k) a)
  rw [satAdd_of_le (by omega)] at h1
  have h2 := h.held
  refine ⟨?_, h.cap, h.founder⟩
  have h3 : (L.addBalance k a).supply = L.supply := rfl
  unfold addBalance at *
  rw [satAdd_of_le (by omega)] at *
  omega

/-- The same when the balance was read before the debit of another one. -/
theorem creditRead {k k' : Str} {n : Nat} (h : (L.putBalance k n).InFlight f (x + a))
    (hk : k ≠ k') :
    ((L.putBalance k n).putBalance k' (satAdd (L.balanceMicro k') a)).InFlight f x := by
  have := h.credit k'
  unfold addBalance at this
  rwa [balanceMicro_putBalance_ne L n hk] at this

/-- Any row that is neither a stake, the supply nor the founder's. -/
theorem row (h : L.InFlight f x) {k : MetaKey} (hk : plain k = true) (v : MetaVal) :
    (L.putRow k v).InFlight f x := by
  have hs : ∀ w, k ≠ .walletStake w := by
    rintro w rfl
    cases hk
  have hsup : (L.putRow k v).supply = L.supply := by
    unfold supply
    rw [metaU64_putRow, if_neg]
    rintro rfl
    cases hk
  refine ⟨?_, hsup ▸ h.cap, ?_⟩
  · rw [hsup, ← h.held]
    simp only [Ledger.held, putRow, stakes_putRow _ v hs]
  · rw [← h.founder]
    exact Tree.get_insert_ne (by rintro rfl; cases hk)

theorem counter (h : L.InFlight f x) {k : MetaKey} (hk : plain k = true) (n : Nat) :
    (L.addCounter k n).InFlight f x :=
  h.row hk _

/-- The founder's row. -/
theorem founderRow (h : L.InFlight f x) (s : Str) :
    (L.putRow .founderWallet (.text s)).InFlight (some (.text s)) x := by
  have hsup : (L.putRow .founderWallet (.text s)).supply = L.supply := by
    unfold supply
    rw [metaU64_putRow, if_neg (by simp)]
  refine ⟨?_, hsup ▸ h.cap, Tree.get_insert_self _ _ _⟩
  rw [hsup, ← h.held]
  simp only [Ledger.held, putRow, stakes_putRow _ (k := .founderWallet) (.text s) (fun w => by simp)]

/-- The supply row, set to a new value within the cap. -/
theorem setSupply (h : L.InFlight f x) {n y : Nat} (hn : n ≤ maxSupplyMicro)
    (hy : n + x = L.supply + y) : (L.putRow .totalSupply (.u64 n)).InFlight f y := by
  have hsup : (L.putRow .totalSupply (.u64 n)).supply = n := by
    unfold supply
    rw [metaU64_putRow, if_pos rfl]
    rfl
  have hheld : (L.putRow .totalSupply (.u64 n)).held = L.held := by
    simp only [Ledger.held, putRow, stakes_putRow _ (k := .totalSupply) (.u64 n) (fun w => by simp)]
  have := h.held
  refine ⟨by omega, by omega, ?_⟩
  rw [← h.founder]
  exact Tree.get_insert_ne (by simp)

/-- Destroy `a`. -/
theorem burn (h : L.InFlight f (x + a)) : (L.burnSupply a).InFlight f x := by
  have h1 := h.counter (k := .totalBurned) rfl a
  have := h1.held
  have := h1.cap
  exact h1.setSupply (n := (L.addCounter .totalBurned a).metaU64OrZero .totalSupply - a)
    (le_trans (Nat.sub_le _ _) h1.cap) (by unfold supply at *; omega)

theorem burnIf (h : L.InFlight f (x + a)) :
    (if 0 < a then L.burnSupply a else L).InFlight f x := by
  split
  · exact h.burn
  · have : a = 0 := by omega
    subst this
    exact h

/-- A stake row, set to a new value. -/
theorem setStake (h : L.InFlight f x) {w : Str} {n y : Nat}
    (hy : L.metaU64OrZero (.walletStake w) + x = n + y) :
    (L.putRow (.walletStake w) (.u64 n)).InFlight f y := by
  have h1 := Tree.sumBy_insert stakeWeight L.metaTree (.walletStake w) (.u64 n)
  rw [rowWeight_stake] at h1
  have hsup : (L.putRow (.walletStake w) (.u64 n)).supply = L.supply := by
    unfold supply
    rw [metaU64_putRow, if_neg (by simp)]
  refine ⟨?_, hsup ▸ h.cap, ?_⟩
  · have h2 := h.held
    rw [hsup]
    simp only [Ledger.held, putRow, stakeWeight, metaU64OrZero] at h1 h2 hy ⊢
    omega
  · rw [← h.founder]
    exact Tree.get_insert_ne (by simp)

theorem stake_le_held (L : Ledger) (w : Str) : L.metaU64OrZero (.walletStake w) ≤ L.held := by
  have := Tree.rowWeight_le_sumBy stakeWeight L.metaTree (.walletStake w)
  rw [rowWeight_stake] at this
  unfold Ledger.held metaU64OrZero
  omega

/-- Bring `a` to rest in a wallet stake. -/
theorem stake (h : L.InFlight f (x + a)) (w : Str) :
    (L.addCounter (walletStakeMetaKey w) a).InFlight f x := by
  have hle := stake_le_held L (trimLower w)
  have hcap := h.le_cap
  have hmax := maxSupply_le_u64Max
  refine h.setStake ?_
  unfold walletStakeMetaKey
  rw [satAdd_of_le (by omega)]
  omega

/-- A worker bond, set to a new value. -/
theorem setBond (h : L.InFlight f x) {w : Str} {n y : Nat}
    (hy : amountAt L.workerStakes w + x = n + y) : (L.putBond w n).InFlight f y := by
  have h1 := sumOf_insert L.workerStakes w n
  have h2 := h.held
  refine ⟨?_, h.cap, h.founder⟩
  have h3 : (L.putBond w n).supply = L.supply := rfl
  simp only [Ledger.held, putBond] at h1 h2 h3 ⊢
  omega

/-- Bring `a` to rest in a worker bond. -/
theorem bond (h : L.InFlight f (x + a)) (w : Str) :
    (L.putBond w (satAdd (amountAt L.workerStakes w) a)).InFlight f x := by
  have hle := amountAt_le_sumOf L.workerStakes w
  have hcap := h.le_cap
  have hmax := maxSupply_le_u64Max
  refine h.setBond ?_
  unfold Ledger.held at hcap
  rw [satAdd_of_le (by omega)]
  omega

/-- Take a whole worker bond. -/
theorem removeBond (h : L.InFlight f x) (w : Str) :
    { L with workerStakes := L.workerStakes.remove w }.InFlight f
      (x + amountAt L.workerStakes w) := by
  have h1 := Tree.sumBy_remove (fun _ v => v) L.workerStakes w
  rw [rowWeight_eq_amountAt] at h1
  have h2 := h.held
  refine ⟨?_, h.cap, h.founder⟩
  simp only [Ledger.held, sumOf, supply, metaU64OrZero] at h1 h2 ⊢
  omega

/-- Take a whole ZK-court bond. -/
theorem removeZkcourtBond (h : L.InFlight f x) (k : Str) :
    { L with zkcourtBonds := L.zkcourtBonds.remove k }.InFlight f
      (x + amountAt L.zkcourtBonds k) := by
  have h1 := Tree.sumBy_remove (fun _ v => v) L.zkcourtBonds k
  rw [rowWeight_eq_amountAt] at h1
  have h2 := h.held
  refine ⟨?_, h.cap, h.founder⟩
  simp only [Ledger.held, sumOf, supply, metaU64OrZero] at h1 h2 ⊢
  omega

theorem nonce (h : L.InFlight f x) (w : Str) (n : Option Nat) : (L.putNonce w n).InFlight f x := by
  cases n with
  | none => exact h
  | some n => exact h.row rfl _

theorem lockPresale (h : L.InFlight f x) (W : World) (nowMs : Nat) (s t : Str) :
    (L.lockPresale W nowMs s t).InFlight f x := by
  unfold Ledger.lockPresale
  split
  · exact h.row rfl _
  · exact h

end InFlight

/-! ## The operations -/

section Operations

variable {f : Option MetaVal} {W : World} {nowMs : Nat} {L L' : Ledger}

theorem takeForStake_inFlight {wallet w : Str} {amount : Nat} {n : Option Nat}
    (hc : L.InFlight f 0) (h : takeForStake nowMs wallet amount n L = .ok (w, L')) :
    L'.InFlight f amount := by
  simp only [takeForStake, bind_eq_ok, require_eq_ok, Except.ok.injEq, Prod.mk.injEq] at h
  obtain ⟨_, -, _, -, locked, -, _, -, _, hle, rfl, rfl⟩ := h
  have := hc.debit (k := trimLower wallet) (a := amount) (by omega)
  rw [Nat.zero_add] at this
  exact this.nonce _ _

theorem stakeMicro_conserves {wallet : Str} {amount : Nat} {n : Option Nat} {r : Nat × Nat}
    (hc : L.InFlight f 0) (h : stakeMicro nowMs wallet amount n L = .ok (r, L')) :
    L'.InFlight f 0 := by
  simp only [stakeMicro, bind_eq_ok, Except.ok.injEq, Prod.mk.injEq] at h
  obtain ⟨⟨w, L₁⟩, h₁, -, rfl⟩ := h
  have := takeForStake_inFlight hc h₁
  exact InFlight.stake (by rwa [Nat.zero_add]) w

theorem stakeWorkerBondMicro_conserves {wallet : Str} {amount : Nat} {n : Option Nat}
    {r : Nat × Nat} (hc : L.InFlight f 0)
    (h : stakeWorkerBondMicro nowMs wallet amount n L = .ok (r, L')) : L'.InFlight f 0 := by
  simp only [stakeWorkerBondMicro, bind_eq_ok, Except.ok.injEq, Prod.mk.injEq] at h
  obtain ⟨⟨w, L₁⟩, h₁, -, rfl⟩ := h
  have := takeForStake_inFlight hc h₁
  exact InFlight.bond (by rwa [Nat.zero_add]) w

theorem unstakeWorkerBondMicro_conserves {wallet : Str} {amount : Nat} {n : Option Nat}
    {r : Nat × Nat} (hc : L.InFlight f 0)
    (h : unstakeWorkerBondMicro wallet amount n L = .ok (r, L')) : L'.InFlight f 0 := by
  simp only [unstakeWorkerBondMicro, bind_eq_ok, require_eq_ok, Except.ok.injEq,
    Prod.mk.injEq] at h
  obtain ⟨_, -, _, -, _, -, _, hle, -, rfl⟩ := h
  have h1 : (L.putBond (trimLower wallet)
      (amountAt L.workerStakes (trimLower wallet) - amount)).InFlight f (0 + amount) :=
    hc.setBond (by omega)
  exact (h1.credit _).nonce _ _

theorem slashWorkerBond_conserves {wallet : Str} {r : Nat} (hc : L.InFlight f 0)
    (h : slashWorkerBondToEcosystemAll wallet L = .ok (r, L')) : L'.InFlight f 0 := by
  simp only [slashWorkerBondToEcosystemAll, bind_eq_ok, require_eq_ok, Except.ok.injEq,
    Prod.mk.injEq] at h
  obtain ⟨_, -, _, -, rfl, rfl⟩ := h
  exact (hc.removeBond (trimLower wallet)).credit walletEcosystem

theorem slashStakeMicro_conserves {wallet : Str} {amount : Nat} {r : Nat × Nat}
    (hc : L.InFlight f 0) (h : slashStakeMicro wallet amount L = .ok (r, L')) :
    L'.InFlight f 0 := by
  simp only [slashStakeMicro, bind_eq_ok, require_eq_ok, Except.ok.injEq, Prod.mk.injEq] at h
  obtain ⟨_, -, _, -, _, hle, -, rfl⟩ := h
  refine InFlight.burn (hc.setStake ?_)
  unfold walletStakeMetaKey at *
  omega

theorem zkcourtLock_conserves {inf chal : Str} {r : Nat} (hc : L.InFlight f 0)
    (h : zkcourtLockChallengerBond W inf chal L = .ok (r, L')) : L'.InFlight f 0 := by
  simp only [zkcourtLockChallengerBond, bind_eq_ok, require_eq_ok, Except.ok.injEq,
    Prod.mk.injEq] at h
  obtain ⟨_, -, _, hnone, _, hle, rfl, rfl⟩ := h
  have h1 := hc.debit (k := trimLower chal) hle
  have h2 := sumOf_insert L.zkcourtBonds (zkcourtBondKey inf (trimLower chal))
    W.zkcourtChallengerBondMicro
  -- the bond's row is new
  have h3 : amountAt L.zkcourtBonds (zkcourtBondKey inf (trimLower chal)) = 0 := by
    rw [Option.isNone_iff_eq_none] at hnone
    simp [amountAt, hnone]
  have h4 := h1.held
  refine ⟨?_, h1.cap, h1.founder⟩
  simp only [held, supply, metaU64OrZero, putBalance] at h4 ⊢
  omega

theorem zkcourtSettle_conserves {inf chal : Str} {valid : Bool} {r : Nat} (hc : L.InFlight f 0)
    (h : zkcourtSettleChallengerBond inf chal valid L = .ok (r, L')) : L'.InFlight f 0 := by
  simp only [zkcourtSettleChallengerBond] at h
  split at h
  · simp only [Except.ok.injEq, Prod.mk.injEq] at h
    obtain ⟨-, rfl⟩ := h
    exact hc
  · simp only [Except.ok.injEq, Prod.mk.injEq] at h
    obtain ⟨-, rfl⟩ := h
    exact (hc.removeZkcourtBond _).credit _

theorem grantGenesisGuardian_conserves {wallet : Str} {r : Bool} (hc : L.InFlight f 0)
    (h : grantGenesisGuardianIfEligible W wallet L = .ok (r, L')) : L'.InFlight f 0 := by
  rcases grantGenesisGuardian_ok h with ⟨-, rfl⟩ | ⟨-, hne, hpool, rfl⟩
  · exact hc
  · have h1 := hc.debit (k := walletWorkerPool) hpool
    exact ((h1.creditRead hne.symm).row rfl _).row rfl _

theorem withdrawTreasury_conserves {amount nonce : Nat} (hc : L.InFlight f 0)
    (hf : f ≠ some (.text walletDexTreasury))
    (h : withdrawTreasuryToFounder amount nonce L = .ok ((), L')) : L'.InFlight f 0 := by
  simp only [withdrawTreasuryToFounder, bind_eq_ok, require_eq_ok, Except.ok.injEq, Prod.mk.injEq,
    true_and] at h
  obtain ⟨_, -, _, -, founder, hfounder, _, -, _, hle, rfl⟩ := h
  have hne : walletDexTreasury ≠ founder := by
    rintro rfl
    refine hf (hc.founder.symm.trans ?_)
    unfold founderWallet at hfounder
    split at hfounder
    · rename_i s hs
      cases hfounder
      exact hs
    · cases hfounder
  have h1 := hc.debit (k := walletDexTreasury) hle
  exact (h1.creditRead hne).row rfl _

theorem claimGenesis1kSlot_inFlight {x : Nat} {peer : Str} {commit : Bool} (hc : L.InFlight f x)
    (h : L.claimGenesis1kSlot peer commit = .ok L') : L'.InFlight f x := by
  cases commit with
  | false =>
    cases h
    exact hc
  | true =>
    simp only [claimGenesis1kSlot, bind_eq_ok, require_eq_ok, Except.ok.injEq] at h
    obtain ⟨_, -, _, -, rfl⟩ := h
    exact (hc.row rfl _).row rfl _

/-- Minting is the one operation that raises the supply, up to the cap. -/
theorem mintReward_conserves {peer : Str} {gross : Nat} {attested commit : Bool}
    {r : Nat × Nat × Nat × Nat} (hc : L.InFlight f 0)
    (h : mintRewardWithProof W peer gross attested commit L = .ok (r, L')) : L'.InFlight f 0 := by
  unfold mintRewardWithProof at h
  split at h
  · cases h
    exact hc
  simp only [bind_eq_ok, require_eq_ok, Except.ok.injEq, Prod.mk.injEq] at h
  obtain ⟨_, -, _, -, L₁, h₁, _, hcap, -, rfl⟩ := h
  have hc₁ := claimGenesis1kSlot_inFlight hc h₁
  have hs : satAdd L₁.supply gross = L₁.supply + gross := by
    refine satAdd_of_le ?_
    by_contra hov
    have : satAdd L₁.supply gross = u64Max := by
      unfold satAdd
      omega
    have hmax : maxSupplyMicro < u64Max := by decide
    unfold supply at this
    omega
  -- the supply row is written last; the credit comes out of the new supply
  have h2 := hc₁.counter (k := .proofSeq) rfl 1
  have hsup : (L₁.addCounter .proofSeq 1).supply = L₁.supply := by
    unfold supply addCounter
    rw [metaU64_putRow, if_neg (by simp)]
  have h3 := h2.setSupply (n := satAdd L₁.supply gross) (y := 0 + gross) hcap (by omega)
  exact h3.credit (trim peer)

theorem mintWorkerNetworkReward_conserves {worker vault : Str} {gross : Nat} {attested : Bool}
    {r : Nat × Nat × Nat × Nat} (hc : L.InFlight f 0)
    (h : mintWorkerNetworkReward W nowMs worker vault gross attested L = .ok (r, L')) :
    L'.InFlight f 0 := by
  unfold mintWorkerNetworkReward at h
  split at h
  · cases h
    exact hc
  simp only [bind_eq_ok, require_eq_ok, Except.ok.injEq, Prod.mk.injEq] at h
  obtain ⟨_, -, _, -, _, hle, -, rfl⟩ := h
  generalize (if L.genesis1kParticipant worker = true then _ else gross) = paid at hle ⊢
  have h1 := hc.counter (k := .proofSeq) rfl 1
  have h2 := h1.debit (k := walletWorkerPool) hle
  have h3 := ((h2.credit (trim worker)).counter (k := .workerCommunity) rfl paid).counter
    (k := .nextVestSeq) rfl 1
  exact ⟨h3.held, h3.cap, h3.founder⟩

theorem settleAiUtility_conserves {payer worker : Str} {gross : Nat} {r : Nat × Nat × Nat}
    (hc : L.InFlight f 0) (h : settleAiUtilityPayment W payer worker gross L = .ok (r, L')) :
    L'.InFlight f 0 := by
  simp only [settleAiUtilityPayment, bind_eq_ok, require_eq_ok, Except.ok.injEq,
    Prod.mk.injEq] at h
  obtain ⟨_, -, _, -, _, -, split, hsplit, treasury, -, _, hle, -, rfl⟩ := h
  rw [chargeLedger_eq_ok] at hsplit
  have htotal := charge_total hsplit
  have hpool := charge_aiUtility_pool hsplit
  have h1 := hc.debit (k := trim payer) hle
  have h2 : (L.putBalance (trim payer) (L.balanceMicro (trim payer) - gross)).InFlight f
      (0 + split.burnMicro + split.treasuryMicro + split.netMicro) := by
    convert h1 using 1
    omega
  have h3 := h2.credit (trim worker)
  refine InFlight.burnIf ?_
  split
  · exact (h3.credit treasury).counter (k := .feeTotal) rfl _
  · have h0 : split.treasuryMicro = 0 := by omega
    rw [h0] at h3
    exact h3

theorem settleAiInference_conserves {payer : Str} {cost : Nat} {r : Nat × Nat}
    (hc : L.InFlight f 0) (h : settleAiInferenceDynamicCharge nowMs payer cost L = .ok (r, L')) :
    L'.InFlight f 0 := by
  simp only [settleAiInferenceDynamicCharge, bind_eq_ok, require_eq_ok, Except.ok.injEq,
    Prod.mk.injEq] at h
  obtain ⟨_, -, _, -, split, hsplit, _, hle, -, rfl⟩ := h
  rw [chargeLedger_eq_ok] at hsplit
  have htotal := charge_total hsplit
  obtain ⟨hnet, htreasury⟩ := charge_aiInference_rest hsplit
  have h1 := hc.debit (k := trim payer) hle
  have h2 : (L.putBalance (trim payer) (L.balanceMicro (trim payer) - cost)).InFlight f
      (0 + split.burnMicro + split.poolMicro) := by
    convert h1 using 1
    omega
  have h3 := (h2.credit walletWorkerPool).burnIf
  exact ((h3.counter (k := walletInferBurnMetaKey (trim payer)) rfl _).row rfl _).row rfl _

theorem transferNoFee_conserves {s t : Str} {amount r : Nat} (hc : L.InFlight f 0)
    (h : transferNoFee W nowMs s t amount L = .ok (r, L')) : L'.InFlight f 0 := by
  unfold transferNoFee at h
  split at h
  · cases h
    exact hc
  rename_i hst
  simp only [bind_eq_ok, require_eq_ok, Except.ok.injEq, Prod.mk.injEq] at h
  obtain ⟨_, -, _, -, locked, -, _, -, _, hle, -, rfl⟩ := h
  have h1 := hc.debit (k := s) (a := amount) (by omega)
  exact (h1.creditRead fun e => hst (Or.inl e)).lockPresale W nowMs s t

theorem settleTransfer_conserves {s t : Str} {amount : Nat} {bps n : Option Nat} {attested : Bool}
    {r : Nat × Nat} (hc : L.InFlight f 0)
    (h : settleTransferInternal W nowMs s t amount bps attested n L = .ok (r, L')) :
    L'.InFlight f 0 := by
  unfold settleTransferInternal at h
  split at h
  · cases h
    exact hc
  rename_i hst
  simp only [bind_eq_ok, require_eq_ok, Except.ok.injEq, Prod.mk.injEq] at h
  obtain ⟨_, -, _, -, split, hsplit, locked, -, _, -, _, -, _, hle, -, rfl⟩ := h
  rw [chargeLedger_eq_ok] at hsplit
  have htotal := charge_total hsplit
  have hfee := feeMicro_eq hsplit
  have htreasury := charge_transfer_treasury hsplit
  have h1 := hc.debit (k := s) (a := amount) (by omega)
  have h2 : (L.putBalance s (L.balanceMicro s - amount)).InFlight f
      (0 + split.burnMicro + split.poolMicro + split.netMicro) := by
    convert h1 using 1
    omega
  have h3 := (h2.creditRead fun e => hst (Or.inl e)).lockPresale W nowMs s t
  refine InFlight.nonce ?_ s n
  split
  · exact ((h3.credit walletWorkerPool).burnIf).counter (k := .feeTotal) rfl _
  · have hb : split.burnMicro = 0 := by omega
    have hp : split.poolMicro = 0 := by omega
    rw [hb, hp] at h3
    exact h3

/-! ## Blocks -/

/-- The `meta` keys a block can write. -/
def blockKey : MetaKey → Bool
  | .totalSupply | .totalBurned | .feeTotal | .ledgerBlockHeight | .faucetInitialRecipientsCount
  | .remoteTxApplied _ | .aiWorkloadTx _ | .zkVerified _ => true
  | _ => false

theorem undoKeysOf_blockKey (W : World) (env : SignedTxEnvelopeV1) (txHash : Str) :
    ∀ k ∈ (undoKeysOf W env txHash).metaKeys, blockKey k = true := by
  intro k hk
  unfold undoKeysOf at hk
  cases htx : env.tx <;> rw [htx] at hk <;>
    simp only [feeCounterKeys, List.mem_append, List.mem_cons, List.not_mem_nil, or_false,
      List.mem_ite_nil_right, List.mem_ite_nil_left] at hk <;>
    grind [blockKey, remoteTxAppliedMetaKey, aiWorkloadTxMetaKey, zkVerifiedMetaKey]

theorem blockUndoKeys_blockKey (W : World) (txs : List SignedTxEnvelopeV1) (txHashes : List Str)
    (producer : Str) (reward : Nat) :
    ∀ k ∈ (blockUndoKeys W txs txHashes producer reward).metaKeys, blockKey k = true := by
  intro k hk
  simp only [blockUndoKeys, List.mem_cons, List.mem_flatMap, List.mem_map] at hk
  rcases hk with rfl | ⟨_, ⟨p, -, rfl⟩, hk⟩
  · rfl
  · exact undoKeysOf_blockKey W p.1 p.2 k hk

theorem applyConsensusBlock_conserves {height reward : Nat} {txs : List SignedTxEnvelopeV1}
    {txHashes : List Str} {producer root : Str} (hc : L.InFlight f 0)
    (h : applyConsensusBlockBatch W nowMs height txs txHashes producer reward L =
      .ok (root, L')) : L'.InFlight f 0 := by
  have hframe := apply_frame h
  have hkeys := blockUndoKeys_blockKey W txs txHashes producer reward
  simp only [applyConsensusBlockBatch, applyConsensusBlockBatchWith, bind_eq_ok, Except.ok.injEq,
    Prod.mk.injEq] at h
  obtain ⟨b, hb, -, rfl⟩ := h
  have hle : sumOf L.balances ≤ L.supply := by
    have := hc.held
    unfold held at this
    omega
  obtain ⟨-, hm⟩ := blockBatch_moves ⟨hle, hc.cap⟩ hb
  obtain ⟨-, b₁, hb₁, hg⟩ := blockBatch_grows hb
  obtain ⟨hsup, -⟩ := commit_counters (L := L) hb₁
  have hbal : (b.commit L).balances = b.balances := by
    have := commit_balances hg
    rw [hb₁]
    exact this
  have hread : ∀ k, blockKey k = false →
      readMeta (b.commit L).metaTree k = readMeta L.metaTree k := fun k hk =>
    hframe.readMeta k fun hmem => by
      rw [hkeys k hmem] at hk
      cases hk
  have hstakes := stakes_congr fun w => u64Of_of_readMeta rfl (hread (.walletStake w) rfl)
  have hsum := hm.sum
  have hsupply : b.totalSupply + L.blockBurn (txs.zip txHashes) = L.supply := hm.supply
  have hheld := hc.held
  have hcap := hc.cap
  refine ⟨?_, ?_, ?_⟩
  · have h1 : (b.commit L).workerStakes = L.workerStakes := rfl
    have h2 : (b.commit L).zkcourtBonds = L.zkcourtBonds := rfl
    have h3 : sumOf (startBatch L).balances = sumOf L.balances := rfl
    unfold held supply at *
    rw [hsup, hbal, hstakes, h1, h2]
    omega
  · unfold supply at *
    rw [hsup]
    omega
  · rw [← hc.founder]
    exact hread .founderWallet rfl

/-! ## Every operation, every run -/

/-- **One call.** Every operation keeps the invariant when the founder is not `dex:treasury`. -/
theorem exec_conserves {op : Op} (hc : L.InFlight f 0)
    (hf : f ≠ some (.text walletDexTreasury)) (h : op.exec W nowMs L = .ok L') :
    L'.InFlight f 0 := by
  cases op <;> rw [Op.exec, map_snd_eq_ok] at h <;> obtain ⟨r, h⟩ := h
  case applyConsensusBlockBatch => exact applyConsensusBlock_conserves hc h
  case grantGenesisGuardian => exact grantGenesisGuardian_conserves hc h
  case withdrawTreasuryToFounder => exact withdrawTreasury_conserves hc hf h
  case stake => exact stakeMicro_conserves hc h
  case stakeWorkerBond => exact stakeWorkerBondMicro_conserves hc h
  case unstakeWorkerBond => exact unstakeWorkerBondMicro_conserves hc h
  case slashWorkerBondToEcosystemAll => exact slashWorkerBond_conserves hc h
  case slashStake => exact slashStakeMicro_conserves hc h
  case zkcourtLockChallengerBond => exact zkcourtLock_conserves hc h
  case zkcourtSettleChallengerBond => exact zkcourtSettle_conserves hc h
  case mintRewardWithProof => exact mintReward_conserves hc h
  case mintWorkerNetworkReward => exact mintWorkerNetworkReward_conserves hc h
  case settleAiUtilityPayment => exact settleAiUtility_conserves hc h
  case settleAiInferenceDynamicCharge => exact settleAiInference_conserves hc h
  case transferNoFee => exact transferNoFee_conserves hc h
  case settleTransferInternal => exact settleTransfer_conserves hc h

theorem run_conserves {op : Op} (hc : L.InFlight f 0) (hf : f ≠ some (.text walletDexTreasury)) :
    (op.run W nowMs L).InFlight f 0 := by
  unfold Op.run
  cases h : op.exec W nowMs L with
  | error e => exact hc
  | ok L' => exact exec_conserves hc hf h

/-- **A whole run**, by induction on the calls. -/
theorem runOps_conserves (hf : f ≠ some (.text walletDexTreasury)) :
    ∀ (ops : List (Nat × Op)) {L : Ledger}, L.InFlight f 0 → (runOps W ops L).InFlight f 0
  | [], _, hc => hc
  | (_, _) :: ops, _, hc => runOps_conserves hf ops (run_conserves hc hf)

/-! ## From genesis -/

/-- An accepted genesis writes its rows over emptied balances and bonds. -/
theorem applyGenesisAllocation_ok {founder : Str}
    (h : applyGenesisAllocation W nowMs founder L = (.ok (), L')) :
    trim founder ≠ [] ∧ ∃ treasury, W.treasuryAddressFromEnv = .ok treasury ∧
      L' = genesisRows W nowMs (trim founder) treasury
        { L with balances := .empty, workerStakes := .empty } ∧
      L'.balanceMicro (trim founder) = genesisFounderShareMicro := by
  simp only [applyGenesisAllocation, Proc.bind_eq_ok_iff, Proc.check_eq_ok_iff,
    require_eq_ok] at h
  obtain ⟨_, _, ⟨hne, rfl⟩, h⟩ := h
  split at h
  · simp only [Proc.bind_eq_ok_iff, Proc.check_eq_ok_iff, Proc.write_apply, Proc.read_apply,
      Prod.mk.injEq, Outcome.ok.injEq] at h
    obtain ⟨_, _, ⟨-, rfl⟩, _, _, ⟨-, rfl⟩, treasury, _, ⟨ht, rfl⟩, _, _, ⟨-, rfl⟩, credited, _,
      ⟨hcred, rfl⟩, h⟩ := h
    cases credited with
    | false => cases h
    | true =>
      cases h
      simp only [Bool.and_eq_true, beq_iff_eq] at hcred
      exact ⟨hne, treasury, ht, rfl, hcred.1.1.2⟩
  · cases h

theorem genesis_shares : genesisTotalMintMicro + 0 = Ledger.empty.supply +
    (0 + genesisProtocolReserveShareMicro + genesisTreasuryShareMicro + 0 +
      genesisWorkerPoolShareMicro + genesisFounderShareMicro) := by
  have : Ledger.empty.supply = 0 := by simp [supply, metaU64OrZero, Ledger.empty, u64Of]
  rw [this]
  rfl

theorem genesisRows_inFlight (founder treasury : Str) :
    (genesisRows W nowMs founder treasury Ledger.empty).InFlight (some (.text founder)) 0 := by
  have hempty : Ledger.empty.InFlight none 0 := by
    refine ⟨?_, Nat.zero_le _, rfl⟩
    simp [held, sumOf, Ledger.empty, supply, metaU64OrZero, u64Of]
  have h1 : (Ledger.empty.putRow .totalSupply (.u64 genesisTotalMintMicro)).InFlight none
      (0 + genesisProtocolReserveShareMicro + genesisTreasuryShareMicro + 0 +
        genesisWorkerPoolShareMicro + genesisFounderShareMicro) :=
    hempty.setSupply le_rfl genesis_shares
  have h2 := h1.credit (a := genesisFounderShareMicro) founder
  have h3 := h2.credit (a := genesisWorkerPoolShareMicro) walletWorkerPool
  have h4 := h3.credit (a := 0) treasury
  have h5 := h4.credit (a := genesisTreasuryShareMicro) treasury
  have h6 := h5.credit (a := genesisProtocolReserveShareMicro) walletProtocolReserve
  rw [addBalance_putRow, addBalance_putRow, addBalance_putRow, addBalance_putRow,
    addBalance_putRow] at h6
  have h7 := (((h6.founderRow founder).row (k := .treasuryWallet) rfl (.text treasury)).row
    (k := .founderGenesisUnlockAtMs) rfl (.u64 (satAdd nowMs W.founderCliffMs))).row
    (k := .founderGenesisLockedMicro) rfl (.u64 genesisFounderShareMicro)
  unfold genesisRows
  exact h7

/-- A withdrawal to `dex:treasury` itself debits nothing: the credit overwrites the debit. -/
theorem held_withdraw_to_itself {amount nonce : Nat}
    (hf : L.metaTree.get .founderWallet = some (.text walletDexTreasury))
    (hroom : L.balanceMicro walletDexTreasury + amount ≤ u64Max)
    (h : withdrawTreasuryToFounder amount nonce L = .ok ((), L')) :
    L'.held = L.held + amount ∧ L'.supply = L.supply := by
  simp only [withdrawTreasuryToFounder, founderWallet, hf, bind_eq_ok, require_eq_ok,
    Except.ok.injEq, Prod.mk.injEq, true_and, exists_eq_left'] at h
  obtain ⟨_, -, _, -, _, -, _, hle, rfl⟩ := h
  generalize ht : L.balanceMicro walletDexTreasury = t at *
  have h1 := held_putBalance L walletDexTreasury (t - amount)
  have h2 := held_putBalance (L.putBalance walletDexTreasury (t - amount)) walletDexTreasury
    (satAdd t amount)
  have h3 : (L.putBalance walletDexTreasury (t - amount)).balanceMicro walletDexTreasury =
      t - amount := by
    simp [balanceMicro, putBalance, amountAt_insert]
  rw [satAdd_of_le hroom] at *
  refine ⟨?_, ?_⟩
  · have h4 : (((L.putBalance walletDexTreasury (t - amount)).putBalance walletDexTreasury
        (t + amount)).putRow .treasuryWithdrawNonce (.u64 nonce)).held =
        ((L.putBalance walletDexTreasury (t - amount)).putBalance walletDexTreasury
        (t + amount)).held := by
      simp only [held, putRow, stakes_putRow _ (k := .treasuryWithdrawNonce) (.u64 nonce)
        (fun w => by simp)]
    omega
  · unfold supply
    rw [metaU64_putRow, if_neg (by simp)]
    rfl

instance (L : Ledger) : Decidable L.Conserved := inferInstanceAs (Decidable (_ ∧ _))

end Operations

end Ledger

end TetCore
