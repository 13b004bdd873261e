import TetCore.Ledger.Supply

/-!
# The bond of a challenger

What locking a bond and settling it leave of a ledger that holds its supply (`InFlight`).

* `settle_locked`: the bonds are as they were, and the amount is with the one it is paid to.
* `Paid.slash`: so it is when a worker's bond is then slashed.
-/

namespace TetCore.Disputes

open TetCore.Lib TetCore.Ledger

/-- From `L` to `L'` the challenger gave a bond and the payee got it, once; `slashed` went from the
worker bonds to the ecosystem. -/
structure BondPaid (L L' : Ledger) (challenger payee : Str) (bond slashed : Nat) : Prop where
  balances : ∀ w, L'.balanceMicro w + (if w = challenger then bond else 0) =
    L.balanceMicro w + (if w = payee then bond else 0) + if w = walletEcosystem then slashed else 0
  stakes : sumOf L'.workerStakes + slashed = sumOf L.workerStakes

/-- Who a bond goes to. -/
def payee (challenger : Str) (guilty : Bool) : Str := if guilty then challenger else walletEcosystem

section Bond

variable {f : Option MetaVal} {W : World} {L L' L₁ : Ledger} {id ch : Str} {bond n : Nat}

theorem zkcourtBondKey_trimLower (id ch : Str) :
    zkcourtBondKey id (trimLower ch) = zkcourtBondKey id ch := by
  unfold zkcourtBondKey
  rw [trimLower_trimLower]

theorem lock_trimLower (W : World) (L : Ledger) (id ch : Str) :
    L.zkcourtLockChallengerBond W id (trimLower ch) = L.zkcourtLockChallengerBond W id ch := by
  unfold zkcourtLockChallengerBond
  rw [trimLower_trimLower]

theorem lock_eq_ok_iff : L.zkcourtLockChallengerBond W id ch = .ok (bond, L₁) ↔
    trimLower ch ≠ [] ∧ L.zkcourtBonds.get (zkcourtBondKey id ch) = none ∧
      W.zkcourtChallengerBondMicro ≤ L.balanceMicro (trimLower ch) ∧
      bond = W.zkcourtChallengerBondMicro ∧
      L₁ = { L.putBalance (trimLower ch) (L.balanceMicro (trimLower ch) - bond) with
        zkcourtBonds := L.zkcourtBonds.insert (zkcourtBondKey id ch) bond } := by
  unfold zkcourtLockChallengerBond
  simp only [bind_eq_ok, require_eq_ok, Except.ok.injEq, Prod.mk.injEq, zkcourtBondKey_trimLower,
    Option.isNone_iff_eq_none]
  constructor
  · rintro ⟨-, hne, -, hnone, -, hle, rfl, rfl⟩
    exact ⟨hne, hnone, hle, rfl, rfl⟩
  · rintro ⟨hne, hnone, hle, rfl, rfl⟩
    exact ⟨(), hne, (), hnone, (), hle, rfl, rfl⟩

theorem balanceMicro_putBalance (L : Ledger) (k a : Str) (n : Nat) :
    (L.putBalance k n).balanceMicro a = if k = a then n else L.balanceMicro a :=
  amountAt_insert _ _ _ _

/-- What a credit leaves, where it cannot saturate. -/
theorem balanceMicro_credit (h : L.InFlight f n) (k a : Str) :
    (L.addBalance k n).balanceMicro a = L.balanceMicro a + if a = k then n else 0 := by
  have hle := balanceMicro_le_held L k
  have hcap := h.le_cap
  have hmax := maxSupply_le_u64Max
  unfold addBalance
  rw [balanceMicro_putBalance, satAdd_of_le (by omega)]
  by_cases hk : k = a
  · rw [if_pos hk, if_pos hk.symm, hk]
  · rw [if_neg hk, if_neg (Ne.symm hk), Nat.add_zero]

/-- What a lock leaves: the bond under a key that was free, and the challenger without it. -/
structure Locked (L : Ledger) (id ch : Str) (bond : Nat) (L₁ : Ledger) : Prop where
  cur : amountAt L₁.zkcourtBonds (zkcourtBondKey id ch) = bond
  free : L.zkcourtBonds.get (zkcourtBondKey id ch) = none
  others : L₁.zkcourtBonds.remove (zkcourtBondKey id ch) = L.zkcourtBonds
  stakes : L₁.workerStakes = L.workerStakes
  balances : ∀ w, L₁.balanceMicro w + (if w = trimLower ch then bond else 0) = L.balanceMicro w

theorem Locked.of_lock (h : L.zkcourtLockChallengerBond W id ch = .ok (bond, L₁)) :
    Locked L id ch bond L₁ := by
  obtain ⟨-, hfree, hle, hbond, rfl⟩ := lock_eq_ok_iff.mp h
  rw [← hbond] at hle
  refine ⟨?_, hfree, ?_, rfl, fun w => ?_⟩
  · rw [amountAt_insert, if_pos rfl]
  · refine Tree.ext fun a => ?_
    by_cases ha : zkcourtBondKey id ch = a
    · rw [← ha, Tree.get_remove_self, hfree]
    · rw [Tree.get_remove_ne ha, Tree.get_insert_ne ha]
  · have hread := balanceMicro_putBalance L (trimLower ch) w (L.balanceMicro (trimLower ch) - bond)
    change (L.putBalance (trimLower ch) _).balanceMicro w + _ = _
    rw [hread]
    by_cases hw : trimLower ch = w
    · rw [if_pos hw, if_pos hw.symm, ← hw]
      omega
    · rw [if_neg hw, if_neg (Ne.symm hw), Nat.add_zero]

theorem settle_eq_ok (hcur : amountAt L.zkcourtBonds (zkcourtBondKey id ch) = bond)
    (hbond : bond ≠ 0) (valid : Bool) : L.zkcourtSettleChallengerBond id ch valid = .ok (bond,
      { L with zkcourtBonds := L.zkcourtBonds.remove (zkcourtBondKey id ch) }.addBalance
        (payee (trimLower ch) valid) bond) := by
  unfold zkcourtSettleChallengerBond
  simp only [zkcourtBondKey_trimLower]
  rw [hcur, if_neg hbond]
  rfl

/-- The ledger after a bond was locked and settled. -/
structure Paid (f : Option MetaVal) (L : Ledger) (ch : Str) (bond : Nat) (guilty : Bool)
    (L' : Ledger) : Prop where
  inFlight : L'.InFlight f 0
  bonds : L'.zkcourtBonds = L.zkcourtBonds
  stakes : guilty = false → L'.workerStakes = L.workerStakes
  paid : ∃ slashed, BondPaid L L' (trimLower ch) (payee (trimLower ch) guilty) bond slashed

/-- **Settling a bond** that was locked leaves the bonds as they were, and the amount with the one it
is paid to. -/
theorem settle_locked (hL : L.InFlight f 0) (hW : 0 < W.zkcourtChallengerBondMicro)
    (h : L.zkcourtLockChallengerBond W id ch = .ok (bond, L₁)) (valid : Bool) :
    ∃ L₂, L₁.zkcourtSettleChallengerBond id ch valid = .ok (bond, L₂) ∧
      Paid f L ch bond valid L₂ := by
  have hlocked := Locked.of_lock h
  have hL₁ := zkcourtLock_conserves hL h
  have hbond : bond = W.zkcourtChallengerBondMicro := (lock_eq_ok_iff.mp h).2.2.2.1
  have hsettle := settle_eq_ok hlocked.cur (by omega) valid
  have hflight := hL₁.removeZkcourtBond (zkcourtBondKey id ch)
  rw [hlocked.cur, Nat.zero_add] at hflight
  refine ⟨_, hsettle, zkcourtSettle_conserves hL₁ hsettle, hlocked.others,
    fun _ => hlocked.stakes, 0, fun w => ?_, ?_⟩
  · rw [balanceMicro_credit hflight, ite_self, Nat.add_zero, ← hlocked.balances w]
    exact Nat.add_right_comm _ _ _
  · exact congrArg sumOf hlocked.stakes

/-- **Slashing** what a guilty verdict leaves. -/
theorem Paid.slash {slashedMicro : Nat} (h : Paid f L ch bond true L₁)
    (hslash : L₁.slashWorkerBondToEcosystemAll id = .ok (slashedMicro, L')) :
    Paid f L ch bond true L' := by
  have hL' := slashWorkerBond_conserves h.inFlight hslash
  have hflight := h.inFlight.removeBond (trimLower id)
  have hsum := Tree.sumBy_remove (fun _ v => v) L₁.workerStakes (trimLower id)
  rw [rowWeight_eq_amountAt] at hsum
  simp only [slashWorkerBondToEcosystemAll, bind_eq_ok, require_eq_ok, Except.ok.injEq,
    Prod.mk.injEq] at hslash
  obtain ⟨-, -, -, -, hamount, rfl⟩ := hslash
  rw [Nat.zero_add] at hflight
  obtain ⟨slashed, hpaid⟩ := h.paid
  refine ⟨hL', h.bonds, fun hg => ?_, slashed + slashedMicro, fun w => ?_, ?_⟩
  · cases hg
  · have hw := hpaid.balances w
    have hread := balanceMicro_credit hflight walletEcosystem w
    change _ = L₁.balanceMicro w + _ at hread
    rw [← hamount, hread]
    by_cases heco : w = walletEcosystem
    · rw [if_pos heco] at hw ⊢
      rw [if_pos heco]
      omega
    · rw [if_neg heco] at hw ⊢
      rw [if_neg heco]
      omega
  · have hst := hpaid.stakes
    change sumOf (L₁.workerStakes.remove (trimLower id)) + _ = _
    unfold sumOf at hst ⊢
    omega

end Bond

end TetCore.Disputes
