import TetCore.Lib.Text
import Mathlib.Tactic.Linarith

/-!
# The fee schedule

Model of `fees.rs`, the one source of fee arithmetic: `charge` resolves an amount into the four
parts of a `FeeSplit`. `bps_of` computes in `u128`, where nothing overflows, so it is the `Nat`
quotient.

* `charge_total`: the conservation law of `FEE_SPEC.md` §1.1, for every kind and amount.
* `feeMicro_eq`: `fee_micro` never saturates.
-/

namespace TetCore

open TetCore.Lib

/-- Smallest unit: 1 TET = 1,000,000 Stevemon. -/
def stevemon : Nat := 1000000

/-- `maxSupplyMicro`, and `fees::MAX_CHARGE_MICRO` (a `const` assertion ties the two). -/
def maxSupplyMicro : Nat := 10000000000 * stevemon

/-- Basis-point denominator. -/
def bpsDenom : Nat := 10000
/-- Minimum accepted `fee_bps` of a transfer. -/
def transferFeeBpsMin : Nat := 100
/-- Maximum accepted `fee_bps` of a transfer. -/
def transferFeeBpsMax : Nat := 1000
/-- The rate of a transfer that names none. -/
def transferFeeBpsDefault : Nat := 100
/-- Network fee on AI utility settlement. -/
def networkFeeBps : Nat := 2000
/-- Share of the network fee that is burned. -/
def burnFractionOfNetworkFeeBps : Nat := 2500
/-- Worker-pool share of a thermodynamic inference charge. -/
def aiInferencePoolBps : Nat := 5000
/-- Flat per-file fee. -/
def fileFeeMicro : Nat := 1000
/-- Treasury share of a file fee. -/
def fileSplitTreasuryBps : Nat := 2500
/-- Storage-node share of a file fee. -/
def fileSplitStorageBps : Nat := 5000

/-- Which fee schedule applies to an operation. -/
inductive FeeKind where
  | transfer (feeBps : Nat)
  | aiUtility
  | aiInference
  | file
  deriving DecidableEq

/-- Deterministic four-way split of an amount. -/
structure FeeSplit where
  netMicro : Nat
  poolMicro : Nat
  treasuryMicro : Nat
  burnMicro : Nat
  deriving DecidableEq

/-- `FeeSplit::default`. -/
def FeeSplit.default : FeeSplit := ⟨0, 0, 0, 0⟩

/-- Sum of all four parts. -/
def FeeSplit.totalMicro (s : FeeSplit) : Nat :=
  satAdd (satAdd (satAdd s.netMicro s.poolMicro) s.treasuryMicro) s.burnMicro

/-- Everything that is not `net_micro`. -/
def FeeSplit.feeMicro (s : FeeSplit) : Nat :=
  satAdd (satAdd s.poolMicro s.treasuryMicro) s.burnMicro

/-- `FeeError`. -/
inductive FeeError where
  | feeBpsOutOfRange (got min max : Nat)
  | amountOutOfRange (got max : Nat)
  deriving DecidableEq

/-- The text of the error (`thiserror`). -/
def FeeError.text : FeeError → String
  | .feeBpsOutOfRange got min max => s!"fee_bps {got} outside accepted range [{min}, {max}]"
  | .amountOutOfRange got max => s!"amount {got} exceeds max supply {max}"

/-- `amount × bps / 10_000`. -/
def bpsOf (amountMicro bps : Nat) : Nat := amountMicro * bps / bpsDenom

/-- Validate a transfer's fee rate against the consensus bounds. -/
def validateTransferFeeBps (feeBps : Nat) : Except FeeError Unit :=
  if transferFeeBpsMin ≤ feeBps ∧ feeBps ≤ transferFeeBpsMax then .ok ()
  else .error (.feeBpsOutOfRange feeBps transferFeeBpsMin transferFeeBpsMax)

/-- Resolve an amount into its split. -/
def charge (kind : FeeKind) (amountMicro : Nat) : Except FeeError FeeSplit :=
  if maxSupplyMicro < amountMicro then
    .error (.amountOutOfRange amountMicro maxSupplyMicro)
  else match kind with
  | .transfer feeBps => do
    validateTransferFeeBps feeBps
    let fee := bpsOf amountMicro feeBps
    let pool := fee / 2
    return ⟨amountMicro - fee, pool, 0, fee - pool⟩
  | .aiUtility =>
    let fee := bpsOf amountMicro networkFeeBps
    let burn := bpsOf fee burnFractionOfNetworkFeeBps
    .ok ⟨amountMicro - fee, 0, fee - burn, burn⟩
  | .aiInference =>
    let pool := bpsOf amountMicro aiInferencePoolBps
    .ok ⟨0, pool, 0, amountMicro - pool⟩
  | .file =>
    let storage := bpsOf amountMicro fileSplitStorageBps
    let treasury := bpsOf amountMicro fileSplitTreasuryBps
    .ok ⟨storage, 0, treasury, amountMicro - storage - treasury⟩

/-- `files::file_fee_split`. -/
def fileFeeSplit (feeMicro : Nat) : FeeSplit :=
  match charge .file feeMicro with
  | .ok s => s
  | .error _ => FeeSplit.default

theorem bpsOf_le (amount : Nat) {bps : Nat} (h : bps ≤ bpsDenom) : bpsOf amount bps ≤ amount := by
  unfold bpsOf
  calc amount * bps / bpsDenom ≤ amount * bpsDenom / bpsDenom :=
        Nat.div_le_div_right (Nat.mul_le_mul_left _ h)
    _ = amount := Nat.mul_div_cancel _ (by decide)

theorem charge_le_max {kind : FeeKind} {amount : Nat} {s : FeeSplit}
    (h : charge kind amount = .ok s) : amount ≤ maxSupplyMicro := by
  unfold charge at h
  split at h
  · cases h
  · omega

/-- **The four parts add up to the amount** (`FEE_SPEC.md` §1.1). -/
theorem charge_total {kind : FeeKind} {amount : Nat} {s : FeeSplit}
    (h : charge kind amount = .ok s) :
    s.netMicro + s.poolMicro + s.treasuryMicro + s.burnMicro = amount := by
  unfold charge at h
  split at h
  · cases h
  cases kind with
  | transfer feeBps =>
    simp only [validateTransferFeeBps] at h
    split at h
    · rename_i hb
      cases h
      have := bpsOf_le amount (le_trans hb.2 (by decide))
      simp only
      omega
    · cases h
  | aiUtility =>
    cases h
    have h1 : bpsOf amount networkFeeBps ≤ amount := bpsOf_le amount (by decide)
    have h2 : bpsOf (bpsOf amount networkFeeBps) burnFractionOfNetworkFeeBps ≤
        bpsOf amount networkFeeBps := bpsOf_le _ (by decide)
    simp only
    omega
  | aiInference =>
    cases h
    have : bpsOf amount aiInferencePoolBps ≤ amount := bpsOf_le amount (by decide)
    simp only
    omega
  | file =>
    cases h
    have : bpsOf amount fileSplitStorageBps + bpsOf amount fileSplitTreasuryBps ≤ amount := by
      simp only [bpsOf, fileSplitStorageBps, fileSplitTreasuryBps, bpsDenom]
      omega
    simp only
    omega

/-- The fee is what the counterparty does not get; adding its parts never saturates. -/
theorem feeMicro_eq {kind : FeeKind} {amount : Nat} {s : FeeSplit}
    (h : charge kind amount = .ok s) :
    s.feeMicro = s.poolMicro + s.treasuryMicro + s.burnMicro := by
  have ht := charge_total h
  have hm := charge_le_max h
  have hu : maxSupplyMicro ≤ u64Max := by decide
  unfold FeeSplit.feeMicro
  rw [satAdd_of_le (a := s.poolMicro) (by omega), satAdd_of_le (by omega)]

/-- What a transfer charges: half of the fee goes to the pool, the other half is burned. -/
theorem charge_transfer_eq_ok {feeBps amount : Nat} {s : FeeSplit} :
    charge (.transfer feeBps) amount = .ok s ↔
      amount ≤ maxSupplyMicro ∧ (transferFeeBpsMin ≤ feeBps ∧ feeBps ≤ transferFeeBpsMax) ∧
        s = ⟨amount - bpsOf amount feeBps, bpsOf amount feeBps / 2, 0,
          bpsOf amount feeBps - bpsOf amount feeBps / 2⟩ := by
  unfold charge
  by_cases hmax : maxSupplyMicro < amount
  · rw [if_pos hmax]
    constructor
    · intro h
      cases h
    · rintro ⟨hle, -⟩
      exact absurd hle (Nat.not_le_of_lt hmax)
  · rw [if_neg hmax]
    simp only [validateTransferFeeBps]
    by_cases hrate : transferFeeBpsMin ≤ feeBps ∧ feeBps ≤ transferFeeBpsMax
    · rw [if_pos hrate]
      constructor
      · intro h
        cases h
        exact ⟨Nat.le_of_not_lt hmax, hrate, rfl⟩
      · rintro ⟨-, -, rfl⟩
        rfl
    · rw [if_neg hrate]
      constructor
      · intro h
        cases h
      · rintro ⟨-, h, -⟩
        exact absurd h hrate

/-- A transfer charges no treasury part. -/
theorem charge_transfer_treasury {feeBps amount : Nat} {s : FeeSplit}
    (h : charge (.transfer feeBps) amount = .ok s) : s.treasuryMicro = 0 := by
  obtain ⟨-, -, rfl⟩ := charge_transfer_eq_ok.mp h
  rfl

/-- An AI utility payment charges no pool part. -/
theorem charge_aiUtility_pool {amount : Nat} {s : FeeSplit}
    (h : charge .aiUtility amount = .ok s) : s.poolMicro = 0 := by
  unfold charge at h
  split at h <;> cases h
  rfl

/-- An inference charge has a pool and a burned part only. -/
theorem charge_aiInference_rest {amount : Nat} {s : FeeSplit}
    (h : charge .aiInference amount = .ok s) : s.netMicro = 0 ∧ s.treasuryMicro = 0 := by
  unfold charge at h
  split at h <;> cases h
  exact ⟨rfl, rfl⟩

theorem charge_file_ok : charge .file fileFeeMicro = .ok (fileFeeSplit fileFeeMicro) := by
  decide

end TetCore
