import TetCore.Fees

/-!
# The gross amount of a grant

`grossForNet` (`thread_grants.mjs`), what a grant's transfer sends so that the grant arrives, against
`charge` (`fees.rs`), which says what arrives. The page starts at the net amount over the part that is not
the fee, rounded down, and counts up while too little arrives.

* `grossForNet_eq`: the start already suffices; the loop ends without a round.
* `gross_arrives`: exactly the net amount arrives.
* `gross_minimal_iff`: no smaller amount would do exactly if the net amount is 0 or leaves a remainder of
  at least the fee rate, so that the start was not rounded up to a second amount with the same net.
-/

namespace TetCore.Payouts

/-! ## The page -/

/-- What arrives of `g`, as the page reckons. -/
def afterFee (g feeBps : Nat) : Nat := g - g * feeBps / 10000

/-- The `while` loop, its condition evaluated at most `fuel` times. -/
def grossLoop (netMicro feeBps : Nat) : Nat → Nat → Option Nat
  | 0, _ => none
  | fuel + 1, g =>
    if afterFee g feeBps < netMicro then grossLoop netMicro feeBps fuel (g + 1) else some g

/-- `grossForNet`. -/
def grossForNet (fuel netMicro feeBps : Nat) : Option Nat :=
  grossLoop netMicro feeBps fuel (netMicro * 10000 / (10000 - feeBps))

/-- **What the amount is for**: the loop ends, a transfer of the amount credits exactly `netMicro`, and
a transfer of any smaller one credits less. -/
def GrossMinimal (netMicro feeBps : Nat) : Prop :=
  ∃ fuel g split, grossForNet fuel netMicro feeBps = some g ∧
    charge (.transfer feeBps) g = .ok split ∧ split.netMicro = netMicro ∧
      ∀ less split', less < g → charge (.transfer feeBps) less = .ok split' →
        split'.netMicro < netMicro

/-! ## Two roundings -/

section Rounding

variable {netMicro feeBps : Nat}

/-- What arrives is the part that is not the fee, rounded up. -/
theorem afterFee_le_iff {g n : Nat} (hrate : feeBps ≤ 10000) :
    afterFee g feeBps ≤ n ↔ g * (10000 - feeBps) ≤ n * 10000 := by
  unfold afterFee
  rw [Nat.sub_le_iff_le_add', ← Nat.sub_le_iff_le_add, Nat.le_div_iff_mul_le (by decide), Nat.sub_mul,
    Nat.mul_sub]
  have hle : g * feeBps ≤ g * 10000 := Nat.mul_le_mul_left g hrate
  omega

/-- The start: the amount that arrives whole, less a remainder. -/
theorem start_mul (netMicro feeBps : Nat) :
    netMicro * 10000 / (10000 - feeBps) * (10000 - feeBps) +
      netMicro * 10000 % (10000 - feeBps) = netMicro * 10000 :=
  Nat.div_add_mod' _ _

/-- Exactly the net amount arrives of the start. -/
theorem afterFee_start (hrate : feeBps < 10000) :
    afterFee (netMicro * 10000 / (10000 - feeBps)) feeBps = netMicro := by
  have hstart := start_mul netMicro feeBps
  have hrest := Nat.mod_lt (netMicro * 10000) (show 0 < 10000 - feeBps by omega)
  refine le_antisymm ((afterFee_le_iff hrate.le).mpr (by omega)) ?_
  cases netMicro with
  | zero => exact Nat.zero_le _
  | succ n =>
    refine Nat.lt_of_not_le fun hle => ?_
    have hmul := (afterFee_le_iff hrate.le).mp hle
    omega

theorem grossForNet_succ (hrate : feeBps < 10000) (fuel : Nat) :
    grossForNet (fuel + 1) netMicro feeBps = some (netMicro * 10000 / (10000 - feeBps)) := by
  rw [grossForNet, grossLoop, afterFee_start hrate, if_neg (Nat.lt_irrefl _)]

/-- **The loop ends** at its start. -/
theorem grossForNet_eq (hrate : feeBps < 10000) {fuel g : Nat}
    (h : grossForNet fuel netMicro feeBps = some g) : g = netMicro * 10000 / (10000 - feeBps) := by
  cases fuel with
  | zero => cases h
  | succ fuel =>
    rw [grossForNet_succ hrate, Option.some.injEq] at h
    exact h.symm

/-- Less arrives of every amount below the start exactly if the rounding left the fee rate at least. -/
theorem start_minimal_iff (hrate : feeBps < 10000) :
    (∀ less < netMicro * 10000 / (10000 - feeBps), afterFee less feeBps < netMicro) ↔
      netMicro = 0 ∨ feeBps ≤ netMicro * 10000 % (10000 - feeBps) := by
  have hstart := start_mul netMicro feeBps
  have hrest := Nat.mod_lt (netMicro * 10000) (show 0 < 10000 - feeBps by omega)
  cases netMicro with
  | zero => simp
  | succ n =>
    generalize (n + 1) * 10000 / (10000 - feeBps) = start at hstart ⊢
    generalize (n + 1) * 10000 % (10000 - feeBps) = rest at hstart hrest ⊢
    have hbelow : ∀ less, afterFee less feeBps < n + 1 ↔ less * (10000 - feeBps) ≤ n * 10000 :=
      fun less => Nat.lt_succ_iff.trans (afterFee_le_iff hrate.le)
    have hpos : 0 < start := by
      refine Nat.pos_of_ne_zero ?_
      rintro rfl
      omega
    -- the amount just below the start decides
    have hpred : (start - 1) * (10000 - feeBps) + (10000 - feeBps) = start * (10000 - feeBps) := by
      rw [← Nat.succ_mul, Nat.succ_eq_add_one, Nat.sub_add_cancel hpos]
    constructor
    · intro h
      have hlast := (hbelow _).mp (h (start - 1) (Nat.sub_lt hpos Nat.one_pos))
      exact Or.inr (by omega)
    · rintro (h | h)
      · cases h
      · intro less hless
        rw [hbelow]
        have hmul : less * (10000 - feeBps) ≤ (start - 1) * (10000 - feeBps) :=
          Nat.mul_le_mul_right _ (Nat.le_sub_one_of_lt hless)
        omega

end Rounding

/-! ## The transfer -/

section Transfer

variable {netMicro feeBps : Nat}

theorem rate_lt_denom (hmax : feeBps ≤ transferFeeBpsMax) : feeBps < 10000 :=
  Nat.lt_of_le_of_lt hmax (by decide)

/-- What a transfer credits is what the page reckons with. -/
theorem credited_eq {amount : Nat} {split : FeeSplit}
    (h : charge (.transfer feeBps) amount = .ok split) : split.netMicro = afterFee amount feeBps := by
  obtain ⟨-, -, rfl⟩ := charge_transfer_eq_ok.mp h
  rfl

/-- **Exactly the grant arrives**, at every rate and amount. -/
theorem gross_arrives (hmin : transferFeeBpsMin ≤ feeBps) (hmax : feeBps ≤ transferFeeBpsMax)
    (hlimit : ∀ fuel g, grossForNet fuel netMicro feeBps = some g → g ≤ maxSupplyMicro) :
    ∃ fuel g split, grossForNet fuel netMicro feeBps = some g ∧
      charge (.transfer feeBps) g = .ok split ∧ split.netMicro = netMicro := by
  have hgross : grossForNet 1 netMicro feeBps = some (netMicro * 10000 / (10000 - feeBps)) :=
    grossForNet_succ (rate_lt_denom hmax) 0
  have hcharge := charge_transfer_eq_ok.mpr ⟨hlimit 1 _ hgross, ⟨hmin, hmax⟩, rfl⟩
  exact ⟨1, _, _, hgross, hcharge, (credited_eq hcharge).trans (afterFee_start (rate_lt_denom hmax))⟩

/-- **When the gross amount is minimal**: at every rate and every net amount whose gross may be charged,
exactly if the net amount is 0 or its 10000-fold leaves a remainder of at least the rate, divided by
10000 less the rate. -/
theorem gross_minimal_iff (hmin : transferFeeBpsMin ≤ feeBps) (hmax : feeBps ≤ transferFeeBpsMax)
    (hlimit : ∀ fuel g, grossForNet fuel netMicro feeBps = some g → g ≤ maxSupplyMicro) :
    GrossMinimal netMicro feeBps ↔
      netMicro = 0 ∨ feeBps ≤ netMicro * 10000 % (10000 - feeBps) := by
  have hrate := rate_lt_denom hmax
  rw [← start_minimal_iff hrate]
  constructor
  · rintro ⟨fuel, g, split, hgross, -, -, hless⟩ less hlt
    have hg := hlimit fuel g hgross
    rw [← grossForNet_eq hrate hgross] at hlt
    have hcharge := charge_transfer_eq_ok.mpr ⟨hlt.le.trans hg, ⟨hmin, hmax⟩, rfl⟩
    rw [← credited_eq hcharge]
    exact hless less _ hlt hcharge
  · intro hless
    obtain ⟨fuel, g, split, hgross, hcharge, hnet⟩ := gross_arrives hmin hmax hlimit
    refine ⟨fuel, g, split, hgross, hcharge, hnet, fun less split' hlt hcharge' => ?_⟩
    rw [credited_eq hcharge']
    rw [grossForNet_eq hrate hgross] at hlt
    exact hless less hlt

end Transfer

/-- A whole grant of 10 at the rate of 100: the gross is minimal. -/
theorem gross_minimal_grant : GrossMinimal 10000000 100 := by
  have hrate : (100 : Nat) < 10000 := by decide
  refine (gross_minimal_iff (by decide) (by decide) fun fuel g h => ?_).mpr (Or.inr (by decide))
  rw [grossForNet_eq hrate h]
  decide

/-- Of 99 and of 100 the same arrives, and the page sends 100. -/
theorem gross_not_minimal : grossForNet 1 99 100 = some 100 ∧ afterFee 99 100 = 99 ∧
    ¬ GrossMinimal 99 100 := by
  have hrate : (100 : Nat) < 10000 := by decide
  have hsame : charge (.transfer 100) 99 = .ok ⟨99, 0, 0, 0⟩ := by decide
  refine ⟨by decide, by decide, ?_⟩
  rintro ⟨fuel, g, split, hgross, -, -, hless⟩
  have hlt := hless 99 _ (by rw [grossForNet_eq hrate hgross]; decide) hsame
  exact absurd hlt (by decide)

end TetCore.Payouts
