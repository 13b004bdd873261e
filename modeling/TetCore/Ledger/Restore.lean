import TetCore.Ledger.Snapshot

/-!
# Restored ledgers

What a ledger is after the snapshot of another one was imported over it (`restored`). A snapshot that
has an unlock time above the range of a `u64` cannot be imported (`unlocks_of_import`).

* `import_ok`: the import of a snapshot succeeds and leaves `restored`.
* `snapshot_round_trip_iff`: the import gives the ledger back exactly when the rows that are not in a
  snapshot already agree.
* `snapshot_loses_stakes`: a stake that is lost.
-/

namespace TetCore

open TetCore.Lib

namespace Ledger

/-! ## Locks -/

/-- What the vesting locks of a wallet add up to. -/
def vestLocked (L : Ledger) (peer : Str) (nowMs : Nat) : Nat :=
  ((L.vestLocks.iter.filter fun row =>
    row.2.wallet == trim peer && decide (nowMs < row.2.unlockAtMs)).map
      (·.2.amountMicro)).foldl satAdd 0

/-- What is locked of the genesis allocation of a wallet. -/
def genesisLocked (L : Ledger) (peer : Str) (nowMs : Nat) : Nat :=
  let unlockAt := L.metaU64OrZero .founderGenesisUnlockAtMs
  let isFounder := match L.founderWallet with
    | .ok founder => !(trim peer).isEmpty && founder == trim peer
    | .error _ => false
  if isFounder && decide (0 < unlockAt) && decide (nowMs < unlockAt) then
    L.metaU64OrZero .founderGenesisLockedMicro
  else 0

section Locks

variable {L L' : Ledger}

theorem foldl_satAdd_eq : ∀ (l : List Nat) (a : Nat), a ≤ u64Max →
    l.foldl satAdd a = min (a + l.sum) u64Max := by
  intro l
  induction l with
  | nil =>
    intro a ha
    rw [List.foldl_nil, List.sum_nil]
    omega
  | cons n l ih =>
    intro a ha
    rw [List.foldl_cons, ih _ (satAdd_le _ _), List.sum_cons]
    unfold satAdd
    omega

theorem foldl_ite_append (c : Prop) [Decidable c] (l : List Nat) (n : Nat) :
    (if c then l ++ [n] else l).foldl satAdd 0 =
      satAdd (l.foldl satAdd 0) (if c then n else 0) := by
  split
  · rw [List.foldl_append]
    rfl
  · rw [foldl_satAdd_eq _ 0 (Nat.zero_le _)]
    unfold satAdd
    omega

/-- **What is locked** is the part of the vesting locks and the part of the genesis allocation. -/
theorem lockedMicro_eq (L : Ledger) (w : Str) (t : Nat) :
    L.lockedMicro w t = satAdd (L.vestLocked w t) (L.genesisLocked w t) :=
  foldl_ite_append _ _ _

/-- The weight of a lock in what is locked for a wallet. -/
def lockWeight (peer : Str) (nowMs : Nat) (row : VestLockV1) : Nat :=
  if row.wallet == trim peer && decide (nowMs < row.unlockAtMs) then row.amountMicro else 0

theorem sum_filter_map {α : Type} (p : α → Bool) (f : α → Nat) (l : List α) :
    ((l.filter p).map f).sum = (l.map fun a => if p a = true then f a else 0).sum := by
  induction l with
  | nil => rfl
  | cons a l ih =>
    rw [List.filter_cons, List.map_cons, List.sum_cons]
    split
    · rw [List.map_cons, List.sum_cons, ih]
    · rw [ih, Nat.zero_add]

/-- The locks of a wallet in the terms of a sum over the tree. -/
theorem vestLocked_eq (L : Ledger) (w : Str) (t : Nat) :
    L.vestLocked w t = min (L.vestLocks.sumBy fun _ row => lockWeight w t row) u64Max := by
  unfold vestLocked
  rw [foldl_satAdd_eq _ 0 (Nat.zero_le _), sum_filter_map, Nat.zero_add]
  rfl

/-- The part of the genesis allocation is read off three rows. -/
theorem genesisLocked_congr (hfounder : L'.founderWallet = L.founderWallet)
    (hunlock : L'.metaU64OrZero .founderGenesisUnlockAtMs =
      L.metaU64OrZero .founderGenesisUnlockAtMs)
    (hlocked : L'.metaU64OrZero .founderGenesisLockedMicro =
      L.metaU64OrZero .founderGenesisLockedMicro) (w : Str) (t : Nat) :
    L'.genesisLocked w t = L.genesisLocked w t := by
  unfold genesisLocked
  rw [hfounder, hunlock, hlocked]

end Locks

/-! ## The restored ledger -/

/-- A ledger under the founder's name that a snapshot of `L` carries. -/
def withFounderOf (L M : Ledger) : Ledger :=
  { M with metaTree :=
      if (trim (valueOr L.founderWallet [])).isEmpty then M.metaTree
      else M.metaTree.insert .founderWallet (.text (valueOr L.founderWallet [])) }

/-- A ledger with the totals that a snapshot of `L` carries. -/
def withTotalsOf (L M : Ledger) : Ledger :=
  (((M.putRow .totalSupply (.u64 (L.metaU64OrZero .totalSupply))).putRow
    .feeTotal (.u64 (L.metaU64OrZero .feeTotal))).putRow
    .totalBurned (.u64 (L.metaU64OrZero .totalBurned))).putRow
    .workerCommunity (.u64 (L.metaU64OrZero .workerCommunity))

/-- `M` after an import of the snapshot of `L`. -/
def restored (L M : Ledger) : Ledger :=
  { (L.withTotalsOf (L.withFounderOf M)).putRow .nextVestSeq (.u64 L.exportedLocks.length) with
    balances := L.balances
    workerStakes := L.workerStakes
    vestLocks := Tree.empty.applyBatch (renumber 0 L.exportedLocks) }

section Import

variable {W : World} {J : SerdeJson} {D M : LedgerDb} {L K : Ledger}

theorem founderOf_snapshot (D : LedgerDb) : founderOf (snapshot D) =
    if (trim (valueOr D.ledger.founderWallet [])).isEmpty then none
    else some (valueOr D.ledger.founderWallet []) := by
  unfold founderOf
  rw [get_head (v := .str (valueOr D.ledger.founderWallet [])) rfl]
  show Option.filter _ (some _) = _
  rw [Option.filter_some]
  cases (trim (valueOr D.ledger.founderWallet [])).isEmpty <;> rfl

theorem totalOf_snapshot (name : String) {n : Nat}
    (h : (JsonValue.obj (snapshotHead D)).get name.toList = some (.num n)) :
    totalOf (snapshot D) name = n := by
  unfold totalOf
  rw [get_head h]
  rfl

/-- The rows of `meta` that an import of a snapshot writes before the trees. -/
theorem importTotals_snapshot (D M : LedgerDb) : importTotals (snapshot D) M =
    ⟨D.ledger.withTotalsOf (D.ledger.withFounderOf M.ledger), D.fiat⟩ := by
  unfold importTotals
  simp only [founderOf_snapshot]
  rw [totalOf_snapshot "total_supply_micro" rfl,
    totalOf_snapshot "fee_total_micro" rfl,
    totalOf_snapshot "total_burned_micro" rfl,
    totalOf_snapshot "worker_community_mint_micro" rfl,
    totalOf_snapshot "chf_deposits_micro" rfl,
    totalOf_snapshot "fiat_mint_stevemon_micro" rfl]
  unfold withTotalsOf withFounderOf
  by_cases hblank : (trim (valueOr D.ledger.founderWallet [])).isEmpty = true
  · simp only [if_pos hblank]
  · simp only [if_neg hblank]
    rfl

theorem balances_carried (L M : Ledger) :
    (L.withTotalsOf (L.withFounderOf M)).balances = M.balances := rfl

theorem workerStakes_carried (L M : Ledger) :
    (L.withTotalsOf (L.withFounderOf M)).workerStakes = M.workerStakes := rfl

/-- **An import of a snapshot** whose unlock times can be read. -/
theorem import_ok (hv : ∀ row ∈ D.ledger.exportedLocks, row.v = 1)
    (hunlock : ∀ row ∈ D.ledger.exportedLocks, row.unlockAtMs ≤ u64Max)
    (hjson : J.fromSlice (buildSnapshotBytes D) = .ok (snapshot D)) :
    importSnapshotJsonV1 J (buildSnapshotBytes D) M =
      (.ok (), ⟨D.ledger.restored M.ledger, D.fiat⟩) := by
  have hversion : totalOf (snapshot D) "v" = 1 := totalOf_snapshot "v" rfl
  have hlocks := vestLocks_snapshot D
  by_cases hempty : D.ledger.exportedLocks.map vestLockValue = []
  · rw [if_pos hempty] at hlocks
    simp only [importSnapshotJsonV1, Proc.bind_apply, Proc.check, hjson, hversion, require,
      if_true, Proc.write_apply, importTotals_snapshot, rowsOf_balances, rowsOf_workerStakes,
      balances_carried, workerStakes_carried, Tree.applyBatch_iter, hlocks]
    unfold restored
    rw [List.map_eq_nil_iff.mp hempty]
    rfl
  · rw [if_neg hempty] at hlocks
    simp only [importSnapshotJsonV1, Proc.bind_apply, Proc.check, hjson, hversion, require,
      if_true, Proc.write_apply, importTotals_snapshot, rowsOf_balances, rowsOf_workerStakes,
      balances_carried, workerStakes_carried, Tree.applyBatch_iter, hlocks,
      importVestLocks_ok J D.ledger.exportedLocks 0 _ fun row hr => ⟨hv row hr, hunlock row hr⟩,
      List.length_map]
    rfl

/-- A snapshot that is imported has no unlock time above the range of a `u64`. -/
theorem unlocks_of_import {D' : LedgerDb} (hv : ∀ row ∈ D.ledger.exportedLocks, row.v = 1)
    (hjson : J.fromSlice (buildSnapshotBytes D) = .ok (snapshot D))
    (h : importSnapshotJsonV1 J (buildSnapshotBytes D) M = (.ok (), D')) :
    ∀ row ∈ D.ledger.exportedLocks, row.unlockAtMs ≤ u64Max := by
  have hlocks := vestLocks_snapshot D
  by_cases hempty : D.ledger.exportedLocks.map vestLockValue = []
  · rw [List.map_eq_nil_iff.mp hempty]
    exact fun row hrow => absurd hrow List.not_mem_nil
  · rw [if_neg hempty] at hlocks
    simp only [importSnapshotJsonV1, Proc.bind_eq_ok_iff, Proc.check_eq_ok_iff, hjson] at h
    obtain ⟨v, _, ⟨hread, -⟩, _, _, -, _, _, -, _, _, -, _, _, -, h⟩ := h
    cases hread
    rw [hlocks] at h
    simp only [Proc.bind_eq_ok_iff] at h
    obtain ⟨_, _, hloop, -⟩ := h
    exact unlocks_of_importVestLocks hv hloop

end Import

/-! ## What a restored ledger has of which ledger -/

section Restored

variable {W : World} {J : SerdeJson} {D M : LedgerDb} {L K : Ledger}

theorem restored_metaTree (L K : Ledger) : (L.restored K).metaTree =
    ((L.withTotalsOf (L.withFounderOf K)).putRow .nextVestSeq
      (.u64 L.exportedLocks.length)).metaTree := rfl

/-- A row that is none of the totals. -/
theorem get_restored {k : MetaKey} (h : k ∉ [MetaKey.totalSupply, .feeTotal, .totalBurned,
    .workerCommunity, .nextVestSeq]) :
    (L.restored K).metaTree.get k = (L.withFounderOf K).metaTree.get k := by
  simp only [List.mem_cons, List.not_mem_nil, or_false, not_or] at h
  obtain ⟨hsupply, hfee, hburned, hcommunity, hseq⟩ := h
  rw [restored_metaTree]
  simp only [withTotalsOf, putRow, Tree.get_insert_ne (Ne.symm hsupply),
    Tree.get_insert_ne (Ne.symm hfee), Tree.get_insert_ne (Ne.symm hburned),
    Tree.get_insert_ne (Ne.symm hcommunity), Tree.get_insert_ne (Ne.symm hseq)]

/-- The totals of a snapshot. -/
theorem metaU64_restored {k : MetaKey} (h : k ∈ [MetaKey.totalSupply, .feeTotal, .totalBurned]) :
    (L.restored K).metaU64OrZero k = L.metaU64OrZero k := by
  unfold metaU64OrZero
  rw [restored_metaTree]
  simp only [List.mem_cons, List.not_mem_nil, or_false] at h
  rcases h with rfl | rfl | rfl <;>
    simp [withTotalsOf, putRow, Tree.get_insert, u64Of, metaU64OrZero]

theorem supply_restored (L K : Ledger) : (L.restored K).supply = L.supply :=
  metaU64_restored List.mem_cons_self

/-- A wallet stake is the one the ledger had. -/
theorem stakedBalanceMicro_restored (L K : Ledger) (w : Str) :
    (L.restored K).stakedBalanceMicro w = K.stakedBalanceMicro w := by
  unfold stakedBalanceMicro walletStakeMetaKey metaU64OrZero
  rw [get_restored (by simp)]
  unfold withFounderOf
  simp only
  split
  · rfl
  · rw [Tree.get_insert_ne (by simp)]

/-- **The wallet stakes and the ZK-court bonds** of a restored ledger are those it had. -/
theorem held_restored (L K : Ledger) : (L.restored K).held =
    sumOf L.balances + K.metaTree.sumBy stakeWeight + sumOf L.workerStakes +
      sumOf K.zkcourtBonds := by
  have hstakes : (L.restored K).metaTree.sumBy stakeWeight = K.metaTree.sumBy stakeWeight := by
    rw [restored_metaTree]
    simp only [withTotalsOf, putRow, withFounderOf]
    rw [stakes_putRow _ _ fun w => by simp, stakes_putRow _ _ fun w => by simp,
      stakes_putRow _ _ fun w => by simp, stakes_putRow _ _ fun w => by simp,
      stakes_putRow _ _ fun w => by simp]
    split
    · rfl
    · rw [stakes_putRow _ _ fun w => by simp]
  unfold held
  rw [hstakes]
  rfl

/-- **The vesting locks** of a restored ledger are those of the snapshot. -/
theorem vestLocked_restored (h : Numbered L.vestLocks) (K : Ledger) (w : Str) (t : Nat) :
    (L.restored K).vestLocked w t = L.vestLocked w t := by
  have hsum : (L.restored K).vestLocks.sumBy (fun _ row => lockWeight w t row) =
      L.vestLocks.sumBy fun _ row => lockWeight w t row := by
    show ((Tree.empty : Tree Str VestLockV1).applyBatch (renumber 0 L.exportedLocks)).sumBy _ = _
    have hfits : 0 + L.exportedLocks.length ≤ u64Max := by
      rw [h.exported, List.length_map, Nat.zero_add]
      exact h.length_le
    rw [Tree.sumBy_applyBatch _ _ (renumber_keys _ 0 hfits).2 fun k _ => Tree.get_empty k,
      Tree.sumBy_empty, Nat.zero_add]
    have hsnd : (renumber 0 L.exportedLocks).map (fun r => lockWeight w t r.2) =
        ((renumber 0 L.exportedLocks).map Prod.snd).map (lockWeight w t) := by
      rw [List.map_map]
      rfl
    rw [hsnd, renumber_snd, h.exported, List.map_map]
    rfl
  rw [vestLocked_eq, vestLocked_eq, hsum]

/-- **The founder's genesis lock** of a restored ledger is the one it had, under the name of the
snapshot. -/
theorem genesisLocked_restored (L K : Ledger) (w : Str) (t : Nat) :
    (L.restored K).genesisLocked w t = (L.withFounderOf K).genesisLocked w t := by
  refine genesisLocked_congr ?_ ?_ ?_ w t
  · unfold founderWallet
    rw [get_restored (by simp)]
  · unfold metaU64OrZero
    rw [get_restored (by simp)]
  · unfold metaU64OrZero
    rw [get_restored (by simp)]

end Restored

/-! ## The round trip -/

/-- `L'` has the balances, totals, bonds, stakes and locks of `L`. -/
structure RestoredFrom (L L' : Ledger) : Prop where
  balances : ∀ w, L'.balanceMicro w = L.balanceMicro w
  supply : L'.supply = L.supply
  burned : L'.metaU64OrZero .totalBurned = L.metaU64OrZero .totalBurned
  fees : L'.metaU64OrZero .feeTotal = L.metaU64OrZero .feeTotal
  bonds : ∀ w, L'.workerBondMicro w = L.workerBondMicro w
  stakes : ∀ w, L'.stakedBalanceMicro w = L.stakedBalanceMicro w
  locked : ∀ w t, L'.lockedMicro w t = L.lockedMicro w t
  backed : L.held = L.supply → L'.held = L'.supply

/-- The import of the snapshot of `D` over `M` succeeds and gives the ledger of `D` back. -/
def RoundTrips (J : SerdeJson) (D M : LedgerDb) : Prop :=
  ∃ D', importSnapshotJsonV1 J (buildSnapshotBytes D) M = (.ok (), D') ∧
    RestoredFrom D.ledger D'.ledger

/-- Every unlock time of `L` can be read, and `M` has what a snapshot of `L` does not carry: the wallet
stakes, as much in stakes and ZK-court bonds, and the founder's genesis lock. -/
structure CarriedOver (L M : Ledger) : Prop where
  unlocks : ∀ row ∈ L.exportedLocks, row.unlockAtMs ≤ u64Max
  stakes : ∀ w, M.stakedBalanceMicro w = L.stakedBalanceMicro w
  /-- When the holdings of `L` are its supply. -/
  backed : L.held = L.supply → M.metaTree.sumBy stakeWeight + sumOf M.zkcourtBonds =
    L.metaTree.sumBy stakeWeight + sumOf L.zkcourtBonds
  /-- Up to what a `u64` holds. -/
  genesis : ∀ w t, satAdd (L.vestLocked w t) ((L.withFounderOf M).genesisLocked w t) =
    satAdd (L.vestLocked w t) (L.genesisLocked w t)

section RoundTrip

variable {W : World} {J : SerdeJson} {D M : LedgerDb} {L K : Ledger}

/-- **A restored ledger** is the one of the snapshot exactly when the rest agrees. -/
theorem restoredFrom_iff (h : Numbered L.vestLocks)
    (hunlock : ∀ row ∈ L.exportedLocks, row.unlockAtMs ≤ u64Max) :
    RestoredFrom L (L.restored K) ↔ CarriedOver L K := by
  have hlocked : ∀ w t, (L.restored K).lockedMicro w t =
      satAdd (L.vestLocked w t) ((L.withFounderOf K).genesisLocked w t) := by
    intro w t
    rw [lockedMicro_eq, vestLocked_restored h, genesisLocked_restored]
  have hheld := held_restored L K
  have hown : L.held = sumOf L.balances + L.metaTree.sumBy stakeWeight + sumOf L.workerStakes +
    sumOf L.zkcourtBonds := rfl
  constructor
  · intro hrestored
    refine ⟨hunlock, ?_, ?_, ?_⟩
    · intro w
      rw [← hrestored.stakes w, stakedBalanceMicro_restored]
    · intro hbacked
      have := hrestored.backed hbacked
      rw [supply_restored] at this
      omega
    · intro w t
      rw [← hlocked, hrestored.locked, lockedMicro_eq]
  · intro hcarried
    refine ⟨fun _ => rfl, supply_restored L K, metaU64_restored (by simp),
      metaU64_restored (by simp), fun _ => rfl, ?_, ?_, ?_⟩
    · intro w
      rw [stakedBalanceMicro_restored, hcarried.stakes]
    · intro w t
      rw [hlocked, hcarried.genesis, lockedMicro_eq]
    · intro hbacked
      have := hcarried.backed hbacked
      rw [supply_restored]
      omega

/-- **The round trip of a snapshot** gives a reachable ledger back exactly when the rows that are in no
snapshot already agree. -/
theorem snapshot_round_trip_iff (hL : Reachable W D.ledger)
    (hjson : J.fromSlice (buildSnapshotBytes D) = .ok (snapshot D)) :
    RoundTrips J D M ↔ CarriedOver D.ledger M.ledger := by
  have hnum := hL.numbered
  have hv : ∀ row ∈ D.ledger.exportedLocks, row.v = 1 := by
    rw [hnum.exported]
    intro row hrow
    obtain ⟨⟨k, row⟩, hr, rfl⟩ := List.mem_map.mp hrow
    exact (hnum k row (Tree.mem_iter.mp hr)).1
  constructor
  · rintro ⟨D', himport, hrestored⟩
    have hunlock := unlocks_of_import hv hjson himport
    rw [import_ok hv hunlock hjson] at himport
    cases himport
    exact (restoredFrom_iff hnum hunlock).mp hrestored
  · intro hcarried
    exact ⟨_, import_ok hv hcarried.unlocks hjson,
      (restoredFrom_iff hnum hcarried.unlocks).mpr hcarried⟩

end RoundTrip

end Ledger

namespace Sample

/-- The genesis allocation of `alice`. -/
def genesisAlice : Ledger :=
  (Ledger.applyGenesisAllocation (World.sample 0) 1 alice Ledger.empty).2

/-- Then `bob` earns 10 TET and stakes 4 of them once they are free. -/
def staked : Ledger :=
  Ledger.runOps (World.sample 0)
    [(1, .mintWorkerNetworkReward bob carol (10 * stevemon) true),
      (91 * 86400000, .stake bob (4 * stevemon) none)] genesisAlice

/-- A parser that reads what `D` is written as. -/
def serde (D : Ledger.LedgerDb) : Ledger.SerdeJson where
  fromSlice b :=
    if b = Ledger.buildSnapshotBytes D then .ok (Ledger.snapshot D) else .error "expected value"
  vestLockError _ := "invalid type"

theorem staked_reachable : Ledger.Reachable (World.sample 0) staked := by
  have hrun : Ledger.applyGenesisAllocation (World.sample 0) 1 alice Ledger.empty =
      (.ok (), genesisAlice) := Prod.ext (by decide +kernel) rfl
  exact (Ledger.Reachable.fresh.genesis hrun).runOps

theorem serde_reads (D : Ledger.LedgerDb) :
    (serde D).fromSlice (Ledger.buildSnapshotBytes D) = .ok (Ledger.snapshot D) := if_pos rfl

/-- `staked`, with no totals of another currency. -/
def stakedDb : Ledger.LedgerDb := ⟨staked, ⟨0, 0⟩⟩

end Sample

namespace Ledger

/-- The same ledger after its balances, bonds and vesting locks were lost. -/
theorem snapshot_round_trip_lost : RoundTrips (Sample.serde Sample.stakedDb) Sample.stakedDb
    ⟨{ Sample.staked with
      balances := .empty, vestLocks := .empty, workerStakes := .empty }, ⟨0, 0⟩⟩ := by
  refine (snapshot_round_trip_iff (D := Sample.stakedDb) Sample.staked_reachable
    (Sample.serde_reads _)).mpr ?_
  refine ⟨by decide +kernel, fun _ => rfl, fun _ => rfl, fun w t => congrArg _ ?_⟩
  exact genesisLocked_congr (by decide +kernel) (by decide +kernel) (by decide +kernel) w t

/-- Over a fresh ledger the stake of `bob` is lost. -/
theorem snapshot_loses_stakes :
    Reachable (World.sample 0) Sample.stakedDb.ledger ∧
      (Sample.serde Sample.stakedDb).fromSlice (buildSnapshotBytes Sample.stakedDb) =
        .ok (snapshot Sample.stakedDb) ∧
      ¬RoundTrips (Sample.serde Sample.stakedDb) Sample.stakedDb ⟨Ledger.empty, ⟨0, 0⟩⟩ := by
  refine ⟨Sample.staked_reachable, Sample.serde_reads _, ?_⟩
  rintro ⟨D', himport, hrestored⟩
  have hall : (∀ row ∈ Sample.stakedDb.ledger.exportedLocks,
        row.v = 1 ∧ row.unlockAtMs ≤ u64Max) ∧
      Sample.stakedDb.ledger.stakedBalanceMicro Sample.bob = 4 * stevemon ∧
      Ledger.empty.stakedBalanceMicro Sample.bob = 0 := by
    decide +kernel
  obtain ⟨hrows, hstaked, hempty⟩ := hall
  rw [import_ok (fun row hrow => (hrows row hrow).1) (fun row hrow => (hrows row hrow).2)
    (Sample.serde_reads _)] at himport
  cases himport
  have hstake := hrestored.stakes Sample.bob
  rw [stakedBalanceMicro_restored, hempty, hstaked] at hstake
  exact absurd hstake (by decide)

end Ledger

end TetCore
