import TetCore.Ledger.Restore

/-!
# Imports that fail

`import_snapshot_json_v1` clears three trees, writes the totals, the balances and the bonds, and reads
the rows of `vest_locks` last, one by one. Its only error after the first write is a row that is no
`VestLockV1`; the rows before it are in the ledger by then (`import_err`).

* `Restates`: a snapshot whose part before that row says what the ledger holds already.
* `import_keeps_iff`: a failed import leaves the balances, the bonds, the vesting locks and the
  counters as they were exactly when every row of `vest_locks` can be read or the snapshot restates
  the ledger.
* `import_loses_balances`: one row that cannot be read, and no balance is left.
-/

namespace TetCore

open TetCore.Lib

namespace Ledger

/-- The rows of a snapshot's `vest_locks`. -/
def vestLockRows (v : JsonValue) : List JsonValue :=
  ((v.get "vest_locks".toList).bind JsonValue.asArray).getD []

/-- The locks before the first row that is none. -/
def locksBefore : List JsonValue → List VestLockV1
  | [] => []
  | x :: xs =>
    match parseVestLock x with
    | some row => row :: locksBefore xs
    | none => []

/-- The counters an import writes before it reads the locks, with their names in a snapshot. -/
def importedCounters : List (MetaKey × String) :=
  [(.totalSupply, "total_supply_micro"), (.feeTotal, "fee_total_micro"),
    (.totalBurned, "total_burned_micro"), (.workerCommunity, "worker_community_mint_micro")]

/-- The balances, the bonds, the vesting locks and the counters of `D'` are those of `D`. -/
structure Untouched (D D' : LedgerDb) : Prop where
  balances : D'.ledger.balances = D.ledger.balances
  workerStakes : D'.ledger.workerStakes = D.ledger.workerStakes
  vestLocks : D'.ledger.vestLocks = D.ledger.vestLocks
  counters : ∀ k : MetaKey, k.isCounter = true →
    D'.ledger.metaU64OrZero k = D.ledger.metaU64OrZero k
  fiat : D'.fiat = D.fiat

/-- An import that fails has changed none of these. -/
def AllOrNothing (J : SerdeJson) (jsonBytes : Bytes) (D : LedgerDb) : Prop :=
  ∀ e D', importSnapshotJsonV1 J jsonBytes D = (.err e, D') → Untouched D D'

/-- Up to the first row that is no lock, the snapshot says what the ledger holds. -/
structure Restates (v : JsonValue) (D : LedgerDb) : Prop where
  balances : D.ledger.balances = Tree.empty.applyBatch (rowsOf v "balances")
  workerStakes : D.ledger.workerStakes = Tree.empty.applyBatch (rowsOf v "worker_stakes")
  vestLocks : D.ledger.vestLocks = Tree.empty.applyBatch (renumber 0 (locksBefore (vestLockRows v)))
  counters : ∀ c ∈ importedCounters, D.ledger.metaU64OrZero c.1 = totalOf v c.2
  fiat : D.fiat = ⟨totalOf v "chf_deposits_micro", totalOf v "fiat_mint_stevemon_micro"⟩

section Imports

variable {J : SerdeJson} {v : JsonValue} {D D' M : LedgerDb}

/-! ## The loop over the locks -/

theorem locksBefore_cons {x : JsonValue} {row : VestLockV1} (xs : List JsonValue)
    (h : parseVestLock x = some row) : locksBefore (x :: xs) = row :: locksBefore xs := by
  rw [locksBefore, h]

/-- **The loop fails** exactly when a row is no lock, and has written the locks before it. -/
theorem importVestLocks_err (J : SerdeJson) : ∀ (xs : List JsonValue) (i : Nat) (M : LedgerDb),
    (∃ e M', importVestLocks J i xs M = (.err e, M')) ↔ ∃ x ∈ xs, parseVestLock x = none := by
  intro xs
  induction xs with
  | nil =>
    intro i M
    constructor
    · rintro ⟨e, M', h⟩
      cases h
    · rintro ⟨x, hx, -⟩
      cases hx
  | cons x xs ih =>
    intro i M
    cases hparse : parseVestLock x with
    | none =>
      refine iff_of_true ⟨.invalid (J.vestLockError x), M, ?_⟩ ⟨x, List.mem_cons_self, hparse⟩
      simp only [importVestLocks, Proc.bind_apply, Proc.check, hparse, id_eq]
    | some row =>
      have hfirst : ∀ e M', importVestLocks J i (x :: xs) M = (.err e, M') ↔
          importVestLocks J (i + 1) xs { M with ledger := { M.ledger with
            vestLocks := M.ledger.vestLocks.insert (vestLockKey (satAdd i 1)) row } } =
              (.err e, M') := by
        intro e M'
        simp only [importVestLocks, Proc.bind_apply, Proc.check, hparse, Proc.write_apply]
      simp only [hfirst, ih, List.exists_mem_cons_iff, hparse, reduceCtorEq, false_or]

theorem importVestLocks_leaves (J : SerdeJson) {e : LedgerError} :
    ∀ (xs : List JsonValue) (i : Nat) {M M' : LedgerDb},
      importVestLocks J i xs M = (.err e, M') →
        M' = { M with ledger := { M.ledger with
          vestLocks := M.ledger.vestLocks.applyBatch (renumber i (locksBefore xs)) } } := by
  intro xs
  induction xs with
  | nil =>
    intro i M M' h
    cases h
  | cons x xs ih =>
    intro i M M' h
    cases hparse : parseVestLock x with
    | none =>
      simp only [importVestLocks, Proc.bind_apply, Proc.check, hparse, Prod.mk.injEq] at h
      rw [locksBefore, hparse, ← h.2]
      rfl
    | some row =>
      simp only [importVestLocks, Proc.bind_apply, Proc.check, hparse, Proc.write_apply] at h
      rw [locksBefore_cons xs hparse]
      exact ih (i + 1) h

/-! ## The import -/

/-- The ledger when the loop over the locks begins. -/
def imported (v : JsonValue) (D : LedgerDb) : LedgerDb :=
  let M := importTotals v { D with ledger := { D.ledger with
    balances := .empty, vestLocks := .empty, workerStakes := .empty } }
  { M with ledger := { M.ledger with
    balances := M.ledger.balances.applyBatch (rowsOf v "balances")
    workerStakes := M.ledger.workerStakes.applyBatch (rowsOf v "worker_stakes") } }

/-- **An import that fails** was refused before it wrote, or stands at a row that is no lock. -/
theorem import_err {jsonBytes : Bytes} {e : LedgerError}
    (h : importSnapshotJsonV1 J jsonBytes D = (.err e, D')) :
    D' = D ∨ ∃ v, J.fromSlice jsonBytes = .ok v ∧ totalOf v "v" = 1 ∧
      ∃ x ∈ vestLockRows v, parseVestLock x = none := by
  unfold importSnapshotJsonV1 at h
  rcases Proc.bind_eq_err_iff.mp h with hparse | ⟨v, s, hparse, h⟩
  · exact Or.inl (Proc.check_eq_err_iff.mp hparse).2.symm
  obtain ⟨hread, rfl⟩ := Proc.check_eq_ok_iff.mp hparse
  rcases Proc.bind_eq_err_iff.mp h with hcheck | ⟨_, s, hcheck, h⟩
  · exact Or.inl (Proc.check_eq_err_iff.mp hcheck).2.symm
  obtain ⟨hrequire, rfl⟩ := Proc.check_eq_ok_iff.mp hcheck
  have hversion := require_eq_ok.mp hrequire
  right
  simp only [Proc.bind_apply, Proc.write_apply] at h
  cases harr : (v.get "vest_locks".toList).bind JsonValue.asArray with
  | none =>
    rw [harr] at h
    cases h
  | some arr =>
    have hrows : vestLockRows v = arr := by
      unfold vestLockRows
      rw [harr, Option.getD_some]
    rw [harr] at h
    rcases Proc.bind_eq_err_iff.mp h with hloop | ⟨_, s, -, h⟩
    · exact ⟨v, hread, hversion, hrows ▸ (importVestLocks_err J arr 0 _).mp ⟨e, D', hloop⟩⟩
    · cases h

/-! ## What the ledger holds by then -/

theorem imported_trees (v : JsonValue) (D : LedgerDb) :
    (imported v D).ledger.balances = Tree.empty.applyBatch (rowsOf v "balances") ∧
      (imported v D).ledger.workerStakes = Tree.empty.applyBatch (rowsOf v "worker_stakes") ∧
      (imported v D).ledger.vestLocks = Tree.empty := by
  unfold imported importTotals
  cases founderOf v with
  | none => exact ⟨rfl, rfl, rfl⟩
  | some fw => exact ⟨rfl, rfl, rfl⟩

theorem imported_fiat (v : JsonValue) (D : LedgerDb) : (imported v D).fiat =
    ⟨totalOf v "chf_deposits_micro", totalOf v "fiat_mint_stevemon_micro"⟩ := rfl

/-- The rows of `meta` then. -/
theorem imported_metaTree (v : JsonValue) (D : LedgerDb) : ∃ M : Ledger,
    (imported v D).ledger.metaTree = M.metaTree.applyBatch
      (importedCounters.map fun c => (c.1, .u64 (totalOf v c.2))) ∧
    ∀ k, k ≠ MetaKey.founderWallet → M.metaTree.get k = D.ledger.metaTree.get k := by
  unfold imported importTotals
  cases founderOf v with
  | none => exact ⟨D.ledger, rfl, fun k _ => rfl⟩
  | some fw =>
    exact ⟨D.ledger.putRow .founderWallet (.text fw), rfl, fun k hk => Tree.get_insert_ne hk.symm⟩

theorem counter_imported (v : JsonValue) (D : LedgerDb) {c : MetaKey × String}
    (hc : c ∈ importedCounters) : (imported v D).ledger.metaU64OrZero c.1 = totalOf v c.2 := by
  obtain ⟨M, hmeta, -⟩ := imported_metaTree v D
  have hnames : (importedCounters.map Prod.fst).Nodup := by decide
  have hget := Tree.get_applyBatch_of_mem (k := c.1) (v := .u64 (totalOf v c.2)) (importedCounters.map
    fun c => (c.1, MetaVal.u64 (totalOf v c.2))) M.metaTree ?_ (Or.inr ?_)
  · unfold metaU64OrZero
    rw [hmeta, hget]
    rfl
  · intro u hu
    obtain ⟨d, hd, heq⟩ := List.mem_map.mp hu
    obtain ⟨hfst, rfl⟩ := Prod.mk.inj heq
    rw [List.inj_on_of_nodup_map hnames hd hc hfst]
  · rw [List.map_map]
    exact List.mem_map_of_mem hc

theorem counter_kept (v : JsonValue) (D : LedgerDb) {k : MetaKey} (hk : k.isCounter = true)
    (hout : k ∉ importedCounters.map Prod.fst) :
    (imported v D).ledger.metaU64OrZero k = D.ledger.metaU64OrZero k := by
  obtain ⟨M, hmeta, hM⟩ := imported_metaTree v D
  have hfounder : k ≠ .founderWallet := by
    rintro rfl
    cases hk
  unfold metaU64OrZero
  rw [hmeta, Tree.get_applyBatch_of_notMem, hM k hfounder]
  rw [List.map_map]
  exact hout

theorem import_err_of_row {jsonBytes : Bytes} (hread : J.fromSlice jsonBytes = .ok v)
    (hversion : totalOf v "v" = 1) (hrow : ∃ x ∈ vestLockRows v, parseVestLock x = none) :
    ∃ e, importSnapshotJsonV1 J jsonBytes D = (.err e, { imported v D with ledger :=
      { (imported v D).ledger with
        vestLocks := Tree.empty.applyBatch (renumber 0 (locksBefore (vestLockRows v))) } }) := by
  obtain ⟨e, M', hloop⟩ := (importVestLocks_err J (vestLockRows v) 0 (imported v D)).mpr hrow
  have hleft := importVestLocks_leaves J _ 0 hloop
  refine ⟨e, ?_⟩
  cases harr : (v.get "vest_locks".toList).bind JsonValue.asArray with
  | none =>
    obtain ⟨x, hx, -⟩ := hrow
    unfold vestLockRows at hx
    rw [harr] at hx
    cases hx
  | some arr =>
    have hrows : vestLockRows v = arr := by
      unfold vestLockRows
      rw [harr, Option.getD_some]
    rw [hrows] at hloop hleft ⊢
    simp only [importSnapshotJsonV1, Proc.bind_apply, Proc.check, hread, require, if_pos hversion,
      Proc.write_apply, harr]
    unfold imported at hloop
    simp only at hloop
    rw [hloop, hleft, (imported_trees v D).2.2]

/-- With a row that is no lock, an import keeps what the ledger holds if the snapshot restates it. -/
theorem allOrNothing_of_row {jsonBytes : Bytes} (hread : J.fromSlice jsonBytes = .ok v)
    (hversion : totalOf v "v" = 1) (hrow : ∃ x ∈ vestLockRows v, parseVestLock x = none) :
    AllOrNothing J jsonBytes D ↔ Restates v D := by
  obtain ⟨e, hrun⟩ := import_err_of_row (D := D) hread hversion hrow
  obtain ⟨hbalances, hstakes, -⟩ := imported_trees v D
  unfold AllOrNothing
  rw [hrun]
  constructor
  · intro h
    have huntouched := h e _ rfl
    refine ⟨huntouched.balances.symm.trans hbalances, huntouched.workerStakes.symm.trans hstakes,
      huntouched.vestLocks.symm, fun c hc => ?_, huntouched.fiat.symm.trans (imported_fiat v D)⟩
    have hcounter : c.1.isCounter = true := by
      revert c
      decide
    exact (huntouched.counters c.1 hcounter).symm.trans (counter_imported v D hc)
  · rintro h e' D' heq
    obtain ⟨-, rfl⟩ := Prod.mk.inj heq
    refine ⟨hbalances.trans h.balances.symm, hstakes.trans h.workerStakes.symm, h.vestLocks.symm,
      fun k hk => ?_, (imported_fiat v D).trans h.fiat.symm⟩
    by_cases hout : k ∈ importedCounters.map Prod.fst
    · obtain ⟨c, hc, rfl⟩ := List.mem_map.mp hout
      exact (counter_imported v D hc).trans (h.counters c hc).symm
    · exact counter_kept v D hk hout

/-- **A failed import keeps** the balances, the bonds, the vesting locks and the counters exactly when
no row of `vest_locks` is malformed, or the snapshot restates the ledger up to the first such row. -/
theorem import_keeps_iff (J : SerdeJson) (jsonBytes : Bytes) (D : LedgerDb) :
    AllOrNothing J jsonBytes D ↔
      ∀ v, J.fromSlice jsonBytes = .ok v → totalOf v "v" = 1 →
        (∀ x ∈ vestLockRows v, parseVestLock x ≠ none) ∨ Restates v D := by
  constructor
  · intro h v hread hversion
    by_cases hrow : ∃ x ∈ vestLockRows v, parseVestLock x = none
    · exact Or.inr ((allOrNothing_of_row hread hversion hrow).mp h)
    · exact Or.inl fun x hx hnone => hrow ⟨x, hx, hnone⟩
  · intro h e D' hrun
    rcases import_err hrun with rfl | ⟨v, hread, hversion, hrow⟩
    · exact ⟨rfl, rfl, rfl, fun k _ => rfl, rfl⟩
    · rcases h v hread hversion with hall | hrestates
      · obtain ⟨x, hx, hnone⟩ := hrow
        exact absurd hnone (hall x hx)
      · exact (allOrNothing_of_row hread hversion hrow).mpr hrestates e D' hrun

end Imports

end Ledger

namespace Sample

/-- A snapshot with nothing but a lock that is none. -/
def brokenSnapshot : JsonValue :=
  .obj [("v".toList, .num 1), ("vest_locks".toList, .arr [.null])]

/-- A parser that reads it. -/
def brokenSerde : Ledger.SerdeJson where
  fromSlice b := if b = utf8 brokenSnapshot.text then .ok brokenSnapshot else .error "expected value"
  vestLockError _ := "invalid type: null, expected struct VestLockV1"

theorem brokenSerde_reads :
    brokenSerde.fromSlice (utf8 brokenSnapshot.text) = .ok brokenSnapshot := by
  simp only [brokenSerde, if_true]

end Sample

namespace Ledger

/-- The balances are gone when a lock cannot be read. -/
theorem import_loses_balances :
    ¬AllOrNothing Sample.brokenSerde (utf8 Sample.brokenSnapshot.text) Sample.stakedDb := by
  intro h
  have hall : totalOf Sample.brokenSnapshot "v" = 1 ∧
      vestLockRows Sample.brokenSnapshot = [.null] ∧
      rowsOf Sample.brokenSnapshot "balances" = [] := ⟨rfl, rfl, rfl⟩
  obtain ⟨hversion, hrows, hbalances⟩ := hall
  have hrow : ∃ x ∈ vestLockRows Sample.brokenSnapshot, parseVestLock x = none := by
    rw [hrows]
    exact ⟨.null, List.mem_singleton_self _, rfl⟩
  have hempty := ((allOrNothing_of_row Sample.brokenSerde_reads hversion hrow).mp h).balances
  rw [hbalances] at hempty
  have hbob : (Sample.staked.balances.get Sample.bob).getD 0 ≠ 0 := by decide +kernel
  have hnone : Sample.stakedDb.ledger.balances.get Sample.bob = none := by
    rw [hempty]
    exact Tree.get_empty _
  exact hbob (congrArg (fun o => o.getD 0) hnone)

end Ledger

end TetCore
