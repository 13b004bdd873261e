import TetCore.Ledger.Spending
import TetCore.Ledger.VestLocks
import TetCore.Lib.JsonValue

/-!
# Snapshots

`build_snapshot_bytes` writes a ledger as JSON, `import_snapshot_json_v1` reads one over a ledger. The
importer replaces the balances, the worker bonds, the vesting locks and the totals. The wallet stakes,
the ZK-court bonds and the founder's genesis lock are in no snapshot: the importer leaves what the
ledger had. The founder's name is carried, unless it is blank.

The parser is a parameter (`SerdeJson`). The snapshot file the importer writes at its end is left out.

* `rowsOf_balances`, `rowsOf_workerStakes`, `vestLocks_snapshot`: what the importer reads of a snapshot.
* `importVestLocks_ok`, `unlocks_of_importVestLocks`: the locks are written in a row, under new
  numbers, exactly when every unlock time is a `u64`.
-/

namespace TetCore

open TetCore.Lib

namespace Ledger

/-- The totals of `meta` that only snapshots read. -/
structure FiatTotals where
  chfDepositsMicro : Nat
  fiatMintStevemonMicro : Nat
  deriving DecidableEq

/-- A ledger with these totals. -/
structure LedgerDb where
  ledger : Ledger
  fiat : FiatTotals

/-- What `serde_json` does when a snapshot is read. -/
structure SerdeJson where
  /-- `from_slice`. -/
  fromSlice : Bytes → Except String JsonValue
  /-- The error of `from_value` on what is no `VestLockV1`. -/
  vestLockError : JsonValue → String

/-! ## Export -/

/-- The JSON of a `VestLockV1`. -/
def vestLockValue (row : VestLockV1) : JsonValue :=
  .obj [("v".toList, .num row.v), ("wallet".toList, .str row.wallet),
    ("amount_micro".toList, .num row.amountMicro),
    ("unlock_at_ms".toList, .ofNat row.unlockAtMs)]

/-- The rows of a tree of amounts. -/
def amountRows (t : Tree Str Nat) : JsonValue :=
  .arr (t.iter.map fun r => .arr [.str r.1, .num r.2])

/-- The rows of the lock tree whose key is one of a lock. -/
def exportedLocks (L : Ledger) : List VestLockV1 :=
  (L.vestLocks.iter.filter fun r => "vl1\x00".toList.isPrefixOf r.1).map Prod.snd

/-- The members of a snapshot that are never left out. -/
def snapshotHead (D : LedgerDb) : List (Str × JsonValue) :=
  [("v".toList, .num 1),
    ("total_supply_micro".toList, .num (D.ledger.metaU64OrZero .totalSupply)),
    ("total_burned_micro".toList, .num (D.ledger.metaU64OrZero .totalBurned)),
    ("fee_total_micro".toList, .num (D.ledger.metaU64OrZero .feeTotal)),
    ("founder_wallet".toList, .str (valueOr D.ledger.founderWallet [])),
    ("worker_community_mint_micro".toList, .num (D.ledger.metaU64OrZero .workerCommunity)),
    ("chf_deposits_micro".toList, .num D.fiat.chfDepositsMicro),
    ("fiat_mint_stevemon_micro".toList, .num D.fiat.fiatMintStevemonMicro),
    ("balances".toList, amountRows D.ledger.balances)]

/-- A member that is left out when it has no items. -/
def unlessEmpty (name : Str) : JsonValue → List (Str × JsonValue)
  | .arr [] => []
  | v => [(name, v)]

/-- `Snap`. -/
def snapshot (D : LedgerDb) : JsonValue :=
  .obj (snapshotHead D ++ (unlessEmpty "worker_stakes".toList (amountRows D.ledger.workerStakes) ++
    unlessEmpty "vest_locks".toList (.arr (D.ledger.exportedLocks.map vestLockValue))))

/-- `build_snapshot_bytes`. -/
def buildSnapshotBytes (D : LedgerDb) : Bytes := utf8 (snapshot D).text

/-! ## Import -/

/-- A total of a snapshot, `0` when there is none. -/
def totalOf (v : JsonValue) (name : String) : Nat := ((v.get name.toList).bind JsonValue.asU64).getD 0

/-- The rows of an array of amounts; items without a name are passed over. -/
def rowsOf (v : JsonValue) (name : String) : List (Str × Nat) :=
  (((v.get name.toList).bind JsonValue.asArray).getD []).filterMap fun row =>
    ((row.item 0).bind JsonValue.asStr).map fun w =>
      (w, ((row.item 1).bind JsonValue.asU64).getD 0)

/-- A `VestLockV1` of its four fields. -/
def vestLockOf (v wallet amountMicro unlockAtMs : Option JsonValue) : Option VestLockV1 := do
  let v ← v.bind JsonValue.asU64
  let wallet ← wallet.bind JsonValue.asStr
  let amountMicro ← amountMicro.bind JsonValue.asU64
  let unlockAtMs ← unlockAtMs.bind JsonValue.asU64
  if v < 2 ^ 32 then some ⟨v, wallet, amountMicro, unlockAtMs⟩ else none

/-- `from_value::<VestLockV1>`: an object, or its fields in a row. -/
def parseVestLock (x : JsonValue) : Option VestLockV1 :=
  match x with
  | .arr [v, wallet, amountMicro, unlockAtMs] =>
    vestLockOf (some v) (some wallet) (some amountMicro) (some unlockAtMs)
  | .arr _ => none
  | x => vestLockOf (x.get "v".toList) (x.get "wallet".toList) (x.get "amount_micro".toList)
      (x.get "unlock_at_ms".toList)

/-- The names of a snapshot's founder, unless it is blank. -/
def founderOf (v : JsonValue) : Option Str :=
  ((v.get "founder_wallet".toList).bind JsonValue.asStr).filter fun fw => !(trim fw).isEmpty

section Import

variable (J : SerdeJson)

/-- The loop over `vest_locks`. -/
def importVestLocks : Nat → List JsonValue → Proc LedgerDb LedgerError Unit
  | _, [] => pure ()
  | i, x :: xs => do
    let row ← Proc.check id fun _ => match parseVestLock x with
      | some row => .ok row
      | none => .error (.invalid (J.vestLockError x))
    Proc.write fun D => { D with ledger := { D.ledger with
      vestLocks := D.ledger.vestLocks.insert (vestLockKey (satAdd i 1)) row } }
    importVestLocks (i + 1) xs

/-- The rows of `meta` that an import writes before the trees. -/
def importTotals (v : JsonValue) (D : LedgerDb) : LedgerDb where
  ledger :=
    let L := match founderOf v with
      | some fw => D.ledger.putRow .founderWallet (.text fw)
      | none => D.ledger
    let L := L.putRow .totalSupply (.u64 (totalOf v "total_supply_micro"))
    let L := L.putRow .feeTotal (.u64 (totalOf v "fee_total_micro"))
    let L := L.putRow .totalBurned (.u64 (totalOf v "total_burned_micro"))
    L.putRow .workerCommunity (.u64 (totalOf v "worker_community_mint_micro"))
  fiat := ⟨totalOf v "chf_deposits_micro", totalOf v "fiat_mint_stevemon_micro"⟩

/-- `import_snapshot_json_v1`. -/
def importSnapshotJsonV1 (jsonBytes : Bytes) : Proc LedgerDb LedgerError Unit := do
  let v ← Proc.check .invalid fun _ => J.fromSlice jsonBytes
  Proc.check id fun _ => require (totalOf v "v" = 1) (.invalid "unsupported snapshot v")
  Proc.write fun D => { D with ledger := { D.ledger with
    balances := .empty, vestLocks := .empty, workerStakes := .empty } }
  Proc.write (importTotals v)
  Proc.write fun D => { D with ledger := { D.ledger with
    balances := D.ledger.balances.applyBatch (rowsOf v "balances")
    workerStakes := D.ledger.workerStakes.applyBatch (rowsOf v "worker_stakes") } }
  match (v.get "vest_locks".toList).bind JsonValue.asArray with
  | some arr => do
    importVestLocks J 0 arr
    Proc.write fun D => { D with ledger := D.ledger.putRow .nextVestSeq (.u64 arr.length) }
  | none => Proc.write fun D => { D with ledger := D.ledger.putRow .nextVestSeq (.u64 0) }

end Import

/-! ## Reading a snapshot back -/

section Reading

variable {D M : LedgerDb} {L : Ledger} {J : SerdeJson}

/-- The names of the head are the same for all ledgers. -/
theorem notMem_head {name : Str}
    (h : name ∉ (snapshotHead ⟨Ledger.empty, ⟨0, 0⟩⟩).map Prod.fst) :
    name ∉ (snapshotHead D).map Prod.fst := h

/-- A member of the head is found. -/
theorem get_head {name : Str} {v : JsonValue}
    (h : (JsonValue.obj (snapshotHead D)).get name = some v) : (snapshot D).get name = some v :=
  JsonValue.get_append_of_get h

theorem rows_amountRows (t : Tree Str Nat) :
    (((amountRows t).asArray).getD []).filterMap (fun row =>
      ((row.item 0).bind JsonValue.asStr).map fun w =>
        (w, ((row.item 1).bind JsonValue.asU64).getD 0)) = t.iter := by
  show (t.iter.map fun r => JsonValue.arr [.str r.1, .num r.2]).filterMap _ = t.iter
  rw [List.filterMap_map]
  exact List.filterMap_some

theorem rowsOf_balances (D : LedgerDb) :
    rowsOf (snapshot D) "balances" = D.ledger.balances.iter := by
  unfold rowsOf
  rw [get_head (v := amountRows D.ledger.balances) rfl]
  exact rows_amountRows _

/-- A member that is left out when empty reads as what it would hold. -/
theorem get_unlessEmpty {name : Str} (items : List JsonValue)
    {more : List (Str × JsonValue)} (hmore : (JsonValue.obj more).get name = none) :
    ((JsonValue.obj (unlessEmpty name (.arr items) ++ more)).get name).bind JsonValue.asArray =
      if items = [] then none else some items := by
  cases items with
  | nil =>
    rw [if_pos rfl]
    show ((JsonValue.obj more).get name).bind _ = none
    rw [hmore]
    rfl
  | cons x xs =>
    rw [if_neg (List.cons_ne_nil x xs)]
    have hget : (JsonValue.obj ([(name, .arr (x :: xs))] ++ more)).get name =
        some (.arr (x :: xs)) :=
      JsonValue.get_append_of_get (JsonValue.get_obj_singleton _ _)
    show ((JsonValue.obj ([(name, JsonValue.arr (x :: xs))] ++ more)).get name).bind _ = _
    rw [hget]
    rfl

theorem get_unlessEmpty_ne {name other : Str} (h : name ≠ other) (v : JsonValue) :
    (JsonValue.obj (unlessEmpty other v)).get name = none := by
  have hnotMem : name ∉ (unlessEmpty other v).map Prod.fst := by
    unfold unlessEmpty
    split
    · exact List.not_mem_nil
    · exact fun hmem => h (List.mem_singleton.mp hmem)
  have hget : (JsonValue.obj (unlessEmpty other v ++ [])).get name = (JsonValue.obj []).get name :=
    JsonValue.get_append_of_notMem hnotMem
  rw [List.append_nil] at hget
  exact hget

theorem rowsOf_workerStakes (D : LedgerDb) :
    rowsOf (snapshot D) "worker_stakes" = D.ledger.workerStakes.iter := by
  have hget : ((snapshot D).get "worker_stakes".toList).bind JsonValue.asArray =
      if D.ledger.workerStakes.iter.map (fun r => JsonValue.arr [.str r.1, .num r.2]) = [] then none
      else some (D.ledger.workerStakes.iter.map fun r => .arr [.str r.1, .num r.2]) := by
    unfold snapshot
    rw [JsonValue.get_append_of_notMem (notMem_head (by decide))]
    exact get_unlessEmpty _ (get_unlessEmpty_ne (by decide) _)
  unfold rowsOf
  rw [hget]
  by_cases hempty : D.ledger.workerStakes.iter.map
      (fun r => JsonValue.arr [.str r.1, .num r.2]) = []
  · rw [if_pos hempty]
    exact (List.map_eq_nil_iff.mp hempty).symm
  · rw [if_neg hempty]
    exact rows_amountRows _

/-- The locks of a snapshot. -/
theorem vestLocks_snapshot (D : LedgerDb) :
    ((snapshot D).get "vest_locks".toList).bind JsonValue.asArray =
      if D.ledger.exportedLocks.map vestLockValue = [] then none
      else some (D.ledger.exportedLocks.map vestLockValue) := by
  unfold snapshot
  have hskip : "vest_locks".toList ∉
      (unlessEmpty "worker_stakes".toList (amountRows D.ledger.workerStakes)).map Prod.fst := by
    have hne : "vest_locks".toList ≠ "worker_stakes".toList := by decide
    unfold unlessEmpty
    split
    · exact List.not_mem_nil
    · exact fun hmem => hne (List.mem_singleton.mp hmem)
  rw [JsonValue.get_append_of_notMem (notMem_head (by decide)),
    JsonValue.get_append_of_notMem hskip,
    ← List.append_nil (unlessEmpty "vest_locks".toList _)]
  exact get_unlessEmpty _ rfl

theorem parseVestLock_value {row : VestLockV1} (hv : row.v = 1) :
    parseVestLock (vestLockValue row) =
      if row.unlockAtMs ≤ u64Max then some row else none := by
  show vestLockOf (some (.num row.v)) (some (.str row.wallet)) (some (.num row.amountMicro))
    (some (.ofNat row.unlockAtMs)) = _
  unfold vestLockOf JsonValue.ofNat
  by_cases hunlock : row.unlockAtMs ≤ u64Max
  · rw [if_pos hunlock, if_pos hunlock]
    show (if row.v < 2 ^ 32 then some row else none) = some row
    rw [if_pos (by rw [hv]; decide)]
  · rw [if_neg hunlock, if_neg hunlock]
    rfl

/-! ## Renumbered locks -/

/-- The rows an import writes for locks in a row. -/
def renumber : Nat → List VestLockV1 → List (Str × VestLockV1)
  | _, [] => []
  | i, row :: rows => (vestLockKey (satAdd i 1), row) :: renumber (i + 1) rows

theorem renumber_snd : ∀ (rows : List VestLockV1) (i : Nat), (renumber i rows).map Prod.snd = rows := by
  intro rows
  induction rows with
  | nil => exact fun _ => rfl
  | cons row rows ih => exact fun i => congrArg (row :: ·) (ih (i + 1))

/-- Different numbers are different keys. -/
theorem vestLockKey_inj {a b : Nat} (ha : a ≤ u64Max) (hb : b ≤ u64Max)
    (h : vestLockKey a = vestLockKey b) : a = b := by
  unfold vestLockKey at h
  have hbytes := List.append_cancel_left h
  have hinj : Function.Injective fun x : UInt8 => Char.ofNat x.toNat := by
    have hall : ∀ n < 256, (Char.ofNat n).toNat = n := by decide +kernel
    intro x y hxy
    have heq := congrArg Char.toNat hxy
    simp only [hall _ x.toNat_lt, hall _ y.toNat_lt] at heq
    exact UInt8.toNat_inj.mp heq
  exact leBytes_injective (by unfold u64Max at ha; omega) (by unfold u64Max at hb; omega)
    (List.map_injective_iff.mpr hinj hbytes)

theorem renumber_keys : ∀ (rows : List VestLockV1) (i : Nat), i + rows.length ≤ u64Max →
    (∀ k ∈ (renumber i rows).map Prod.fst, ∃ j, i < j ∧ j ≤ u64Max ∧ k = vestLockKey j) ∧
      ((renumber i rows).map Prod.fst).Nodup := by
  intro rows
  induction rows with
  | nil => exact fun _ _ => ⟨fun k hk => absurd hk List.not_mem_nil, List.nodup_nil⟩
  | cons row rows ih =>
    intro i hfits
    rw [List.length_cons] at hfits
    obtain ⟨hkeys, hnodup⟩ := ih (i + 1) (by omega)
    have hfirst : satAdd i 1 = i + 1 := by
      unfold satAdd
      omega
    constructor
    · intro k hk
      rcases List.mem_cons.mp hk with rfl | hk
      · exact ⟨i + 1, by omega, by omega, by rw [hfirst]⟩
      · obtain ⟨j, hj, hmax, rfl⟩ := hkeys k hk
        exact ⟨j, by omega, hmax, rfl⟩
    · refine List.nodup_cons.mpr ⟨fun hmem => ?_, hnodup⟩
      obtain ⟨j, hj, hmax, heq⟩ := hkeys _ hmem
      have := vestLockKey_inj (by omega) hmax (hfirst ▸ heq)
      omega

/-- A tree of numbered locks has at most as many as there are numbers. -/
theorem Numbered.length_le {t : Tree Str VestLockV1} (h : Numbered t) : t.iter.length ≤ u64Max := by
  have hsub : t.iter.map Prod.fst ⊆ (List.range u64Max).map fun n => vestLockKey (n + 1) := by
    intro k hk
    obtain ⟨⟨k, row⟩, hr, rfl⟩ := List.mem_map.mp hk
    obtain ⟨-, id, hpos, hmax, hkey⟩ := h k row (Tree.mem_iter.mp hr)
    refine List.mem_map.mpr ⟨id - 1, List.mem_range.mpr (by omega), ?_⟩
    rw [Nat.sub_add_cancel hpos]
    exact hkey.symm
  have hle := (List.subperm_of_subset (Tree.keys_nodup t) hsub).length_le
  rwa [List.length_map, List.length_map, List.length_range] at hle

/-- Every numbered lock is exported. -/
theorem Numbered.exported (h : Numbered L.vestLocks) :
    L.exportedLocks = L.vestLocks.iter.map Prod.snd := by
  unfold exportedLocks
  rw [List.filter_eq_self.mpr]
  rintro ⟨k, row⟩ hr
  obtain ⟨-, id, -, -, rfl⟩ := h k row (Tree.mem_iter.mp hr)
  rw [List.isPrefixOf_iff_prefix]
  exact List.prefix_append _ _

/-! ## The loop over the locks -/

/-- Locks that can be read are written in a row. -/
theorem importVestLocks_ok (J : SerdeJson) : ∀ (rows : List VestLockV1) (i : Nat) (M : LedgerDb),
    (∀ row ∈ rows, row.v = 1 ∧ row.unlockAtMs ≤ u64Max) →
      importVestLocks J i (rows.map vestLockValue) M = (.ok (), { M with ledger := { M.ledger with
        vestLocks := M.ledger.vestLocks.applyBatch (renumber i rows) } }) := by
  intro rows
  induction rows with
  | nil => exact fun _ _ _ => rfl
  | cons row rows ih =>
    intro i M hrows
    obtain ⟨hv, hunlock⟩ := hrows row List.mem_cons_self
    have hparse := parseVestLock_value hv
    rw [if_pos hunlock] at hparse
    have hrest := ih (i + 1) { M with ledger := { M.ledger with
      vestLocks := M.ledger.vestLocks.insert (vestLockKey (satAdd i 1)) row } }
      fun r hr => hrows r (List.mem_cons_of_mem _ hr)
    rw [List.map_cons]
    simp only [importVestLocks, Proc.bind_apply, Proc.check, hparse, Proc.write_apply, hrest]
    rfl

/-- Locks that are written can be read. -/
theorem unlocks_of_importVestLocks : ∀ {rows : List VestLockV1} {i : Nat} {M M' : LedgerDb},
    (∀ row ∈ rows, row.v = 1) → importVestLocks J i (rows.map vestLockValue) M = (.ok (), M') →
      ∀ row ∈ rows, row.unlockAtMs ≤ u64Max := by
  intro rows
  induction rows with
  | nil => exact fun _ _ _ hmem => absurd hmem List.not_mem_nil
  | cons row rows ih =>
    intro i M M' hv h
    rw [List.map_cons] at h
    simp only [importVestLocks, Proc.bind_eq_ok_iff, Proc.check_eq_ok_iff, Proc.write_apply,
      parseVestLock_value (hv row List.mem_cons_self)] at h
    obtain ⟨_, _, ⟨hparse, -⟩, _, _, -, hrest⟩ := h
    have hfirst : row.unlockAtMs ≤ u64Max := by
      by_contra hlate
      rw [if_neg hlate] at hparse
      cases hparse
    intro r hr
    rcases List.mem_cons.mp hr with rfl | hr
    · exact hfirst
    · exact ih (fun r hr => hv r (List.mem_cons_of_mem _ hr)) hrest r hr

end Reading

end Ledger

end TetCore
