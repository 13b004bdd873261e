import TetCore.Ledger.Sample
import TetCore.Lib.InPlace

/-!
# The change of the scale

`maybe_migrate_stevemon_scale` (`ledger.rs`), which `Ledger::open` runs on a ledger whose amounts are
in units of 1e-8: it divides the amounts by 100, row by row, and then writes the new scale. The rows
are the balances, seven counters, the wallet stakes and the vesting locks. Afterwards `open` restores
the balances of the snapshot file, if none of the ledger's is left.

A row that is written is durable, and an open may be cut off after any of its writes (`Opening`). The
file is as it is read: the founder and the balances of a snapshot of version 1. Left out: values that
do not decrypt, and what `open` does that is not of amounts.

* `mem_migratedRows_iff`: the rows that are rewritten; the worker bonds are not among them.
* `MigratesOnce`: every amount ends up divided by 100, and stays so. `divisions`: how often a row is
  divided.
* `migrates_once_iff`: it does exactly if each row with an amount is divided once, or at least once if
  it is under 100, and no amount of a snapshot is restored (`DividedOnce`).
* `dividedOnce_uninterrupted`: what that comes to where no open is cut off.
* `not_migrated_once`: a worker bond, and a balance divided twice.
-/

namespace TetCore.ScaleMigration

open TetCore.Lib

/-! ## The ledger -/

/-- A ledger with the rows of `meta` that only fiat deposits and this migration use. -/
structure ScaleDb where
  ledger : Ledger
  chfDepositsMicro : Option Nat
  fiatMintStevemonMicro : Option Nat
  /-- `META_STEVEMON_PER_TET`. -/
  stevemonPerTet : Option Nat

/-- A row that holds an amount, by its tree. -/
inductive AmountKey where
  | balance (wallet : Str)
  | metaRow (key : MetaKey)
  | chfDeposits
  | fiatMint
  | vestLock (key : Str)
  | workerBond (wallet : Str)
  deriving DecidableEq

/-- The rows of `meta` that hold an amount of the currency: the counters, the wallet stakes, and what
each wallet has burnt. -/
def isMonetaryMeta : MetaKey → Bool
  | .totalSupply | .totalBurned | .feeTotal | .founderGenesisLockedMicro | .workerCommunity
  | .walletStake _ | .walletInferBurn _ => true
  | _ => false

/-- The rows whose amounts the change of the scale is about. -/
def AmountKey.monetary : AmountKey → Bool
  | .metaRow key => isMonetaryMeta key
  | _ => true

/-- The rows among them that the migration comes to. -/
def AmountKey.visited : AmountKey → Bool
  | .metaRow (.walletInferBurn _) => false
  | .workerBond _ => false
  | k => k.monetary

namespace ScaleDb

/-- The number in a row, if there is the row. -/
def row (s : ScaleDb) : AmountKey → Option Nat
  | .balance wallet => s.ledger.balances.get wallet
  | .metaRow key => (s.ledger.metaTree.get key).map fun v => Ledger.u64Of (some v)
  | .chfDeposits => s.chfDepositsMicro
  | .fiatMint => s.fiatMintStevemonMicro
  | .vestLock key => (s.ledger.vestLocks.get key).map VestLockV1.amountMicro
  | .workerBond wallet => s.ledger.workerStakes.get wallet

/-- The amount, `0` where there is no row. -/
def amount (s : ScaleDb) (k : AmountKey) : Nat := (s.row k).getD 0

/-- The row of a lock with another amount. -/
def withAmount (t : Tree Str VestLockV1) (key : Str) (n : Nat) : Tree Str VestLockV1 :=
  match t.get key with
  | some lock => t.insert key { lock with amountMicro := n }
  | none => t

/-- Write an amount. -/
def setRow (s : ScaleDb) (n : Nat) : AmountKey → ScaleDb
  | .balance wallet => { s with ledger.balances := s.ledger.balances.insert wallet n }
  | .metaRow key => { s with ledger.metaTree := s.ledger.metaTree.insert key (.u64 n) }
  | .chfDeposits => { s with chfDepositsMicro := some n }
  | .fiatMint => { s with fiatMintStevemonMicro := some n }
  | .vestLock key => { s with ledger.vestLocks := withAmount s.ledger.vestLocks key n }
  | .workerBond wallet => { s with ledger.workerStakes := s.ledger.workerStakes.insert wallet n }

/-- Read a row, divide its amount by 100 and write it back. -/
def scaleRow (s : ScaleDb) (k : AmountKey) : ScaleDb :=
  match s.row k with
  | none => s
  | some old => s.setRow (old / 100) k

/-! ## The migration -/

/-- `has_balance_rows`. -/
def hasBalanceRows (s : ScaleDb) : Bool := s.ledger.balances.iter.any fun r => decide (1 ≤ r.2)

/-- `ledger_has_any_monetary_state`. -/
def ledgerHasAnyMonetaryState (s : ScaleDb) : Bool :=
  s.hasBalanceRows || decide (0 < s.ledger.metaU64OrZero .totalSupply) ||
    !s.ledger.vestLocks.iter.isEmpty

/-- The counters the migration names, in their order. -/
def counters : List AmountKey :=
  [.metaRow .totalSupply, .metaRow .totalBurned, .metaRow .feeTotal,
    .metaRow .founderGenesisLockedMicro, .metaRow .workerCommunity, .chfDeposits, .fiatMint]

/-- The row of a wallet stake. -/
def walletStakeKey : MetaKey → Option AmountKey
  | .walletStake wallet => some (.metaRow (.walletStake wallet))
  | _ => none

/-- The rows of the four loops of the migration. -/
def balanceRows (s : ScaleDb) : List AmountKey := s.ledger.balances.iter.map fun r => .balance r.1

def counterRows (s : ScaleDb) : List AmountKey := counters.filter fun k => (s.row k).isSome

def stakeRows (s : ScaleDb) : List AmountKey :=
  s.ledger.metaTree.iter.filterMap fun r => walletStakeKey r.1

def lockRows (s : ScaleDb) : List AmountKey := s.ledger.vestLocks.iter.map fun r => .vestLock r.1

/-- The rows `migrate_legacy_e8_micro_state_div100` rewrites, in its order. -/
def migratedRows (s : ScaleDb) : List AmountKey :=
  s.balanceRows ++ (s.counterRows ++ (s.stakeRows ++ s.lockRows))

/-- The rows `maybe_migrate_stevemon_scale` is to rewrite: none if the scale is the new one, or if
there is nothing to rewrite. -/
def rowsToMigrate (s : ScaleDb) : List AmountKey :=
  if s.stevemonPerTet = some stevemon then []
  else if !s.ledgerHasAnyMonetaryState then []
  else s.migratedRows

/-- `maybe_migrate_stevemon_scale`. -/
def maybeMigrateStevemonScale (s : ScaleDb) : ScaleDb :=
  if s.stevemonPerTet = some stevemon then s
  else { s.rowsToMigrate.foldl scaleRow s with stevemonPerTet := some stevemon }

/-! ## The snapshot file -/

/-- What is read of the snapshot file: the founder, and the rows of the balances. -/
structure SnapshotFile where
  founderWallet : Option Str
  balances : List (Str × Nat)

/-- A write of `load_snapshot_if_present`. -/
inductive SnapshotWrite where
  | founder (wallet : Str)
  | balance (wallet : Str) (amountMicro : Nat)

/-- The writes of `load_snapshot_if_present`: none if there is a balance. -/
def snapshotWrites (file : Option SnapshotFile) (s : ScaleDb) : List SnapshotWrite :=
  match file with
  | none => []
  | some f =>
    if s.hasBalanceRows then []
    else ((f.founderWallet.filter fun fw => !(trim fw).isEmpty).toList.map .founder) ++
      f.balances.map fun r => .balance r.1 r.2

def applySnapshotWrite (s : ScaleDb) : SnapshotWrite → ScaleDb
  | .founder wallet =>
    { s with ledger.metaTree := s.ledger.metaTree.insert .founderWallet (.text wallet) }
  | .balance wallet amountMicro => s.setRow amountMicro (.balance wallet)

/-! ## Opens -/

/-- How far an open comes: it is cut off in the migration, after so many rows and before the new scale
is written, or it completes it and does so many writes of the snapshot. -/
inductive Opening where
  | cutOff (rows : Nat)
  | migrated (writes : Nat)

/-- `Ledger::open`. -/
def openLedger (file : Option SnapshotFile) (s : ScaleDb) : Opening → ScaleDb
  | .cutOff rows => (s.rowsToMigrate.take rows).foldl scaleRow s
  | .migrated writes =>
    let s' := s.maybeMigrateStevemonScale
    ((snapshotWrites file s').take writes).foldl applySnapshotWrite s'

end ScaleDb

/-- A ledger of the old scale. -/
structure LegacyLedger where
  db : ScaleDb
  legacy : db.stevemonPerTet ≠ some stevemon

open ScaleDb

/-- **Migrated once**: after opens that are cut off and one that completes the migration, every amount
is the original one divided by 100, however far the last open comes and whatever opens there are after
it. -/
def MigratesOnce (file : Option SnapshotFile) (L : LegacyLedger) (cuts : List Nat) : Prop :=
  ∀ (writes : Nat) (further : List Opening) (k : AmountKey), k.monetary = true →
    (further.foldl (openLedger file) (openLedger file
      (cuts.foldl (fun s rows => openLedger file s (.cutOff rows)) L.db) (.migrated writes))).amount k =
        L.db.amount k / 100

/-! ## How often a row is divided -/

/-- Whether a balance, a supply or a lock is left when each row is divided as often as `n` counts. -/
def moneyLeft (s : ScaleDb) (n : AmountKey → Nat) : Bool :=
  (s.ledger.balances.iter.any fun r => decide (1 ≤ r.2 / 100 ^ n (.balance r.1))) ||
    decide (0 < s.ledger.metaU64OrZero .totalSupply / 100 ^ n (.metaRow .totalSupply)) ||
      !s.ledger.vestLocks.iter.isEmpty

/-- How often each row is divided by opens cut off after so many rows and one that completes, from when
`n` counts: each divides the rows before it is cut off, as long as some money is left. -/
def divisions (s : ScaleDb) : List Nat → (AmountKey → Nat) → AmountKey → Nat
  | [], n => if moneyLeft s n then InPlace.visit s.migratedRows n else n
  | rows :: cuts, n =>
    if moneyLeft s n then divisions s cuts (InPlace.visit (s.migratedRows.take rows) n) else n

/-- Each row with an amount is divided exactly once, or at least once if the amount is under 100; and
the snapshot is not restored, or has no amounts. -/
structure DividedOnce (file : Option SnapshotFile) (L : LegacyLedger) (cuts : List Nat) : Prop where
  rows : ∀ k, k.monetary = true → L.db.amount k = 0 ∨ divisions L.db cuts (fun _ => 0) k = 1 ∨
    (L.db.amount k < 100 ∧ 0 < divisions L.db cuts (fun _ => 0) k)
  restored : (∃ wallet, 100 ≤ L.db.amount (.balance wallet)) ∨
    ∀ f, file = some f → ∀ r ∈ f.balances, r.2 = 0

/-! ## One row -/

/-- Dividing several times by 100. -/
theorem iterate_div (n v : Nat) : Nat.iterate (fun x : Nat => x / 100) n v = v / 100 ^ n := by
  induction n generalizing v with
  | zero => rw [Nat.pow_zero, Nat.div_one]; rfl
  | succ n ih => rw [Function.iterate_succ_apply, ih, Nat.div_div_eq_div_mul, Nat.pow_succ']

/-- It is as good as once for `0`, or when it is once, or at least once for what is under 100. -/
theorem div_pow_eq_iff {n v : Nat} :
    v / 100 ^ n = v / 100 ↔ v = 0 ∨ n = 1 ∨ (v < 100 ∧ 0 < n) := by
  cases n with
  | zero =>
    rw [Nat.pow_zero, Nat.div_one]
    constructor
    · intro h
      exact Or.inl (by omega)
    · rintro (rfl | h | ⟨-, h⟩)
      · rfl
      · cases h
      · exact absurd h (Nat.lt_irrefl 0)
  | succ n =>
    rw [Nat.pow_succ', ← Nat.div_div_eq_div_mul]
    constructor
    · intro h
      rcases Nat.lt_or_ge v 100 with hv | hv
      · exact Or.inr (Or.inr ⟨hv, Nat.succ_pos n⟩)
      · -- a quotient that is not 0 is no multiple of itself
        have hq : 0 < v / 100 := Nat.div_pos hv (by decide)
        cases n with
        | zero => exact Or.inr (Or.inl rfl)
        | succ n =>
          have hlt : v / 100 / 100 ^ (n + 1) < v / 100 :=
            Nat.div_lt_self hq (Nat.one_lt_pow (Nat.succ_ne_zero n) (by decide))
          exact absurd h (Nat.ne_of_lt hlt)
    · rintro (rfl | h | ⟨hv, -⟩)
      · rw [Nat.zero_div, Nat.zero_div]
      · obtain rfl : n = 0 := by omega
        rw [Nat.pow_zero, Nat.div_one]
      · rw [Nat.div_eq_of_lt hv, Nat.zero_div]

namespace ScaleDb

theorem row_setRow_ne (s : ScaleDb) (n : Nat) {k a : AmountKey} (h : k ≠ a) :
    (s.setRow n k).row a = s.row a := by
  cases k with
  | balance wallet =>
    cases a with
    | balance w => exact Tree.get_insert_ne fun heq => h (congrArg AmountKey.balance heq)
    | _ => rfl
  | metaRow key =>
    cases a with
    | metaRow key' =>
      show ((s.ledger.metaTree.insert key (.u64 n)).get key').map _ = _
      rw [Tree.get_insert_ne fun heq => h (congrArg AmountKey.metaRow heq)]
      rfl
    | _ => rfl
  | chfDeposits =>
    cases a with
    | chfDeposits => exact absurd rfl h
    | _ => rfl
  | fiatMint =>
    cases a with
    | fiatMint => exact absurd rfl h
    | _ => rfl
  | vestLock key =>
    cases a with
    | vestLock key' =>
      show ((withAmount s.ledger.vestLocks key n).get key').map _ = _
      unfold withAmount
      cases hget : s.ledger.vestLocks.get key with
      | none => rfl
      | some lock =>
        dsimp only
        rw [Tree.get_insert_ne fun heq => h (congrArg AmountKey.vestLock heq)]
        rfl
    | _ => rfl
  | workerBond wallet =>
    cases a with
    | workerBond w => exact Tree.get_insert_ne fun heq => h (congrArg AmountKey.workerBond heq)
    | _ => rfl

theorem row_setRow {s : ScaleDb} {k : AmountKey} (h : (s.row k).isSome = true) (n : Nat)
    (a : AmountKey) : (s.setRow n k).row a = if k = a then some n else s.row a := by
  by_cases hk : k = a
  · subst hk
    rw [if_pos rfl]
    cases k with
    | balance wallet => exact Tree.get_insert_self _ _ _
    | metaRow key =>
      show ((s.ledger.metaTree.insert key (.u64 n)).get key).map _ = _
      rw [Tree.get_insert_self]
      rfl
    | chfDeposits => rfl
    | fiatMint => rfl
    | vestLock key =>
      show ((withAmount s.ledger.vestLocks key n).get key).map _ = _
      unfold withAmount
      cases hget : s.ledger.vestLocks.get key with
      | none =>
        rw [row, hget] at h
        cases h
      | some lock =>
        dsimp only
        rw [Tree.get_insert_self]
        rfl
    | workerBond wallet => exact Tree.get_insert_self _ _ _
  · rw [if_neg hk]
    exact row_setRow_ne s n hk

theorem row_scaleRow (s : ScaleDb) (k a : AmountKey) :
    (s.scaleRow k).row a = if k = a then (s.row k).map (fun x => x / 100) else s.row a := by
  unfold scaleRow
  cases hrow : s.row k with
  | none =>
    by_cases hk : k = a
    · subst hk
      rw [if_pos rfl, hrow]
      rfl
    · rw [if_neg hk]
  | some old =>
    dsimp only
    rw [row_setRow (by rw [hrow]; rfl)]
    rfl

end ScaleDb

/-- The ledger as a store whose rows are rewritten in place. -/
def scaled : InPlace ScaleDb AmountKey Nat where
  row := ScaleDb.row
  rewrite := ScaleDb.scaleRow
  f x := x / 100
  row_rewrite := ScaleDb.row_scaleRow

namespace ScaleDb

variable {s : ScaleDb} {ks : List AmountKey}

theorem setRow_stevemonPerTet (s : ScaleDb) (n : Nat) (k : AmountKey) :
    (s.setRow n k).stevemonPerTet = s.stevemonPerTet := by
  cases k <;> rfl

theorem pass_stevemonPerTet (s : ScaleDb) (ks : List AmountKey) :
    (scaled.pass ks s).stevemonPerTet = s.stevemonPerTet := by
  unfold InPlace.pass
  induction ks generalizing s with
  | nil => rfl
  | cons k ks ih =>
    rw [List.foldl_cons, ih]
    show (s.scaleRow k).stevemonPerTet = _
    unfold scaleRow
    cases s.row k with
    | none => rfl
    | some old => exact setRow_stevemonPerTet _ _ _

/-! ## The rows of a pass -/

/-- The loop of the migration a row is rewritten in, if it is in one. -/
def loop : AmountKey → Nat
  | .balance _ => 0
  | .metaRow (.walletStake _) => 2
  | .vestLock _ => 3
  | _ => 1

theorem mem_balanceRows {k : AmountKey} :
    k ∈ s.balanceRows ↔ loop k = 0 ∧ (s.row k).isSome = true := by
  unfold balanceRows
  rw [List.mem_map]
  constructor
  · rintro ⟨⟨wallet, n⟩, hr, rfl⟩
    exact ⟨rfl, Option.isSome_iff_exists.mpr ⟨n, Tree.mem_iter.mp hr⟩⟩
  · rintro ⟨hloop, hrow⟩
    obtain ⟨n, hn⟩ := Option.isSome_iff_exists.mp hrow
    cases k with
    | balance wallet => exact ⟨(wallet, n), Tree.mem_iter.mpr hn, rfl⟩
    | metaRow key => cases key <;> cases hloop
    | _ => cases hloop

theorem loop_counters : ∀ k ∈ counters, loop k = 1 := by decide

theorem mem_counterRows {k : AmountKey} :
    k ∈ s.counterRows ↔ k ∈ counters ∧ (s.row k).isSome = true := List.mem_filter

theorem mem_stakeRows {k : AmountKey} :
    k ∈ s.stakeRows ↔ loop k = 2 ∧ (s.row k).isSome = true := by
  unfold stakeRows
  rw [List.mem_filterMap]
  constructor
  · rintro ⟨⟨key, v⟩, hr, hkey⟩
    cases key with
    | walletStake wallet =>
      cases hkey
      refine ⟨rfl, ?_⟩
      show ((s.ledger.metaTree.get (.walletStake wallet)).map _).isSome = true
      rw [Tree.mem_iter.mp hr]
      rfl
    | _ => cases hkey
  · rintro ⟨hloop, hrow⟩
    cases k with
    | metaRow key =>
      cases key with
      | walletStake wallet =>
        obtain ⟨n, hn⟩ := Option.isSome_iff_exists.mp hrow
        obtain ⟨v, hv, -⟩ := Option.map_eq_some_iff.mp hn
        exact ⟨(.walletStake wallet, v), Tree.mem_iter.mpr hv, rfl⟩
      | _ => cases hloop
    | _ => cases hloop

theorem mem_lockRows {k : AmountKey} :
    k ∈ s.lockRows ↔ loop k = 3 ∧ (s.row k).isSome = true := by
  unfold lockRows
  rw [List.mem_map]
  constructor
  · rintro ⟨⟨key, lock⟩, hr, rfl⟩
    refine ⟨rfl, ?_⟩
    show ((s.ledger.vestLocks.get key).map _).isSome = true
    rw [Tree.mem_iter.mp hr]
    rfl
  · rintro ⟨hloop, hrow⟩
    obtain ⟨n, hn⟩ := Option.isSome_iff_exists.mp hrow
    cases k with
    | vestLock key =>
      obtain ⟨lock, hlock, -⟩ := Option.map_eq_some_iff.mp hn
      exact ⟨(key, lock), Tree.mem_iter.mpr hlock, rfl⟩
    | metaRow key => cases key <;> cases hloop
    | _ => cases hloop

/-- The loops there are. -/
theorem visited_iff {k : AmountKey} :
    k.visited = true ↔ loop k = 0 ∨ k ∈ counters ∨ loop k = 2 ∨ loop k = 3 := by
  cases k with
  | metaRow key =>
    cases key <;> simp [AmountKey.visited, AmountKey.monetary, isMonetaryMeta, loop, counters]
  | _ => simp [AmountKey.visited, AmountKey.monetary, loop, counters]

/-- **The rows that are rewritten**: neither the worker bonds nor what wallets have burnt are among
them. -/
theorem mem_migratedRows_iff {k : AmountKey} :
    k ∈ s.migratedRows ↔ k.visited = true ∧ (s.row k).isSome = true := by
  unfold migratedRows
  rw [List.mem_append, List.mem_append, List.mem_append, mem_balanceRows, mem_counterRows,
    mem_stakeRows, mem_lockRows, ← or_and_right, ← or_and_right, ← or_and_right, visited_iff]

/-- Rows of different loops are different rows. -/
theorem disjoint_of_loop (i : Nat) {l l' : List AmountKey} (h : ∀ k ∈ l, loop k < i)
    (h' : ∀ k ∈ l', i ≤ loop k) : l.Disjoint l' :=
  fun k hk hk' => absurd (h k hk) (Nat.not_lt.mpr (h' k hk'))

/-- No row is in a pass twice. -/
theorem migratedRows_nodup (s : ScaleDb) : s.migratedRows.Nodup := by
  have hbalances : s.balanceRows.Nodup := by
    have h := (Tree.keys_nodup s.ledger.balances).map (f := AmountKey.balance)
      fun _ _ heq => AmountKey.balance.inj heq
    rwa [List.map_map] at h
  have hcounters : s.counterRows.Nodup := List.Nodup.filter _ (by decide)
  have hstakes : s.stakeRows.Nodup := by
    have h := (Tree.keys_nodup s.ledger.metaTree).filterMap (f := walletStakeKey) ?_
    · rwa [List.filterMap_map] at h
    · intro key key' k hk hk'
      cases key with
      | walletStake wallet =>
        cases key' with
        | walletStake wallet' =>
          cases hk
          cases hk'
          rfl
        | _ => cases hk'
      | _ => cases hk
  have hlocks : s.lockRows.Nodup := by
    have h := (Tree.keys_nodup s.ledger.vestLocks).map (f := AmountKey.vestLock)
      fun _ _ heq => AmountKey.vestLock.inj heq
    rwa [List.map_map] at h
  have hcounter : ∀ k ∈ s.counterRows, loop k = 1 :=
    fun k hk => loop_counters k (mem_counterRows.mp hk).1
  have hstake : ∀ k ∈ s.stakeRows, loop k = 2 := fun k hk => (mem_stakeRows.mp hk).1
  have hlock : ∀ k ∈ s.lockRows, loop k = 3 := fun k hk => (mem_lockRows.mp hk).1
  have hlater : ∀ k ∈ s.stakeRows ++ s.lockRows, 2 ≤ loop k := by
    intro k hk
    rcases List.mem_append.mp hk with hk | hk
    · exact (hstake k hk).ge
    · exact le_of_le_of_eq (by decide) (hlock k hk).symm
  have hlast : ∀ k ∈ s.counterRows ++ (s.stakeRows ++ s.lockRows), 1 ≤ loop k := by
    intro k hk
    rcases List.mem_append.mp hk with hk | hk
    · exact (hcounter k hk).ge
    · exact le_trans (by decide) (hlater k hk)
  refine hbalances.append (hcounters.append (hstakes.append hlocks ?_) ?_) ?_
  · exact disjoint_of_loop 3 (fun k hk => (hstake k hk).trans_lt (by decide)) fun k hk => (hlock k hk).ge
  · exact disjoint_of_loop 2 (fun k hk => (hcounter k hk).trans_lt (by decide)) hlater
  · exact disjoint_of_loop 1 (fun k hk => (mem_balanceRows.mp hk).1.trans_lt (by decide)) hlast

theorem lockKeys_congr {s s' : ScaleDb} (h : ∀ k, (s.row k).isSome = (s'.row k).isSome) :
    s.ledger.vestLocks.iter.map Prod.fst = s'.ledger.vestLocks.iter.map Prod.fst := by
  refine Tree.keys_congr fun key => ?_
  have hk := h (.vestLock key)
  simpa only [row, Option.isSome_map] using hk

/-- Which rows are rewritten depends on which rows there are. -/
theorem migratedRows_congr {s s' : ScaleDb} (h : ∀ k, (s.row k).isSome = (s'.row k).isSome) :
    s.migratedRows = s'.migratedRows := by
  have hbalances := Tree.keys_congr fun w => h (.balance w)
  have hlocks := lockKeys_congr h
  have hstakes := Tree.filterMap_key_congr (f := walletStakeKey) (t := s.ledger.metaTree)
    (u := s'.ledger.metaTree) fun key => by
      have hk := h (.metaRow key)
      simpa only [row, Option.isSome_map] using hk
  have hmap : ∀ {V : Type} (t : Tree Str V) (f : Str → AmountKey),
      t.iter.map (fun r => f r.1) = (t.iter.map Prod.fst).map f := fun t f => List.map_map.symm
  unfold migratedRows balanceRows counterRows stakeRows lockRows
  rw [hmap, hmap, hmap, hmap, hbalances, hlocks, hstakes]
  simp only [h]

/-! ## The money that is left -/

theorem hasBalanceRows_iff : s.hasBalanceRows = true ↔ ∃ wallet, 1 ≤ s.amount (.balance wallet) := by
  unfold hasBalanceRows amount row
  simp only [List.any_eq_true, decide_eq_true_eq]
  constructor
  · rintro ⟨⟨wallet, n⟩, hrow, hn⟩
    refine ⟨wallet, ?_⟩
    rw [Tree.mem_iter.mp hrow]
    exact hn
  · rintro ⟨wallet, hn⟩
    cases hget : s.ledger.balances.get wallet with
    | none =>
      rw [hget] at hn
      cases hn
    | some n =>
      rw [hget] at hn
      exact ⟨(wallet, n), Tree.mem_iter.mpr hget, hn⟩

theorem amount_totalSupply (s : ScaleDb) :
    s.amount (.metaRow .totalSupply) = s.ledger.metaU64OrZero .totalSupply := by
  show ((s.ledger.metaTree.get .totalSupply).map _).getD 0 = _
  unfold Ledger.metaU64OrZero
  cases s.ledger.metaTree.get .totalSupply <;> rfl

theorem vestLocks_isEmpty_congr {s' : ScaleDb} (h : ∀ k, (s.row k).isSome = (s'.row k).isSome) :
    s.ledger.vestLocks.iter.isEmpty = s'.ledger.vestLocks.iter.isEmpty := by
  have hlen := congrArg List.length (lockKeys_congr h)
  rw [List.length_map, List.length_map] at hlen
  rw [Bool.eq_iff_iff, List.isEmpty_iff_length_eq_zero, List.isEmpty_iff_length_eq_zero, hlen]

variable {s₀ : ScaleDb} {n : AmountKey → Nat}

theorem amount_of_times (h : scaled.Times s₀ n s) (k : AmountKey) :
    s.amount k = s₀.amount k / 100 ^ n k := by
  have hrow : s.row k = (s₀.row k).map (Nat.iterate (fun x => x / 100) (n k)) := h k
  unfold amount
  rw [hrow]
  cases s₀.row k with
  | none => exact (Nat.zero_div _).symm
  | some v => exact iterate_div (n k) v

theorem moneyLeft_of_times (h : scaled.Times s₀ n s) :
    s.ledgerHasAnyMonetaryState = moneyLeft s₀ n := by
  have hbalances : s.hasBalanceRows =
      s₀.ledger.balances.iter.any fun r => decide (1 ≤ r.2 / 100 ^ n (.balance r.1)) := by
    rw [Bool.eq_iff_iff, hasBalanceRows_iff, List.any_eq_true]
    constructor
    · rintro ⟨wallet, hn⟩
      rw [amount_of_times h] at hn
      unfold amount at hn
      cases hget : s₀.row (.balance wallet) with
      | none =>
        rw [hget] at hn
        exact absurd hn (by simp)
      | some v =>
        rw [hget] at hn
        exact ⟨(wallet, v), Tree.mem_iter.mpr hget, decide_eq_true hn⟩
    · rintro ⟨⟨wallet, v⟩, hrow, hn⟩
      refine ⟨wallet, ?_⟩
      rw [amount_of_times h]
      unfold amount
      rw [show s₀.row (.balance wallet) = some v from Tree.mem_iter.mp hrow]
      exact of_decide_eq_true hn
  unfold ledgerHasAnyMonetaryState moneyLeft
  rw [hbalances, ← amount_totalSupply, amount_of_times h, amount_totalSupply,
    vestLocks_isEmpty_congr fun k => h.isSome k]

/-! ## Opens that are cut off -/

/-- The store of an old ledger whose rows have been divided as often as `n` counts. -/
structure Under (L : LegacyLedger) (n : AmountKey → Nat) (s : ScaleDb) : Prop where
  times : scaled.Times L.db n s
  scale : s.stevemonPerTet = L.db.stevemonPerTet

variable {L : LegacyLedger} {file : Option SnapshotFile}

theorem Under.start (L : LegacyLedger) : Under L (fun _ => 0) L.db := ⟨.refl L.db, rfl⟩

theorem Under.rowsToMigrate (h : Under L n s) :
    s.rowsToMigrate = if moneyLeft L.db n then L.db.migratedRows else [] := by
  unfold ScaleDb.rowsToMigrate
  rw [if_neg (h.scale ▸ L.legacy), moneyLeft_of_times h.times,
    migratedRows_congr fun k => h.times.isSome k]
  cases moneyLeft L.db n <;> rfl

/-- An open that is cut off divides the rows it comes to. -/
theorem Under.cutOff (h : Under L n s) (hmoney : moneyLeft L.db n = true) (rows : Nat) :
    Under L (InPlace.visit (L.db.migratedRows.take rows) n) (openLedger file s (.cutOff rows)) := by
  have hopen : openLedger file s (.cutOff rows) = scaled.pass (L.db.migratedRows.take rows) s := by
    show (s.rowsToMigrate.take rows).foldl scaleRow s = _
    rw [h.rowsToMigrate, hmoney]
    rfl
  rw [hopen]
  refine ⟨h.times.pass ((List.take_sublist _ _).nodup (migratedRows_nodup _)), ?_⟩
  rw [pass_stevemonPerTet, h.scale]

/-- Where nothing is left, it divides none. -/
theorem Under.cutOff_none (h : Under L n s) (hmoney : moneyLeft L.db n = false) (rows : Nat) :
    openLedger file s (.cutOff rows) = s := by
  show (s.rowsToMigrate.take rows).foldl scaleRow s = s
  rw [h.rowsToMigrate, hmoney, if_neg Bool.false_ne_true, List.take_nil]
  rfl

theorem divisions_of_none (hmoney : moneyLeft L.db n = false) (cuts : List Nat) :
    divisions L.db cuts n = n := by
  cases cuts <;> rw [divisions, hmoney, if_neg Bool.false_ne_true]

/-- The open that completes the migration divides every row once more, and writes the new scale. -/
theorem Under.migrated (h : Under L n s) :
    scaled.Times L.db (divisions L.db [] n) s.maybeMigrateStevemonScale ∧
      s.maybeMigrateStevemonScale.stevemonPerTet = some stevemon := by
  have hscale : s.stevemonPerTet ≠ some stevemon := h.scale ▸ L.legacy
  unfold maybeMigrateStevemonScale divisions
  rw [if_neg hscale]
  refine ⟨fun k => ?_, rfl⟩
  have hpass : scaled.Times L.db (if moneyLeft L.db n then InPlace.visit L.db.migratedRows n else n)
      (scaled.pass s.rowsToMigrate s) := by
    rw [h.rowsToMigrate]
    cases moneyLeft L.db n with
    | true => exact h.times.pass (migratedRows_nodup _)
    | false => exact h.times
  rw [← hpass k]
  cases k <;> rfl

/-- **After the opens**: the rows are divided as often as `divisions` counts. -/
theorem Under.run (h : Under L n s) (file : Option SnapshotFile) (cuts : List Nat) :
    let s' := (cuts.foldl (fun s rows => openLedger file s (.cutOff rows)) s).maybeMigrateStevemonScale
    scaled.Times L.db (divisions L.db cuts n) s' ∧ s'.stevemonPerTet = some stevemon := by
  induction cuts generalizing n s with
  | nil => exact h.migrated
  | cons rows cuts ih =>
    rw [List.foldl_cons]
    cases hmoney : moneyLeft L.db n with
    | true =>
      rw [divisions, hmoney, if_pos rfl]
      exact ih (h.cutOff hmoney rows)
    | false =>
      have hrest := ih h
      rw [divisions_of_none hmoney] at hrest
      rw [h.cutOff_none hmoney, divisions_of_none hmoney]
      exact hrest

/-! ## Opens after the migration -/

/-- A ledger of the new scale with the amounts `v`, in which no snapshot changes an amount. -/
structure Settled (file : Option SnapshotFile) (v : AmountKey → Nat) (s : ScaleDb) : Prop where
  scale : s.stevemonPerTet = some stevemon
  amounts : ∀ k, k.monetary = true → s.amount k = v k
  restored : s.hasBalanceRows = true ∨ ∀ f, file = some f → ∀ r ∈ f.balances, r.2 = 0

variable {v : AmountKey → Nat}

/-- A row of 0 in place of a balance of 0. -/
theorem amount_setRow_zero {wallet : Str} (h : s.amount (.balance wallet) = 0) (k : AmountKey) :
    (s.setRow 0 (.balance wallet)).amount k = s.amount k := by
  by_cases hk : AmountKey.balance wallet = k
  · subst hk
    rw [h]
    show ((s.ledger.balances.insert wallet 0).get wallet).getD 0 = 0
    rw [Tree.get_insert_self]
    rfl
  · unfold amount
    rw [row_setRow_ne s 0 hk]

theorem amount_founder (s : ScaleDb) (wallet : Str) {k : AmountKey} (hk : k.monetary = true) :
    (s.applySnapshotWrite (.founder wallet)).amount k = s.amount k := by
  cases k with
  | metaRow key =>
    have hne : MetaKey.founderWallet ≠ key := by
      rintro rfl
      cases hk
    show (((s.ledger.metaTree.insert .founderWallet (.text wallet)).get key).map _).getD 0 = _
    rw [Tree.get_insert_ne hne]
    rfl
  | _ => rfl

/-- A write of the snapshot that changes no amount. -/
def Idle : SnapshotWrite → Prop
  | .founder _ => True
  | .balance _ amountMicro => amountMicro = 0

theorem amounts_of_idle {writes : List SnapshotWrite} (hidle : ∀ w ∈ writes, Idle w)
    (hnone : ∀ wallet, s.amount (.balance wallet) = 0) :
    (writes.foldl applySnapshotWrite s).stevemonPerTet = s.stevemonPerTet ∧
      ∀ k, k.monetary = true → (writes.foldl applySnapshotWrite s).amount k = s.amount k := by
  induction writes generalizing s with
  | nil => exact ⟨rfl, fun _ _ => rfl⟩
  | cons w writes ih =>
    have hstep : (s.applySnapshotWrite w).stevemonPerTet = s.stevemonPerTet ∧
        ∀ k, k.monetary = true → (s.applySnapshotWrite w).amount k = s.amount k := by
      cases w with
      | founder wallet => exact ⟨rfl, fun k hk => amount_founder s wallet hk⟩
      | balance wallet amountMicro =>
        obtain rfl : amountMicro = 0 := hidle _ List.mem_cons_self
        exact ⟨rfl, fun k _ => amount_setRow_zero (hnone wallet) k⟩
    obtain ⟨hscale, hamounts⟩ := ih (s := s.applySnapshotWrite w)
      (fun w' hw' => hidle w' (List.mem_cons_of_mem w hw'))
      (fun wallet => (hstep.2 _ rfl).trans (hnone wallet))
    exact ⟨hscale.trans hstep.1, fun k hk => (hamounts k hk).trans (hstep.2 k hk)⟩

/-- What the snapshot restores of a settled ledger changes no amount. -/
theorem Settled.restore (h : Settled file v s) (writes : Nat) :
    Settled file v (((snapshotWrites file s).take writes).foldl applySnapshotWrite s) := by
  cases hfile : file with
  | none =>
    subst hfile
    rw [snapshotWrites, List.take_nil]
    exact h
  | some f =>
    cases hrows : s.hasBalanceRows with
    | true =>
      rw [snapshotWrites]
      simp only [hrows, if_true, List.take_nil, List.foldl_nil]
      exact hfile ▸ h
    | false =>
      have hzero : ∀ r ∈ f.balances, r.2 = 0 := by
        rcases h.restored with hyes | hzero
        · rw [hrows] at hyes
          cases hyes
        · exact hzero f hfile
      have hidle : ∀ w ∈ (snapshotWrites (some f) s).take writes, Idle w := by
        intro w hw
        have hmem := List.mem_of_mem_take hw
        unfold snapshotWrites at hmem
        simp only [hrows, Bool.false_eq_true, if_false] at hmem
        rcases List.mem_append.mp hmem with hmem | hmem
        · obtain ⟨fw, -, rfl⟩ := List.mem_map.mp hmem
          exact trivial
        · obtain ⟨r, hr, rfl⟩ := List.mem_map.mp hmem
          exact hzero r hr
      have hnone : ∀ wallet, s.amount (.balance wallet) = 0 := by
        intro wallet
        by_contra hne
        have hyes := hasBalanceRows_iff.mpr ⟨wallet, Nat.one_le_iff_ne_zero.mpr hne⟩
        rw [hrows] at hyes
        cases hyes
      obtain ⟨hscale, hamounts⟩ := amounts_of_idle hidle hnone
      refine ⟨hscale.trans h.scale, fun k hk => (hamounts k hk).trans (h.amounts k hk), Or.inr ?_⟩
      intro f' hf' r hr
      obtain rfl := Option.some.inj hf'
      exact hzero r hr

/-- **Further opens** change no amount of a settled ledger. -/
theorem Settled.open (h : Settled file v s) (o : Opening) : Settled file v (openLedger file s o) := by
  have hrows : s.rowsToMigrate = [] := if_pos h.scale
  have hmigrate : s.maybeMigrateStevemonScale = s := if_pos h.scale
  cases o with
  | cutOff rows =>
    show Settled file v ((s.rowsToMigrate.take rows).foldl scaleRow s)
    rw [hrows, List.take_nil]
    exact h
  | migrated writes =>
    have hrest := h.restore writes
    unfold openLedger
    dsimp only
    rw [hmigrate]
    exact hrest

theorem Settled.opens (h : Settled file v s) (further : List Opening) :
    Settled file v (further.foldl (openLedger file) s) := by
  induction further generalizing s with
  | nil => exact h
  | cons o further ih => exact ih (h.open o)

end ScaleDb

section Once

variable {file : Option SnapshotFile} {L : LegacyLedger} {cuts : List Nat}

/-- The ledger when the migration is complete. -/
def migratedDb (file : Option SnapshotFile) (L : LegacyLedger) (cuts : List Nat) : ScaleDb :=
  (cuts.foldl (fun s rows => openLedger file s (.cutOff rows)) L.db).maybeMigrateStevemonScale

theorem amount_migratedDb (file : Option SnapshotFile) (L : LegacyLedger) (cuts : List Nat)
    (k : AmountKey) : (migratedDb file L cuts).amount k =
      L.db.amount k / 100 ^ divisions L.db cuts (fun _ => 0) k :=
  amount_of_times ((Under.start L).run file cuts).1 k

/-- The amounts are divided by 100 once. -/
theorem amount_migratedDb_iff {k : AmountKey} :
    (migratedDb file L cuts).amount k = L.db.amount k / 100 ↔ L.db.amount k = 0 ∨
      divisions L.db cuts (fun _ => 0) k = 1 ∨
        (L.db.amount k < 100 ∧ 0 < divisions L.db cuts (fun _ => 0) k) := by
  rw [amount_migratedDb, div_pow_eq_iff]

/-- A balance is left exactly if one was of 100 or more. -/
theorem hasBalanceRows_migratedDb (h : ∀ wallet, (migratedDb file L cuts).amount (.balance wallet) =
    L.db.amount (.balance wallet) / 100) : (migratedDb file L cuts).hasBalanceRows = true ↔
      ∃ wallet, 100 ≤ L.db.amount (.balance wallet) := by
  rw [hasBalanceRows_iff]
  refine exists_congr fun wallet => ?_
  rw [h wallet, Nat.le_div_iff_mul_le (by decide), Nat.one_mul]

/-- A row the migration does not come to is never divided. -/
theorem divisions_of_unvisited (s : ScaleDb) {k : AmountKey} (hk : k.visited = false)
    (cuts : List Nat) (n : AmountKey → Nat) : divisions s cuts n k = n k := by
  have hnot : k ∉ s.migratedRows := by
    intro hmem
    rw [(mem_migratedRows_iff.mp hmem).1] at hk
    cases hk
  induction cuts generalizing n with
  | nil =>
    rw [divisions]
    cases moneyLeft s n with
    | true => exact if_neg hnot
    | false => rfl
  | cons rows cuts ih =>
    rw [divisions]
    cases moneyLeft s n with
    | true => exact (ih _).trans (if_neg fun hmem => hnot (List.mem_of_mem_take hmem))
    | false => rfl

/-- So there must be nothing in it. -/
theorem DividedOnce.unvisited (h : DividedOnce file L cuts) {k : AmountKey} (hm : k.monetary = true)
    (hk : k.visited = false) : L.db.amount k = 0 := by
  rcases h.rows k hm with hzero | hone | ⟨-, hpos⟩
  · exact hzero
  · rw [divisions_of_unvisited _ hk] at hone
    cases hone
  · rw [divisions_of_unvisited _ hk] at hpos
    exact absurd hpos (Nat.lt_irrefl 0)

/-- **An open that is not cut off**, on a ledger with money: all it leaves out are the rows it does not
come to, and the snapshot. -/
theorem dividedOnce_uninterrupted (hmoney : L.db.ledgerHasAnyMonetaryState = true) :
    DividedOnce file L [] ↔
      (∀ k, k.monetary = true → k.visited = false → L.db.amount k = 0) ∧
        ((∃ wallet, 100 ≤ L.db.amount (.balance wallet)) ∨
          ∀ f, file = some f → ∀ r ∈ f.balances, r.2 = 0) := by
  have hleft : moneyLeft L.db (fun _ => 0) = true :=
    (moneyLeft_of_times (InPlace.Times.refl L.db)).symm.trans hmoney
  constructor
  · exact fun h => ⟨fun k hm hk => h.unvisited hm hk, h.restored⟩
  · rintro ⟨hzero, hrestored⟩
    refine ⟨fun k hm => ?_, hrestored⟩
    cases hk : k.visited with
    | false => exact Or.inl (hzero k hm hk)
    | true =>
      rw [divisions, hleft, if_pos rfl, InPlace.visit]
      by_cases hmem : k ∈ L.db.migratedRows
      · rw [if_pos hmem]
        exact Or.inr (Or.inl rfl)
      · have hnone : L.db.row k = none := by
          rw [mem_migratedRows_iff, not_and] at hmem
          exact Option.not_isSome_iff_eq_none.mp (hmem hk)
        refine Or.inl ?_
        unfold amount
        rw [hnone]
        rfl

theorem DividedOnce.settled (h : DividedOnce file L cuts) :
    Settled file (fun k => L.db.amount k / 100) (migratedDb file L cuts) := by
  have hamounts : ∀ k, k.monetary = true → (migratedDb file L cuts).amount k = L.db.amount k / 100 :=
    fun k hk => amount_migratedDb_iff.mpr (h.rows k hk)
  refine ⟨((Under.start L).run file cuts).2, hamounts, ?_⟩
  rcases h.restored with hleft | hzero
  · exact Or.inl ((hasBalanceRows_migratedDb fun wallet => hamounts _ rfl).mpr hleft)
  · exact Or.inr hzero

/-- A balance in the snapshot is restored where none is left. -/
theorem restored_balance {s : ScaleDb} {f : SnapshotFile} (hrows : s.hasBalanceRows = false)
    {r : Str × Nat} (hr : r ∈ f.balances) : ∃ writes,
      (((snapshotWrites (some f) s).take writes).foldl applySnapshotWrite s).amount (.balance r.1) =
        r.2 := by
  have hmem : SnapshotWrite.balance r.1 r.2 ∈ snapshotWrites (some f) s := by
    unfold snapshotWrites
    simp only [hrows, Bool.false_eq_true, if_false]
    exact List.mem_append_right _ (List.mem_map.mpr ⟨r, hr, rfl⟩)
  obtain ⟨before, after, hwrites⟩ := List.append_of_mem hmem
  refine ⟨before.length + 1, ?_⟩
  rw [hwrites, List.take_length_add_append, List.take_succ_cons, List.take_zero, List.foldl_append]
  show ((Tree.insert _ r.1 r.2).get r.1).getD 0 = r.2
  rw [Tree.get_insert_self]
  rfl

end Once

/-- **The change of the scale**, through opens that are cut off: every amount ends up divided by 100,
and stays so through every later open, exactly when each row with an amount is divided once, or at
least once if the amount is under 100, and no amount of a snapshot is restored. -/
theorem migrates_once_iff (file : Option SnapshotFile) (L : LegacyLedger) (cuts : List Nat) :
    MigratesOnce file L cuts ↔ DividedOnce file L cuts := by
  constructor
  · intro h
    have hamounts : ∀ k, k.monetary = true →
        (migratedDb file L cuts).amount k = L.db.amount k / 100 := fun k hk => h 0 [] k hk
    refine ⟨fun k hk => amount_migratedDb_iff.mp (hamounts k hk), ?_⟩
    by_cases hleft : ∃ wallet, 100 ≤ L.db.amount (.balance wallet)
    · exact Or.inl hleft
    · refine Or.inr fun f hf r hr => ?_
      have hrows : (migratedDb file L cuts).hasBalanceRows = false := by
        rw [← Bool.not_eq_true, hasBalanceRows_migratedDb fun wallet => hamounts _ rfl]
        exact hleft
      obtain ⟨writes, hrestored⟩ := restored_balance hrows hr
      have hkept := h writes [] (.balance r.1) rfl
      subst hf
      have hsmall : L.db.amount (.balance r.1) < 100 :=
        Nat.lt_of_not_le fun hle => hleft ⟨r.1, hle⟩
      rw [Nat.div_eq_of_lt hsmall] at hkept
      exact hrestored.symm.trans hkept
  · intro h writes further k hk
    exact ((h.settled.restore writes).opens further).amounts k hk

end TetCore.ScaleMigration

namespace TetCore.Sample

open TetCore.Lib TetCore.ScaleMigration

/-- A ledger of the old scale: `alice` has 5 TET, and `bob` a worker bond. -/
def legacyDb (bond : Nat) : ScaleDb where
  ledger :=
    { Ledger.empty with
      balances := Tree.empty.insert alice 500000000
      metaTree := Tree.empty.insert .totalSupply (.u64 500000000)
      workerStakes := Tree.empty.insert bob bond }
  chfDepositsMicro := none
  fiatMintStevemonMicro := none
  stevemonPerTet := none

theorem legacyDb_legacy (bond : Nat) : (legacyDb bond).stevemonPerTet ≠ some stevemon := by
  intro h
  cases h

def legacyLedger (bond : Nat) : LegacyLedger := ⟨legacyDb bond, legacyDb_legacy bond⟩

/-- A bond of 1000 TET after one open, and the balance after an open that is cut off behind it. -/
theorem legacy_amounts :
    (ScaleDb.openLedger none (legacyDb 100000000000) (.migrated 0)).amount (.workerBond bob) =
        100000000000 ∧
      (ScaleDb.openLedger none (ScaleDb.openLedger none (legacyDb 0) (.cutOff 1))
        (.migrated 0)).amount (.balance alice) = 50000 ∧
      (legacyDb 100000000000).amount (.workerBond bob) = 100000000000 ∧
      (legacyDb 0).amount (.balance alice) = 500000000 := by
  decide +kernel

end TetCore.Sample

namespace TetCore.ScaleMigration

/-- A worker bond keeps its number, and so is worth a hundred times as much; a balance that was divided
before an open was cut off is divided again by the next one. -/
theorem not_migrated_once :
    ¬ MigratesOnce none (Sample.legacyLedger 100000000000) [] ∧
      ¬ MigratesOnce none (Sample.legacyLedger 0) [1] := by
  obtain ⟨hbond, hbalance, hbond₀, hbalance₀⟩ := Sample.legacy_amounts
  constructor
  · intro h
    have hdivided := h 0 [] (.workerBond Sample.bob) rfl
    have hsame := hbond.symm.trans hdivided
    rw [show (Sample.legacyLedger 100000000000).db.amount (.workerBond Sample.bob) = 100000000000
      from hbond₀] at hsame
    exact absurd hsame (by decide)
  · intro h
    have hdivided := h 0 [] (.balance Sample.alice) rfl
    have hsame := hbalance.symm.trans hdivided
    rw [show (Sample.legacyLedger 0).db.amount (.balance Sample.alice) = 500000000
      from hbalance₀] at hsame
    exact absurd hsame (by decide)

end TetCore.ScaleMigration
