import TetCore.Ledger.Supply

/-!
# The rows of the vesting locks

Only a worker network reward writes a vesting lock, under a key with the next sequence number, and no
operation deletes one (`exec_vestLocks`); no undo of a block touches them. So in every ledger that the
node leads a fresh one to, the locks are under numbered keys (`Reachable.numbered`).
-/

namespace TetCore

open TetCore.Lib

namespace Ledger

/-- The ledgers that the genesis allocation, operations, the records of the chain and undone blocks
lead to from a fresh database. Any record may be undone. -/
inductive Reachable (W : World) : Ledger → Prop where
  | fresh : Reachable W Ledger.empty
  | genesis {L L' : Ledger} {nowMs : Nat} {founder : Str} (before : Reachable W L)
      (run : applyGenesisAllocation W nowMs founder L = (.ok (), L')) : Reachable W L'
  | op {L : Ledger} (nowMs : Nat) (op : Op) (before : Reachable W L) :
      Reachable W (op.run W nowMs L)
  | undo {L : Ledger} (record : BlockUndoV1) (before : Reachable W L) :
      Reachable W (L.restoreUndo record)
  | records {L L' : Ledger} (before : Reachable W L)
      (same : L' = { L with
        blocks := L'.blocks
        blocksById := L'.blocksById
        canonicalByHeight := L'.canonicalByHeight
        chainTip := L'.chainTip
        blockUndo := L'.blockUndo
        txIndex := L'.txIndex }) : Reachable W L'

/-- The locks are of version 1, each under the key of a number. -/
def Numbered (t : Tree Str VestLockV1) : Prop :=
  ∀ k row, t.get k = some row → row.v = 1 ∧ ∃ id, 1 ≤ id ∧ id ≤ u64Max ∧ k = vestLockKey id

section Rows

variable {W : World} {nowMs : Nat} {L L' : Ledger}

/-- The locks after an operation: as before, or with one more. -/
def LocksAfter (L L' : Ledger) : Prop :=
  L'.vestLocks = L.vestLocks ∨ ∃ id row, 1 ≤ id ∧ id ≤ u64Max ∧ row.v = 1 ∧
    L'.vestLocks = L.vestLocks.insert (vestLockKey id) row

/-- A worker network reward locks what it pays. -/
theorem mintWorkerNetworkReward_vestLocks {worker vault : Str} {gross : Nat} {attested : Bool}
    {r : Nat × Nat × Nat × Nat}
    (h : mintWorkerNetworkReward W nowMs worker vault gross attested L = .ok (r, L')) :
    LocksAfter L L' := by
  unfold mintWorkerNetworkReward at h
  split at h
  · cases h
    exact Or.inl rfl
  simp only [bind_eq_ok, require_eq_ok, Except.ok.injEq, Prod.mk.injEq] at h
  obtain ⟨_, -, _, -, _, -, -, rfl⟩ := h
  right
  refine ⟨_, _, ?_, ?_, rfl, rfl⟩
  · simp only [addCounter, metaU64_putRow, if_true, u64Of]
    unfold satAdd
    have : 1 ≤ u64Max := by decide
    omega
  · simp only [addCounter, metaU64_putRow, if_true, u64Of]
    exact Nat.min_le_right _ _

/-- Any other operation leaves the locks. -/
theorem exec_vestLocks_eq {op : Op} (hop : op.addsLock = false) (h : op.exec W nowMs L = .ok L') :
    L'.vestLocks = L.vestLocks := by
  cases hblock : op.isBlock with
  | false => exact (exec_writes hblock hop h).vestLocks
  | true =>
    cases op
    case applyConsensusBlockBatch =>
      rw [Op.exec, map_snd_eq_ok] at h
      obtain ⟨r, h⟩ := h
      rw [(apply_frame h).rest]
    all_goals cases hblock

/-- **An operation** leaves the locks as they are, or adds one. -/
theorem exec_vestLocks {op : Op} (h : op.exec W nowMs L = .ok L') : LocksAfter L L' := by
  cases hop : op.addsLock with
  | false => exact Or.inl (exec_vestLocks_eq hop h)
  | true =>
    cases op
    case mintWorkerNetworkReward =>
      rw [Op.exec, map_snd_eq_ok] at h
      obtain ⟨r, h⟩ := h
      exact mintWorkerNetworkReward_vestLocks h
    all_goals cases hop

/-- The genesis allocation leaves the locks. -/
theorem genesis_vestLocks {founder : Str}
    (h : applyGenesisAllocation W nowMs founder L = (.ok (), L')) :
    L'.vestLocks = L.vestLocks := by
  obtain ⟨-, treasury, -, rfl, -⟩ := applyGenesisAllocation_ok h
  rfl

/-- **The locks are under numbered keys** in every reachable ledger. -/
theorem Reachable.numbered (h : Reachable W L) : Numbered L.vestLocks := by
  induction h with
  | fresh =>
    intro k row hget
    rw [show Ledger.empty.vestLocks = Tree.empty from rfl, Tree.get_empty] at hget
    cases hget
  | genesis _ run ih => exact genesis_vestLocks run ▸ ih
  | undo record _ ih => exact ih
  | records _ same ih =>
    rw [same]
    exact ih
  | @op L nowMs op _ ih =>
    unfold Op.run
    cases hexec : op.exec W nowMs L with
    | error e => exact ih
    | ok L' =>
      show Numbered L'.vestLocks
      rcases exec_vestLocks hexec with hsame | ⟨id, row, hpos, hmax, hv, hinsert⟩
      · rw [hsame]
        exact ih
      · rw [hinsert]
        intro k row' hget
        rw [Tree.get_insert] at hget
        split at hget
        · rename_i hk
          cases hget
          exact ⟨hv, id, hpos, hmax, hk.symm⟩
        · exact ih k row' hget

theorem Reachable.runOps : ∀ {ops : List (Nat × Op)} {L : Ledger}, Reachable W L →
    Reachable W (runOps W ops L) := by
  intro ops
  induction ops with
  | nil => exact fun h => h
  | cons op ops ih => exact fun h => ih (h.op op.1 op.2)

end Rows

end Ledger

end TetCore
