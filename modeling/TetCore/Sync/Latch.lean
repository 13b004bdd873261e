import TetCore.Sync.CatchUp

/-!
# The catch-up latch

`catch_up_triggered` is set by the sign of an `i64` difference of two `u64` heights and cleared when
no peer is ahead in the order of `u64`s. The two agree while no peer reports a height `2^63` or more
above the local one (`heightDiff_pos`): then, whatever the order of hellos, noted heights, removals
and driver events, the latch is set whenever a known peer is ahead (`no_missed_catch_up`).
-/

namespace TetCore.Sync

open TetCore.Lib

/-! ## The two comparisons -/

/-- The height is `2^63` or more above the local one. -/
def FarAhead (height localHeight : UInt64) : Prop := localHeight.toNat + 2 ^ 63 ≤ height.toNat

/-- The height is more than `2^63` below the local one. -/
def FarBehind (height localHeight : UInt64) : Prop := height.toNat + 2 ^ 63 < localHeight.toNat

theorem toInt_toInt64 (x : UInt64) : x.toInt64.toInt = (x.toNat : Int).bmod (2 ^ 64) :=
  BitVec.toInt_eq_toNat_bmod x.toBitVec

/-- **The sign of the difference**, which wraps around. -/
theorem heightDiff_pos (height localHeight : UInt64) :
    0 < SyncHelloRegistry.heightDiff height localHeight ↔
      localHeight < height ∧ ¬ FarAhead height localHeight ∨ FarBehind height localHeight := by
  have hh := height.toNat_lt
  have hl := localHeight.toNat_lt
  rw [SyncHelloRegistry.heightDiff, Int64.lt_iff_toInt_lt, Int64.toInt_sub, UInt64.lt_iff_toNat_lt,
    toInt_toInt64, toInt_toInt64]
  simp only [Int.bmod_def, FarAhead, FarBehind]
  simp
  omega

/-- The comparisons agree exactly on heights that are not far apart. -/
theorem heightDiff_iff (height localHeight : UInt64) :
    (0 < SyncHelloRegistry.heightDiff height localHeight ↔ localHeight < height) ↔
      ¬ FarAhead height localHeight ∧ ¬ FarBehind height localHeight := by
  rw [heightDiff_pos, UInt64.lt_iff_toNat_lt]
  unfold FarAhead FarBehind
  omega

/-! ## The operations -/

/-- The sync state: one handle for the registry and the driver. -/
structure SyncState where
  registry : SyncHelloRegistry
  driver : CatchUpDriver

/-- An operation on the sync state. -/
inductive SyncOp where
  | hello (peerId : Str) (hello : ChainHello)
  | note (peerId : Str) (blockHeight : UInt64)
  | removePeer (peerId : Str)
  | event (event : CatchUpDriverEvent) (order : IterOrder Str PeerHelloRecord)
      (maxBatchBlocksVar : Option UInt64) (now later : UInt64)

/-- The state after an operation. A driver event clears the latch when the driver says so. -/
def SyncState.step (chainId : Str) (s : SyncState) (op : SyncOp) (localHeight : UInt64) :
    SyncState :=
  match op with
  | .hello peerId hello =>
    { s with registry := (s.registry.recordPeerHello peerId hello localHeight).2 }
  | .note peerId blockHeight =>
    { s with registry := s.registry.notePeerBlockHeight chainId peerId blockHeight localHeight }
  | .removePeer peerId => { s with registry := s.registry.removePeer peerId }
  | .event event order maxBatchBlocksVar now later =>
    let p := s.driver.handle event ⟨order, maxBatchBlocksVar, s.registry, localHeight, now, later⟩
    ⟨if p.2 = .clearCatchUpTriggered then s.registry.clearCatchUpTriggered else s.registry, p.1⟩

/-- The height an operation reports. -/
def SyncOp.reported : SyncOp → Option UInt64
  | .hello _ head => some head.blockHeight
  | .note _ height => some height
  | _ => none

/-- The record an operation writes. -/
def SyncState.written (chainId : Str) (s : SyncState) (op : SyncOp) (localHeight : UInt64) :
    Option PeerHelloRecord :=
  match op with
  | .hello peerId hello => some (s.registry.recordPeerHello peerId hello localHeight).1
  | .note peerId blockHeight =>
    let newer := match s.registry.peers.get peerId with
      | some rec => decide (rec.hello.blockHeight < blockHeight)
      | none => decide (localHeight < blockHeight)
    if newer then (s.step chainId op localHeight).registry.peers.get peerId else none
  | _ => none

/-- The states of a run, with the local height it has reached, in which no operation reports a
height far ahead. -/
inductive LatchRun (chainId : Str) : SyncState → UInt64 → Prop where
  | start (driver : CatchUpDriver) (localHeight : UInt64) :
      LatchRun chainId ⟨.default, driver⟩ localHeight
  | advance {s : SyncState} {l l' : UInt64} (before : LatchRun chainId s l) (grows : l ≤ l') :
      LatchRun chainId s l'
  | step {s : SyncState} {l : UInt64} (op : SyncOp) (before : LatchRun chainId s l)
      (near : ∀ h, op.reported = some h → ¬ FarAhead h l) :
      LatchRun chainId (s.step chainId op l) l

/-- Some known peer reports more than the local height only while the latch is set. -/
def LatchSet (r : SyncHelloRegistry) (localHeight : UInt64) : Prop :=
  ∀ p rec, r.peers.get p = some rec → localHeight < rec.hello.blockHeight →
    r.catchUpTriggered = true

section Latch

variable {chainId : Str} {r : SyncHelloRegistry} {s : SyncState} {l : UInt64}

theorem anyPeerAhead_eq_true : r.anyPeerAhead l = true ↔
    ∃ p rec, r.peers.get p = some rec ∧ l < rec.hello.blockHeight := by
  unfold SyncHelloRegistry.anyPeerAhead
  rw [List.any_eq_true]
  constructor
  · rintro ⟨⟨p, rec⟩, hmem, hlt⟩
    exact ⟨p, rec, Tree.mem_iter.mp hmem, of_decide_eq_true hlt⟩
  · rintro ⟨p, rec, hget, hlt⟩
    exact ⟨(p, rec), Tree.mem_iter.mpr hget, decide_eq_true hlt⟩

/-- Storing a record sets the latch when its height is ahead, and not far ahead. -/
theorem LatchSet.insert (h : LatchSet r l) {peerId : Str} {rec : PeerHelloRecord}
    {height : UInt64} (hheight : rec.hello.blockHeight = height) (hnear : ¬ FarAhead height l) :
    LatchSet ⟨r.peers.insert peerId rec,
      r.catchUpTriggered || decide (0 < SyncHelloRegistry.heightDiff height l)⟩ l := by
  intro p rec' hget hlt
  change (r.catchUpTriggered || decide (0 < SyncHelloRegistry.heightDiff height l)) = true
  rw [Bool.or_eq_true, decide_eq_true_eq, heightDiff_pos]
  change (r.peers.insert peerId rec).get p = some rec' at hget
  rw [Tree.get_insert] at hget
  by_cases hp : peerId = p
  · rw [if_pos hp, Option.some.injEq] at hget
    rw [← hget, hheight] at hlt
    exact Or.inr (Or.inl ⟨hlt, hnear⟩)
  · rw [if_neg hp] at hget
    exact Or.inl (h p rec' hget hlt)

theorem LatchSet.note (h : LatchSet r l) {peerId : Str} {height : UInt64}
    (hnear : ¬ FarAhead height l) :
    LatchSet (r.notePeerBlockHeight chainId peerId height l) l := by
  have hraised : LatchSet
      { r with catchUpTriggered :=
          r.catchUpTriggered || decide (0 < SyncHelloRegistry.heightDiff height l) } l := by
    intro p rec hget hlt
    rw [Bool.or_eq_true]
    exact Or.inl (h p rec hget hlt)
  unfold SyncHelloRegistry.notePeerBlockHeight
  cases hget : r.peers.get peerId with
  | some rec =>
    simp only [hget]
    by_cases hnewer : rec.hello.blockHeight < height
    · rw [if_pos hnewer]
      exact h.insert rfl hnear
    · rw [if_neg hnewer]
      exact hraised
  | none =>
    simp only [hget]
    by_cases hahead : l < height
    · rw [if_pos hahead]
      exact hraised.insert rfl hnear
    · rw [if_neg hahead]
      exact hraised

/-- The driver clears the latch only when no peer is ahead. -/
theorem not_anyPeerAhead_of_clear {d : CatchUpDriver} {event : CatchUpDriverEvent} {v : DriverView}
    (h : (d.handle event v).2 = .clearCatchUpTriggered) :
    v.registry.anyPeerAhead v.localHeight = false := by
  rcases d.handle_cases event v with heq | ⟨-, hahead⟩ | ⟨-, heq⟩
  · rw [heq] at h
    cases h
  · exact hahead
  · rw [heq] at h
    unfold CatchUpDriver.startRequest at h
    cases hbest : v.registry.bestSyncPeer v.order v.localHeight
        ((d.noted event v.now).activeBlacklist v.later).blacklist with
    | none =>
      simp only [hbest] at h
      split at h
      · cases h
      · rename_i hahead
        exact Bool.not_eq_true _ ▸ hahead
    | some best =>
      simp only [hbest] at h
      cases h

/-- **An operation** keeps the latch set while a peer is ahead. -/
theorem LatchSet.step (h : LatchSet s.registry l) (op : SyncOp)
    (hnear : ∀ height, op.reported = some height → ¬ FarAhead height l) :
    LatchSet (s.step chainId op l).registry l := by
  cases op with
  | hello peerId hello => exact h.insert rfl (hnear _ rfl)
  | note peerId blockHeight => exact h.note (hnear _ rfl)
  | removePeer peerId =>
    intro p rec hget hlt
    change (s.registry.peers.remove peerId).get p = some rec at hget
    rw [Tree.get_remove] at hget
    by_cases hp : peerId = p
    · rw [if_pos hp] at hget
      cases hget
    · rw [if_neg hp] at hget
      exact h p rec hget hlt
  | event event order var now later =>
    simp only [SyncState.step]
    by_cases hclear : (s.driver.handle event ⟨order, var, s.registry, l, now, later⟩).2 =
        .clearCatchUpTriggered
    · rw [if_pos hclear]
      intro p rec hget hlt
      have hnone := not_anyPeerAhead_of_clear hclear
      have hahead : s.registry.anyPeerAhead l = true :=
        anyPeerAhead_eq_true.mpr ⟨p, rec, hget, hlt⟩
      rw [hahead] at hnone
      cases hnone
    · rw [if_neg hclear]
      exact h

/-- The latch over a run. -/
theorem LatchRun.latchSet (h : LatchRun chainId s l) : LatchSet s.registry l := by
  induction h with
  | start driver localHeight =>
    intro p rec hget _
    rw [SyncHelloRegistry.default, Tree.get_empty] at hget
    cases hget
  | advance _ grows ih =>
    intro p rec hget hlt
    exact ih p rec hget (UInt64.lt_of_le_of_lt grows hlt)
  | step op _ near ih => exact ih.step op near

/-- The flag of a written record is the sign of its difference. -/
theorem written_pending {op : SyncOp} {rec : PeerHelloRecord}
    (h : s.written chainId op l = some rec) : rec.catchUpPending =
      decide (0 < SyncHelloRegistry.heightDiff rec.hello.blockHeight l) := by
  cases op with
  | hello peerId hello =>
    cases h
    rfl
  | note peerId blockHeight =>
    simp only [SyncState.written, SyncState.step, SyncHelloRegistry.notePeerBlockHeight] at h
    cases hget : s.registry.peers.get peerId with
    | some old =>
      simp only [hget] at h
      by_cases hnewer : old.hello.blockHeight < blockHeight
      · simp only [hnewer, decide_true, if_true, Tree.get_insert_self, Option.some.injEq] at h
        rw [← h]
      · simp only [hnewer, decide_false, Bool.false_eq_true, if_false] at h
        cases h
    | none =>
      simp only [hget] at h
      by_cases hahead : l < blockHeight
      · simp only [hahead, decide_true, if_true, SyncHelloRegistry.recordPeerHello,
          Tree.get_insert_self, Option.some.injEq] at h
        rw [← h]
      · simp only [hahead, decide_false, Bool.false_eq_true, if_false] at h
        cases h
  | removePeer peerId => cases h
  | event => cases h

/-- **No catch-up is missed** while no peer reports a height far ahead: the latch is set whenever a
known peer is ahead. The flag of a record is right exactly when its height is not far from the local
one. -/
theorem no_missed_catch_up (h : LatchRun chainId s l) :
    (s.registry.anyPeerAhead l = true → s.registry.catchUpTriggered = true) ∧
      ∀ op l' rec, s.written chainId op l' = some rec →
        ((rec.catchUpPending = true ↔ l' < rec.hello.blockHeight) ↔
          ¬ FarAhead rec.hello.blockHeight l' ∧ ¬ FarBehind rec.hello.blockHeight l') := by
  constructor
  · intro hahead
    obtain ⟨p, rec, hget, hlt⟩ := anyPeerAhead_eq_true.mp hahead
    exact h.latchSet p rec hget hlt
  · intro op l' rec hwritten
    rw [written_pending hwritten, decide_eq_true_eq]
    exact heightDiff_iff _ _

end Latch

/-- A peer that reports `u64::MAX` to a node at height 0 is ahead and sets nothing. -/
theorem missed_catch_up :
    let r := (SyncHelloRegistry.default.recordPeerHello "p".toList ⟨[], -1, [], []⟩ 0).2
    r.anyPeerAhead 0 = true ∧ r.catchUpTriggered = false ∧
      (r.peers.get "p".toList).map (·.catchUpPending) = some false := by
  decide

/-- A peer two blocks ahead. -/
theorem no_missed_catch_up_twoAhead :
    let s := (SyncState.mk .default ⟨.idle, .empty, 0⟩).step [] (.hello [] ⟨[], 2, [], []⟩) 0
    s.registry.anyPeerAhead 0 = true ∧ s.registry.catchUpTriggered = true := by
  intro s
  have hrun : LatchRun [] s 0 := by
    refine .step _ (.start ⟨.idle, .empty, 0⟩ 0) fun height hh => ?_
    rw [← Option.some.inj hh]
    unfold FarAhead
    decide
  have hahead : s.registry.anyPeerAhead 0 = true := by decide
  exact ⟨hahead, (no_missed_catch_up hrun).1 hahead⟩

end TetCore.Sync
