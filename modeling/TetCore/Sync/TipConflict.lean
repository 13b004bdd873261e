import TetCore.Sync.CatchUp

/-!
# Tip conflicts

Model of `peer_tip_conflicts_with_local` and of the gate built on it
(`compute_ledger_sync_status_full`), over runs in which every peer tells the truth about one chain
and the local tip is on it (`HonestRun`).

A gossiped block raises the height of a peer's record and leaves the id and the root of the peer's
last hello in place. Once the local tip reaches the raised height, the record is compared with it
(`Overtaken`): a tip conflict between two nodes of one chain (`false_conflict_after_gossip`).

`tip_conflict_iff`: in an honest run there is a conflict at a moment exactly when some peer is
overtaken at it; `synced_of_not_overtaken` opens the gate otherwise.
-/

namespace TetCore.Sync

open TetCore.Lib

/-! ## The comparison and the gate -/

namespace SyncHelloRegistry

/-- `peer_tip_conflicts_with_local`. -/
def peerTipConflictsWithLocal (r : SyncHelloRegistry) (localHeight : UInt64)
    (localStateRoot localTipBlockId : Str) : Bool :=
  if localHeight = 0 then false
  else r.peers.iter.any fun p =>
    decide (p.2.hello.blockHeight = localHeight) &&
      (!p.2.hello.stateRoot.isEmpty && decide (p.2.hello.stateRoot ≠ localStateRoot) ||
        !p.2.hello.tipBlockId.isEmpty && decide (p.2.hello.tipBlockId ≠ localTipBlockId))

/-- `best_peer_overall`. -/
def bestPeerOverall (order : IterOrder Str PeerHelloRecord) (r : SyncHelloRegistry) :
    Option (Str × UInt64) :=
  (maxByKey (fun p => p.2.hello.blockHeight) (order.rows r.peers)).map
    fun p => (p.1, p.2.hello.blockHeight)

end SyncHelloRegistry

/-- `InProgressRangeRequest`. -/
structure InProgressRangeRequest where
  peerId : Str
  fromHeight : UInt64
  toHeight : UInt64

/-- `SyncStatusInfo`. -/
structure SyncStatusInfo where
  active : Bool
  lagBlocks : UInt64
  bestPeerHeight : UInt64
  bestPeerId : Str
  inProgressRequest : Option InProgressRangeRequest

/-- `LedgerSyncStatus`. -/
structure LedgerSyncStatus where
  synced : Bool
  sync : SyncStatusInfo

/-- What the gate reads beside the registry, the driver and the local tip. -/
structure GateView where
  order : IterOrder Str PeerHelloRecord
  inProgress : Option InProgressRangeRequest
  hasBootnodes : Bool
  isBootnode : Bool
  peerlessOk : Bool

/-- A node with bootnodes has not heard a first hello. -/
def awaitingFirstHello (g : GateView) (r : SyncHelloRegistry) : Bool :=
  g.hasBootnodes && r.peers.iter.isEmpty && !g.isBootnode && !g.peerlessOk

/-- `compute_ledger_sync_status_full`. -/
def computeLedgerSyncStatusFull (g : GateView) (localHeight : UInt64)
    (localStateRoot localTipBlockId : Str) (r : SyncHelloRegistry) (d : CatchUpDriver) :
    LedgerSyncStatus :=
  let tipConflict := r.peerTipConflictsWithLocal localHeight localStateRoot localTipBlockId
  let best := (r.bestPeerOverall g.order).getD ([], localHeight)
  ⟨!awaitingFirstHello g r && !r.catchUpTriggered && !r.anyPeerAhead localHeight && !tipConflict &&
      decide (d.phase = .idle),
    ⟨decide (d.phase ≠ .idle), satSub64 best.2 localHeight, best.2, best.1, g.inProgress⟩⟩

/-! ## Honest runs -/

/-- The block id and the state root at each height of the chain all peers are on. -/
structure CommonChain where
  blockId : UInt64 → Str
  stateRoot : UInt64 → Str

/-- The hello of a peer at a height of the chain. -/
def CommonChain.hello (c : CommonChain) (chainId : Str) (height : UInt64) : ChainHello :=
  ⟨chainId, height, c.blockId height, c.stateRoot height⟩

/-- A node among honest peers: the height each peer has reached, and the height of the hello that
a peer's record comes from, if it comes from one. -/
structure HonestNet where
  registry : SyncHelloRegistry
  localHeight : UInt64
  reached : Str → UInt64
  said : Str → Option UInt64

/-- The runs of a node whose peers tell the truth about the chain `c`. The local tip moves along it
as it likes. -/
inductive HonestRun (chainId : Str) (c : CommonChain) : HonestNet → Prop where
  | start (localHeight : UInt64) (reached : Str → UInt64) :
      HonestRun chainId c ⟨.default, localHeight, reached, fun _ => none⟩
  | localTip {v : HonestNet} (before : HonestRun chainId c v) (height : UInt64) :
      HonestRun chainId c { v with localHeight := height }
  | peerGrows {v : HonestNet} (before : HonestRun chainId c v) (peerId : Str) (height : UInt64)
      (grows : v.reached peerId ≤ height) :
      HonestRun chainId c { v with reached := Function.update v.reached peerId height }
  | hello {v : HonestNet} (before : HonestRun chainId c v) (peerId : Str) (height : UInt64)
      (held : height ≤ v.reached peerId) :
      HonestRun chainId c { v with
        registry := (v.registry.recordPeerHello peerId (c.hello chainId height) v.localHeight).2
        said := Function.update v.said peerId (some height) }
  | note {v : HonestNet} (before : HonestRun chainId c v) (peerId : Str) (height : UInt64)
      (held : height ≤ v.reached peerId) :
      HonestRun chainId c { v with
        registry := v.registry.notePeerBlockHeight chainId peerId height v.localHeight }
  | removePeer {v : HonestNet} (before : HonestRun chainId c v) (peerId : Str) :
      HonestRun chainId c { v with
        registry := v.registry.removePeer peerId
        said := Function.update v.said peerId none }

/-- The chain names itself differently at two heights: the root or the id at the first is not empty
and not the one at the second. -/
def CommonChain.Differs (c : CommonChain) (height localHeight : UInt64) : Prop :=
  c.stateRoot height ≠ [] ∧ c.stateRoot height ≠ c.stateRoot localHeight ∨
    c.blockId height ≠ [] ∧ c.blockId height ≠ c.blockId localHeight

/-- Gossip has raised the peer's record to the local height since the peer's last hello, which was
for a height where the chain names itself differently. -/
def Overtaken (c : CommonChain) (v : HonestNet) (peerId : Str) : Prop :=
  ∃ rec said, v.registry.peers.get peerId = some rec ∧ v.said peerId = some said ∧
    said < rec.hello.blockHeight ∧ rec.hello.blockHeight = v.localHeight ∧
    c.Differs said v.localHeight

/-! ## What a record says -/

section Honest

variable {chainId : Str} {c : CommonChain} {v : HonestNet} {r : SyncHelloRegistry}

/-- The record of a peer names the chain at the height of its last hello, and nothing when there
was none. -/
def Told (c : CommonChain) : Option UInt64 → PeerHelloRecord → Prop
  | some said, rec => said ≤ rec.hello.blockHeight ∧ rec.hello.tipBlockId = c.blockId said ∧
      rec.hello.stateRoot = c.stateRoot said
  | none, rec => rec.hello.tipBlockId = [] ∧ rec.hello.stateRoot = []

/-- Every record tells what its peer said, and only a recorded peer has said something. -/
structure Honest (c : CommonChain) (r : SyncHelloRegistry) (said : Str → Option UInt64) : Prop where
  told : ∀ p rec, r.peers.get p = some rec → Told c (said p) rec
  silent : ∀ p, r.peers.get p = none → said p = none

/-- Raising the height keeps what a record tells. -/
theorem Told.raise {said : Option UInt64} {rec : PeerHelloRecord} (h : Told c said rec)
    {height : UInt64} (hle : rec.hello.blockHeight ≤ height) (diff : Int64) (pending : Bool) :
    Told c said ⟨{ rec.hello with blockHeight := height }, diff, pending⟩ := by
  cases said with
  | none => exact h
  | some at_ => exact ⟨UInt64.le_trans h.1 hle, h.2⟩

/-- A peer's record that tells what the peer said is stored. -/
theorem Honest.insert {said : Str → Option UInt64} (h : Honest c r said) {peerId : Str}
    {rec : PeerHelloRecord} {height : Option UInt64} (hrec : Told c height rec) (latch : Bool) :
    Honest c ⟨r.peers.insert peerId rec, latch⟩ (Function.update said peerId height) := by
  constructor
  · intro p rec' hget
    simp only [Tree.get_insert] at hget
    by_cases hp : peerId = p
    · rw [if_pos hp, Option.some.injEq] at hget
      rw [← hget, ← hp, Function.update_self]
      exact hrec
    · rw [if_neg hp] at hget
      rw [Function.update_of_ne (Ne.symm hp)]
      exact h.told p rec' hget
  · intro p hnone
    simp only [Tree.get_insert] at hnone
    by_cases hp : peerId = p
    · rw [if_pos hp] at hnone
      cases hnone
    · rw [if_neg hp] at hnone
      rw [Function.update_of_ne (Ne.symm hp)]
      exact h.silent p hnone

theorem Honest.note {said : Str → Option UInt64} (h : Honest c r said) (peerId : Str)
    (height localHeight : UInt64) :
    Honest c (r.notePeerBlockHeight chainId peerId height localHeight) said := by
  -- a note changes nothing of what the peer said
  have hsame : Function.update said peerId (said peerId) = said := Function.update_eq_self ..
  unfold SyncHelloRegistry.notePeerBlockHeight
  cases hget : r.peers.get peerId with
  | some rec =>
    simp only [hget]
    by_cases hnewer : rec.hello.blockHeight < height
    · rw [if_pos hnewer, ← hsame]
      exact h.insert ((h.told peerId rec hget).raise (UInt64.le_of_lt hnewer) _ _) _
    · rw [if_neg hnewer]
      exact ⟨h.told, h.silent⟩
  | none =>
    simp only [hget]
    by_cases hahead : localHeight < height
    · rw [if_pos hahead, ← hsame, h.silent peerId hget]
      have htold : Told c none
          (r.recordPeerHello peerId ⟨chainId, height, [], []⟩ localHeight).1 := ⟨rfl, rfl⟩
      exact h.insert htold _
    · rw [if_neg hahead]
      exact ⟨h.told, h.silent⟩

theorem Honest.hello {said : Str → Option UInt64} (h : Honest c r said) (peerId : Str)
    (height localHeight : UInt64) :
    Honest c (r.recordPeerHello peerId (c.hello chainId height) localHeight).2
      (Function.update said peerId (some height)) := by
  have htold : Told c (some height)
      (r.recordPeerHello peerId (c.hello chainId height) localHeight).1 :=
    ⟨UInt64.le_refl height, rfl, rfl⟩
  exact h.insert htold _

theorem Honest.removePeer {said : Str → Option UInt64} (h : Honest c r said) (peerId : Str) :
    Honest c (r.removePeer peerId) (Function.update said peerId none) := by
  constructor
  · intro p rec hrec
    simp only [SyncHelloRegistry.removePeer, Tree.get_remove] at hrec
    by_cases hp : peerId = p
    · rw [if_pos hp] at hrec
      cases hrec
    · rw [if_neg hp] at hrec
      rw [Function.update_of_ne (Ne.symm hp)]
      exact h.told p rec hrec
  · intro p hnone
    by_cases hp : peerId = p
    · rw [← hp, Function.update_self]
    · simp only [SyncHelloRegistry.removePeer, Tree.get_remove, if_neg hp] at hnone
      rw [Function.update_of_ne (Ne.symm hp)]
      exact h.silent p hnone

theorem HonestRun.honest (h : HonestRun chainId c v) : Honest c v.registry v.said := by
  induction h with
  | start localHeight reached =>
    constructor
    · intro p rec hget
      rw [SyncHelloRegistry.default, Tree.get_empty] at hget
      cases hget
    · intro p _
      rfl
  | localTip _ height ih => exact ih
  | peerGrows _ peerId height grows ih => exact ih
  | hello _ peerId height held ih => exact ih.hello peerId height _
  | note _ peerId height held ih => exact ih.note peerId height _
  | removePeer _ peerId ih => exact ih.removePeer peerId

/-! ## The conflict -/

/-- A record conflicts with a local tip of its height by its root or by its id. -/
theorem peerTipConflictsWithLocal_eq_true {localHeight : UInt64} {stateRoot tipBlockId : Str} :
    r.peerTipConflictsWithLocal localHeight stateRoot tipBlockId = true ↔
      localHeight ≠ 0 ∧ ∃ p rec, r.peers.get p = some rec ∧ rec.hello.blockHeight = localHeight ∧
        (rec.hello.stateRoot ≠ [] ∧ rec.hello.stateRoot ≠ stateRoot ∨
          rec.hello.tipBlockId ≠ [] ∧ rec.hello.tipBlockId ≠ tipBlockId) := by
  unfold SyncHelloRegistry.peerTipConflictsWithLocal
  by_cases hzero : localHeight = 0
  · simp [hzero]
  · rw [if_neg hzero, List.any_eq_true]
    constructor
    · rintro ⟨⟨p, rec⟩, hmem, hrec⟩
      simp only [Bool.and_eq_true, Bool.or_eq_true, decide_eq_true_eq, Bool.not_eq_true',
        List.isEmpty_eq_false_iff] at hrec
      exact ⟨hzero, p, rec, Tree.mem_iter.mp hmem, hrec.1, hrec.2⟩
    · rintro ⟨-, p, rec, hget, hheight, hdiffer⟩
      refine ⟨(p, rec), Tree.mem_iter.mpr hget, ?_⟩
      simp only [Bool.and_eq_true, Bool.or_eq_true, decide_eq_true_eq, Bool.not_eq_true',
        List.isEmpty_eq_false_iff]
      exact ⟨hheight, hdiffer⟩

/-- **Tip conflicts among honest peers**: there is one exactly while a peer is overtaken. -/
theorem tip_conflict_iff (h : HonestRun chainId c v) :
    v.registry.peerTipConflictsWithLocal v.localHeight (c.stateRoot v.localHeight)
        (c.blockId v.localHeight) = false ↔ ∀ p, ¬ Overtaken c v p := by
  rw [← Bool.not_eq_true, not_iff_comm, not_forall]
  simp only [not_not]
  rw [peerTipConflictsWithLocal_eq_true]
  constructor
  · rintro ⟨p, rec, said, hget, hsaid, hlt, hheight, hdiffer⟩
    have htold := h.honest.told p rec hget
    rw [hsaid] at htold
    obtain ⟨-, htip, hroot⟩ := htold
    refine ⟨?_, p, rec, hget, hheight, ?_⟩
    · rintro hzero
      rw [hheight, hzero] at hlt
      exact absurd hlt (UInt64.not_lt_zero)
    · rw [htip, hroot]
      exact hdiffer
  · rintro ⟨-, p, rec, hget, hheight, hdiffer⟩
    have htold := h.honest.told p rec hget
    cases hsaid : v.said p with
    | none =>
      -- a record made by gossip names no tip
      rw [hsaid] at htold
      rcases hdiffer with ⟨hne, -⟩ | ⟨hne, -⟩
      · exact absurd htold.2 hne
      · exact absurd htold.1 hne
    | some said =>
      rw [hsaid] at htold
      obtain ⟨hle, htip, hroot⟩ := htold
      rw [htip, hroot] at hdiffer
      refine ⟨p, rec, said, hget, hsaid, ?_, hheight, hdiffer⟩
      -- a hello for the local height itself names the local tip
      by_contra hnot
      have heq : said = v.localHeight := by
        rw [← hheight]
        exact UInt64.le_antisymm hle (UInt64.not_lt.mp hnot)
      rw [heq] at hdiffer
      rcases hdiffer with ⟨-, hne⟩ | ⟨-, hne⟩
      · exact hne rfl
      · exact hne rfl

/-- The gate is open for a node that has caught up, unless a peer is overtaken. -/
theorem synced_of_not_overtaken (h : HonestRun chainId c v) {g : GateView} {d : CatchUpDriver}
    (hfirst : awaitingFirstHello g v.registry = false)
    (hlatch : v.registry.catchUpTriggered = false)
    (hahead : v.registry.anyPeerAhead v.localHeight = false) (hidle : d.phase = .idle)
    (hfresh : ∀ p, ¬ Overtaken c v p) :
    (computeLedgerSyncStatusFull g v.localHeight (c.stateRoot v.localHeight)
      (c.blockId v.localHeight) v.registry d).synced = true := by
  have htip := (tip_conflict_iff h).mpr hfresh
  simp [computeLedgerSyncStatusFull, hfirst, hlatch, hahead, htip, hidle]

end Honest

end TetCore.Sync

namespace TetCore.Sample

open TetCore.Lib TetCore.Sync

/-- A chain with one id and root up to height 1 and another one above. -/
def twoBlocks : CommonChain :=
  ⟨fun h => if h ≤ 1 then "b1".toList else "b2".toList,
    fun h => if h ≤ 1 then "r1".toList else "r2".toList⟩

/-- A node at height 1 after the hello of a peer at height 1. -/
def greetedNet : HonestNet :=
  ⟨(SyncHelloRegistry.default.recordPeerHello "p".toList (twoBlocks.hello [] 1) 1).2, 1,
    Function.update (fun _ => 1) "p".toList 2, Function.update (fun _ => none) "p".toList (some 1)⟩

/-- The node at height 2 after the peer has gossiped its block at height 2. -/
def overtakenNet : HonestNet :=
  { greetedNet with
    registry := greetedNet.registry.notePeerBlockHeight [] "p".toList 2 1
    localHeight := 2 }

theorem greetedNet_run : HonestRun [] twoBlocks greetedNet := by
  have hstart : HonestRun [] twoBlocks _ := .start 1 fun _ => 1
  have hgrown := hstart.peerGrows "p".toList 2 (by decide)
  exact hgrown.hello "p".toList 1 (by simp)

theorem overtakenNet_run : HonestRun [] twoBlocks overtakenNet := by
  have hnoted := greetedNet_run.note "p".toList 2 (by simp [greetedNet])
  exact hnoted.localTip 2

end TetCore.Sample

namespace TetCore.Sync

/-- An honest peer's hello, its next block by gossip, and that block applied: a conflict. -/
theorem false_conflict_after_gossip :
    HonestRun [] Sample.twoBlocks Sample.overtakenNet ∧
      Sample.overtakenNet.registry.peerTipConflictsWithLocal Sample.overtakenNet.localHeight
        (Sample.twoBlocks.stateRoot Sample.overtakenNet.localHeight)
        (Sample.twoBlocks.blockId Sample.overtakenNet.localHeight) = true :=
  ⟨Sample.overtakenNet_run, by decide +kernel⟩

/-- Without the gossip there is none. -/
theorem tip_conflict_iff_greeted :
    Sample.greetedNet.registry.peerTipConflictsWithLocal Sample.greetedNet.localHeight
      (Sample.twoBlocks.stateRoot Sample.greetedNet.localHeight)
      (Sample.twoBlocks.blockId Sample.greetedNet.localHeight) = false := by
  refine (tip_conflict_iff Sample.greetedNet_run).mpr fun p hovertaken => ?_
  obtain ⟨rec, said, -, hsaid, -, -, hdiffer⟩ := hovertaken
  have hone : said = 1 := by
    simp only [Sample.greetedNet] at hsaid
    by_cases hp : p = "p".toList
    · rw [hp, Function.update_self, Option.some.injEq] at hsaid
      exact hsaid.symm
    · rw [Function.update_of_ne hp] at hsaid
      cases hsaid
  rw [hone] at hdiffer
  rcases hdiffer with ⟨-, hne⟩ | ⟨-, hne⟩
  · exact hne rfl
  · exact hne rfl

end TetCore.Sync
