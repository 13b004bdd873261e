import TetCore.Lib.Tree
import TetCore.Lib.Text

/-!
# The catch-up driver

Model of `sync.rs`: the registry of peer heads (`SyncHelloRegistry`), the planned range and the
`CatchUpDriver`. Heights and clock readings are `u64`s, heights whatever a peer reports. A `HashMap`
iterates in some order of its rows (`IterOrder`). A call of the driver reads the clock at most twice:
`now` stamps a blacklisted peer, `later` expires the blacklist.

`catch_up_safety`: over every sequence of events, registries, local heights and clock readings, at
most one range request is in flight, every request is for a peer that is ahead and for a range the
peer has, and an event of another peer leaves the request in flight alone.
-/

namespace TetCore.Sync

open TetCore.Lib

/-! ## Words and maps -/

/-- `u64::saturating_add`. -/
def satAdd64 (a b : UInt64) : UInt64 := .ofNat (min (a.toNat + b.toNat) u64Max)

/-- `u64::saturating_sub`. -/
def satSub64 (a b : UInt64) : UInt64 := .ofNat (a.toNat - b.toNat)

/-- The order a `HashMap` iterates in. -/
structure IterOrder (K V : Type) [Ord K] [Std.TransOrd K] [Std.LawfulEqOrd K] where
  rows : Tree K V → List (K × V)
  perm : ∀ t, (rows t).Perm t.iter

/-- `Iterator::max_by_key`: the last of the greatest elements. -/
def maxByKey {α : Type} (key : α → UInt64) : List α → Option α
  | [] => none
  | x :: xs => some (xs.foldl (fun m y => if key m ≤ key y then y else m) x)

/-! ## Peer heads -/

/-- `ChainHello`. -/
structure ChainHello where
  chainId : Str
  blockHeight : UInt64
  tipBlockId : Str
  stateRoot : Str
  deriving DecidableEq

/-- `PeerHelloRecord`. -/
structure PeerHelloRecord where
  hello : ChainHello
  heightDiff : Int64
  catchUpPending : Bool
  deriving DecidableEq

/-- `SyncHelloRegistry`. -/
structure SyncHelloRegistry where
  peers : Tree Str PeerHelloRecord
  catchUpTriggered : Bool

namespace SyncHelloRegistry

/-- `SyncHelloRegistry::default`. -/
def default : SyncHelloRegistry := ⟨.empty, false⟩

/-- The signed difference of two heights, as `i64`s. -/
def heightDiff (blockHeight localHeight : UInt64) : Int64 :=
  blockHeight.toInt64 - localHeight.toInt64

/-- `record_peer_hello`: the record, and the registry with it. -/
def recordPeerHello (r : SyncHelloRegistry) (peerId : Str) (hello : ChainHello)
    (localHeight : UInt64) : PeerHelloRecord × SyncHelloRegistry :=
  let diff := heightDiff hello.blockHeight localHeight
  let catchUpPending := decide (0 < diff)
  let record : PeerHelloRecord := ⟨hello, diff, catchUpPending⟩
  (record, ⟨r.peers.insert peerId record, r.catchUpTriggered || catchUpPending⟩)

/-- `remove_peer`. -/
def removePeer (r : SyncHelloRegistry) (peerId : Str) : SyncHelloRegistry :=
  { r with peers := r.peers.remove peerId }

/-- `clear_catch_up_triggered`. -/
def clearCatchUpTriggered (r : SyncHelloRegistry) : SyncHelloRegistry :=
  { r with catchUpTriggered := false }

/-- `note_peer_block_height`; the chain id of a peer that is not known is the node's own. -/
def notePeerBlockHeight (r : SyncHelloRegistry) (chainId peerId : Str)
    (blockHeight localHeight : UInt64) : SyncHelloRegistry :=
  let diff := heightDiff blockHeight localHeight
  let r := { r with catchUpTriggered := r.catchUpTriggered || decide (0 < diff) }
  match r.peers.get peerId with
  | some rec =>
    if rec.hello.blockHeight < blockHeight then
      let hello := { rec.hello with blockHeight := blockHeight }
      { r with peers := r.peers.insert peerId ⟨hello, diff, decide (0 < diff)⟩ }
    else r
  | none =>
    if localHeight < blockHeight then
      (r.recordPeerHello peerId ⟨chainId, blockHeight, [], []⟩ localHeight).2
    else r

/-- `any_peer_ahead`. -/
def anyPeerAhead (r : SyncHelloRegistry) (localHeight : UInt64) : Bool :=
  r.peers.iter.any fun p => decide (localHeight < p.2.hello.blockHeight)

/-- `best_sync_peer`. -/
def bestSyncPeer (order : IterOrder Str PeerHelloRecord) (r : SyncHelloRegistry)
    (localHeight : UInt64) (blacklist : Tree Str UInt64) : Option (Str × UInt64) :=
  (maxByKey (fun p => p.2.hello.blockHeight) ((order.rows r.peers).filter fun p =>
    (blacklist.get p.1).isNone && decide (localHeight < p.2.hello.blockHeight))).map
      fun p => (p.1, p.2.hello.blockHeight)

end SyncHelloRegistry

/-! ## The planned range -/

/-- `MAX_SYNC_BATCH_BLOCKS`. -/
def maxSyncBatchBlocks : UInt64 := 100

/-- `batch_limits`, the blocks: `TET_SYNC_MAX_BATCH_BLOCKS` if it is a positive number. -/
def batchLimits (maxBatchBlocksVar : Option UInt64) : UInt64 :=
  (maxBatchBlocksVar.filter fun n => decide (0 < n)).getD maxSyncBatchBlocks

/-- `ChainSyncRangeRequest`. -/
structure ChainSyncRangeRequest where
  fromHeight : UInt64
  toHeight : UInt64
  deriving DecidableEq

/-- `plan_catch_up_range_request`. -/
def planCatchUpRangeRequest (maxBatchBlocksVar : Option UInt64) (localHeight peerHeight : UInt64) :
    ChainSyncRangeRequest :=
  let maxBlocks := batchLimits maxBatchBlocksVar
  let fromHeight := satAdd64 localHeight 1
  let batchEnd := satAdd64 fromHeight (satSub64 maxBlocks 1)
  ⟨fromHeight, min peerHeight batchEnd⟩

/-! ## The driver -/

/-- `CatchUpPhase`. -/
inductive CatchUpPhase where
  | idle
  | requesting (peerId : Str)
  deriving DecidableEq

/-- `CatchUpDriverEvent`. -/
inductive CatchUpDriverEvent where
  | triggered
  | rangeFailed (peerId : Str) (reason : String)
  | peerRemoved (peerId : Str)
  | batchApplied (peerId : Str) (applied : Nat) (failed : Bool)
  | localBackpressure (peerId : Str)
  deriving DecidableEq

/-- `CatchUpAction`. -/
inductive CatchUpAction where
  | none
  | sendRangeRequest (peerId : Str) (request : ChainSyncRangeRequest)
  | clearCatchUpTriggered
  deriving DecidableEq

/-- `CatchUpDriver`. -/
structure CatchUpDriver where
  phase : CatchUpPhase
  blacklist : Tree Str UInt64
  blacklistTtlMs : UInt64

/-- What a call of the driver reads. -/
structure DriverView where
  order : IterOrder Str PeerHelloRecord
  maxBatchBlocksVar : Option UInt64
  registry : SyncHelloRegistry
  localHeight : UInt64
  now : UInt64
  later : UInt64

namespace CatchUpDriver

/-- The entry is older than the blacklist keeps it. -/
def expired (d : CatchUpDriver) (now at_ : UInt64) : Bool :=
  decide (0 < d.blacklistTtlMs) && decide (d.blacklistTtlMs < satSub64 now at_)

/-- `active_blacklist`: the driver without the expired entries; its blacklist is the active set. -/
def activeBlacklist (d : CatchUpDriver) (now : UInt64) : CatchUpDriver :=
  let expired := (d.blacklist.iter.filter fun p => d.expired now p.2).map (·.1)
  { d with blacklist := expired.foldl (fun t k => t.remove k) d.blacklist }

/-- `start_request`. -/
def startRequest (d : CatchUpDriver) (v : DriverView) : CatchUpDriver × CatchUpAction :=
  let d := d.activeBlacklist v.later
  match v.registry.bestSyncPeer v.order v.localHeight d.blacklist with
  | none =>
    if v.registry.anyPeerAhead v.localHeight then (d, .none) else (d, .clearCatchUpTriggered)
  | some (peerId, peerHeight) =>
    ({ d with phase := .requesting peerId },
      .sendRangeRequest peerId (planCatchUpRangeRequest v.maxBatchBlocksVar v.localHeight peerHeight))

/-- `try_continue`. -/
def tryContinue (d : CatchUpDriver) (v : DriverView) : CatchUpDriver × CatchUpAction :=
  if v.registry.anyPeerAhead v.localHeight = false then (d, .clearCatchUpTriggered)
  else if d.phase = .idle then d.startRequest v
  else (d, .none)

/-- The driver with the peer blacklisted. -/
def blacklistPeer (d : CatchUpDriver) (peerId : Str) (now : UInt64) : CatchUpDriver :=
  { d with blacklist := d.blacklist.insert peerId now }

/-- `handle`. -/
def handle (d : CatchUpDriver) (event : CatchUpDriverEvent) (v : DriverView) :
    CatchUpDriver × CatchUpAction :=
  match event with
  | .triggered =>
    if d.phase ≠ .idle then (d, .none)
    else if v.registry.catchUpTriggered = false then (d, .none)
    else if v.registry.anyPeerAhead v.localHeight = false then (d, .clearCatchUpTriggered)
    else d.startRequest v
  | .batchApplied peerId applied failed =>
    if d.phase ≠ .requesting peerId then (d, .none)
    else
      let d := { d with phase := .idle }
      if failed || applied == 0 then (d.blacklistPeer peerId v.now).tryContinue v
      else if v.registry.anyPeerAhead v.localHeight = false then (d, .clearCatchUpTriggered)
      else d.startRequest v
  | .localBackpressure peerId =>
    if d.phase = .requesting peerId then ({ d with phase := .idle }, .none) else (d, .none)
  | .rangeFailed peerId _ =>
    let d := if d.phase = .requesting peerId then { d with phase := .idle } else d
    (d.blacklistPeer peerId v.now).tryContinue v
  | .peerRemoved peerId =>
    if d.phase = .requesting peerId then ({ d with phase := .idle } : CatchUpDriver).tryContinue v
    else (d, .none)

/-- The entry of a blacklisted peer that has not expired. -/
def ActivelyBlacklisted (d : CatchUpDriver) (now : UInt64) (peerId : Str) : Prop :=
  ∃ at_, d.blacklist.get peerId = some at_ ∧ d.expired now at_ = false

end CatchUpDriver

/-- The peer an event is about. -/
def CatchUpDriverEvent.peer : CatchUpDriverEvent → Option Str
  | .triggered => none
  | .rangeFailed peerId _ => some peerId
  | .peerRemoved peerId => some peerId
  | .batchApplied peerId _ _ => some peerId
  | .localBackpressure peerId => some peerId

/-! ## What a call does -/

section Call

variable {d : CatchUpDriver} {v : DriverView} {peerId : Str} {height : UInt64}

theorem maxByKey_mem {α : Type} {key : α → UInt64} {x : α} : ∀ {l : List α},
    maxByKey key l = some x → x ∈ l
  | [], h => by cases h
  | y :: ys, h => by
    rw [maxByKey, Option.some.injEq] at h
    subst h
    induction ys generalizing y with
    | nil => exact List.mem_cons_self
    | cons z zs ih =>
      rw [List.foldl_cons]
      by_cases hz : key y ≤ key z
      · rw [if_pos hz]
        exact List.mem_cons_of_mem y (ih z)
      · rw [if_neg hz]
        rcases List.mem_cons.mp (ih y) with heq | hmem
        · rw [heq]
          exact List.mem_cons_self
        · exact List.mem_cons_of_mem y (List.mem_cons_of_mem z hmem)

/-- The best peer is known, ahead and not blacklisted. -/
theorem SyncHelloRegistry.bestSyncPeer_some {order : IterOrder Str PeerHelloRecord}
    {r : SyncHelloRegistry} {localHeight : UInt64} {blacklist : Tree Str UInt64}
    (h : r.bestSyncPeer order localHeight blacklist = some (peerId, height)) :
    ∃ rec, r.peers.get peerId = some rec ∧ rec.hello.blockHeight = height ∧
      localHeight < height ∧ blacklist.get peerId = none := by
  obtain ⟨⟨p, rec⟩, hmax, heq⟩ := Option.map_eq_some_iff.mp h
  rw [Prod.mk.injEq] at heq
  obtain ⟨rfl, rfl⟩ := heq
  obtain ⟨hmem, hfilter⟩ := List.mem_filter.mp (maxByKey_mem hmax)
  rw [Bool.and_eq_true, Option.isNone_iff_eq_none, decide_eq_true_eq] at hfilter
  exact ⟨rec, Tree.mem_iter.mp ((order.perm r.peers).mem_iff.mp hmem), rfl, hfilter.2, hfilter.1⟩

/-- Only expired entries leave the blacklist. -/
theorem CatchUpDriver.not_blacklisted_of_pruned {now : UInt64}
    (h : (d.activeBlacklist now).blacklist.get peerId = none) :
    ¬ d.ActivelyBlacklisted now peerId := by
  rintro ⟨at_, hat, hkept⟩
  simp only [activeBlacklist, Tree.get_foldl_remove] at h
  split at h
  · rename_i hmem
    obtain ⟨⟨k, a⟩, hrow, rfl⟩ := List.mem_map.mp hmem
    obtain ⟨hget, hexp⟩ := List.mem_filter.mp hrow
    rw [Tree.mem_iter.mp hget, Option.some.injEq] at hat
    rw [hat, hkept] at hexp
    cases hexp
  · rw [hat] at h
    cases h

theorem toNat_ofNat_of_le {n : Nat} (h : n ≤ u64Max) : (UInt64.ofNat n).toNat = n :=
  UInt64.toNat_ofNat_of_lt' (Nat.lt_of_le_of_lt h (by decide))

/-- A batch is not empty. -/
theorem batchLimits_pos (var : Option UInt64) : 0 < (batchLimits var).toNat := by
  unfold batchLimits
  cases h : var.filter fun n => decide (0 < n) with
  | none => decide
  | some n =>
    have hn := (Option.filter_eq_some_iff.mp h).2
    rw [decide_eq_true_eq, UInt64.lt_iff_toNat_lt] at hn
    exact hn

/-- **The planned range** starts above the local height and ends at the peer's height or the cap. -/
theorem planCatchUpRangeRequest_spec {var : Option UInt64} {localHeight : UInt64}
    (h : localHeight < height) :
    let request := planCatchUpRangeRequest var localHeight height
    request.fromHeight.toNat = localHeight.toNat + 1 ∧
      request.fromHeight ≤ request.toHeight ∧ request.toHeight ≤ height ∧
      request.toHeight.toNat - request.fromHeight.toNat + 1 ≤ (batchLimits var).toNat := by
  intro request
  have hpos := batchLimits_pos var
  have hlt := UInt64.lt_iff_toNat_lt.mp h
  have hmax : height.toNat ≤ u64Max := by
    have := height.toNat_lt
    unfold u64Max
    omega
  have hfrom : request.fromHeight.toNat = localHeight.toNat + 1 := by
    change (satAdd64 localHeight 1).toNat = _
    rw [satAdd64, toNat_ofNat_of_le (Nat.min_le_right _ _)]
    change min (localHeight.toNat + 1) u64Max = _
    omega
  have hend : (satAdd64 request.fromHeight (satSub64 (batchLimits var) 1)).toNat =
      min (localHeight.toNat + 1 + ((batchLimits var).toNat - 1)) u64Max := by
    have hb : (batchLimits var).toNat - (1 : UInt64).toNat ≤ u64Max := by
      have := (batchLimits var).toNat_lt
      unfold u64Max
      omega
    rw [satAdd64, toNat_ofNat_of_le (Nat.min_le_right _ _), hfrom, satSub64, toNat_ofNat_of_le hb]
    rfl
  have hto : request.toHeight.toNat =
      min height.toNat (min (localHeight.toNat + 1 + ((batchLimits var).toNat - 1)) u64Max) := by
    change (min height (satAdd64 request.fromHeight (satSub64 (batchLimits var) 1))).toNat = _
    rw [← hend]
    exact UInt64.toNat_min ..
  refine ⟨hfrom, ?_, ?_, ?_⟩
  · rw [UInt64.le_iff_toNat_le, hfrom, hto]
    omega
  · rw [UInt64.le_iff_toNat_le, hto]
    omega
  · rw [hfrom, hto]
    omega

namespace CatchUpDriver

/-- The driver after the event's own entries: the active request ended, the peer blacklisted. -/
def noted (d : CatchUpDriver) (event : CatchUpDriverEvent) (now : UInt64) : CatchUpDriver :=
  let ended := fun peerId => if d.phase = .requesting peerId then { d with phase := .idle } else d
  match event with
  | .triggered => d
  | .batchApplied peerId applied failed =>
    if d.phase = .requesting peerId ∧ (failed || applied == 0) = true then
      (ended peerId).blacklistPeer peerId now
    else ended peerId
  | .localBackpressure peerId => ended peerId
  | .rangeFailed peerId _ => (ended peerId).blacklistPeer peerId now
  | .peerRemoved peerId => ended peerId

theorem tryContinue_cases (d : CatchUpDriver) (v : DriverView) :
    d.tryContinue v = (d, .none) ∨
      d.tryContinue v = (d, .clearCatchUpTriggered) ∧
        v.registry.anyPeerAhead v.localHeight = false ∨
      d.phase = .idle ∧ d.tryContinue v = d.startRequest v := by
  unfold tryContinue
  by_cases hahead : v.registry.anyPeerAhead v.localHeight = false
  · rw [if_pos hahead]
    exact Or.inr (Or.inl ⟨rfl, hahead⟩)
  · rw [if_neg hahead]
    by_cases hidle : d.phase = .idle
    · rw [if_pos hidle]
      exact Or.inr (Or.inr ⟨hidle, rfl⟩)
    · rw [if_neg hidle]
      exact Or.inl rfl

/-- **A call** makes the event's entries, and then does nothing more, clears the trigger with no peer
ahead, or starts a request from the idle phase. -/
theorem handle_cases (d : CatchUpDriver) (event : CatchUpDriverEvent) (v : DriverView) :
    d.handle event v = (d.noted event v.now, .none) ∨
      d.handle event v = (d.noted event v.now, .clearCatchUpTriggered) ∧
        v.registry.anyPeerAhead v.localHeight = false ∨
      (d.noted event v.now).phase = .idle ∧
        d.handle event v = (d.noted event v.now).startRequest v := by
  cases event with
  | triggered =>
    by_cases hidle : d.phase = .idle
    · by_cases hlatch : v.registry.catchUpTriggered = false
      · left
        simp [handle, noted, hlatch]
      · by_cases hahead : v.registry.anyPeerAhead v.localHeight = false
        · refine Or.inr (Or.inl ⟨?_, hahead⟩)
          simp [handle, noted, hidle, hlatch, hahead]
        · refine Or.inr (Or.inr ⟨hidle, ?_⟩)
          simp [handle, noted, hidle, hlatch, hahead]
    · left
      simp [handle, noted, hidle]
  | batchApplied peerId applied failed =>
    by_cases hactive : d.phase = .requesting peerId
    · by_cases hbad : (failed || applied == 0) = true
      · simp only [handle, noted, hactive, hbad, ne_eq, not_true, if_false, if_true, and_self]
        exact tryContinue_cases _ v
      · by_cases hahead : v.registry.anyPeerAhead v.localHeight = false
        · refine Or.inr (Or.inl ⟨?_, hahead⟩)
          simp [handle, noted, hactive, hbad, hahead]
        · refine Or.inr (Or.inr ⟨?_, ?_⟩)
          · simp [noted, hactive, hbad]
          · simp [handle, noted, hactive, hbad, hahead]
    · left
      simp [handle, noted, hactive]
  | localBackpressure peerId =>
    left
    by_cases hactive : d.phase = .requesting peerId
    · simp [handle, noted, hactive]
    · simp [handle, noted, hactive]
  | rangeFailed peerId reason => exact tryContinue_cases _ v
  | peerRemoved peerId =>
    by_cases hactive : d.phase = .requesting peerId
    · have hnoted : d.noted (.peerRemoved peerId) v.now = { d with phase := .idle } := by
        simp [noted, hactive]
      have hhandle : d.handle (.peerRemoved peerId) v =
          ({ d with phase := .idle } : CatchUpDriver).tryContinue v := by
        simp [handle, hactive]
      rw [hnoted, hhandle]
      exact tryContinue_cases _ v
    · left
      simp [handle, noted, hactive]

/-- An event of another peer leaves the request in flight alone. -/
theorem noted_other {event : CatchUpDriverEvent} (now : UInt64) (h : d.phase = .requesting peerId)
    (hne : event.peer ≠ some peerId) : (d.noted event now).phase = .requesting peerId := by
  cases event with
  | triggered => exact h
  | rangeFailed q _ =>
    have hq : peerId ≠ q := fun heq => hne (congrArg some heq.symm)
    simp [noted, blacklistPeer, h, hq]
  | peerRemoved q =>
    have hq : peerId ≠ q := fun heq => hne (congrArg some heq.symm)
    simp [noted, h, hq]
  | batchApplied q _ _ =>
    have hq : peerId ≠ q := fun heq => hne (congrArg some heq.symm)
    simp [noted, h, hq]
  | localBackpressure q =>
    have hq : peerId ≠ q := fun heq => hne (congrArg some heq.symm)
    simp [noted, h, hq]

/-- **A request that is sent**: the phase was idle by then, the peer is known, ahead and not
blacklisted, and the range is planned from its height. -/
theorem handle_send {event : CatchUpDriverEvent} {request : ChainSyncRangeRequest}
    (h : (d.handle event v).2 = .sendRangeRequest peerId request) :
    (d.noted event v.now).phase = .idle ∧ (d.handle event v).1.phase = .requesting peerId ∧
      ¬ (d.noted event v.now).ActivelyBlacklisted v.later peerId ∧
      ∃ rec, v.registry.peers.get peerId = some rec ∧ v.localHeight < rec.hello.blockHeight ∧
        request = planCatchUpRangeRequest v.maxBatchBlocksVar v.localHeight rec.hello.blockHeight := by
  rcases d.handle_cases event v with heq | ⟨heq, -⟩ | ⟨hidle, heq⟩
  · rw [heq] at h
    cases h
  · rw [heq] at h
    cases h
  · rw [heq] at h ⊢
    unfold startRequest at h ⊢
    cases hbest : v.registry.bestSyncPeer v.order v.localHeight
        ((d.noted event v.now).activeBlacklist v.later).blacklist with
    | none =>
      simp only [hbest] at h
      split at h <;> cases h
    | some best =>
      obtain ⟨p, height⟩ := best
      simp only [hbest] at h ⊢
      cases h
      obtain ⟨rec, hrec, rfl, hlt, hfree⟩ := SyncHelloRegistry.bestSyncPeer_some hbest
      exact ⟨hidle, rfl, not_blacklisted_of_pruned hfree, rec, hrec, hlt, rfl⟩

/-- A call that sends nothing leaves the phase as the event's entries do. -/
theorem handle_phase {event : CatchUpDriverEvent}
    (h : ∀ p request, (d.handle event v).2 ≠ .sendRangeRequest p request) :
    (d.handle event v).1.phase = (d.noted event v.now).phase := by
  rcases d.handle_cases event v with heq | ⟨heq, -⟩ | ⟨-, heq⟩
  · rw [heq]
  · rw [heq]
  · rw [heq] at h ⊢
    unfold startRequest at h ⊢
    cases hbest : v.registry.bestSyncPeer v.order v.localHeight
        ((d.noted event v.now).activeBlacklist v.later).blacklist with
    | none =>
      simp only [hbest]
      split <;> rfl
    | some best =>
      simp only [hbest] at h
      exact absurd rfl (h best.1 _)

end CatchUpDriver

end Call

/-! ## Runs -/

/-- One call in a run. -/
structure Step where
  before : CatchUpDriver
  event : CatchUpDriverEvent
  view : DriverView

def Step.after (s : Step) : CatchUpDriver := (s.before.handle s.event s.view).1

def Step.action (s : Step) : CatchUpAction := (s.before.handle s.event s.view).2

/-- The calls of a run from `d`. -/
def steps : CatchUpDriver → List (CatchUpDriverEvent × DriverView) → List Step
  | _, [] => []
  | d, (event, v) :: inputs => ⟨d, event, v⟩ :: steps (d.handle event v).1 inputs

/-- The request is for blocks the peer has, from the next one on, within the cap, and the peer is
known, ahead and not blacklisted when the event's own entry is made. -/
structure RequestSound (s : Step) (peerId : Str) (request : ChainSyncRangeRequest) : Prop where
  ahead : ∃ rec, s.view.registry.peers.get peerId = some rec ∧
    s.view.localHeight < rec.hello.blockHeight ∧ request.toHeight ≤ rec.hello.blockHeight
  free : ¬ (s.before.noted s.event s.view.now).ActivelyBlacklisted s.view.later peerId
  first : request.fromHeight.toNat = s.view.localHeight.toNat + 1
  ordered : request.fromHeight ≤ request.toHeight
  capped : request.toHeight.toNat - request.fromHeight.toNat + 1 ≤
    (batchLimits s.view.maxBatchBlocksVar).toNat

/-- The event ends the request that is in flight to the peer. -/
def Step.Ends (s : Step) (peerId : Str) : Prop :=
  s.before.phase = .requesting peerId ∧ s.event.peer = some peerId

section Runs

variable {d : CatchUpDriver} {inputs : List (CatchUpDriverEvent × DriverView)}

theorem Step.sound {s : Step} {peerId : Str} {request : ChainSyncRangeRequest}
    (h : s.action = .sendRangeRequest peerId request) : RequestSound s peerId request := by
  obtain ⟨-, -, hfree, rec, hrec, hlt, rfl⟩ := CatchUpDriver.handle_send h
  obtain ⟨hfirst, hord, hle, hcap⟩ := planCatchUpRangeRequest_spec hlt
  exact ⟨⟨rec, hrec, hlt, hle⟩, hfree, hfirst, hord, hcap⟩

/-- With a request in flight, another is sent only by the event that ends it or after it. -/
theorem ends_of_send : ∀ {inputs : List (CatchUpDriverEvent × DriverView)} {d : CatchUpDriver}
    {mid post : List Step} {s : Step} {p q : Str} {request : ChainSyncRangeRequest},
    d.phase = .requesting p → steps d inputs = mid ++ s :: post →
    s.action = .sendRangeRequest q request → ∃ t ∈ mid ++ [s], t.Ends p := by
  intro inputs
  induction inputs with
  | nil =>
    intro d mid post s p q request _ h _
    cases mid <;> cases h
  | cons input inputs ih =>
    intro d mid post s p q request hphase h hsend
    obtain ⟨event, v⟩ := input
    have hfirst : Step.mk d event v ∈ mid ++ [s] := by
      cases mid with
      | nil =>
        rw [steps, List.nil_append, List.cons.injEq] at h
        rw [h.1]
        exact List.mem_singleton_self s
      | cons t mid =>
        rw [steps, List.cons_append, List.cons.injEq] at h
        rw [h.1]
        exact List.mem_cons_self
    by_cases hends : event.peer = some p
    · exact ⟨_, hfirst, hphase, hends⟩
    -- the first call keeps the request in flight, so it is not the one that sends
    have hkept := CatchUpDriver.noted_other v.now hphase hends
    have hquiet : ∀ q request, (d.handle event v).2 ≠ .sendRangeRequest q request := by
      intro q request hs
      obtain ⟨hidle, -⟩ := CatchUpDriver.handle_send hs
      rw [hkept] at hidle
      cases hidle
    have hafter := (CatchUpDriver.handle_phase hquiet).trans hkept
    cases mid with
    | nil =>
      rw [steps, List.nil_append, List.cons.injEq] at h
      rw [← h.1] at hsend
      exact absurd hsend (hquiet q request)
    | cons t mid =>
      rw [steps, List.cons_append, List.cons.injEq] at h
      obtain ⟨t', ht', hends'⟩ := ih hafter h.2 hsend
      exact ⟨t', List.mem_cons_of_mem t ht', hends'⟩

/-- Whatever follows a call in a run is a run from the driver it leaves. -/
theorem steps_split : ∀ {inputs : List (CatchUpDriverEvent × DriverView)} {d : CatchUpDriver}
    {pre post : List Step} {s : Step}, steps d inputs = pre ++ s :: post →
      ∃ rest, steps s.after rest = post := by
  intro inputs
  induction inputs with
  | nil =>
    intro d pre post s h
    cases pre <;> cases h
  | cons input inputs ih =>
    intro d pre post s h
    obtain ⟨event, v⟩ := input
    cases pre with
    | nil =>
      rw [steps, List.nil_append, List.cons.injEq] at h
      obtain ⟨rfl, hpost⟩ := h
      exact ⟨inputs, hpost⟩
    | cons t pre =>
      rw [steps, List.cons_append, List.cons.injEq] at h
      exact ih h.2

/-- **Catch-up is safe** in every run: between two requests an event of the first one's peer ended
it, every request is sound, and an event of another peer keeps the request in flight and sends
nothing. -/
theorem catch_up_safety (d : CatchUpDriver) (inputs : List (CatchUpDriverEvent × DriverView)) :
    (∀ pre s mid t post p request q request', steps d inputs = pre ++ s :: (mid ++ t :: post) →
        s.action = .sendRangeRequest p request → t.action = .sendRangeRequest q request' →
        ∃ e ∈ mid ++ [t], e.Ends p) ∧
      (∀ s ∈ steps d inputs, ∀ p request, s.action = .sendRangeRequest p request →
        RequestSound s p request) ∧
      ∀ s ∈ steps d inputs, ∀ p, s.before.phase = .requesting p → s.event.peer ≠ some p →
        s.after.phase = .requesting p ∧ ∀ q request, s.action ≠ .sendRangeRequest q request := by
  refine ⟨?_, fun s _ p request h => Step.sound h, ?_⟩
  · intro pre s mid t post p request q request' hrun hs ht
    obtain ⟨rest, hrest⟩ := steps_split hrun
    obtain ⟨-, hphase, -⟩ := CatchUpDriver.handle_send hs
    exact ends_of_send hphase hrest ht
  · intro s _ p hphase hne
    have hkept := CatchUpDriver.noted_other s.view.now hphase hne
    have hquiet : ∀ q request, s.action ≠ .sendRangeRequest q request := by
      intro q request hs
      obtain ⟨hidle, -⟩ := CatchUpDriver.handle_send hs
      rw [hkept] at hidle
      cases hidle
    exact ⟨(CatchUpDriver.handle_phase hquiet).trans hkept, hquiet⟩

end Runs

end TetCore.Sync
