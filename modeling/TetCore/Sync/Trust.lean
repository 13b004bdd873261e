import TetCore.Sync.Latch
import TetCore.Sync.TipConflict

/-!
# Trusted sync peers

Model of `SyncTrust`, `ProducerPeers` and the doors of the swarm loop to the hello registry: a hello
(`ingest_remote_chain_hello`), a gossiped block and the skipped apply of one, the loss of a bootnode
(`run_bootnode_recovery_fallback`), a disconnect and the driver's events. Every operation reads the
local height on its own. A peer id is its text.

A hello is checked by `SyncTrust::trusts`. A gossiped block is checked by `check_block_source`
alone, which passes any source when no producer is pinned, and the loss of a bootnode by nothing
(`Leaks`).

`untrusted_never_steer`: in a run without such an operation the registry holds trusted peers only,
whatever untrusted peers send leaves its peers alone, does not set the latch and keeps the gate
open, and every range request goes to a trusted peer. `leaks_iff`: the condition is exact.
-/

namespace TetCore.Sync

open TetCore.Lib

/-! ## Who is trusted -/

/-- `ProducerPeers`: the peer that may publish each producer's blocks. -/
structure ProducerPeers where
  peers : Tree Str Str

/-- What `check_block_source` refuses a block with. -/
inductive BlockSourceError where
  | noConfiguredPeer (id : Str)
  | publishedBy (id source expected : Str)
  | noSource (id : Str)

/-- No producer is pinned. -/
def ProducerPeers.Unpinned (m : ProducerPeers) : Prop := m.peers.iter = []

instance (m : ProducerPeers) : Decidable m.Unpinned :=
  decidable_of_iff (m.peers.iter.isEmpty = true) List.isEmpty_iff

/-- `check_block_source`. -/
def ProducerPeers.checkBlockSource (m : ProducerPeers) (producerId : Str) (source : Option Str) :
    Except BlockSourceError Unit :=
  if m.Unpinned then .ok ()
  else
    let id := trimLower producerId
    match m.peers.get id with
    | none => .error (.noConfiguredPeer id)
    | some expected =>
      match source with
      | some src => if src = expected then .ok () else .error (.publishedBy id src expected)
      | none => .error (.noSource id)

/-- `SyncTrust`. -/
inductive SyncTrust where
  | everyone
  | only (pinned relays : List Str)

/-- `SyncTrust::new`, of the parsed relays. -/
def SyncTrust.new (m : ProducerPeers) (relays : List Str) (explicitSoleValidator : Bool) :
    SyncTrust :=
  let pinned := m.peers.iter.map Prod.snd
  if !pinned.isEmpty || !relays.isEmpty || explicitSoleValidator then .only pinned relays
  else .everyone

/-- `SyncTrust::trusts`. -/
def SyncTrust.trusts : SyncTrust → Str → Bool
  | .everyone, _ => true
  | .only pinned relays, peer => pinned.contains peer || relays.contains peer

/-! ## The swarm loop -/

/-- The configuration of the loop. -/
structure SwarmConfig where
  chainId : Str
  producerPeers : ProducerPeers
  relays : List Str
  explicitSoleValidator : Bool
  bootnodes : List Str

def SwarmConfig.trust (c : SwarmConfig) : SyncTrust :=
  .new c.producerPeers c.relays c.explicitSoleValidator

/-- A gossiped block in the apply queue. -/
structure GossipJob where
  source : Option Str
  producerId : Str
  blockHeight : UInt64

/-- The sync state, and the gossiped blocks whose outcome the loop still has to hear. -/
structure SwarmLoop where
  sync : SyncState
  jobs : List GossipJob

/-- An operation of the loop on the sync state. A gossiped block is offered to the apply queue or
not; its apply is skipped, for missing blocks or not, or ends otherwise. -/
inductive LoopOp where
  | hello (peerId : Str) (hello : ChainHello)
  | blockMined (source : Option Str) (producerId : Str) (blockHeight : UInt64) (offered : Bool)
  | gossipDone (skippedMissing : Option Bool)
  | bootnodeLost (peerId : Str)
  | disconnected (peerId : Str) (order : IterOrder Str PeerHelloRecord)
      (maxBatchBlocksVar : Option UInt64) (now later : UInt64)
  | driver (event : CatchUpDriverEvent) (order : IterOrder Str PeerHelloRecord)
      (maxBatchBlocksVar : Option UInt64) (now later : UInt64)
  | blacklistPeer (peerId : Str) (now : UInt64)
  | unblacklistPeer (peerId : Str)

/-- `force_catch_up_triggered`. -/
def SyncHelloRegistry.forceCatchUpTriggered (r : SyncHelloRegistry) : SyncHelloRegistry :=
  { r with catchUpTriggered := true }

/-- `unblacklist_peer`. -/
def CatchUpDriver.unblacklistPeer (d : CatchUpDriver) (peerId : Str) : CatchUpDriver :=
  { d with blacklist := d.blacklist.remove peerId }

namespace SwarmLoop

variable (c : SwarmConfig)

/-- The height of a block's source, if it has one. -/
def note (s : SwarmLoop) (source : Option Str) (blockHeight localHeight : UInt64) : SwarmLoop :=
  match source with
  | some peerId => { s with sync := s.sync.step c.chainId (.note peerId blockHeight) localHeight }
  | none => s

/-- The loop after an operation. -/
def step (s : SwarmLoop) (op : LoopOp) (localHeight : UInt64) : SwarmLoop :=
  match op with
  | .hello peerId hello =>
    if c.trust.trusts peerId then
      { s with sync := s.sync.step c.chainId (.hello peerId hello) localHeight }
    else s
  | .blockMined source producerId blockHeight offered =>
    match c.producerPeers.checkBlockSource producerId source with
    | .error _ => s
    | .ok () =>
      let s := s.note c source blockHeight localHeight
      if offered then { s with jobs := s.jobs ++ [⟨source, producerId, blockHeight⟩] } else s
  | .gossipDone skippedMissing =>
    match s.jobs with
    | [] => s
    | job :: jobs =>
      let needsCatchUp := skippedMissing.any fun missing =>
        missing || decide (localHeight < job.blockHeight)
      let s := { s with jobs := jobs }
      if needsCatchUp then s.note c job.source job.blockHeight localHeight else s
  | .bootnodeLost peerId =>
    let r := s.sync.registry
    if c.bootnodes.contains peerId && (r.peers.iter.isEmpty || r.anyPeerAhead localHeight) then
      { s with sync := { s.sync with registry := r.forceCatchUpTriggered } }
    else s
  | .disconnected peerId order var now later =>
    let sync := s.sync.step c.chainId (.removePeer peerId) localHeight
    { s with sync :=
        sync.step c.chainId (.event (.peerRemoved peerId) order var now later) localHeight }
  | .driver event order var now later =>
    { s with sync := s.sync.step c.chainId (.event event order var now later) localHeight }
  | .blacklistPeer peerId now =>
    { s with sync := { s.sync with driver := s.sync.driver.blacklistPeer peerId now } }
  | .unblacklistPeer peerId =>
    { s with sync := { s.sync with driver := s.sync.driver.unblacklistPeer peerId } }

end SwarmLoop

/-- The peer an operation comes from. -/
def LoopOp.actor (s : SwarmLoop) : LoopOp → Option Str
  | .hello peerId _ => some peerId
  | .blockMined source _ _ _ => source
  | .gossipDone _ => s.jobs.head?.bind (·.source)
  | .bootnodeLost peerId => some peerId
  | .disconnected peerId _ _ _ _ => some peerId
  | .driver event _ _ _ _ => event.peer
  | .blacklistPeer peerId _ => some peerId
  | .unblacklistPeer peerId => some peerId

/-- No trusted peer is behind the operation. -/
def LoopOp.Untrusted (c : SwarmConfig) (s : SwarmLoop) (op : LoopOp) : Prop :=
  ∀ p, op.actor s = some p → c.trust.trusts p = false

/-- Noting the height of an untrusted source tells: no producer is pinned, and the height is ahead,
or so far behind that its difference wraps around and sets a latch that was not set. -/
def NoteLeaks (c : SwarmConfig) (s : SwarmLoop) (source : Option Str)
    (blockHeight localHeight : UInt64) : Prop :=
  c.producerPeers.Unpinned ∧ (∃ p, source = some p ∧ c.trust.trusts p = false) ∧
    (localHeight < blockHeight ∨
      FarBehind blockHeight localHeight ∧ s.sync.registry.catchUpTriggered = false)

/-- **The doors left open** to an untrusted peer: a block ahead of the local height that it gossips
while no producer is pinned, the skipped apply of one, and its loss as a bootnode while no peer is
known or one is ahead. -/
def Leaks (c : SwarmConfig) (s : SwarmLoop) (op : LoopOp) (localHeight : UInt64) : Prop :=
  match op with
  | .blockMined source _ blockHeight _ => NoteLeaks c s source blockHeight localHeight
  | .gossipDone skippedMissing =>
    ∃ job ∈ s.jobs.head?, (∃ missing ∈ skippedMissing,
      missing = true ∨ localHeight < job.blockHeight) ∧
      NoteLeaks c s job.source job.blockHeight localHeight
  | .bootnodeLost peerId =>
    peerId ∈ c.bootnodes ∧ c.trust.trusts peerId = false ∧
      s.sync.registry.catchUpTriggered = false ∧
      (s.sync.registry.peers.iter = [] ∨ s.sync.registry.anyPeerAhead localHeight = true)
  | _ => False

/-- The runs of the loop in which no operation leaks. -/
inductive LoopRun (c : SwarmConfig) : SwarmLoop → Prop where
  | start (driver : CatchUpDriver) : LoopRun c ⟨⟨.default, driver⟩, []⟩
  | step {s : SwarmLoop} (op : LoopOp) (localHeight : UInt64) (before : LoopRun c s)
      (tight : ¬ Leaks c s op localHeight) : LoopRun c (s.step c op localHeight)

/-- What a run keeps: every recorded peer is trusted, and every queued block's source was
checked. -/
structure TrustedOnly (c : SwarmConfig) (s : SwarmLoop) : Prop where
  peers : ∀ p rec, s.sync.registry.peers.get p = some rec → c.trust.trusts p = true
  jobs : ∀ job ∈ s.jobs,
    c.producerPeers.checkBlockSource job.producerId job.source = .ok ()

/-- The peers are the same, and the latch is not set if it was not. -/
structure Unsteered (s s' : SwarmLoop) : Prop where
  peers : s'.sync.registry.peers = s.sync.registry.peers
  latch : s'.sync.registry.catchUpTriggered = true → s.sync.registry.catchUpTriggered = true

/-! ## One operation -/

section Step

variable {c : SwarmConfig} {s : SwarmLoop} {op : LoopOp} {l : UInt64}

theorem Unsteered.refl (s : SwarmLoop) : Unsteered s s := ⟨rfl, id⟩

/-- While a producer is pinned, a block that passes the check comes from a trusted peer. -/
theorem trusts_of_checked {producerId p : Str} (hpinned : ¬ c.producerPeers.Unpinned)
    (h : c.producerPeers.checkBlockSource producerId (some p) = .ok ()) :
    c.trust.trusts p = true := by
  unfold ProducerPeers.checkBlockSource at h
  rw [if_neg hpinned] at h
  cases hget : c.producerPeers.peers.get (trimLower producerId) with
  | none =>
    simp only [hget] at h
    cases h
  | some expected =>
    simp only [hget] at h
    by_cases hp : p = expected
    · have hmem : p ∈ c.producerPeers.peers.iter.map Prod.snd := by
        rw [hp]
        exact List.mem_map.mpr ⟨_, Tree.mem_iter.mpr hget, rfl⟩
      have hne : (c.producerPeers.peers.iter.map Prod.snd).isEmpty = false := by
        rw [List.isEmpty_eq_false_iff]
        exact List.ne_nil_of_mem hmem
      simp [SwarmConfig.trust, SyncTrust.new, SyncTrust.trusts, hne, hmem]
    · rw [if_neg hp] at h
      cases h

/-- The latch after a note. -/
theorem note_latch (r : SyncHelloRegistry) (chainId p : Str) (h l : UInt64) :
    (r.notePeerBlockHeight chainId p h l).catchUpTriggered =
      (r.catchUpTriggered || decide (0 < SyncHelloRegistry.heightDiff h l)) := by
  unfold SyncHelloRegistry.notePeerBlockHeight
  cases hget : r.peers.get p with
  | some rec =>
    simp only [hget]
    split <;> rfl
  | none =>
    simp only [hget]
    by_cases hlt : l < h
    · rw [if_pos hlt]
      simp [SyncHelloRegistry.recordPeerHello]
    · rw [if_neg hlt]

/-- A note touches the record of its own peer only. -/
theorem note_get_ne (r : SyncHelloRegistry) (chainId : Str) (h l : UInt64) {p q : Str}
    (hne : p ≠ q) : (r.notePeerBlockHeight chainId p h l).peers.get q = r.peers.get q := by
  unfold SyncHelloRegistry.notePeerBlockHeight
  cases hget : r.peers.get p with
  | some rec =>
    simp only [hget]
    split
    · exact Tree.get_insert_ne hne
    · rfl
  | none =>
    simp only [hget]
    split
    · exact Tree.get_insert_ne hne
    · rfl

/-- A note of a peer that is not known and not ahead changes no record. -/
theorem note_peers {r : SyncHelloRegistry} {p : Str} (chainId : Str) {h l : UInt64}
    (hget : r.peers.get p = none) (hle : ¬ l < h) :
    (r.notePeerBlockHeight chainId p h l).peers = r.peers := by
  unfold SyncHelloRegistry.notePeerBlockHeight
  simp only [hget]
  rw [if_neg hle]

/-- A note of a peer that is not known records it exactly when it is ahead. -/
theorem note_get_self {r : SyncHelloRegistry} {p : Str} (chainId : Str) {h l : UInt64}
    (hget : r.peers.get p = none) (hlt : l < h) :
    (r.notePeerBlockHeight chainId p h l).peers.get p ≠ none := by
  unfold SyncHelloRegistry.notePeerBlockHeight
  simp only [hget]
  rw [if_pos hlt]
  simp [SyncHelloRegistry.recordPeerHello]

/-- **A note** of a checked source that does not tell keeps the records trusted and, from an
untrusted source, changes nothing that steers. -/
theorem SwarmLoop.note_sound (h : TrustedOnly c s) {source : Option Str} {producerId : Str}
    {height : UInt64} (hchecked : c.producerPeers.checkBlockSource producerId source = .ok ())
    (htight : ¬ NoteLeaks c s source height l) :
    (∀ p rec, (s.note c source height l).sync.registry.peers.get p = some rec →
        c.trust.trusts p = true) ∧
      ((∀ p, source = some p → c.trust.trusts p = false) →
        Unsteered s (s.note c source height l)) := by
  cases source with
  | none => exact ⟨h.peers, fun _ => .refl s⟩
  | some p =>
    have hregistry : (s.note c (some p) height l).sync.registry =
        s.sync.registry.notePeerBlockHeight c.chainId p height l := rfl
    rw [hregistry]
    by_cases htrusted : c.trust.trusts p = true
    · constructor
      · intro q rec hget
        by_cases hq : p = q
        · rw [← hq]
          exact htrusted
        · rw [note_get_ne _ _ _ _ hq] at hget
          exact h.peers q rec hget
      · intro huntrusted
        rw [huntrusted p rfl] at htrusted
        cases htrusted
    · -- the source is not pinned, so nothing is, and the block is not ahead
      have hunpinned : c.producerPeers.Unpinned := by
        by_contra hpinned
        exact htrusted (trusts_of_checked hpinned hchecked)
      rw [Bool.not_eq_true] at htrusted
      have hbehind : ¬ l < height := fun hlt =>
        htight ⟨hunpinned, ⟨p, rfl, htrusted⟩, Or.inl hlt⟩
      have hget : s.sync.registry.peers.get p = none := by
        cases hget : s.sync.registry.peers.get p with
        | none => rfl
        | some rec =>
          rw [h.peers p rec hget] at htrusted
          cases htrusted
      have hpeers := note_peers c.chainId hget hbehind
      constructor
      · intro q rec hq
        rw [hpeers] at hq
        exact h.peers q rec hq
      · intro _
        refine ⟨hpeers, fun hset => ?_⟩
        rw [hregistry, note_latch, Bool.or_eq_true, decide_eq_true_eq, heightDiff_pos] at hset
        rcases hset with hlatch | ⟨hlt, -⟩ | hfar
        · exact hlatch
        · exact absurd hlt hbehind
        · by_contra hclear
          rw [Bool.not_eq_true] at hclear
          exact htight ⟨hunpinned, ⟨p, rfl, htrusted⟩, Or.inr ⟨hfar, hclear⟩⟩

/-- A note that tells records an untrusted peer or sets the latch. -/
theorem SwarmLoop.note_leaks (h : TrustedOnly c s) {source : Option Str} {height : UInt64}
    (hleaks : NoteLeaks c s source height l) :
    (∃ p, c.trust.trusts p = false ∧
        (s.note c source height l).sync.registry.peers.get p ≠ none) ∨
      s.sync.registry.catchUpTriggered = false ∧
        (s.note c source height l).sync.registry.catchUpTriggered = true := by
  obtain ⟨-, ⟨p, rfl, huntrusted⟩, hahead | ⟨hfar, hclear⟩⟩ := hleaks
  · left
    have hget : s.sync.registry.peers.get p = none := by
      cases hget : s.sync.registry.peers.get p with
      | none => rfl
      | some rec =>
        rw [h.peers p rec hget] at huntrusted
        cases huntrusted
    exact ⟨p, huntrusted, note_get_self c.chainId hget hahead⟩
  · right
    refine ⟨hclear, ?_⟩
    change (s.sync.registry.notePeerBlockHeight c.chainId p height l).catchUpTriggered = true
    rw [note_latch, Bool.or_eq_true, decide_eq_true_eq, heightDiff_pos]
    exact Or.inr (Or.inr hfar)

/-- A driver event records nothing and does not set the latch. -/
theorem event_unsteered (sync : SyncState) (chainId : Str) (event : CatchUpDriverEvent)
    (order : IterOrder Str PeerHelloRecord) (var : Option UInt64) (now later : UInt64) :
    (sync.step chainId (.event event order var now later) l).registry.peers =
        sync.registry.peers ∧
      ((sync.step chainId (.event event order var now later) l).registry.catchUpTriggered = true →
        sync.registry.catchUpTriggered = true) := by
  simp only [SyncState.step]
  split
  · exact ⟨rfl, fun h => by cases h⟩
  · exact ⟨rfl, id⟩

/-- **One operation** that does not leak keeps the records trusted and the queued sources checked;
with no trusted peer behind it, it changes nothing that steers. -/
theorem TrustedOnly.step (h : TrustedOnly c s) (htight : ¬ Leaks c s op l) :
    TrustedOnly c (s.step c op l) ∧ (op.Untrusted c s → Unsteered s (s.step c op l)) := by
  cases op with
  | hello peerId hello =>
    simp only [SwarmLoop.step]
    by_cases htrusted : c.trust.trusts peerId = true
    · rw [if_pos htrusted]
      constructor
      · refine ⟨fun p rec hget => ?_, h.jobs⟩
        simp only [SyncState.step, SyncHelloRegistry.recordPeerHello, Tree.get_insert] at hget
        by_cases hp : peerId = p
        · rw [← hp]
          exact htrusted
        · rw [if_neg hp] at hget
          exact h.peers p rec hget
      · intro huntrusted
        rw [huntrusted peerId rfl] at htrusted
        cases htrusted
    · rw [if_neg htrusted]
      exact ⟨h, fun _ => .refl s⟩
  | blockMined source producerId height offered =>
    simp only [SwarmLoop.step]
    cases hcheck : c.producerPeers.checkBlockSource producerId source with
    | error e => exact ⟨h, fun _ => .refl s⟩
    | ok u =>
      obtain ⟨hpeers, hsteady⟩ := SwarmLoop.note_sound h hcheck htight
      have hjobs : (s.note c source height l).jobs = s.jobs := by
        cases source <;> rfl
      by_cases hoffered : offered = true
      · simp only [if_pos hoffered]
        refine ⟨⟨hpeers, fun job hjob => ?_⟩, fun hun => ?_⟩
        · rw [hjobs] at hjob
          rcases List.mem_append.mp hjob with hold | hnew
          · exact h.jobs job hold
          · rw [List.mem_singleton.mp hnew]
            exact hcheck
        · exact ⟨(hsteady hun).peers, (hsteady hun).latch⟩
      · simp only [if_neg hoffered]
        refine ⟨⟨hpeers, fun job hjob => ?_⟩, hsteady⟩
        rw [hjobs] at hjob
        exact h.jobs job hjob
  | gossipDone skippedMissing =>
    simp only [SwarmLoop.step]
    cases hq : s.jobs with
    | nil => exact ⟨h, fun _ => .refl s⟩
    | cons job jobs =>
      have hrest : TrustedOnly c { s with jobs := jobs } :=
        ⟨h.peers, fun j hj => h.jobs j (by rw [hq]; exact List.mem_cons_of_mem job hj)⟩
      have hcheck := h.jobs job (by rw [hq]; exact List.mem_cons_self)
      simp only
      split
      · rename_i hneeds
        obtain ⟨missing, hmissing, hwhy⟩ := (Option.any_eq_true _ _).mp hneeds
        rw [Bool.or_eq_true, decide_eq_true_eq] at hwhy
        have hnote : ¬ NoteLeaks c { s with jobs := jobs } job.source job.blockHeight l := by
          intro hleaks
          exact htight ⟨job, by rw [hq]; rfl, ⟨missing, hmissing, hwhy⟩, hleaks⟩
        obtain ⟨hpeers, hsteady⟩ := SwarmLoop.note_sound hrest hcheck hnote
        refine ⟨⟨hpeers, fun j hj => ?_⟩, fun hun => ?_⟩
        · have hjobs : (SwarmLoop.note c { s with jobs := jobs } job.source
              job.blockHeight l).jobs = jobs := by
            cases job.source <;> rfl
          rw [hjobs] at hj
          exact hrest.jobs j hj
        · have hsource : ∀ p, job.source = some p → c.trust.trusts p = false := by
            intro p hp
            refine hun p ?_
            rw [LoopOp.actor, hq]
            exact hp
          exact ⟨(hsteady hsource).peers, (hsteady hsource).latch⟩
      · exact ⟨hrest, fun _ => ⟨rfl, id⟩⟩
  | bootnodeLost peerId =>
    simp only [SwarmLoop.step]
    split
    · rename_i hforce
      rw [Bool.and_eq_true, Bool.or_eq_true, List.contains_iff_mem, List.isEmpty_iff] at hforce
      refine ⟨⟨h.peers, h.jobs⟩, fun hun => ⟨rfl, fun _ => ?_⟩⟩
      by_contra hclear
      rw [Bool.not_eq_true] at hclear
      exact htight ⟨hforce.1, hun peerId rfl, hclear, hforce.2⟩
    · exact ⟨h, fun _ => .refl s⟩
  | disconnected peerId order var now later =>
    simp only [SwarmLoop.step]
    obtain ⟨hpeers, hlatch⟩ := event_unsteered (l := l)
      (s.sync.step c.chainId (.removePeer peerId) l) c.chainId (.peerRemoved peerId) order var now
      later
    constructor
    · refine ⟨fun p rec hget => ?_, h.jobs⟩
      rw [hpeers] at hget
      change (s.sync.registry.peers.remove peerId).get p = some rec at hget
      rw [Tree.get_remove] at hget
      by_cases hp : peerId = p
      · rw [if_pos hp] at hget
        cases hget
      · rw [if_neg hp] at hget
        exact h.peers p rec hget
    · intro hun
      refine ⟨?_, hlatch⟩
      rw [hpeers]
      refine Tree.remove_of_get_none ?_
      cases hget : s.sync.registry.peers.get peerId with
      | none => rfl
      | some rec =>
        have htrusted := h.peers peerId rec hget
        rw [hun peerId rfl] at htrusted
        cases htrusted
  | driver event order var now later =>
    simp only [SwarmLoop.step]
    obtain ⟨hpeers, hlatch⟩ := event_unsteered (l := l) s.sync c.chainId event order var now later
    refine ⟨⟨fun p rec hget => ?_, h.jobs⟩, fun _ => ⟨hpeers, hlatch⟩⟩
    rw [hpeers] at hget
    exact h.peers p rec hget
  | blacklistPeer peerId now => exact ⟨⟨h.peers, h.jobs⟩, fun _ => ⟨rfl, id⟩⟩
  | unblacklistPeer peerId => exact ⟨⟨h.peers, h.jobs⟩, fun _ => ⟨rfl, id⟩⟩

/-- A leak records an untrusted peer or sets the latch. -/
theorem TrustedOnly.leaks (h : TrustedOnly c s) (hleaks : Leaks c s op l) :
    (∃ p, c.trust.trusts p = false ∧ (s.step c op l).sync.registry.peers.get p ≠ none) ∨
      s.sync.registry.catchUpTriggered = false ∧
        (s.step c op l).sync.registry.catchUpTriggered = true := by
  cases op with
  | blockMined source producerId height offered =>
    have hcheck : c.producerPeers.checkBlockSource producerId source = .ok () := by
      unfold ProducerPeers.checkBlockSource
      rw [if_pos hleaks.1]
    have hnote := SwarmLoop.note_leaks h hleaks
    simp only [SwarmLoop.step, hcheck]
    split
    · exact hnote
    · exact hnote
  | gossipDone skippedMissing =>
    obtain ⟨job, hjob, ⟨missing, hmissing, hwhy⟩, hleak⟩ := hleaks
    cases hq : s.jobs with
    | nil =>
      rw [hq] at hjob
      cases hjob
    | cons first jobs =>
      rw [hq, List.head?_cons, Option.mem_def, Option.some.injEq] at hjob
      have hneeds : (skippedMissing.any fun missing =>
          missing || decide (l < job.blockHeight)) = true := by
        refine (Option.any_eq_true _ _).mpr ⟨missing, hmissing, ?_⟩
        rw [Bool.or_eq_true, decide_eq_true_eq]
        exact hwhy
      have hrest : TrustedOnly c { s with jobs := jobs } :=
        ⟨h.peers, fun j hj => h.jobs j (by rw [hq]; exact List.mem_cons_of_mem first hj)⟩
      have hnote := SwarmLoop.note_leaks hrest hleak
      rw [← hjob] at hneeds hnote
      simp only [SwarmLoop.step, hq, if_pos hneeds]
      exact hnote
  | bootnodeLost peerId =>
    obtain ⟨hboot, -, hclear, hwhy⟩ := hleaks
    have hforce : (c.bootnodes.contains peerId && (s.sync.registry.peers.iter.isEmpty ||
        s.sync.registry.anyPeerAhead l)) = true := by
      rw [Bool.and_eq_true, Bool.or_eq_true, List.contains_iff_mem, List.isEmpty_iff]
      exact ⟨hboot, hwhy⟩
    right
    simp only [SwarmLoop.step, if_pos hforce]
    exact ⟨hclear, rfl⟩
  | hello => cases hleaks
  | disconnected => cases hleaks
  | driver => cases hleaks
  | blacklistPeer => cases hleaks
  | unblacklistPeer => cases hleaks

/-- A leak has no trusted peer behind it. -/
theorem Leaks.untrusted (hleaks : Leaks c s op l) : op.Untrusted c s := by
  intro p hp
  cases op with
  | blockMined source producerId height offered =>
    obtain ⟨-, ⟨q, hq, huntrusted⟩, -⟩ := hleaks
    rw [LoopOp.actor, hq, Option.some.injEq] at hp
    rw [← hp]
    exact huntrusted
  | gossipDone skippedMissing =>
    obtain ⟨job, hjob, -, -, ⟨q, hq, huntrusted⟩, -⟩ := hleaks
    rw [LoopOp.actor, Option.mem_def.mp hjob, Option.bind_some, hq, Option.some.injEq] at hp
    rw [← hp]
    exact huntrusted
  | bootnodeLost peerId =>
    rw [LoopOp.actor, Option.some.injEq] at hp
    rw [← hp]
    exact hleaks.2.1
  | hello => cases hleaks
  | disconnected => cases hleaks
  | driver => cases hleaks
  | blacklistPeer => cases hleaks
  | unblacklistPeer => cases hleaks

/-- **The condition is exact**: from trusted records, an operation leaks exactly when it records an
untrusted peer, or steers with no trusted peer behind it. -/
theorem leaks_iff (h : TrustedOnly c s) : ¬ Leaks c s op l ↔
    TrustedOnly c (s.step c op l) ∧ (op.Untrusted c s → Unsteered s (s.step c op l)) := by
  constructor
  · exact h.step
  · rintro ⟨hafter, hsteady⟩ hleaks
    rcases h.leaks hleaks with ⟨p, huntrusted, hrecorded⟩ | ⟨hclear, hset⟩
    · cases hget : (s.step c op l).sync.registry.peers.get p with
      | none => exact hrecorded hget
      | some rec =>
        rw [hafter.peers p rec hget] at huntrusted
        cases huntrusted
    · rw [(hsteady hleaks.untrusted).latch hset] at hclear
      cases hclear

/-! ## The gate and the requests -/

/-- An idle driver stays idle while no peer is ahead. -/
theorem handle_idle {d : CatchUpDriver} {event : CatchUpDriverEvent} {v : DriverView}
    (hidle : d.phase = .idle) (hnone : v.registry.anyPeerAhead v.localHeight = false) :
    (d.handle event v).1.phase = .idle := by
  have hquiet : ∀ p request, (d.handle event v).2 ≠ .sendRangeRequest p request := by
    intro p request hsend
    obtain ⟨-, -, -, rec, hget, hlt, -⟩ := CatchUpDriver.handle_send hsend
    rw [anyPeerAhead_eq_true.mpr ⟨p, rec, hget, hlt⟩] at hnone
    cases hnone
  rw [CatchUpDriver.handle_phase hquiet]
  cases event with
  | triggered => exact hidle
  | rangeFailed => simp [CatchUpDriver.noted, CatchUpDriver.blacklistPeer, hidle]
  | peerRemoved => simp [CatchUpDriver.noted, hidle]
  | batchApplied => simp [CatchUpDriver.noted, hidle]
  | localBackpressure => simp [CatchUpDriver.noted, hidle]

theorem SwarmLoop.note_driver (s : SwarmLoop) (source : Option Str) (h l : UInt64) :
    (s.note c source h l).sync.driver = s.sync.driver := by
  cases source <;> rfl

/-- An idle driver stays idle over an operation that keeps the peers, none of them ahead. -/
theorem SwarmLoop.step_idle (hpeers : (s.step c op l).sync.registry.peers = s.sync.registry.peers)
    (hidle : s.sync.driver.phase = .idle) (hnone : s.sync.registry.anyPeerAhead l = false) :
    (s.step c op l).sync.driver.phase = .idle := by
  cases op with
  | hello peerId hello =>
    simp only [SwarmLoop.step]
    split
    · exact hidle
    · exact hidle
  | blockMined source producerId height offered =>
    simp only [SwarmLoop.step]
    split
    · exact hidle
    · split
      · change (s.note c source height l).sync.driver.phase = .idle
        rw [note_driver]
        exact hidle
      · rw [note_driver]
        exact hidle
  | gossipDone skippedMissing =>
    simp only [SwarmLoop.step]
    split
    · exact hidle
    · split
      · rw [note_driver]
        exact hidle
      · exact hidle
  | bootnodeLost peerId =>
    simp only [SwarmLoop.step]
    split
    · exact hidle
    · exact hidle
  | disconnected peerId order var now later =>
    -- the driver reads the registry without the peer
    have hsame : (s.sync.registry.removePeer peerId).peers = s.sync.registry.peers :=
      (event_unsteered (l := l) (s.sync.step c.chainId (.removePeer peerId) l) c.chainId
        (.peerRemoved peerId) order var now later).1.symm.trans hpeers
    refine handle_idle hidle ?_
    change (s.sync.registry.removePeer peerId).anyPeerAhead l = false
    unfold SyncHelloRegistry.anyPeerAhead at hnone ⊢
    rw [hsame]
    exact hnone
  | driver event order var now later => exact handle_idle hidle hnone
  | blacklistPeer peerId now => exact hidle
  | unblacklistPeer peerId => exact hidle

/-- What an open gate says. -/
theorem synced_iff {g : GateView} {stateRoot tipBlockId : Str} {r : SyncHelloRegistry}
    {d : CatchUpDriver} :
    (computeLedgerSyncStatusFull g l stateRoot tipBlockId r d).synced = true ↔
      awaitingFirstHello g r = false ∧ r.catchUpTriggered = false ∧ r.anyPeerAhead l = false ∧
        r.peerTipConflictsWithLocal l stateRoot tipBlockId = false ∧ d.phase = .idle := by
  simp [computeLedgerSyncStatusFull, and_assoc]

/-- The gate stays open over an operation that does not steer. -/
theorem gate_stays_open (hsteady : Unsteered s (s.step c op l)) {g : GateView}
    {stateRoot tipBlockId : Str}
    (hopen : (computeLedgerSyncStatusFull g l stateRoot tipBlockId s.sync.registry
      s.sync.driver).synced = true) :
    (computeLedgerSyncStatusFull g l stateRoot tipBlockId (s.step c op l).sync.registry
      (s.step c op l).sync.driver).synced = true := by
  obtain ⟨hfirst, hlatch, hahead, htip, hidle⟩ := synced_iff.mp hopen
  refine synced_iff.mpr ⟨?_, ?_, ?_, ?_, SwarmLoop.step_idle hsteady.peers hidle hahead⟩
  · unfold awaitingFirstHello at hfirst ⊢
    rw [hsteady.peers]
    exact hfirst
  · by_contra hset
    rw [Bool.not_eq_false] at hset
    rw [hsteady.latch hset] at hlatch
    cases hlatch
  · unfold SyncHelloRegistry.anyPeerAhead at hahead ⊢
    rw [hsteady.peers]
    exact hahead
  · unfold SyncHelloRegistry.peerTipConflictsWithLocal at htip ⊢
    rw [hsteady.peers]
    exact htip

theorem LoopRun.trustedOnly (h : LoopRun c s) : TrustedOnly c s := by
  induction h with
  | start driver =>
    constructor
    · intro p rec hget
      simp [SyncHelloRegistry.default] at hget
    · intro job hjob
      cases hjob
  | step op localHeight _ tight ih => exact (ih.step tight).1

/-- **Untrusted peers never steer chain sync** in a run without a leak: every recorded peer is
trusted; an operation with no trusted peer behind it leaves the peers alone, does not set the latch
and keeps the gate open; and a range request goes to a trusted peer. -/
theorem untrusted_never_steer (h : LoopRun c s) :
    (∀ p rec, s.sync.registry.peers.get p = some rec → c.trust.trusts p = true) ∧
      (∀ op l, op.Untrusted c s → ¬ Leaks c s op l → Unsteered s (s.step c op l) ∧
        ∀ g stateRoot tipBlockId,
          (computeLedgerSyncStatusFull g l stateRoot tipBlockId s.sync.registry
            s.sync.driver).synced = true →
          (computeLedgerSyncStatusFull g l stateRoot tipBlockId (s.step c op l).sync.registry
            (s.step c op l).sync.driver).synced = true) ∧
      ∀ event v p request, v.registry = s.sync.registry →
        (s.sync.driver.handle event v).2 = .sendRangeRequest p request →
        c.trust.trusts p = true := by
  refine ⟨h.trustedOnly.peers, fun op l hun htight => ?_, fun event v p request hv hsend => ?_⟩
  · have hsteady := (h.trustedOnly.step htight).2 hun
    exact ⟨hsteady, fun g stateRoot tipBlockId hopen => gate_stays_open hsteady hopen⟩
  · obtain ⟨-, -, -, rec, hget, -, -⟩ := CatchUpDriver.handle_send hsend
    rw [hv] at hget
    exact h.trustedOnly.peers p rec hget

end Step

end TetCore.Sync

namespace TetCore.Sample

open TetCore.Lib TetCore.Sync

/-- An explicit sole validator with no pinned producer and no relay, and one bootnode. -/
def soleValidator : SwarmConfig := ⟨[], ⟨.empty⟩, [], true, ["boot".toList]⟩

/-- A follower that pins the producer `v`. -/
def follower : SwarmConfig :=
  ⟨[], ⟨Tree.empty.insert "v".toList "peer-v".toList⟩, [], false, []⟩

/-- A loop that has heard nothing. -/
def silentLoop : SwarmLoop := ⟨⟨.default, ⟨.idle, .empty, 0⟩⟩, []⟩

/-- A gate that waits for nothing. -/
def openGate (order : IterOrder Str PeerHelloRecord) : GateView :=
  ⟨order, none, false, false, false⟩

/-- The rows in the order of their keys. -/
def keyOrder : IterOrder Str PeerHelloRecord := ⟨Tree.iter, fun t => .refl t.iter⟩

end TetCore.Sample

namespace TetCore.Sync

/-- A sole validator at height 3: one block that anybody gossips at height 4 puts its source on
record, sets the latch, closes the gate and is answered with a range request to it; losing its
bootnode sets the latch. -/
theorem untrusted_steers :
    let c := Sample.soleValidator
    let s := Sample.silentLoop.step c (.blockMined (some "x".toList) [] 4 true) 3
    let gate := fun s : SwarmLoop => (computeLedgerSyncStatusFull (Sample.openGate Sample.keyOrder)
      3 [] [] s.sync.registry s.sync.driver).synced
    c.trust.trusts "x".toList = false ∧ c.trust.trusts "boot".toList = false ∧
      (s.sync.registry.peers.get "x".toList).isSome = true ∧
      s.sync.registry.anyPeerAhead 3 = true ∧ s.sync.registry.catchUpTriggered = true ∧
      gate Sample.silentLoop = true ∧ gate s = false ∧
      (s.sync.driver.handle .triggered ⟨Sample.keyOrder, none, s.sync.registry, 3, 0, 0⟩).2 =
        .sendRangeRequest "x".toList ⟨4, 4⟩ ∧
      (Sample.silentLoop.step c (.bootnodeLost "boot".toList) 3).sync.registry.catchUpTriggered =
        true := by
  decide +kernel

/-- The block of a stranger at a follower that pins its producer. -/
theorem untrusted_never_steer_follower :
    let c := Sample.follower
    let s := Sample.silentLoop.step c (.blockMined (some "x".toList) "v".toList 4 true) 3
    ∀ p rec, s.sync.registry.peers.get p = some rec → c.trust.trusts p = true := by
  intro c s
  have htight :
      ¬ Leaks c Sample.silentLoop (.blockMined (some "x".toList) "v".toList 4 true) 3 := by
    rintro ⟨hunpinned, -⟩
    exact absurd hunpinned (by decide +kernel)
  exact (untrusted_never_steer (.step _ 3 (.start _) htight)).1

end TetCore.Sync
