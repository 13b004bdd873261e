import TetCore.Consensus.Steps
import TetCore.Sync.Trust

/-!
# Backfilling a branch

Model of the block-sync side of `p2p.rs`: the orphan buffer, the pending requests, the blacklist, an
orphan block that arrives by gossip and the answers to the requests for its ancestors. A block whose
parent is missing is validated and recorded in the ledger, and its parent is requested; an answer
whose parent is stored ends the walk with a `BackfillReorg` job. `now` and `later` are a call's
readings of the clock, a request id is a number, and `room` says whether the apply queue takes a
job.

Only the gossiped tip goes into the orphan buffer; a fetched ancestor is recorded in the ledger
alone. The job at the end holds the last block and the buffered children of it, so it names the tip
only when the tip is one of these.

`backfill_tips_iff`: a branch delivered tip first ends in a job that names its tip exactly when the
branch has at most two blocks; for a single block there is nothing to fetch.
-/

namespace TetCore.Sync

open TetCore.Lib TetCore.Consensus

/-! ## The orphan buffer -/

/-- `OrphanEntry`. -/
structure OrphanEntry where
  block : BlockRecordV1
  receivedFrom : Option Str
  depth : Nat
  insertedAtMs : Nat

/-- `OrphanBuffer`: every entry is kept under the id of its block. -/
structure OrphanBuffer where
  maxOrphans : Nat
  ttlMs : Nat
  entries : Tree Str OrphanEntry
  order : List Str
  keyed : ∀ k e, entries.get k = some e → e.block.blockId = k

namespace OrphanBuffer

/-- The entry is older than the buffer keeps it. -/
def expired (b : OrphanBuffer) (nowMs : Nat) (e : OrphanEntry) : Bool :=
  decide (b.ttlMs ≠ 0) && decide (b.ttlMs < nowMs - e.insertedAtMs)

/-- The ids of the expired entries. -/
def expiredIds (b : OrphanBuffer) (nowMs : Nat) : List Str :=
  (b.entries.iter.filter fun p => b.expired nowMs p.2).map Prod.fst

theorem keyed_foldl_remove {t : Tree Str OrphanEntry} (ks : List Str)
    (h : ∀ k e, t.get k = some e → e.block.blockId = k) :
    ∀ k e, (ks.foldl (fun t k => t.remove k) t).get k = some e → e.block.blockId = k :=
  fun k e hget => h k e (Tree.get_of_foldl_remove ks hget)

/-- `prune_expired`. -/
def pruneExpired (b : OrphanBuffer) (nowMs : Nat) : OrphanBuffer where
  maxOrphans := b.maxOrphans
  ttlMs := b.ttlMs
  entries := (b.expiredIds nowMs).foldl (fun t k => t.remove k) b.entries
  order := if b.ttlMs = 0 then b.order
    else b.order.filter fun id =>
      (((b.expiredIds nowMs).foldl (fun t k => t.remove k) b.entries).get id).isSome
  keyed := keyed_foldl_remove _ b.keyed

/-- The loop of `insert`: the oldest ids go while there are too many entries. -/
def evictOldest (maxOrphans : Nat) :
    List Str → Tree Str OrphanEntry → List Str × Tree Str OrphanEntry
  | [], entries => ([], entries)
  | id :: order, entries =>
    if maxOrphans < entries.iter.length then evictOldest maxOrphans order (entries.remove id)
    else (id :: order, entries)

theorem keyed_evictOldest {maxOrphans : Nat} : ∀ (order : List Str) {t : Tree Str OrphanEntry},
    (∀ k e, t.get k = some e → e.block.blockId = k) →
    ∀ k e, (evictOldest maxOrphans order t).2.get k = some e → e.block.blockId = k
  | [], _, h, k, e, hget => h k e hget
  | id :: order, t, h, k, e, hget => by
    rw [evictOldest] at hget
    split at hget
    · exact keyed_evictOldest order (keyed_foldl_remove [id] h) k e hget
    · exact h k e hget

theorem keyed_insert {t : Tree Str OrphanEntry} {e : OrphanEntry}
    (h : ∀ k e, t.get k = some e → e.block.blockId = k) :
    ∀ k e', (t.insert e.block.blockId e).get k = some e' → e'.block.blockId = k := by
  intro k e' hget
  rw [Tree.get_insert] at hget
  by_cases hk : e.block.blockId = k
  · rw [if_pos hk, Option.some.injEq] at hget
    rw [← hget]
    exact hk
  · rw [if_neg hk] at hget
    exact h k e' hget

/-- `OrphanBuffer::insert`. -/
def insert (b : OrphanBuffer) (block : BlockRecordV1) (receivedFrom : Option Str)
    (depth nowMs : Nat) : OrphanBuffer :=
  let b := b.pruneExpired nowMs
  let entry : OrphanEntry := ⟨block, receivedFrom, depth, nowMs⟩
  let entries := b.entries.insert block.blockId entry
  have hkeyed := keyed_insert (e := entry) b.keyed
  if (b.entries.get block.blockId).isSome then
    ⟨b.maxOrphans, b.ttlMs, entries, b.order, hkeyed⟩
  else
    let order := b.order ++ [block.blockId]
    ⟨b.maxOrphans, b.ttlMs, (evictOldest b.maxOrphans order entries).2,
      (evictOldest b.maxOrphans order entries).1, keyed_evictOldest order hkeyed⟩

/-- `children_of`: the children, and the buffer without its expired entries. -/
def childrenOf (order : IterOrder Str OrphanEntry) (b : OrphanBuffer) (parentId : Str)
    (nowMs : Nat) : List BlockRecordV1 × OrphanBuffer :=
  let b := b.pruneExpired nowMs
  (((order.rows b.entries).filter fun p => decide (p.2.block.parentBlockId = some parentId)).map
    fun p => p.2.block, b)

end OrphanBuffer

/-! ## Requests and the blacklist -/

/-- `PendingBackfillEntry`. -/
structure PendingBackfillEntry where
  blockId : Str
  depth : Nat
  insertedAtMs : Nat

/-- `prune_pending_backfill`: the expired requests, then the oldest ones beyond the cap. -/
def prunePendingBackfill (order : IterOrder Nat PendingBackfillEntry)
    (pending : Tree Nat PendingBackfillEntry) (nowMs maxEntries ttlMs : Nat) :
    Tree Nat PendingBackfillEntry :=
  let old := pending.iter.filter fun p =>
    decide (ttlMs ≠ 0) && decide (ttlMs < nowMs - p.2.insertedAtMs)
  let pending := (old.map Prod.fst).foldl (fun t k => t.remove k) pending
  let byAge := (order.rows pending).mergeSort fun a b =>
    decide (a.2.insertedAtMs ≤ b.2.insertedAtMs)
  ((byAge.take (pending.iter.length - maxEntries)).map Prod.fst).foldl (fun t k => t.remove k)
    pending

/-- `BoundedPeerBlacklist`. -/
structure BoundedPeerBlacklist where
  maxPeers : Nat
  ttlMs : Nat
  entries : Tree Str Nat
  order : List Str

namespace BoundedPeerBlacklist

/-- `prune`. -/
def prune (b : BoundedPeerBlacklist) (nowMs : Nat) : BoundedPeerBlacklist :=
  let old := b.entries.iter.filter fun p => decide (b.ttlMs ≠ 0) && decide (b.ttlMs < nowMs - p.2)
  let entries := (old.map Prod.fst).foldl (fun t k => t.remove k) b.entries
  { b with entries := entries, order := b.order.filter fun p => (entries.get p).isSome }

/-- The loop of `insert`. -/
def evictOldest (maxPeers : Nat) : List Str → Tree Str Nat → List Str × Tree Str Nat
  | [], entries => ([], entries)
  | peer :: order, entries =>
    if maxPeers < entries.iter.length then evictOldest maxPeers order (entries.remove peer)
    else (peer :: order, entries)

/-- `BoundedPeerBlacklist::insert`. -/
def insert (b : BoundedPeerBlacklist) (peer : Str) (nowMs : Nat) : BoundedPeerBlacklist :=
  let b := b.prune nowMs
  let order := if (b.entries.get peer).isSome then b.order else b.order ++ [peer]
  let kept := evictOldest b.maxPeers order (b.entries.insert peer nowMs)
  { b with order := kept.1, entries := kept.2 }

/-- `BoundedPeerBlacklist::contains`, and the list it leaves. -/
def contains (b : BoundedPeerBlacklist) (peer : Str) (nowMs : Nat) : Bool × BoundedPeerBlacklist :=
  let b := b.prune nowMs
  ((b.entries.get peer).isSome, b)

end BoundedPeerBlacklist

/-- What `check_blocks_from` refuses blocks with. -/
inductive BlocksError where
  | source (e : BlockSourceError)
  | notTrusted (peer : Str)

/-- `SyncTrust::check_blocks_from`. -/
def SyncTrust.checkBlocksFrom (t : SyncTrust) (peer : Str) (producerIds : List Str)
    (m : ProducerPeers) : Except BlocksError Unit :=
  match t with
  | .everyone => .ok ()
  | .only pinned relays =>
    if relays.contains peer then .ok ()
    else if pinned.contains peer then
      producerIds.forM fun id => (m.checkBlockSource id (some peer)).mapError .source
    else .error (.notTrusted peer)

/-! ## The node -/

/-- The settings of the block-sync side, and the orders its maps iterate in. -/
structure BackfillConfig where
  swarm : SwarmConfig
  maxBackfillDepth : Nat
  pendingMax : Nat
  pendingTtlMs : Nat
  orphanOrder : IterOrder Str OrphanEntry
  pendingOrder : IterOrder Nat PendingBackfillEntry

/-- The `BackfillReorg` job. -/
structure BackfillReorgJob where
  peer : Str
  tips : List Str

/-- The block-sync side of a node: `sent` are the requests it has sent, `applies` and `reorgs` the
jobs the apply queue has taken. -/
structure BackfillNode where
  ledger : Ledger
  orphans : OrphanBuffer
  pending : Tree Nat PendingBackfillEntry
  blacklisted : BoundedPeerBlacklist
  nextRid : Nat
  sent : List (Nat × Str × Str)
  applies : List RemoteBlockGossip
  reorgs : List BackfillReorgJob

/-- `BlockResponse`. -/
structure BlockResponse where
  blockId : Str
  block : Option BlockRecordV1

/-- `block_record_to_remote_gossip`. -/
def blockRecordToRemoteGossip (b : BlockRecordV1) : RemoteBlockGossip :=
  ⟨b.height, b.blockId, b.parentBlockId, b.producerId, b.reward.baseRewardMicro,
    b.reward.computeRewardMicro, b.reward.totalRewardMicro, b.stateRoot, b.txs⟩

/-- The parent a block names, if it is not stored. -/
def missingParent (L : Ledger) (parentBlockId : Option Str) : Option Str :=
  parentBlockId.filter fun parentId => (L.blockRecordById parentId).isNone

namespace BackfillNode

variable (W : World) (cfg : BackfillConfig)

/-- The peer blacklisted. -/
def blacklist (s : BackfillNode) (peer : Str) (nowMs : Nat) : BackfillNode :=
  { s with blacklisted := s.blacklisted.insert peer nowMs }

/-- A request for a block, with the entry that waits for its answer. -/
def request (s : BackfillNode) (peer blockId : Str) (depth now later : Nat) : BackfillNode :=
  let pending :=
    prunePendingBackfill cfg.pendingOrder s.pending now cfg.pendingMax cfg.pendingTtlMs
  { s with
    pending := pending.insert s.nextRid ⟨blockId, depth, later⟩
    nextRid := s.nextRid + 1
    sent := s.sent ++ [(s.nextRid, peer, blockId)] }

/-- A block that arrives by gossip: offered to the apply queue if its parent is stored, else
recorded as a candidate, buffered, and its parent requested from the source. -/
def gossipBlock (s : BackfillNode) (source : Option Str) (block : RemoteBlockGossip) (now : Nat)
    (room : Bool) : BackfillNode :=
  match cfg.swarm.producerPeers.checkBlockSource block.producerId source with
  | .error _ => s
  | .ok () =>
    match missingParent s.ledger block.parentBlockId with
    | none => if room then { s with applies := s.applies ++ [block] } else s
    | some parentId =>
      match validateAndRecordBackfillCandidate W now block s.ledger with
      | (.ok candidate, L) =>
        let s := { s with ledger := L, orphans := s.orphans.insert candidate source 0 now }
        match source with
        | none => s
        | some peer =>
          let listed := s.blacklisted.contains peer now
          let s := { s with blacklisted := listed.2 }
          if listed.1 = false ∧ 0 < cfg.maxBackfillDepth then s.request cfg peer parentId 1 now now
          else s
      | (_, L) =>
        let s := { s with ledger := L }
        match source with
        | none => s
        | some peer => s.blacklist peer now

/-- A backfilled block that is recorded: its parent is requested if it is missing, else the reorg
of the block and its buffered children is offered. -/
def onStored (s : BackfillNode) (peer : Str) (stored : BlockRecordV1) (depth now later : Nat)
    (room : Bool) : BackfillNode :=
  match missingParent s.ledger stored.parentBlockId with
  | some parentId =>
    if cfg.maxBackfillDepth ≤ depth then s.blacklist peer now
    else s.request cfg peer parentId (depth + 1) now later
  | none =>
    let candidates := s.orphans.childrenOf cfg.orphanOrder stored.blockId now
    let s := { s with orphans := candidates.2 }
    let tips := (candidates.1 ++ [stored]).map (·.blockId)
    if room then { s with reorgs := s.reorgs ++ [⟨peer, tips⟩] } else s

/-- The response to a block request. -/
def blockResponse (s : BackfillNode) (peer : Str) (rid : Nat) (response : BlockResponse)
    (now later : Nat) (room : Bool) : BackfillNode :=
  match s.pending.get rid with
  | none => s
  | some req =>
    let s := { s with pending := s.pending.remove rid }
    match cfg.swarm.trust.checkBlocksFrom peer (response.block.toList.map (·.producerId))
        cfg.swarm.producerPeers with
    | .error _ => s
    | .ok () =>
      if req.blockId ≠ response.blockId then s.blacklist peer now
      else
        match response.block with
        | none => s.blacklist peer now
        | some block =>
          match validateAndRecordBackfillCandidate W now (blockRecordToRemoteGossip block)
              s.ledger with
          | (.ok stored, L) =>
            BackfillNode.onStored cfg { s with ledger := L } peer stored req.depth now later room
          | (_, L) => BackfillNode.blacklist { s with ledger := L } peer now

end BackfillNode

/-! ## A branch -/

/-- A block that `validate_and_record_backfill_candidate` accepts. -/
def Candidate (W : World) (L : Ledger) (b : RemoteBlockGossip) : Prop :=
  ∃ producer checked, checkProducer W L b.blockHeight b.producerId = .ok producer ∧
    checkBlock W L b producer b.parentBlockId = .ok checked

/-- A branch, newest block first, each block on the next one and the last one on a stored block. -/
def LinkedBranch (L : Ledger) : BlockRecordV1 → List BlockRecordV1 → Prop
  | b, [] => ∃ p, b.parentBlockId = some p ∧ L.blockRecordById p ≠ none
  | b, a :: rest => b.parentBlockId = some a.blockId ∧ LinkedBranch L a rest

/-- A valid branch, newest block first, whose blocks are not stored. -/
structure Branch (W : World) (L : Ledger) (b : BlockRecordV1) (rest : List BlockRecordV1) :
    Prop where
  linked : LinkedBranch L b rest
  absent : ∀ a ∈ b :: rest, L.blockRecordById a.blockId = none
  distinct : ((b :: rest).map (·.blockId)).Nodup
  valid : ∀ a ∈ b :: rest, Candidate W L (blockRecordToRemoteGossip a)

/-- An answer with a block of the branch, and the readings of the clock. -/
structure BackfillAnswer where
  block : BlockRecordV1
  now : Nat
  later : Nat

/-- The peer answers the request it was sent last. -/
def BackfillNode.answer (W : World) (cfg : BackfillConfig) (peer : Str) (s : BackfillNode)
    (a : BackfillAnswer) : BackfillNode :=
  match s.sent.getLast? with
  | none => s
  | some sent =>
    s.blockResponse W cfg peer sent.1 ⟨a.block.blockId, some a.block⟩ a.now a.later true

/-! ## The buffer -/

section Buffer

variable {b : OrphanBuffer} {order : IterOrder Str OrphanEntry} {id : Str} {e : OrphanEntry}
  {now : Nat}

/-- What pruning keeps. -/
theorem OrphanBuffer.get_pruneExpired :
    (b.pruneExpired now).entries.get id = some e ↔
      b.entries.get id = some e ∧ b.expired now e = false := by
  change ((b.expiredIds now).foldl (fun t k => t.remove k) b.entries).get id = some e ↔ _
  rw [Tree.get_foldl_remove]
  constructor
  · intro h
    by_cases hmem : id ∈ b.expiredIds now
    · rw [if_pos hmem] at h
      cases h
    · rw [if_neg hmem] at h
      refine ⟨h, ?_⟩
      by_contra hexpired
      rw [Bool.not_eq_false] at hexpired
      exact hmem (List.mem_map.mpr
        ⟨(id, e), List.mem_filter.mpr ⟨Tree.mem_iter.mpr h, hexpired⟩, rfl⟩)
  · rintro ⟨hget, hexpired⟩
    have hmem : id ∉ b.expiredIds now := by
      intro hmem
      obtain ⟨⟨k, e'⟩, hrow, rfl⟩ := List.mem_map.mp hmem
      obtain ⟨hrow, hold⟩ := List.mem_filter.mp hrow
      rw [Tree.mem_iter.mp hrow, Option.some.injEq] at hget
      rw [← hget, hold] at hexpired
      cases hexpired
    rw [if_neg hmem]
    exact hget

/-- The children of a block are the entries that name it as their parent. -/
theorem OrphanBuffer.mem_childrenOf {parentId : Str} :
    id ∈ (b.childrenOf order parentId now).1.map (·.blockId) ↔
      ∃ e, (b.pruneExpired now).entries.get id = some e ∧
        e.block.parentBlockId = some parentId := by
  simp only [OrphanBuffer.childrenOf, List.map_map, List.mem_map, List.mem_filter,
    decide_eq_true_eq, (order.perm _).mem_iff]
  constructor
  · rintro ⟨⟨k, e⟩, ⟨hrow, hparent⟩, rfl⟩
    have hget := Tree.mem_iter.mp hrow
    refine ⟨e, ?_, hparent⟩
    have hkey : e.block.blockId = k := (b.pruneExpired now).keyed k e hget
    change (b.pruneExpired now).entries.get e.block.blockId = some e
    rw [hkey]
    exact hget
  · rintro ⟨e, hget, hparent⟩
    exact ⟨(id, e), ⟨Tree.mem_iter.mpr hget, hparent⟩, (b.pruneExpired now).keyed id e hget⟩

theorem OrphanBuffer.evictOldest_of_le {maxOrphans : Nat} {entries : Tree Str OrphanEntry}
    (ids : List Str) (h : entries.iter.length ≤ maxOrphans) :
    evictOldest maxOrphans ids entries = (ids, entries) := by
  cases ids with
  | nil => rfl
  | cons id ids => rw [evictOldest, if_neg (Nat.not_lt.mpr h)]

/-- A buffer that is not full keeps the block that is inserted. -/
theorem OrphanBuffer.get_insert {block : BlockRecordV1} {source : Option Str} {depth : Nat}
    (hroom : (b.pruneExpired now).entries.iter.length < b.maxOrphans) :
    (b.insert block source depth now).entries.get block.blockId =
      some ⟨block, source, depth, now⟩ := by
  unfold OrphanBuffer.insert
  simp only
  cases hget : (b.pruneExpired now).entries.get block.blockId with
  | some e =>
    simp only [Option.isSome_some, if_true]
    exact Tree.get_insert_self _ _ _
  | none =>
    simp only [Option.isSome_none, Bool.false_eq_true, if_false]
    have hlen : ((b.pruneExpired now).entries.insert block.blockId
        ⟨block, source, depth, now⟩).iter.length =
          (b.pruneExpired now).entries.iter.length + 1 := by
      have hremoved := Tree.iter_length_remove (Tree.get_insert_self
        (b.pruneExpired now).entries block.blockId ⟨block, source, depth, now⟩)
      rw [Tree.remove_insert, Tree.remove_of_get_none hget] at hremoved
      exact hremoved.symm
    have hle : _ ≤ (b.pruneExpired now).maxOrphans := Nat.le_trans (Nat.le_of_eq hlen) hroom
    rw [evictOldest_of_le _ hle]
    exact Tree.get_insert_self _ _ _

end Buffer

/-! ## Recording a candidate -/

section Recording

variable {W : World} {L : Ledger} {b : BlockRecordV1} {rest : List BlockRecordV1}

/-- The task claims do not read the block records. -/
theorem claimTasks_blocksById (t : Tree Str BlockRecordV1) :
    ∀ (txs : List SignedTxEnvelopeV1) (seen : List Str),
      claimTasks W { L with blocksById := t } txs seen = claimTasks W L txs seen
  | [], _ => rfl
  | env :: txs, seen => by
    have ih := claimTasks_blocksById t txs
    have hone : ∀ seen id, claimTask { L with blocksById := t } seen id = claimTask L seen id :=
      fun _ _ => rfl
    simp only [claimTasks, ih, hone]

/-- The checks of a candidate do not read the block records. -/
theorem Candidate.of_blocksById {g : RemoteBlockGossip} (h : Candidate W L g)
    (t : Tree Str BlockRecordV1) : Candidate W { L with blocksById := t } g := by
  obtain ⟨producer, checked, hproducer, hchecked⟩ := h
  refine ⟨producer, checked, hproducer, ?_⟩
  have hclaims : validateZkTaskClaims W { L with blocksById := t } g.txs =
      validateZkTaskClaims W L g.txs := claimTasks_blocksById t g.txs []
  have hmine : ∀ id, producerCanMineAiWorkload { L with blocksById := t } id =
      producerCanMineAiWorkload L id := fun _ => rfl
  unfold checkBlock at hchecked ⊢
  simp only [hclaims, hmine]
  exact hchecked

/-- The id of a valid candidate is a hash. -/
theorem Candidate.blockId {g : RemoteBlockGossip} (h : Candidate W L g) :
    trim g.blockId = g.blockId ∧ g.blockId ≠ [] := by
  obtain ⟨producer, checked, -, hchecked⟩ := h
  simp only [checkBlock, bind_eq_ok, require_eq_ok, mapError_eq_ok, Except.ok.injEq] at hchecked
  obtain ⟨hashes, -, _, hid, -⟩ := hchecked
  rw [← hid]
  exact ⟨trim_blockIdForBlock _ _ _ _ _ _, blockIdForBlock_ne_nil _ _ _ _ _ _⟩

/-- A valid candidate with a parent is recorded under its id, with that parent. -/
theorem Candidate.recorded {g : RemoteBlockGossip} {parent : Str} (h : Candidate W L g) (now : Nat)
    (hparent : g.parentBlockId = some parent) :
    ∃ row, validateAndRecordBackfillCandidate W now g L =
        (.ok row, { L with blocksById := L.blocksById.insert g.blockId row }) ∧
      row.blockId = g.blockId ∧ row.parentBlockId = some parent := by
  have hid := h.blockId
  obtain ⟨producer, checked, hproducer, hchecked⟩ := h
  let row := (g.recordArgs checked g.parentBlockId false).row L now (some parent)
  have hrecord : recordBlockRecord now (g.recordArgs checked g.parentBlockId false) L =
      .ok { L with blocksById := L.blocksById.insert g.blockId row } := by
    have hsettled : recordedParent L g.blockHeight g.parentBlockId = .ok (some parent) := by
      rw [hparent]
      rfl
    have hne : trim row.blockId ≠ [] := by
      change trim g.blockId ≠ []
      rw [hid.1]
      exact hid.2
    obtain ⟨L', hL'⟩ := Ledger.exists_recordBlockRecord now row L hne
    obtain ⟨-, rfl⟩ := Ledger.recordBlockRecord_fork hL' rfl
    have hkey : trim row.blockId = g.blockId := hid.1
    rw [hkey] at hL'
    simp only [recordBlockRecord, RemoteBlockGossip.recordArgs, hsettled, ok_bind]
    exact congrArg (Except.mapError LedgerError.text) hL'
  refine ⟨row, ?_, rfl, rfl⟩
  have hget : Ledger.blockRecordById
      { L with blocksById := L.blocksById.insert g.blockId row } g.blockId = some row := by
    rw [Ledger.blockRecordById, hid.1]
    exact Tree.get_insert_self _ _ _
  unfold validateAndRecordBackfillCandidate
  simp only [Proc.bind_apply, Proc.check, Proc.update, Proc.observe, hproducer, hchecked, hrecord,
    hget]

/-- Recording a block leaves the others stored or not as they were. -/
theorem blockRecordById_insert {id : Str} {row : BlockRecordV1} {other : Str}
    (h : id ≠ trim other) :
    Ledger.blockRecordById { L with blocksById := L.blocksById.insert id row } other =
      L.blockRecordById other :=
  Tree.get_insert_ne h

end Recording

/-! ## The walk -/

section Walk

variable {W : World} {cfg : BackfillConfig} {s : BackfillNode} {peer : Str} {L : Ledger}
  {a b : BlockRecordV1} {rest : List BlockRecordV1} {depth : Nat}

/-- A stored block stays stored when another is recorded. -/
theorem stored_insert (id : Str) (row : BlockRecordV1) {other : Str}
    (h : L.blockRecordById other ≠ none) :
    Ledger.blockRecordById { L with blocksById := L.blocksById.insert id row } other ≠ none := by
  unfold Ledger.blockRecordById at h ⊢
  rw [Tree.get_insert]
  split
  · exact Option.some_ne_none row
  · exact h

theorem LinkedBranch.insert {id : Str} {row : BlockRecordV1} : ∀ {b : BlockRecordV1}
    {rest : List BlockRecordV1}, LinkedBranch L b rest →
      LinkedBranch { L with blocksById := L.blocksById.insert id row } b rest
  | _, [], ⟨p, hp, hstored⟩ => ⟨p, hp, stored_insert _ _ hstored⟩
  | _, _ :: _, ⟨hp, hrest⟩ => ⟨hp, hrest.insert⟩

/-- A branch names a parent for each block. -/
theorem Branch.parent (h : Branch W L b rest) : ∃ parent, b.parentBlockId = some parent := by
  cases rest with
  | nil =>
    obtain ⟨p, hp, -⟩ := h.linked
    exact ⟨p, hp⟩
  | cons a rest => exact ⟨a.blockId, h.linked.1⟩

/-- The rest of a branch once its newest block is recorded. -/
theorem Branch.tail (h : Branch W L b (a :: rest)) (row : BlockRecordV1) :
    Branch W { L with blocksById := L.blocksById.insert b.blockId row } a rest where
  linked := h.linked.2.insert
  absent c hc := by
    have hne : b.blockId ≠ c.blockId := by
      have hnot := (List.nodup_cons.mp h.distinct).1
      intro heq
      refine hnot ?_
      change b.blockId ∈ _
      rw [heq]
      exact List.mem_map_of_mem hc
    have htrim := (h.valid c (List.mem_cons_of_mem b hc)).blockId.1
    change trim c.blockId = c.blockId at htrim
    rw [blockRecordById_insert (by rw [htrim]; exact hne)]
    exact h.absent c (List.mem_cons_of_mem b hc)
  distinct := (List.nodup_cons.mp h.distinct).2
  valid c hc := (h.valid c (List.mem_cons_of_mem b hc)).of_blocksById _

/-- Once its newest block is recorded, a branch misses the next one, if there is one. -/
theorem Branch.missingParent (h : Branch W L b rest) (row : BlockRecordV1) :
    missingParent { L with blocksById := L.blocksById.insert b.blockId row } b.parentBlockId =
      rest.head?.map (·.blockId) := by
  cases rest with
  | nil =>
    obtain ⟨p, hp, hstored⟩ := h.linked
    have hkept := stored_insert b.blockId row hstored
    rw [hp, TetCore.Sync.missingParent, Option.filter_some, if_neg]
    · rfl
    · rw [Option.isNone_iff_eq_none]
      exact hkept
  | cons a rest =>
    have habsent := (h.tail row).absent a List.mem_cons_self
    rw [h.linked.1, TetCore.Sync.missingParent, Option.filter_some, habsent]
    rfl

/-- The last request is for the block, and its answer is waited for at the depth. -/
def Awaits (s : BackfillNode) (peer : Str) (a : BlockRecordV1) (depth : Nat) : Prop :=
  ∃ rid entry, s.sent.getLast? = some (rid, peer, a.blockId) ∧ s.pending.get rid = some entry ∧
    entry.blockId = a.blockId ∧ entry.depth = depth

theorem awaits_request (s : BackfillNode) (peer : Str) (a : BlockRecordV1) (depth now later : Nat) :
    Awaits (s.request cfg peer a.blockId depth now later) peer a depth :=
  ⟨s.nextRid, _, List.getLast?_concat, Tree.get_insert_self _ _ _, rfl, rfl⟩

/-- The blocks of a branch are taken from the peer. -/
def TakenFrom (cfg : BackfillConfig) (peer : Str) (blocks : List BlockRecordV1) : Prop :=
  ∀ b ∈ blocks, cfg.swarm.trust.checkBlocksFrom peer [b.producerId] cfg.swarm.producerPeers = .ok ()

/-- **One answer** records the awaited block and goes on from it. -/
theorem answer_onStored {ans : BackfillAnswer} (hwait : Awaits s peer ans.block depth)
    (hbranch : Branch W s.ledger ans.block rest)
    (htaken : cfg.swarm.trust.checkBlocksFrom peer [ans.block.producerId]
      cfg.swarm.producerPeers = .ok ()) :
    ∃ row pending, row.blockId = ans.block.blockId ∧
      row.parentBlockId = ans.block.parentBlockId ∧
      s.answer W cfg peer ans = BackfillNode.onStored cfg
        { s with
          pending := pending
          ledger := { s.ledger with
            blocksById := s.ledger.blocksById.insert ans.block.blockId row } }
        peer row depth ans.now ans.later true := by
  obtain ⟨rid, entry, hsent, hpending, hid, rfl⟩ := hwait
  obtain ⟨parent, hparent⟩ := hbranch.parent
  have hvalid := hbranch.valid ans.block List.mem_cons_self
  obtain ⟨row, hrun, hrow, hrowParent⟩ := hvalid.recorded ans.now hparent
  refine ⟨row, s.pending.remove rid, hrow, hrowParent.trans hparent.symm, ?_⟩
  simp only [BackfillNode.answer, hsent, BackfillNode.blockResponse, hpending, Option.toList_some,
    List.map_cons, List.map_nil, htaken, hid, ne_eq, not_true, if_false, hrun]
  rfl

/-- **The walk** down a branch ends in one job, for the oldest block and its buffered children. -/
theorem walk_reorg : ∀ {answers : List BackfillAnswer} {s : BackfillNode} {first : BackfillAnswer}
    {depth : Nat}, Awaits s peer first.block depth →
    Branch W s.ledger first.block (answers.map (·.block)) →
    TakenFrom cfg peer ((first :: answers).map (·.block)) →
    depth + answers.length ≤ cfg.maxBackfillDepth →
    ∃ last ∈ (first :: answers).getLast?,
      ((first :: answers).foldl (BackfillNode.answer W cfg peer) s).reorgs =
        s.reorgs ++ [⟨peer, (s.orphans.childrenOf cfg.orphanOrder last.block.blockId
          last.now).1.map (·.blockId) ++ [last.block.blockId]⟩] := by
  intro answers
  induction answers with
  | nil =>
    intro s first depth hwait hbranch htaken hdepth
    obtain ⟨row, pending, hrow, hparent, hstep⟩ :=
      answer_onStored hwait hbranch (htaken _ List.mem_cons_self)
    have hmissing := hbranch.missingParent row
    refine ⟨first, rfl, ?_⟩
    rw [List.foldl_cons, List.foldl_nil, hstep, BackfillNode.onStored]
    simp only [hparent, hmissing, List.map_nil, List.head?_nil, Option.map_none, if_true, hrow,
      List.map_append, List.map_cons]
  | cons next answers ih =>
    intro s first depth hwait hbranch htaken hdepth
    obtain ⟨row, pending, hrow, hparent, hstep⟩ :=
      answer_onStored hwait hbranch (htaken _ List.mem_cons_self)
    have hmissing := hbranch.missingParent row
    have hshallow : ¬ cfg.maxBackfillDepth ≤ depth := by
      rw [List.length_cons] at hdepth
      omega
    -- the answer is a request for the next block
    rw [List.foldl_cons, hstep, BackfillNode.onStored]
    simp only [hparent, hmissing, List.map_cons, List.head?_cons, Option.map_some,
      if_neg hshallow]
    have hwait' : Awaits (BackfillNode.request cfg
        { s with
          pending := pending
          ledger := { s.ledger with
            blocksById := s.ledger.blocksById.insert first.block.blockId row } }
        peer next.block.blockId (depth + 1) first.now first.later) peer next.block (depth + 1) :=
      awaits_request _ _ _ _ _ _
    have htaken' : TakenFrom cfg peer ((next :: answers).map (·.block)) :=
      fun b hb => htaken b (List.mem_cons_of_mem _ hb)
    have hdepth' : depth + 1 + answers.length ≤ cfg.maxBackfillDepth := by
      rw [List.length_cons] at hdepth
      omega
    exact ih hwait' (hbranch.tail row) htaken' hdepth'

/-- **The orphan**: a valid block of a missing parent is buffered and its parent is requested. -/
theorem gossip_orphan {tip : BlockRecordV1} {now : Nat}
    (hbranch : Branch W s.ledger tip (a :: rest))
    (hsource : cfg.swarm.producerPeers.checkBlockSource tip.producerId (some peer) = .ok ())
    (hfree : (s.blacklisted.contains peer now).1 = false) (hdeep : 0 < cfg.maxBackfillDepth) :
    ∃ row, row.blockId = tip.blockId ∧ row.parentBlockId = some a.blockId ∧
      let s' := s.gossipBlock W cfg (some peer) (blockRecordToRemoteGossip tip) now true
      Awaits s' peer a 1 ∧ Branch W s'.ledger a rest ∧
        s'.orphans = s.orphans.insert row (some peer) 0 now ∧ s'.reorgs = s.reorgs := by
  have hvalid := hbranch.valid tip List.mem_cons_self
  have hparent := hbranch.linked.1
  obtain ⟨row, hrun, hrow, hrowParent⟩ := hvalid.recorded now hparent
  refine ⟨row, hrow, hrowParent, ?_⟩
  have hmissing : missingParent s.ledger tip.parentBlockId = some a.blockId := by
    rw [hparent, TetCore.Sync.missingParent, Option.filter_some,
      hbranch.absent a (List.mem_cons_of_mem tip List.mem_cons_self)]
    rfl
  have hgossip : s.gossipBlock W cfg (some peer) (blockRecordToRemoteGossip tip) now true =
      BackfillNode.request cfg
        { s with
          ledger := { s.ledger with blocksById := s.ledger.blocksById.insert tip.blockId row }
          orphans := s.orphans.insert row (some peer) 0 now
          blacklisted := (s.blacklisted.contains peer now).2 }
        peer a.blockId 1 now now := by
    have hproducer : (blockRecordToRemoteGossip tip).producerId = tip.producerId := rfl
    have hparentBlock : (blockRecordToRemoteGossip tip).parentBlockId = tip.parentBlockId := rfl
    unfold BackfillNode.gossipBlock
    simp only [hproducer, hsource, hparentBlock, hmissing, hrun, hfree, hdeep, and_self, if_true]
    rfl
  rw [hgossip]
  exact ⟨awaits_request _ peer a 1 now now, hbranch.tail row, rfl, rfl⟩

/-- A tip that is not expired is among the children of its parent only. -/
theorem tip_buffered {row : BlockRecordV1} {now later : Nat} {parentId : Str}
    (hroom : (s.orphans.pruneExpired now).entries.iter.length < s.orphans.maxOrphans)
    (hfresh : s.orphans.ttlMs = 0 ∨ later - now ≤ s.orphans.ttlMs) :
    (∃ e, ((s.orphans.insert row (some peer) 0 now).pruneExpired later).entries.get row.blockId =
        some e ∧ e.block.parentBlockId = some parentId) ↔ row.parentBlockId = some parentId := by
  have hkept : (s.orphans.insert row (some peer) 0 now).entries.get row.blockId =
      some ⟨row, some peer, 0, now⟩ := OrphanBuffer.get_insert hroom
  have hexpired : (s.orphans.insert row (some peer) 0 now).expired later
      ⟨row, some peer, 0, now⟩ = false := by
    have httl : (s.orphans.insert row (some peer) 0 now).ttlMs = s.orphans.ttlMs := by
      unfold OrphanBuffer.insert
      simp only
      split <;> rfl
    simp only [OrphanBuffer.expired, httl, Bool.and_eq_false_iff, decide_eq_false_iff_not, not_not,
      Nat.not_lt]
    exact hfresh
  constructor
  · rintro ⟨e, hget, hparent⟩
    rw [OrphanBuffer.get_pruneExpired, hkept, Option.some.injEq] at hget
    rw [← hget.1] at hparent
    exact hparent
  · intro hparent
    exact ⟨_, OrphanBuffer.get_pruneExpired.mpr ⟨hkept, hexpired⟩, hparent⟩

/-- In a branch of distinct blocks, the first answer is the last one only if it is alone. -/
theorem first_eq_last {first last : BackfillAnswer} {answers : List BackfillAnswer}
    (hdistinct : (((first :: answers).map (·.block)).map (·.blockId)).Nodup)
    (hlast : last ∈ (first :: answers).getLast?) :
    first.block.blockId = last.block.blockId ↔ answers = [] := by
  cases answers with
  | nil =>
    have heq : first = last := Option.some.inj hlast
    simp [heq]
  | cons next answers =>
    have hmem : last ∈ next :: answers := by
      rw [List.getLast?_cons_cons] at hlast
      exact List.mem_of_getLast? hlast
    constructor
    · intro heq
      refine absurd ?_ (List.nodup_cons.mp hdistinct).1
      change first.block.blockId ∈ _
      rw [heq]
      exact List.mem_map_of_mem (List.mem_map_of_mem hmem)
    · intro h
      cases h

variable (cfg) in
/-- **A branch delivered tip first**: the tip arrives by gossip, the requests are answered with the
other blocks in turn. A single block is offered for application and fetches nothing. A longer branch
ends in one reorg job, which names the tip exactly when the branch has at most two blocks. -/
theorem backfill_tips_iff {tip : BlockRecordV1} (answers : List BackfillAnswer) (now : Nat)
    (hbranch : Branch W s.ledger tip (answers.map (·.block)))
    (hdepth : answers.length + 1 ≤ cfg.maxBackfillDepth)
    (hsource : cfg.swarm.producerPeers.checkBlockSource tip.producerId (some peer) = .ok ())
    (htaken : TakenFrom cfg peer (answers.map (·.block)))
    (hfree : (s.blacklisted.contains peer now).1 = false)
    (hroom : (s.orphans.pruneExpired now).entries.iter.length < s.orphans.maxOrphans)
    (hfresh : ∀ a ∈ answers, s.orphans.ttlMs = 0 ∨ a.now - now ≤ s.orphans.ttlMs) :
    ∃ jobs, (answers.foldl (BackfillNode.answer W cfg peer) (s.gossipBlock W cfg (some peer)
        (blockRecordToRemoteGossip tip) now true)).reorgs = s.reorgs ++ jobs ∧
      (jobs = [] ↔ answers = []) ∧
      ((∀ job ∈ jobs, tip.blockId ∈ job.tips) ↔ answers.length + 1 ≤ 2) := by
  cases answers with
  | nil =>
    refine ⟨[], ?_, by simp, by simp⟩
    obtain ⟨p, hp, hstored⟩ := hbranch.linked
    have hnone : missingParent s.ledger tip.parentBlockId = none := by
      rw [hp, TetCore.Sync.missingParent, Option.filter_some, if_neg]
      rw [Option.isNone_iff_eq_none]
      exact hstored
    have hparentBlock : (blockRecordToRemoteGossip tip).parentBlockId = tip.parentBlockId := rfl
    have hproducer : (blockRecordToRemoteGossip tip).producerId = tip.producerId := rfl
    simp only [List.foldl_nil, BackfillNode.gossipBlock, hproducer, hsource, hparentBlock, hnone,
      if_true, List.append_nil]
  | cons first answers =>
    obtain ⟨row, hrow, hrowParent, hwait, hbranch', horphans, hreorgs⟩ :=
      gossip_orphan hbranch hsource hfree (by omega)
    rw [List.length_cons] at hdepth
    obtain ⟨last, hlast, hjob⟩ := walk_reorg hwait hbranch' htaken (by omega)
    rw [hjob, hreorgs, horphans]
    refine ⟨_, rfl, by simp, ?_⟩
    have hmem : last ∈ first :: answers := List.mem_of_getLast? hlast
    have htip : tip.blockId ≠ last.block.blockId := by
      intro heq
      refine (List.nodup_cons.mp hbranch.distinct).1 ?_
      change tip.blockId ∈ _
      rw [heq]
      exact List.mem_map_of_mem (List.mem_map_of_mem hmem)
    have hbuffered : tip.blockId ∈ ((s.orphans.insert row (some peer) 0 now).childrenOf
        cfg.orphanOrder last.block.blockId last.now).1.map (·.blockId) ↔
          first.block.blockId = last.block.blockId := by
      rw [OrphanBuffer.mem_childrenOf, ← hrow, tip_buffered hroom (hfresh last hmem), hrowParent,
        Option.some.injEq]
    have hone : first.block.blockId = last.block.blockId ↔ answers = [] :=
      first_eq_last (List.nodup_cons.mp hbranch.distinct).2 hlast
    simp only [List.mem_singleton, forall_eq, List.mem_append, hbuffered, htip, or_false, hone,
      List.length_cons]
    constructor
    · rintro rfl
      decide
    · intro hlen
      exact List.eq_nil_of_length_eq_zero (by omega)

end Walk

end TetCore.Sync

/-! ## Branches to evaluate the walk on -/

namespace TetCore.Sample

open TetCore.Lib TetCore.Consensus TetCore.Sync

/-- The record a peer serves for a block. -/
def served (g : RemoteBlockGossip) : BlockRecordV1 :=
  ⟨1, g.blockHeight, g.blockId, g.parentBlockId, g.producerId, [], g.txs, g.stateRoot,
    ⟨g.baseRewardMicro, g.computeRewardMicro, g.totalRewardMicro⟩, 1, 1, true, 0⟩

/-- An empty block on top of another. -/
def onTop (W : World) (height : Nat) (g : RemoteBlockGossip) : RemoteBlockGossip :=
  claimed W height (some g.blockId) [] "root".toList

/-- A node that trusts every peer. -/
def backfillConfig : BackfillConfig :=
  ⟨⟨[], ⟨.empty⟩, [], false, []⟩, 64, 2048, 120000, ⟨Tree.iter, fun t => .refl t.iter⟩,
    ⟨Tree.iter, fun t => .refl t.iter⟩⟩

/-- A node with the ledger and nothing buffered or pending. -/
def backfillNode (L : Ledger) : BackfillNode :=
  ⟨L, ⟨256, 600000, .empty, [], by simp⟩, .empty, ⟨4096, 1800000, .empty, []⟩, 0, [], [], []⟩

end TetCore.Sample

namespace TetCore.Sync

open TetCore.Lib TetCore.Consensus

instance instDecidableLinkedBranch (L : Ledger) : ∀ (b : BlockRecordV1)
    (rest : List BlockRecordV1), Decidable (LinkedBranch L b rest)
  | b, [] =>
    decidable_of_iff ((b.parentBlockId.any fun p => (L.blockRecordById p).isSome) = true) <| by
      simp only [LinkedBranch, Option.any_eq_true, Option.isSome_iff_ne_none]
  | b, a :: rest =>
    have := instDecidableLinkedBranch L a rest
    inferInstanceAs (Decidable (b.parentBlockId = some a.blockId ∧ LinkedBranch L a rest))

/-- The checks of a candidate pass. -/
def accepts (W : World) (L : Ledger) (g : RemoteBlockGossip) : Bool :=
  (checkProducer W L g.blockHeight g.producerId).toOption.any fun producer =>
    (checkBlock W L g producer g.parentBlockId).isOk

theorem candidate_of_accepts {W : World} {L : Ledger} {g : RemoteBlockGossip}
    (h : accepts W L g = true) : Candidate W L g := by
  unfold accepts at h
  cases hproducer : checkProducer W L g.blockHeight g.producerId with
  | error e =>
    rw [hproducer] at h
    cases h
  | ok producer =>
    rw [hproducer] at h
    obtain ⟨checked, hchecked⟩ := exists_ok h
    exact ⟨producer, checked, hproducer, hchecked⟩

/-- What makes a branch, evaluated. -/
def isBranch (W : World) (L : Ledger) (b : BlockRecordV1) (rest : List BlockRecordV1) : Bool :=
  decide (LinkedBranch L b rest) &&
    ((b :: rest).all fun a => (L.blockRecordById a.blockId).isNone) &&
    decide ((b :: rest).map (·.blockId)).Nodup &&
      (b :: rest).all fun a => accepts W L (blockRecordToRemoteGossip a)

theorem branch_of_isBranch {W : World} {L : Ledger} {b : BlockRecordV1} {rest : List BlockRecordV1}
    (h : isBranch W L b rest = true) : Branch W L b rest := by
  simp only [isBranch, Bool.and_eq_true, decide_eq_true_eq, List.all_eq_true,
    Option.isNone_iff_eq_none] at h
  obtain ⟨⟨⟨hlinked, habsent⟩, hdistinct⟩, hvalid⟩ := h
  exact ⟨hlinked, habsent, hdistinct, fun a ha => candidate_of_accepts (hvalid a ha)⟩

theorem tipMissed_evaluated :
    let W := World.sample 100000
    let b := Sample.block W Sample.ledger 1 none [Sample.transfer]
    let b₁ := Sample.onTop W 2 b
    let b₂ := Sample.onTop W 3 b₁
    let b₃ := Sample.onTop W 4 b₂
    let L := Sample.gossiped W b Sample.ledger
    let rest := [Sample.served b₂, Sample.served b₁]
    let s := (rest.map fun r => ⟨r, 0, 0⟩).foldl (BackfillNode.answer W Sample.backfillConfig
      "p".toList) ((Sample.backfillNode L).gossipBlock W Sample.backfillConfig (some "p".toList)
        (blockRecordToRemoteGossip (Sample.served b₃)) 0 true)
    isBranch W L (Sample.served b₃) rest = true ∧ s.reorgs.map (·.tips) = [[b₁.blockId]] ∧
      b₃.blockId ∉ [b₁.blockId] := by
  decide +kernel

/-- A branch of three empty blocks on a stored one: the job at the end names the oldest alone. -/
theorem backfill_tip_missed :
    let W := World.sample 100000
    let b := Sample.block W Sample.ledger 1 none [Sample.transfer]
    let b₁ := Sample.onTop W 2 b
    let b₂ := Sample.onTop W 3 b₁
    let b₃ := Sample.onTop W 4 b₂
    let L := Sample.gossiped W b Sample.ledger
    let rest := [Sample.served b₂, Sample.served b₁]
    let s := (rest.map fun r => ⟨r, 0, 0⟩).foldl (BackfillNode.answer W Sample.backfillConfig
      "p".toList) ((Sample.backfillNode L).gossipBlock W Sample.backfillConfig (some "p".toList)
        (blockRecordToRemoteGossip (Sample.served b₃)) 0 true)
    Branch W L (Sample.served b₃) rest ∧ s.reorgs.map (·.tips) = [[b₁.blockId]] ∧
      b₃.blockId ∉ [b₁.blockId] := by
  obtain ⟨hbranch, htips⟩ := tipMissed_evaluated
  exact ⟨branch_of_isBranch hbranch, htips⟩

/-- A branch of two. -/
theorem backfill_tips_two :
    let W := World.sample 100000
    let b := Sample.block W Sample.ledger 1 none [Sample.transfer]
    let b₁ := Sample.onTop W 2 b
    let b₂ := Sample.onTop W 3 b₁
    let s := Sample.backfillNode (Sample.gossiped W b Sample.ledger)
    ∃ jobs, ([(⟨Sample.served b₁, 0, 0⟩ : BackfillAnswer)].foldl
        (BackfillNode.answer W Sample.backfillConfig "p".toList)
        (s.gossipBlock W Sample.backfillConfig (some "p".toList)
          (blockRecordToRemoteGossip (Sample.served b₂)) 0 true)).reorgs = jobs ∧ jobs ≠ [] ∧
      ∀ job ∈ jobs, b₂.blockId ∈ job.tips := by
  intro W b b₁ b₂ s
  have hall : isBranch W s.ledger (Sample.served b₂) [Sample.served b₁] = true ∧
      (s.blacklisted.contains "p".toList 0).1 = false ∧
      (s.orphans.pruneExpired 0).entries.iter.length < s.orphans.maxOrphans := by decide +kernel
  obtain ⟨hbranch, hfree, hroom⟩ := hall
  have hfresh : ∀ a ∈ [(⟨Sample.served b₁, 0, 0⟩ : BackfillAnswer)],
      s.orphans.ttlMs = 0 ∨ a.now - 0 ≤ s.orphans.ttlMs := by
    intro a ha
    rw [List.mem_singleton.mp ha]
    exact Or.inr (Nat.zero_le _)
  obtain ⟨jobs, hjobs, hnone, htips⟩ := backfill_tips_iff Sample.backfillConfig
    [⟨Sample.served b₁, 0, 0⟩] 0 (branch_of_isBranch hbranch) (by decide) rfl (fun _ _ => rfl)
    hfree hroom hfresh
  exact ⟨jobs, hjobs, fun h => List.cons_ne_nil _ _ (hnone.mp h), htips.mpr (by decide)⟩

end TetCore.Sync
