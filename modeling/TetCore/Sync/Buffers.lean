import TetCore.Lib.Along
import TetCore.Lib.Fifo
import TetCore.Sync.Backfill

/-!
# The bounded buffers

Model of runs of calls of the orphan buffer and of the peer blacklist of `p2p.rs`: a map and a queue
of its keys, each insertion evicting from the front of the queue what is too much. Every run starts
from an empty buffer; an insertion counter beside the buffer notes when each entry first came in.

`remove` of the orphan buffer leaves the queue alone. The next `insert` drops the removed name from
the queue with the expired ones, but not when the buffer keeps its entries for ever (a `ttl_ms` of
0), where `prune_expired` returns at once.

`buffers_lawful_iff`: every insertion obeys the law of a bounded first-in first-out map exactly when
the buffer expires its entries or no orphan is inserted while the queue names a removed one.
-/

namespace TetCore.Sync

open TetCore.Lib TetCore.Consensus

/-! ## The orphan buffer -/

namespace OrphanBuffer

theorem keyed_empty : ∀ k e, (Tree.empty : Tree Str OrphanEntry).get k = some e →
    e.block.blockId = k := by
  intro k e hget
  rw [Tree.get_empty] at hget
  cases hget

/-- `OrphanBuffer::new`. -/
def new (maxOrphans ttlMs : Nat) : OrphanBuffer where
  maxOrphans := max maxOrphans 1
  ttlMs := ttlMs
  entries := Tree.empty
  order := []
  keyed := keyed_empty

/-- `orphan_buffer_from_env`, from what the two variables parse to. -/
def fromEnv (maxOrphans ttlMs : Option Nat) : OrphanBuffer :=
  new (maxOrphans.getD 256) (ttlMs.getD (10 * 60 * 1000))

/-- `OrphanBuffer::remove`: the block, and the buffer it leaves. -/
def remove (b : OrphanBuffer) (blockId : Str) : Option BlockRecordV1 × OrphanBuffer :=
  ((b.entries.get blockId).map OrphanEntry.block,
    { b with
      entries := b.entries.remove blockId
      keyed := keyed_foldl_remove [blockId] b.keyed })

theorem evictOldest_eq (maxOrphans : Nat) (order : List Str) (t : Tree Str OrphanEntry) :
    evictOldest maxOrphans order t = evictFront maxOrphans order t := by
  induction order generalizing t with
  | nil => rfl
  | cons id order ih => rw [evictOldest, evictFront, ih]

end OrphanBuffer

/-- A call of the orphan buffer. -/
inductive OrphanCall where
  | insert (block : BlockRecordV1) (receivedFrom : Option Str) (depth nowMs : Nat)
  | remove (blockId : Str)
  | childrenOf (parentId : Str) (nowMs : Nat)

/-- The orphan buffer after a run of calls: the insertion by which each entry came in, and the number
of insertions. -/
structure OrphanTrace where
  buffer : OrphanBuffer
  arrived : Str → Nat
  inserts : Nat

namespace OrphanTrace

variable (order : IterOrder Str OrphanEntry)

def start (b : OrphanBuffer) : OrphanTrace := ⟨b, fun _ => 0, 0⟩

/-- The buffer after one call. -/
def step (s : OrphanTrace) : OrphanCall → OrphanTrace
  | .insert block receivedFrom depth nowMs =>
    ⟨s.buffer.insert block receivedFrom depth nowMs,
      arrive (s.buffer.pruneExpired nowMs).entries block.blockId s.inserts s.arrived, s.inserts + 1⟩
  | .remove blockId => { s with buffer := (s.buffer.remove blockId).2 }
  | .childrenOf parentId nowMs =>
    { s with buffer := (s.buffer.childrenOf order parentId nowMs).2 }

/-- What the call does: an insertion obeys the law, and no call leaves more entries than the cap. -/
structure Lawful (s : OrphanTrace) (c : OrphanCall) : Prop where
  bounded : (s.step order c).buffer.entries.iter.length ≤ s.buffer.maxOrphans
  insert : ∀ block receivedFrom depth nowMs, c = .insert block receivedFrom depth nowMs →
    PutLaw s.buffer.maxOrphans s.arrived (s.buffer.pruneExpired nowMs).entries block.blockId
      ⟨block, receivedFrom, depth, nowMs⟩ (s.step order c).buffer.order
      (s.step order c).buffer.entries

/-- An insertion into a buffer that does not expire its entries finds no name of a removed block in
the queue. -/
def Tidy (s : OrphanTrace) : OrphanCall → Prop
  | .insert _ _ _ _ =>
    s.buffer.ttlMs = 0 → ∀ id ∈ s.buffer.order, (s.buffer.entries.get id).isSome
  | .remove _ | .childrenOf _ _ => True

variable {order}

/-- The invariant of a run: the queue is in the order of arrival. -/
structure Good (s : OrphanTrace) : Prop where
  cap : 0 < s.buffer.maxOrphans
  queued : Queued s.buffer.maxOrphans s.arrived s.inserts s.buffer.entries s.buffer.order

theorem good_start (maxOrphans ttlMs : Nat) : (start (OrphanBuffer.new maxOrphans ttlMs)).Good where
  cap := Nat.lt_of_lt_of_le Nat.one_pos (Nat.le_max_right maxOrphans 1)
  queued := Queued.empty _ _ 0

end OrphanTrace

namespace OrphanBuffer

variable {b : OrphanBuffer} {arrived : Str → Nat} {n : Nat}

theorem pruneExpired_of_keepsAll (h : b.ttlMs = 0) (nowMs : Nat) :
    (b.pruneExpired nowMs).entries = b.entries ∧ (b.pruneExpired nowMs).order = b.order := by
  have hnone : b.expiredIds nowMs = [] := by
    unfold expiredIds
    rw [List.filter_eq_nil_iff.mpr, List.map_nil]
    intro p hp
    simp [expired, h]
  constructor
  · show (b.expiredIds nowMs).foldl _ b.entries = b.entries
    rw [hnone, List.foldl_nil]
  · exact if_pos h

theorem isSome_of_pruneExpired {nowMs : Nat} {id : Str}
    (h : ((b.pruneExpired nowMs).entries.get id).isSome) : (b.entries.get id).isSome := by
  obtain ⟨e, hget⟩ := Option.isSome_iff_exists.mp h
  exact Option.isSome_iff_exists.mpr ⟨e, Tree.get_of_foldl_remove _ hget⟩

/-- The expired entries leave the queue in the order of arrival, and in step unless the buffer keeps
its entries for ever. -/
theorem queued_pruneExpired (h : Queued b.maxOrphans arrived n b.entries b.order) (nowMs : Nat) :
    Queued b.maxOrphans arrived n (b.pruneExpired nowMs).entries (b.pruneExpired nowMs).order := by
  by_cases httl : b.ttlMs = 0
  · obtain ⟨hentries, horder⟩ := pruneExpired_of_keepsAll httl nowMs
    rw [hentries, horder]
    exact h
  · have horder : (b.pruneExpired nowMs).order =
        b.order.filter fun id => ((b.pruneExpired nowMs).entries.get id).isSome := if_neg httl
    rw [horder]
    exact (h.resync fun _ => isSome_of_pruneExpired).1

theorem inStep_pruneExpired (h : Queued b.maxOrphans arrived n b.entries b.order)
    (htidy : b.ttlMs = 0 → ∀ id ∈ b.order, (b.entries.get id).isSome) (nowMs : Nat) :
    InStep (b.pruneExpired nowMs).entries (b.pruneExpired nowMs).order := by
  by_cases httl : b.ttlMs = 0
  · obtain ⟨hentries, horder⟩ := pruneExpired_of_keepsAll httl nowMs
    rw [hentries, horder]
    exact ⟨h.nodup, fun id => ⟨htidy httl id, h.names id⟩⟩
  · have horder : (b.pruneExpired nowMs).order =
        b.order.filter fun id => ((b.pruneExpired nowMs).entries.get id).isSome := if_neg httl
    rw [horder]
    exact (h.resync fun _ => isSome_of_pruneExpired).2

/-- An insertion is a put into the buffer without its expired entries. -/
theorem insert_eq_put (h : Queued b.maxOrphans arrived n b.entries b.order) (block : BlockRecordV1)
    (receivedFrom : Option Str) (depth nowMs : Nat) :
    ((b.insert block receivedFrom depth nowMs).order,
      (b.insert block receivedFrom depth nowMs).entries) =
      put b.maxOrphans (b.pruneExpired nowMs).order (b.pruneExpired nowMs).entries block.blockId
        ⟨block, receivedFrom, depth, nowMs⟩ := by
  have hq := queued_pruneExpired h nowMs
  unfold insert
  cases hget : (b.pruneExpired nowMs).entries.get block.blockId with
  | some e =>
    have hsome : ((b.pruneExpired nowMs).entries.get block.blockId).isSome := by rw [hget]; rfl
    rw [hq.put_refresh hsome]
    simp only [hget, Option.isSome_some, if_true]
  | none =>
    rw [put_of_none hget, ← evictOldest_eq]
    simp only [hget, Option.isSome_none, Bool.false_eq_true, if_false]
    rfl

theorem insert_maxOrphans (b : OrphanBuffer) (block : BlockRecordV1) (receivedFrom : Option Str)
    (depth nowMs : Nat) : (b.insert block receivedFrom depth nowMs).maxOrphans = b.maxOrphans := by
  unfold insert
  simp only
  split
  · rfl
  · rfl

end OrphanBuffer

namespace OrphanTrace

variable {order : IterOrder Str OrphanEntry} {s : OrphanTrace}

theorem Good.put (h : s.Good) (block : BlockRecordV1) (receivedFrom : Option Str)
    (depth nowMs : Nat)
    (htidy : s.buffer.ttlMs = 0 → ∀ id ∈ s.buffer.order, (s.buffer.entries.get id).isSome) :
    s.Lawful order (.insert block receivedFrom depth nowMs) ∧
      (s.step order (.insert block receivedFrom depth nowMs)).Good := by
  have hq := OrphanBuffer.queued_pruneExpired h.queued nowMs
  have hstep := OrphanBuffer.inStep_pruneExpired h.queued htidy nowMs
  obtain ⟨hlaw, hqueued⟩ := hq.put hstep h.cap block.blockId ⟨block, receivedFrom, depth, nowMs⟩
  rw [← OrphanBuffer.insert_eq_put h.queued] at hlaw hqueued
  have hmax := OrphanBuffer.insert_maxOrphans s.buffer block receivedFrom depth nowMs
  refine ⟨⟨hlaw.bounded, ?_⟩, ⟨?_, ?_⟩⟩
  · intro block' receivedFrom' depth' nowMs' heq
    cases heq
    exact hlaw
  · show 0 < (s.buffer.insert block receivedFrom depth nowMs).maxOrphans
    rw [hmax]
    exact h.cap
  · show Queued (s.buffer.insert block receivedFrom depth nowMs).maxOrphans _ _ _ _
    rw [hmax]
    exact hqueued

theorem Good.remove (h : s.Good) (id : Str) : (s.step order (.remove id)).Good :=
  ⟨h.cap, h.queued.remove id⟩

theorem Good.childrenOf (h : s.Good) (parentId : Str) (nowMs : Nat) :
    (s.step order (.childrenOf parentId nowMs)).Good :=
  ⟨h.cap, OrphanBuffer.queued_pruneExpired h.queued nowMs⟩

theorem Good.bounded (h : s.Good) : s.buffer.entries.iter.length ≤ s.buffer.maxOrphans :=
  (length_le_of_names h.queued.names).trans h.queued.bounded

/-- A name of no entry in the queue of a buffer that keeps its entries breaks the law of an
insertion. -/
theorem Good.stale (h : s.Good) {id : Str} (httl : s.buffer.ttlMs = 0) (hmem : id ∈ s.buffer.order)
    (hnone : s.buffer.entries.get id = none) (block : BlockRecordV1) (receivedFrom : Option Str)
    (depth nowMs : Nat) : ¬ s.Lawful order (.insert block receivedFrom depth nowMs) := by
  intro hlaw
  obtain ⟨hentries, horder⟩ := OrphanBuffer.pruneExpired_of_keepsAll httl nowMs
  have hput := OrphanBuffer.insert_eq_put h.queued block receivedFrom depth nowMs
  have hins := hlaw.insert block receivedFrom depth nowMs rfl
  rw [hentries, horder] at hput
  rw [hentries] at hins
  refine h.queued.stale hmem hnone block.blockId ⟨block, receivedFrom, depth, nowMs⟩ ?_
  rw [← hput]
  exact hins

theorem Good.lawful_iff (h : s.Good) (c : OrphanCall) : s.Lawful order c ↔ s.Tidy c := by
  cases c with
  | insert block receivedFrom depth nowMs =>
    constructor
    · intro hlaw httl id hmem
      by_contra hnone
      rw [Option.not_isSome_iff_eq_none] at hnone
      exact h.stale httl hmem hnone block receivedFrom depth nowMs hlaw
    · exact fun htidy => (h.put block receivedFrom depth nowMs htidy).1
  | remove id =>
    have hgood : (s.step order (.remove id)).Good := h.remove id
    refine iff_of_true ⟨hgood.bounded, ?_⟩ trivial
    intro block receivedFrom depth nowMs heq
    cases heq
  | childrenOf parentId nowMs =>
    have hgood : (s.step order (.childrenOf parentId nowMs)).Good := h.childrenOf parentId nowMs
    refine iff_of_true ⟨hgood.bounded, ?_⟩ trivial
    intro block receivedFrom depth nowMs' heq
    cases heq

theorem Good.step (h : s.Good) (c : OrphanCall) (htidy : s.Tidy c) : (s.step order c).Good := by
  cases c with
  | insert block receivedFrom depth nowMs =>
    exact (h.put block receivedFrom depth nowMs htidy).2
  | remove id => exact h.remove id
  | childrenOf parentId nowMs => exact h.childrenOf parentId nowMs

end OrphanTrace

/-! ## The blacklist -/

namespace BoundedPeerBlacklist

/-- `BoundedPeerBlacklist::from_env`, from what the two variables parse to. -/
def fromEnv (maxPeers ttlMs : Option Nat) : BoundedPeerBlacklist where
  maxPeers := max (maxPeers.getD 4096) 1
  ttlMs := ttlMs.getD (30 * 60 * 1000)
  entries := Tree.empty
  order := []

theorem evictOldest_eq (maxPeers : Nat) (order : List Str) (t : Tree Str Nat) :
    evictOldest maxPeers order t = evictFront maxPeers order t := by
  induction order generalizing t with
  | nil => rfl
  | cons peer order ih => rw [evictOldest, evictFront, ih]

end BoundedPeerBlacklist

/-- A call of the blacklist. -/
inductive BlacklistCall where
  | insert (peer : Str) (nowMs : Nat)
  | contains (peer : Str) (nowMs : Nat)

/-- The blacklist after a run of calls, as `OrphanTrace`. -/
structure BlacklistTrace where
  list : BoundedPeerBlacklist
  arrived : Str → Nat
  inserts : Nat

namespace BlacklistTrace

def start (b : BoundedPeerBlacklist) : BlacklistTrace := ⟨b, fun _ => 0, 0⟩

/-- The blacklist after one call. -/
def step (s : BlacklistTrace) : BlacklistCall → BlacklistTrace
  | .insert peer nowMs =>
    ⟨s.list.insert peer nowMs, arrive (s.list.prune nowMs).entries peer s.inserts s.arrived,
      s.inserts + 1⟩
  | .contains peer nowMs => { s with list := (s.list.contains peer nowMs).2 }

/-- What the call does, as `OrphanTrace.Lawful`. -/
structure Lawful (s : BlacklistTrace) (c : BlacklistCall) : Prop where
  bounded : (s.step c).list.entries.iter.length ≤ s.list.maxPeers
  insert : ∀ peer nowMs, c = .insert peer nowMs →
    PutLaw s.list.maxPeers s.arrived (s.list.prune nowMs).entries peer nowMs (s.step c).list.order
      (s.step c).list.entries

/-- The invariant of a run, as `OrphanTrace.Good`. -/
structure Good (s : BlacklistTrace) : Prop where
  cap : 0 < s.list.maxPeers
  queued : Queued s.list.maxPeers s.arrived s.inserts s.list.entries s.list.order

theorem good_start (maxPeers ttlMs : Option Nat) :
    (start (BoundedPeerBlacklist.fromEnv maxPeers ttlMs)).Good where
  cap := Nat.lt_of_lt_of_le Nat.one_pos (Nat.le_max_right _ 1)
  queued := Queued.empty _ _ 0

variable {s : BlacklistTrace}

/-- The list is in step after every `prune`, whether entries expire or not. -/
theorem Good.prune (h : s.Good) (nowMs : Nat) :
    Queued s.list.maxPeers s.arrived s.inserts (s.list.prune nowMs).entries
        (s.list.prune nowMs).order ∧
      InStep (s.list.prune nowMs).entries (s.list.prune nowMs).order := by
  refine h.queued.resync fun peer hsome => ?_
  obtain ⟨ts, hget⟩ := Option.isSome_iff_exists.mp hsome
  exact Option.isSome_iff_exists.mpr ⟨ts, Tree.get_of_foldl_remove _ hget⟩

theorem insert_eq_put (b : BoundedPeerBlacklist) (peer : Str) (nowMs : Nat) :
    ((b.insert peer nowMs).order, (b.insert peer nowMs).entries) =
      put b.maxPeers (b.prune nowMs).order (b.prune nowMs).entries peer nowMs := by
  unfold Lib.put
  rw [← BoundedPeerBlacklist.evictOldest_eq]
  rfl

theorem Good.insert (h : s.Good) (peer : Str) (nowMs : Nat) :
    s.Lawful (.insert peer nowMs) ∧ (s.step (.insert peer nowMs)).Good := by
  obtain ⟨hq, hstep⟩ := h.prune nowMs
  obtain ⟨hlaw, hqueued⟩ := hq.put hstep h.cap peer nowMs
  rw [← insert_eq_put] at hlaw hqueued
  refine ⟨⟨hlaw.bounded, ?_⟩, ⟨h.cap, hqueued⟩⟩
  intro peer' nowMs' heq
  cases heq
  exact hlaw

theorem Good.contains (h : s.Good) (peer : Str) (nowMs : Nat) :
    (s.step (.contains peer nowMs)).Good := ⟨h.cap, (h.prune nowMs).1⟩

theorem Good.lawful (h : s.Good) (c : BlacklistCall) : s.Lawful c := by
  cases c with
  | insert peer nowMs => exact (h.insert peer nowMs).1
  | contains peer nowMs =>
    have hq := (h.contains peer nowMs).queued
    refine ⟨(length_le_of_names hq.names).trans hq.bounded, ?_⟩
    intro peer' nowMs' heq
    cases heq

theorem Good.step (h : s.Good) (c : BlacklistCall) : (s.step c).Good := by
  cases c with
  | insert peer nowMs => exact (h.insert peer nowMs).2
  | contains peer nowMs => exact h.contains peer nowMs

end BlacklistTrace

/-! ## The law of both -/

/-- **The bounded buffers obey their law exactly when** the orphan buffer expires its entries or no
orphan is inserted while the queue names a removed block. -/
theorem buffers_lawful_iff (order : IterOrder Str OrphanEntry) (maxOrphans ttlMs : Nat)
    (orphanCalls : List OrphanCall) (maxPeers blacklistTtlMs : Option Nat)
    (blacklistCalls : List BlacklistCall) :
    (Along (OrphanTrace.step order) (OrphanTrace.Lawful order)
          (OrphanTrace.start (OrphanBuffer.new maxOrphans ttlMs)) orphanCalls ∧
        Along BlacklistTrace.step BlacklistTrace.Lawful
          (BlacklistTrace.start (BoundedPeerBlacklist.fromEnv maxPeers blacklistTtlMs))
          blacklistCalls) ↔
      Along (OrphanTrace.step order) OrphanTrace.Tidy
        (OrphanTrace.start (OrphanBuffer.new maxOrphans ttlMs)) orphanCalls := by
  have horphans : Along (OrphanTrace.step order) (OrphanTrace.Lawful order)
      (OrphanTrace.start (OrphanBuffer.new maxOrphans ttlMs)) orphanCalls ↔
        Along (OrphanTrace.step order) OrphanTrace.Tidy
          (OrphanTrace.start (OrphanBuffer.new maxOrphans ttlMs)) orphanCalls :=
    along_iff (fun s c h => OrphanTrace.Good.lawful_iff h c)
      (fun s c h htidy => OrphanTrace.Good.step h c htidy) orphanCalls
      (OrphanTrace.good_start maxOrphans ttlMs)
  have hblacklist : Along BlacklistTrace.step BlacklistTrace.Lawful
      (BlacklistTrace.start (BoundedPeerBlacklist.fromEnv maxPeers blacklistTtlMs))
      blacklistCalls :=
    along_of_invariant (fun s c h => BlacklistTrace.Good.lawful h c)
      (fun s c h => BlacklistTrace.Good.step h c) blacklistCalls
      (BlacklistTrace.good_start maxPeers blacklistTtlMs)
  rw [horphans]
  exact and_iff_left hblacklist

namespace Sample

/-- An orphan block. -/
def orphan (id : Str) : BlockRecordV1 where
  v := 1
  height := 2
  blockId := id
  parentBlockId := some "p".toList
  producerId := "producer".toList
  txHashes := []
  txs := []
  stateRoot := "root".toList
  reward := ⟨0, 0, 0⟩
  caacWeight := 1
  cumulativeWeight := 1
  canonical := false
  tsMs := 1

theorem orphan_iter_perm (t : Tree Str OrphanEntry) : t.iter.Perm t.iter := List.Perm.refl _

def orphanOrder : IterOrder Str OrphanEntry := ⟨Tree.iter, orphan_iter_perm⟩

/-- A buffer of one block that keeps it for ever. -/
def orphanStart : OrphanTrace := OrphanTrace.start (OrphanBuffer.fromEnv (some 1) (some 0))

/-- A block comes in, is taken out, comes in again, makes room for another one, and comes in once
more. -/
def orphanCalls : List OrphanCall :=
  [.insert (orphan "a".toList) none 0 1, .remove "a".toList, .insert (orphan "a".toList) none 0 2,
    .insert (orphan "b".toList) none 0 3, .insert (orphan "a".toList) none 0 4]

end Sample

/-- The block inserted last is the one evicted. -/
theorem buffers_evict_inserted :
    ((Sample.orphanCalls.foldl (OrphanTrace.step Sample.orphanOrder)
        Sample.orphanStart).buffer.entries.get "a".toList).isNone ∧
      ¬ Along (OrphanTrace.step Sample.orphanOrder) (OrphanTrace.Lawful Sample.orphanOrder)
        Sample.orphanStart Sample.orphanCalls := by
  have hnone : ((Sample.orphanCalls.foldl (OrphanTrace.step Sample.orphanOrder)
      Sample.orphanStart).buffer.entries.get "a".toList).isNone = true := by decide +kernel
  refine ⟨hnone, ?_⟩
  rintro ⟨-, -, -, -, hlast, -⟩
  have hpresent := (hlast.insert _ _ _ _ rfl).present
  rw [Option.isNone_iff_eq_none] at hnone
  exact absurd (hpresent.symm.trans hnone) (Option.some_ne_none _)

end TetCore.Sync
