import TetCore.Ledger.Sample
import TetCore.Lib.Along
import TetCore.Lib.Base64
import TetCore.Lib.JsonValue

/-!
# The audit feed

`audit_write` stores a record under its SHA-256 and its hash under the next sequence number,
`prune_audit_events` drops the events up to a sequence number with their records, and
`audit_events_recent` lists the last rows of the sequence tree. The keys of that tree are the
little-endian bytes of the numbers, so rows come in the order of the numbers only within one block of
256 (`compare_leBytes_of_div_eq`), and equal records share one row. `AuditHistory` is what the feed is
about: the records in the order they were written, and the number up to which they were pruned.

* `Feed`: the log has the events of the history, each with its record, and lists the newest first.
* `Sound`: what a call needs: numbers within one block of 256, no record that a pruned event shares
  with one that stays.
* `audit_feed_iff`: a run keeps the feed after each of its calls exactly when each call is `Sound`.
* `audit_feed_fails`: the 256th event, and a record written twice.
-/

namespace TetCore

open TetCore.Lib

namespace Ledger

/-! ## The log -/

/-- `audit`, `audit_seq` and `META_AUDIT_SEQ`. -/
structure AuditLog where
  audit : Tree Str Bytes
  auditSeq : Tree Bytes Str
  metaAuditSeq : Nat

/-- The number little-endian bytes stand for. -/
def ofLeBytes : Bytes → Nat
  | [] => 0
  | x :: b => x.toNat + 256 * ofLeBytes b

/-- `bytes_to_u64`. -/
def bytesToU64 (b : Bytes) : Nat := if b.length = 8 then ofLeBytes b else 0

/-- `AuditEventV1`. -/
structure AuditEventV1 where
  seq : Nat
  hashHex : Str
  tsMs : Nat
  record : JsonValue

/-- The time a record carries, `0` when there is none. -/
def tsMsOf (record : JsonValue) : Nat := ((record.get "ts_ms".toList).bind JsonValue.asU64).getD 0

/-- `Map::insert` of `ts_ms`, where the record is an object. -/
def withTsMs (nowMs : Nat) : JsonValue → JsonValue
  | .obj members =>
    .obj (members.filter (fun m => m.1 != "ts_ms".toList) ++ [("ts_ms".toList, .ofNat nowMs)])
  | record => record

/-- The event of a row, from the bytes of its record. -/
def auditEvent (fromSlice : Bytes → Except String JsonValue) (nowMs seq : Nat) (hashHex : Str)
    (pt : Bytes) : AuditEventV1 :=
  let record := match fromSlice pt with
    | .ok v => v
    | .error _ => .obj [("raw_b64".toList, .str (b64Encode pt))]
  let record := if tsMsOf record = 0 then withTsMs nowMs record else record
  ⟨seq, hashHex, tsMsOf record, record⟩

namespace AuditLog

/-- A new database. -/
def new : AuditLog := ⟨.empty, .empty, 0⟩

/-- `audit_write`: the hash and the number of the event. -/
def auditWrite (W : World) (recordJson : Bytes) (A : AuditLog) : (Str × Nat) × AuditLog :=
  let hashHex := W.sha256Hex recordJson
  let seq := satAdd A.metaAuditSeq 1
  ((hashHex, seq),
    ⟨A.audit.insert hashHex recordJson, A.auditSeq.insert (leBytes 8 seq) hashHex, seq⟩)

/-- One stale row, with the record it points to. -/
def dropEvent (A : AuditLog) (row : Bytes × Str) : AuditLog where
  audit := if row.2.isEmpty then A.audit else A.audit.remove row.2
  auditSeq := A.auditSeq.remove row.1
  metaAuditSeq := A.metaAuditSeq

/-- `prune_audit_events`: how many rows were removed. -/
def pruneAuditEvents (maxEvents : Nat) (A : AuditLog) : Nat × AuditLog :=
  if maxEvents = 0 then (0, A)
  else
    let keepAfter := A.metaAuditSeq - maxEvents
    if keepAfter = 0 then (0, A)
    else
      -- the loop stops at the first key above `keepAfter`
      let stale := A.auditSeq.iter.takeWhile fun row => decide (bytesToU64 row.1 ≤ keepAfter)
      (stale.length, stale.foldl dropEvent A)

/-- `audit_events_recent`. -/
def auditEventsRecent (fromSlice : Bytes → Except String JsonValue) (nowMs : Nat) (A : AuditLog)
    (limit : Nat) : List AuditEventV1 :=
  (A.auditSeq.iter.reverse.filterMap fun row =>
    if row.2.isEmpty then none
    else (A.audit.get row.2).map (auditEvent fromSlice nowMs (bytesToU64 row.1) row.2)).take
      (max limit 1)

end AuditLog

/-! ## What the feed is about -/

/-- The records that were written, oldest first, and the number up to which they were pruned. -/
structure AuditHistory where
  written : List Bytes
  pruned : Nat

namespace AuditHistory

/-- Nothing was written. -/
def new : AuditHistory := ⟨[], 0⟩

/-- The record of the `n`th event. -/
def record (H : AuditHistory) (n : Nat) : Bytes := (H.written[n - 1]?).getD []

/-- The `n`th event remains. -/
def Held (H : AuditHistory) (n : Nat) : Prop := H.pruned < n ∧ n ≤ H.written.length

/-- The events that remain, oldest first. -/
def held (H : AuditHistory) : List Nat :=
  List.range' (H.pruned + 1) (H.written.length - H.pruned)

end AuditHistory

/-- A call of the log. -/
inductive AuditCall where
  | write (recordJson : Bytes)
  | prune (maxEvents : Nat)

/-- A log and its history. -/
structure Audited where
  log : AuditLog
  history : AuditHistory

namespace Audited

/-- A new database. -/
def new : Audited := ⟨.new, .new⟩

/-- What a call does to the log and to its history. -/
def step (W : World) (s : Audited) : AuditCall → Audited
  | .write recordJson =>
    ⟨(s.log.auditWrite W recordJson).2, ⟨s.history.written ++ [recordJson], s.history.pruned⟩⟩
  | .prune maxEvents =>
    ⟨(s.log.pruneAuditEvents maxEvents).2,
      ⟨s.history.written, max s.history.pruned (s.history.written.length - maxEvents)⟩⟩

/-- **The feed**: the events that remain are those of the history, each with its record, and the
newest of them are listed first. -/
structure Feed (W : World) (s : Audited) : Prop where
  rows : ∀ key hash, s.log.auditSeq.get key = some hash ↔
    ∃ n, s.history.Held n ∧ key = leBytes 8 n ∧ hash = W.sha256Hex (s.history.record n)
  records : ∀ n, s.history.Held n →
    s.log.audit.get (W.sha256Hex (s.history.record n)) = some (s.history.record n)
  recent : ∀ fromSlice nowMs limit, s.log.auditEventsRecent fromSlice nowMs limit =
    (s.history.held.reverse.take (max limit 1)).map fun n =>
      auditEvent fromSlice nowMs n (W.sha256Hex (s.history.record n)) (s.history.record n)

/-- What a call needs for the feed to be kept. -/
def Sound (W : World) (s : Audited) : AuditCall → Prop
  | .write recordJson =>
    (s.history.written = [] ∨
      (s.history.written.length + 1) / 256 = (s.history.pruned + 1) / 256) ∧
    ∀ n, s.history.Held n → W.sha256Hex (s.history.record n) = W.sha256Hex recordJson →
      s.history.record n = recordJson
  | .prune maxEvents =>
    (s.history.written = [] ∨ maxEvents ≠ 0) ∧
    ∀ m n, s.history.Held m → m ≤ s.history.written.length - maxEvents →
      s.history.Held n → s.history.written.length - maxEvents < n →
      W.sha256Hex (s.history.record m) ≠ W.sha256Hex (s.history.record n)

end Audited

/-! ## Little-endian keys -/

theorem ofLeBytes_leBytes : ∀ {n v : Nat}, v < 256 ^ n → ofLeBytes (leBytes n v) = v := by
  intro n
  induction n with
  | zero =>
    intro v hv
    rw [pow_zero] at hv
    show 0 = v
    omega
  | succ n ih =>
    intro v hv
    rw [pow_succ] at hv
    rw [leBytes, ofLeBytes, ih (by omega), UInt8.toNat_ofNat_of_lt' (by simp [UInt8.size]; omega)]
    omega

theorem bytesToU64_leBytes {n : Nat} (h : n ≤ u64Max) : bytesToU64 (leBytes 8 n) = n := by
  unfold bytesToU64
  rw [if_pos (leBytes_length 8 n)]
  refine ofLeBytes_leBytes ?_
  unfold u64Max at h
  omega

/-- Two keys compare by their low bytes first. -/
theorem compare_leBytes (m n : Nat) : compare (leBytes 8 m) (leBytes 8 n) =
    (compare (UInt8.ofNat (m % 256)) (UInt8.ofNat (n % 256))).then
      (compare (leBytes 7 (m / 256)) (leBytes 7 (n / 256))) := by
  show compare (_ :: _) (_ :: _) = _
  rw [List.compare_cons_cons]

theorem compare_ofNat_lt {m n : Nat} (h : m < n) (hn : n < 256) :
    compare (UInt8.ofNat m) (UInt8.ofNat n) = .lt := by
  show compareOfLessAndEq (UInt8.ofNat m) (UInt8.ofNat n) = .lt
  rw [compareOfLessAndEq, if_pos]
  rw [UInt8.lt_iff_toNat_lt, UInt8.toNat_ofNat_of_lt' (by simp [UInt8.size]; omega),
    UInt8.toNat_ofNat_of_lt' (by simp [UInt8.size]; omega)]
  exact h

/-- Within a block of 256 the keys are in the order of the numbers. -/
theorem compare_leBytes_of_div_eq {m n : Nat} (h : m < n) (hdiv : m / 256 = n / 256) :
    compare (leBytes 8 m) (leBytes 8 n) = .lt := by
  rw [compare_leBytes, compare_ofNat_lt (by omega) (by omega)]
  rfl

/-- At the end of a block the next key comes first. -/
theorem compare_leBytes_of_carry {n : Nat} (h : (n + 1) % 256 = 0) :
    compare (leBytes 8 (n + 1)) (leBytes 8 n) = .lt := by
  rw [compare_leBytes, compare_ofNat_lt (by omega) (by omega)]
  rfl

/-! ## The history -/

section History

variable {H : AuditHistory} {W : World} {s : Audited} {r : Bytes}

theorem AuditHistory.mem_held {n : Nat} : n ∈ H.held ↔ H.Held n := by
  unfold AuditHistory.held AuditHistory.Held
  rw [List.mem_range'_1]
  omega

theorem AuditHistory.record_append_of_le {n : Nat} (hpos : 0 < n) (h : n ≤ H.written.length) :
    AuditHistory.record ⟨H.written ++ [r], H.pruned⟩ n = H.record n := by
  unfold AuditHistory.record
  rw [List.getElem?_append_left (by omega)]

theorem AuditHistory.record_append_last :
    AuditHistory.record ⟨H.written ++ [r], H.pruned⟩ (H.written.length + 1) = r := by
  unfold AuditHistory.record
  rw [Nat.add_sub_cancel, List.getElem?_concat_length, Option.getD_some]

theorem AuditHistory.held_append {n : Nat} (hpruned : H.pruned ≤ H.written.length) :
    AuditHistory.Held ⟨H.written ++ [r], H.pruned⟩ n ↔ H.Held n ∨ n = H.written.length + 1 := by
  show H.pruned < n ∧ n ≤ (H.written ++ [r]).length ↔ _
  unfold AuditHistory.Held
  rw [List.length_append, List.length_singleton]
  omega

/-- What is left of a list up to the first item without `p` is what has `p`, if the items that have
it come first. -/
theorem takeWhile_eq_filter {α : Type} {p : α → Bool} {l : List α}
    (h : l.Pairwise fun a b => p b = true → p a = true) : l.takeWhile p = l.filter p := by
  induction l with
  | nil => rfl
  | cons a l ih =>
    obtain ⟨hfirst, hrest⟩ := List.pairwise_cons.mp h
    by_cases ha : p a = true
    · rw [List.takeWhile_cons_of_pos ha, List.filter_cons_of_pos ha, ih hrest]
    · rw [List.takeWhile_cons_of_neg ha, List.filter_cons_of_neg ha]
      refine (List.filter_eq_nil_iff.mpr fun b hb => ?_).symm
      exact fun hpb => ha (hfirst b hb hpb)

theorem takeWhile_congr {α : Type} {p q : α → Bool} {l : List α} (h : ∀ x ∈ l, p x = q x) :
    l.takeWhile p = l.takeWhile q := by
  induction l with
  | nil => rfl
  | cons a l ih =>
    rw [List.takeWhile_cons, List.takeWhile_cons, h a List.mem_cons_self,
      ih fun x hx => h x (List.mem_cons_of_mem _ hx)]

/-! ## The invariant -/

/-- What holds of a log while its calls are sound. -/
structure Audited.Inv (W : World) (s : Audited) : Prop where
  rows : ∀ key hash, s.log.auditSeq.get key = some hash ↔
    ∃ n, s.history.Held n ∧ key = leBytes 8 n ∧ hash = W.sha256Hex (s.history.record n)
  records : ∀ n, s.history.Held n →
    s.log.audit.get (W.sha256Hex (s.history.record n)) = some (s.history.record n)
  seq : s.log.metaAuditSeq = s.history.written.length
  fits : s.history.written.length ≤ u64Max
  begun : (s.history.written = [] ∧ s.history.pruned = 0) ∨
    s.history.pruned < s.history.written.length
  block : s.history.written = [] ∨
    s.history.written.length / 256 = (s.history.pruned + 1) / 256

theorem Audited.Inv.new (W : World) : Audited.new.Inv W where
  rows key hash := by
    constructor
    · intro h
      rw [show Audited.new.log.auditSeq.get key = none from Tree.get_empty key] at h
      cases h
    · rintro ⟨n, ⟨hpos, hlen⟩, -⟩
      exact absurd hlen (by simp [Audited.new, AuditHistory.new] at hpos ⊢; omega)
  records n h := by
    obtain ⟨hpos, hlen⟩ := h
    exact absurd hlen (by simp [Audited.new, AuditHistory.new] at hpos ⊢; omega)
  seq := rfl
  fits := Nat.zero_le _
  begun := Or.inl ⟨rfl, rfl⟩
  block := Or.inl rfl

theorem Audited.Inv.pruned_le (h : s.Inv W) : s.history.pruned ≤ s.history.written.length := by
  rcases h.begun with ⟨hnil, hzero⟩ | hlt
  · rw [hzero]
    exact Nat.zero_le _
  · exact hlt.le

/-- The events that remain are in one block of 256. -/
theorem Audited.Inv.div_eq (h : s.Inv W) {m n : Nat} (hm : s.history.Held m)
    (hn : s.history.Held n) : m / 256 = n / 256 := by
  obtain ⟨hm1, hm2⟩ := hm
  obtain ⟨hn1, hn2⟩ := hn
  rcases h.block with hnil | hblock
  · rw [hnil] at hm2
    exact absurd hm2 (by simp; omega)
  · omega

/-- The rows are in the order of the events. -/
theorem Audited.Inv.iter_eq (h : s.Inv W) : s.log.auditSeq.iter =
    s.history.held.map fun n => (leBytes 8 n, W.sha256Hex (s.history.record n)) := by
  have hsorted : (s.history.held.map fun n => (leBytes 8 n, W.sha256Hex
      (s.history.record n))).Pairwise fun a b => compare a.1 b.1 = .lt := by
    rw [List.pairwise_map]
    have hlt : s.history.held.Pairwise (· < ·) := List.pairwise_lt_range'
    refine hlt.imp_of_mem fun {m n} hm hn hmn => ?_
    exact compare_leBytes_of_div_eq hmn
      (h.div_eq (AuditHistory.mem_held.mp hm) (AuditHistory.mem_held.mp hn))
  have hfilter := Tree.filter_iter_eq (t := s.log.auditSeq) (p := fun _ => true) hsorted
    fun key hash => ?_
  · rw [← hfilter]
    exact (List.filter_eq_self.mpr fun _ _ => rfl).symm
  · rw [h.rows key hash, List.mem_map]
    constructor
    · rintro ⟨n, hn, heq⟩
      obtain ⟨rfl, rfl⟩ := Prod.mk.inj heq
      exact ⟨rfl, n, AuditHistory.mem_held.mp hn, rfl, rfl⟩
    · rintro ⟨-, n, hn, rfl, rfl⟩
      exact ⟨n, AuditHistory.mem_held.mpr hn, rfl⟩

theorem Audited.Inv.held_le (h : s.Inv W) {n : Nat} (hn : s.history.Held n) : n ≤ u64Max :=
  hn.2.trans h.fits

/-- A hash is not empty. -/
theorem sha256Hex_ne_nil (hsha : ∀ b, (W.sha256 b).length = 32) (b : Bytes) :
    (W.sha256Hex b).isEmpty = false := by
  unfold World.sha256Hex
  cases hb : W.sha256 b with
  | nil =>
    have hlen := hsha b
    rw [hb] at hlen
    cases hlen
  | cons x rest => rfl

/-- **While the invariant holds the feed does.** -/
theorem Audited.Inv.feed (hsha : ∀ b, (W.sha256 b).length = 32) (h : s.Inv W) : s.Feed W where
  rows := h.rows
  records := h.records
  recent fromSlice nowMs limit := by
    unfold AuditLog.auditEventsRecent
    rw [h.iter_eq, ← List.map_reverse, List.filterMap_map, List.map_take]
    congr 1
    rw [← List.filterMap_eq_map]
    refine List.filterMap_congr fun n hn => ?_
    have hheld := AuditHistory.mem_held.mp (List.mem_reverse.mp hn)
    simp only [Function.comp_apply]
    rw [if_neg (by rw [sha256Hex_ne_nil hsha]; exact Bool.false_ne_true), h.records n hheld,
      bytesToU64_leBytes (h.held_le hheld)]
    rfl

/-! ## A write -/

/-- **A sound write** keeps the invariant. -/
theorem Audited.Inv.write (h : s.Inv W) (hs : s.Sound W (.write r)) :
    (s.step W (.write r)).Inv W := by
  obtain ⟨hblock, hsame⟩ := hs
  have hle := h.pruned_le
  have hfits : s.history.written.length + 1 ≤ u64Max := by
    have hmax := h.fits
    rcases hblock with hnil | hblock
    · rw [hnil]
      decide
    · rcases h.begun with ⟨hnil, -⟩ | hlt
      · rw [hnil]
        decide
      · unfold u64Max at hmax ⊢
        omega
  have hseq : satAdd s.log.metaAuditSeq 1 = s.history.written.length + 1 := by
    rw [h.seq, satAdd_of_le hfits]
  have hrecord : ∀ n, s.history.Held n →
      AuditHistory.record ⟨s.history.written ++ [r], s.history.pruned⟩ n = s.history.record n :=
    fun n hn => AuditHistory.record_append_of_le (Nat.zero_lt_of_lt hn.1) hn.2
  refine ⟨fun key hash => ?_, fun n hn => ?_, ?_, ?_, ?_, ?_⟩
  · show (s.log.auditSeq.insert (leBytes 8 (satAdd s.log.metaAuditSeq 1)) (W.sha256Hex r)).get key =
      some hash ↔ _
    rw [hseq, Tree.get_insert]
    show _ ↔ ∃ n, AuditHistory.Held ⟨s.history.written ++ [r], s.history.pruned⟩ n ∧ key = leBytes 8 n ∧
      hash = W.sha256Hex (AuditHistory.record ⟨s.history.written ++ [r], s.history.pruned⟩ n)
    constructor
    · intro hget
      by_cases hkey : leBytes 8 (s.history.written.length + 1) = key
      · rw [if_pos hkey] at hget
        refine ⟨_, (AuditHistory.held_append hle).mpr (Or.inr rfl), hkey.symm, ?_⟩
        rw [AuditHistory.record_append_last]
        exact (Option.some.inj hget).symm
      · rw [if_neg hkey] at hget
        obtain ⟨n, hn, hkeyn, hhash⟩ := (h.rows key hash).mp hget
        exact ⟨n, (AuditHistory.held_append hle).mpr (Or.inl hn), hkeyn, by rw [hrecord n hn, hhash]⟩
    · rintro ⟨n, hn, rfl, rfl⟩
      rcases (AuditHistory.held_append hle).mp hn with hold | rfl
      · have hne : leBytes 8 (s.history.written.length + 1) ≠ leBytes 8 n := by
          intro heq
          have hn64 := h.held_le hold
          have hlast := leBytes_injective (by unfold u64Max at hfits; omega)
            (by unfold u64Max at hn64; omega) heq
          have := hold.2
          omega
        rw [if_neg hne, hrecord n hold]
        exact (h.rows _ _).mpr ⟨n, hold, rfl, rfl⟩
      · rw [if_pos rfl, AuditHistory.record_append_last]
  · show (s.log.audit.insert (W.sha256Hex r) r).get (W.sha256Hex
      (AuditHistory.record ⟨s.history.written ++ [r], s.history.pruned⟩ n)) =
      some (AuditHistory.record ⟨s.history.written ++ [r], s.history.pruned⟩ n)
    rw [Tree.get_insert]
    rcases (AuditHistory.held_append hle).mp hn with hold | rfl
    · rw [hrecord n hold]
      by_cases hhash : W.sha256Hex r = W.sha256Hex (s.history.record n)
      · rw [if_pos hhash, hsame n hold hhash.symm]
      · rw [if_neg hhash]
        exact h.records n hold
    · rw [AuditHistory.record_append_last, if_pos rfl]
  · show satAdd s.log.metaAuditSeq 1 = (s.history.written ++ [r]).length
    rw [hseq, List.length_append, List.length_singleton]
  · show (s.history.written ++ [r]).length ≤ u64Max
    rw [List.length_append, List.length_singleton]
    exact hfits
  · right
    show s.history.pruned < (s.history.written ++ [r]).length
    rw [List.length_append, List.length_singleton]
    omega
  · right
    show (s.history.written ++ [r]).length / 256 = (s.history.pruned + 1) / 256
    rw [List.length_append, List.length_singleton]
    rcases hblock with hnil | hblock
    · rcases h.begun with ⟨-, hzero⟩ | hlt
      · rw [hnil, hzero]
        rfl
      · rw [hnil] at hlt
        exact absurd hlt (Nat.not_lt_zero _)
    · exact hblock

/-- The last row of a feed is the newest event. -/
theorem Audited.Feed.last (hsha : ∀ b, (W.sha256 b).length = 32) (h : s.Feed W)
    {rows : List (Bytes × Str)} {row : Bytes × Str} (hrows : s.log.auditSeq.iter = rows ++ [row])
    {ns : List Nat} {n : Nat} (hheld : s.history.held = ns ++ [n]) : bytesToU64 row.1 = n := by
  have hrow : s.log.auditSeq.get row.1 = some row.2 := by
    refine Tree.mem_iter.mp ?_
    rw [hrows]
    exact List.mem_append_right _ List.mem_cons_self
  obtain ⟨m, hm, -, hhash⟩ := (h.rows _ _).mp hrow
  have hrecent := h.recent (fun _ => .error "") 0 1
  unfold AuditLog.auditEventsRecent at hrecent
  rw [hrows, hheld, List.reverse_concat, List.reverse_concat, List.filterMap_cons, hhash,
    if_neg (by rw [sha256Hex_ne_nil hsha]; exact Bool.false_ne_true), h.records m hm] at hrecent
  simp only [Option.map_some, max_self, List.take_succ_cons, List.take_zero, List.map_cons,
    List.map_nil, List.cons.injEq, and_true] at hrecent
  exact congrArg AuditEventV1.seq hrecent

/-- **A write that keeps the feed** is sound. -/
theorem Audited.Inv.sound_write (hsha : ∀ b, (W.sha256 b).length = 32) (h : s.Inv W)
    (hfeed : (s.step W (.write r)).Feed W) : s.Sound W (.write r) := by
  have hle := h.pruned_le
  have hheld : ∀ n, s.history.Held n → (s.step W (.write r)).history.Held n :=
    fun n hn => (AuditHistory.held_append hle).mpr (Or.inl hn)
  constructor
  · by_contra hcross
    rw [not_or] at hcross
    obtain ⟨hsome, hcross⟩ := hcross
    have hlt := h.begun.resolve_left fun hnil => hsome hnil.1
    have hblock := h.block.resolve_left hsome
    have hcarry : (s.history.written.length + 1) % 256 = 0 := by omega
    -- the row of the last event is behind the one that is written
    have hrow := (hfeed.rows (leBytes 8 s.history.written.length) _).mpr
      ⟨s.history.written.length, hheld _ ⟨hlt, le_rfl⟩, rfl, rfl⟩
    have hmem := Tree.mem_iter.mpr hrow
    obtain ⟨rows, row, hrows⟩ : ∃ rows row, (s.step W (.write r)).log.auditSeq.iter = rows ++ [row] :=
      List.eq_nil_or_concat' _ |>.resolve_left fun hnil => by
        rw [hnil] at hmem
        cases hmem
    have hlist : (s.step W (.write r)).history.held =
        s.history.held ++ [s.history.written.length + 1] := by
      show List.range' (s.history.pruned + 1) ((s.history.written ++ [r]).length -
        s.history.pruned) = List.range' (s.history.pruned + 1) _ ++ [_]
      rw [List.length_append, List.length_singleton, Nat.sub_add_comm hle, List.range'_concat]
      congr 2
      omega
    have hlast := hfeed.last hsha hrows hlist
    have hget : (s.step W (.write r)).log.auditSeq.get row.1 = some row.2 := by
      refine Tree.mem_iter.mp ?_
      rw [hrows]
      exact List.mem_append_right _ List.mem_cons_self
    obtain ⟨m, hm, hkey, -⟩ := (hfeed.rows _ _).mp hget
    rcases (AuditHistory.held_append hle).mp hm with hold | rfl
    · rw [hkey, bytesToU64_leBytes (h.held_le hold)] at hlast
      have := hold.2
      omega
    · have hbehind := compare_leBytes_of_carry hcarry
      have hsorted := (s.step W (.write r)).log.auditSeq.iter_sorted
      rw [hrows, List.pairwise_append] at hsorted
      rw [hrows] at hmem
      rcases List.mem_append.mp hmem with hmem | hmem
      · have hbefore := hsorted.2.2 _ hmem row List.mem_cons_self
        rw [hkey] at hbefore
        have hgt := Std.OrientedCmp.gt_of_lt hbefore
        rw [hbehind] at hgt
        cases hgt
      · rw [← List.mem_singleton.mp hmem] at hkey
        rw [← hkey, Std.ReflOrd.compare_self] at hbehind
        cases hbehind
  · intro n hn hhash
    have hget := hfeed.records n (hheld n hn)
    have hrecord : (s.step W (.write r)).history.record n = s.history.record n :=
      AuditHistory.record_append_of_le (Nat.zero_lt_of_lt hn.1) hn.2
    rw [hrecord, hhash] at hget
    have hnew : (s.step W (.write r)).log.audit.get (W.sha256Hex r) = some r :=
      Tree.get_insert_self _ _ _
    exact Option.some.inj (hget.symm.trans hnew)

/-! ## A pruning -/

theorem AuditLog.foldl_dropEvent : ∀ (rows : List (Bytes × Str)) (A : AuditLog),
    (rows.foldl AuditLog.dropEvent A).auditSeq =
        (rows.map Prod.fst).foldl (fun t k => t.remove k) A.auditSeq ∧
      (rows.foldl AuditLog.dropEvent A).audit =
        ((rows.map Prod.snd).filter fun hash => !hash.isEmpty).foldl (fun t k => t.remove k) A.audit ∧
      (rows.foldl AuditLog.dropEvent A).metaAuditSeq = A.metaAuditSeq := by
  intro rows
  induction rows with
  | nil => exact fun A => ⟨rfl, rfl, rfl⟩
  | cons row rows ih =>
    intro A
    obtain ⟨hseq, haudit, hmeta⟩ := ih (A.dropEvent row)
    refine ⟨hseq, haudit.trans ?_, hmeta⟩
    unfold AuditLog.dropEvent
    rw [List.map_cons, List.filter_cons]
    by_cases hempty : row.2.isEmpty = true
    · rw [if_pos hempty, if_neg (by rw [hempty]; exact Bool.false_ne_true)]
    · rw [if_neg hempty, if_pos (by rw [Bool.not_eq_true] at hempty; rw [hempty]; rfl)]
      rfl

/-- The stale rows of a pruning. -/
theorem Audited.Inv.stale_eq (h : s.Inv W) (k : Nat) :
    (s.log.auditSeq.iter.takeWhile fun row => decide (bytesToU64 row.1 ≤ k)) =
      (s.history.held.filter fun n => decide (n ≤ k)).map fun n =>
        (leBytes 8 n, W.sha256Hex (s.history.record n)) := by
  have hsorted : s.history.held.Pairwise fun a b => decide (b ≤ k) = true → decide (a ≤ k) = true := by
    have hlt : s.history.held.Pairwise (· < ·) := List.pairwise_lt_range'
    refine hlt.imp fun {a b} hab hb => ?_
    rw [decide_eq_true_eq] at hb ⊢
    omega
  rw [h.iter_eq, List.takeWhile_map, ← takeWhile_eq_filter hsorted, takeWhile_congr]
  intro n hn
  rw [Function.comp_apply, bytesToU64_leBytes (h.held_le (AuditHistory.mem_held.mp hn))]

/-- A row is stale. -/
def Audited.Stale (s : Audited) (maxEvents n : Nat) : Prop :=
  s.history.Held n ∧ n ≤ s.history.written.length - maxEvents

/-- **What a pruning leaves**: the rows of the newer events, and the records no stale row points to. -/
theorem Audited.Inv.pruned_reads (hsha : ∀ b, (W.sha256 b).length = 32) (h : s.Inv W)
    (hash : Str) {maxEvents : Nat} (hmax : maxEvents ≠ 0) :
    let A := (s.log.pruneAuditEvents maxEvents).2
    (∀ key, A.auditSeq.get key = some hash ↔ s.log.auditSeq.get key = some hash ∧
      ¬∃ n, s.Stale maxEvents n ∧ key = leBytes 8 n) ∧
    (∀ bytes, A.audit.get hash = some bytes ↔ s.log.audit.get hash = some bytes ∧
      ¬∃ n, s.Stale maxEvents n ∧ hash = W.sha256Hex (s.history.record n)) ∧
    A.metaAuditSeq = s.log.metaAuditSeq := by
  unfold AuditLog.pruneAuditEvents
  rw [if_neg hmax]
  simp only
  by_cases hk : s.log.metaAuditSeq - maxEvents = 0
  · rw [if_pos hk]
    have hnone : ∀ n, ¬s.Stale maxEvents n := by
      rintro n ⟨⟨hpos, -⟩, hle⟩
      rw [← h.seq, hk] at hle
      omega
    refine ⟨fun key => ?_, fun bytes => ?_, rfl⟩
    · exact (and_iff_left fun hex => hex.elim fun n hn => hnone n hn.1).symm
    · exact (and_iff_left fun hex => hex.elim fun n hn => hnone n hn.1).symm
  · rw [if_neg hk, h.stale_eq]
    obtain ⟨hseq, haudit, hmeta⟩ := AuditLog.foldl_dropEvent
      ((s.history.held.filter fun n => decide (n ≤ s.log.metaAuditSeq - maxEvents)).map fun n =>
        (leBytes 8 n, W.sha256Hex (s.history.record n))) s.log
    have hstale : ∀ n, (n ∈ s.history.held.filter fun n =>
        decide (n ≤ s.log.metaAuditSeq - maxEvents)) ↔ s.Stale maxEvents n := by
      intro n
      rw [List.mem_filter, AuditHistory.mem_held, decide_eq_true_eq, h.seq]
      rfl
    refine ⟨fun key => ?_, fun bytes => ?_, hmeta⟩
    · have hmem : (key ∈ ((s.history.held.filter fun n =>
          decide (n ≤ s.log.metaAuditSeq - maxEvents)).map fun n =>
            (leBytes 8 n, W.sha256Hex (s.history.record n))).map Prod.fst) ↔
          ∃ n, s.Stale maxEvents n ∧ key = leBytes 8 n := by
        rw [List.map_map, List.mem_map]
        exact exists_congr fun n => and_congr (hstale n) eq_comm
      rw [hseq, Tree.get_foldl_remove, ← hmem]
      split
      · rename_i hin
        exact iff_of_false (Option.some_ne_none _).symm fun hc => hc.2 hin
      · rename_i hout
        exact (and_iff_left hout).symm
    · have hmem : (hash ∈ (((s.history.held.filter fun n =>
          decide (n ≤ s.log.metaAuditSeq - maxEvents)).map fun n =>
            (leBytes 8 n, W.sha256Hex (s.history.record n))).map Prod.snd).filter
              fun hash => !hash.isEmpty) ↔
          ∃ n, s.Stale maxEvents n ∧ hash = W.sha256Hex (s.history.record n) := by
        rw [List.mem_filter, List.map_map, List.mem_map]
        constructor
        · rintro ⟨⟨n, hn, rfl⟩, -⟩
          exact ⟨n, (hstale n).mp hn, rfl⟩
        · rintro ⟨n, hn, rfl⟩
          exact ⟨⟨n, (hstale n).mpr hn, rfl⟩, by rw [sha256Hex_ne_nil hsha]; rfl⟩
      rw [haudit, Tree.get_foldl_remove, ← hmem]
      split
      · rename_i hin
        exact iff_of_false (Option.some_ne_none _).symm fun hc => hc.2 hin
      · rename_i hout
        exact (and_iff_left hout).symm

/-- The events a pruning leaves. -/
theorem Audited.held_prune {maxEvents n : Nat} :
    (s.step W (.prune maxEvents)).history.Held n ↔
      s.history.Held n ∧ s.history.written.length - maxEvents < n := by
  show max s.history.pruned (s.history.written.length - maxEvents) < n ∧
    n ≤ s.history.written.length ↔ _
  unfold AuditHistory.Held
  omega

/-- Keys of events that remain are different. -/
theorem Audited.Inv.key_inj (h : s.Inv W) {m n : Nat} (hm : s.history.Held m)
    (hn : s.history.Held n) (heq : leBytes 8 m = leBytes 8 n) : m = n := by
  have hm64 := h.held_le hm
  have hn64 := h.held_le hn
  exact leBytes_injective (by unfold u64Max at hm64; omega) (by unfold u64Max at hn64; omega) heq

/-- A pruning with nothing written changes nothing. -/
theorem Audited.Inv.prune_nil (h : s.Inv W) {maxEvents : Nat} (hnil : s.history.written = []) :
    s.step W (.prune maxEvents) = s := by
  have hzero := h.begun.resolve_right (by rw [hnil]; exact Nat.not_lt_zero _)
  have hlog : (s.log.pruneAuditEvents maxEvents).2 = s.log := by
    unfold AuditLog.pruneAuditEvents
    by_cases hmax : maxEvents = 0
    · rw [if_pos hmax]
    · rw [if_neg hmax]
      simp only
      rw [if_pos (by rw [h.seq, hnil, List.length_nil, Nat.zero_sub])]
  show Audited.mk (s.log.pruneAuditEvents maxEvents).2 ⟨s.history.written, _⟩ = s
  rw [hlog, hnil, List.length_nil, Nat.zero_sub, Nat.max_zero, ← hnil]

/-- **A sound pruning** keeps the invariant. -/
theorem Audited.Inv.prune (hsha : ∀ b, (W.sha256 b).length = 32) (h : s.Inv W) {maxEvents : Nat}
    (hs : s.Sound W (.prune maxEvents)) : (s.step W (.prune maxEvents)).Inv W := by
  obtain ⟨hsome, hshared⟩ := hs
  by_cases hnil : s.history.written = []
  · rw [h.prune_nil hnil]
    exact h
  have hmax := hsome.resolve_left hnil
  have hlt := h.begun.resolve_left fun hbegun => hnil hbegun.1
  have hblock := h.block.resolve_left hnil
  refine ⟨fun key hash => ?_, fun n hn => ?_, ?_, h.fits, Or.inr ?_, Or.inr ?_⟩
  · refine ((h.pruned_reads hsha _ hmax).1 key).trans ?_
    rw [h.rows]
    constructor
    · rintro ⟨⟨n, hn, rfl, rfl⟩, hout⟩
      refine ⟨n, Audited.held_prune.mpr ⟨hn, ?_⟩, rfl, rfl⟩
      by_contra hle
      exact hout ⟨n, ⟨hn, Nat.le_of_not_lt hle⟩, rfl⟩
    · rintro ⟨n, hn, rfl, rfl⟩
      obtain ⟨hn, hnew⟩ := Audited.held_prune.mp hn
      refine ⟨⟨n, hn, rfl, rfl⟩, ?_⟩
      rintro ⟨m, ⟨hm, hold⟩, heq⟩
      have := h.key_inj hn hm heq
      omega
  · obtain ⟨hn, hnew⟩ := Audited.held_prune.mp hn
    refine ((h.pruned_reads hsha _ hmax).2.1 _).mpr ⟨h.records n hn, ?_⟩
    rintro ⟨m, ⟨hm, hold⟩, heq⟩
    exact hshared m n hm hold hn hnew heq.symm
  · exact ((h.pruned_reads hsha [] hmax).2.2).trans h.seq
  · show max s.history.pruned (s.history.written.length - maxEvents) < s.history.written.length
    omega
  · show s.history.written.length / 256 =
      (max s.history.pruned (s.history.written.length - maxEvents) + 1) / 256
    have hfloor : s.history.pruned ≤ max s.history.pruned (s.history.written.length - maxEvents) :=
      le_max_left _ _
    have hceil : max s.history.pruned (s.history.written.length - maxEvents) + 1 ≤
        s.history.written.length := by omega
    omega

/-- **A pruning that keeps the feed** is sound. -/
theorem Audited.Inv.sound_prune (hsha : ∀ b, (W.sha256 b).length = 32) (h : s.Inv W)
    {maxEvents : Nat} (hfeed : (s.step W (.prune maxEvents)).Feed W) :
    s.Sound W (.prune maxEvents) := by
  have hmax : s.history.written = [] ∨ maxEvents ≠ 0 := by
    by_contra hnot
    rw [not_or, not_not] at hnot
    obtain ⟨hsome, rfl⟩ := hnot
    have hlt := h.begun.resolve_left fun hbegun => hsome hbegun.1
    have hrow := (h.rows (leBytes 8 s.history.written.length) _).mpr
      ⟨s.history.written.length, ⟨hlt, le_rfl⟩, rfl, rfl⟩
    obtain ⟨n, hn, -⟩ := (hfeed.rows _ _).mp hrow
    obtain ⟨hn, hnew⟩ := Audited.held_prune.mp hn
    have := hn.2
    omega
  refine ⟨hmax, fun m n hm hold hn hnew heq => ?_⟩
  have hzero : maxEvents ≠ 0 := by
    rintro rfl
    have := hn.2
    omega
  have hget := hfeed.records n (Audited.held_prune.mpr ⟨hn, hnew⟩)
  have hread := ((h.pruned_reads hsha _ hzero).2.1 _).mp hget
  exact hread.2 ⟨m, ⟨hm, hold⟩, heq.symm⟩

/-! ## Runs -/

/-- **A call keeps the feed** exactly when it is sound, and then it keeps the invariant. -/
theorem Audited.Inv.feed_iff (hsha : ∀ b, (W.sha256 b).length = 32) (h : s.Inv W) (c : AuditCall) :
    (s.step W c).Feed W ↔ s.Sound W c := by
  cases c with
  | write r => exact ⟨h.sound_write hsha, fun hs => (h.write hs).feed hsha⟩
  | prune maxEvents => exact ⟨h.sound_prune hsha, fun hs => (h.prune hsha hs).feed hsha⟩

theorem Audited.Inv.step (hsha : ∀ b, (W.sha256 b).length = 32) (h : s.Inv W) {c : AuditCall}
    (hs : s.Sound W c) : (s.step W c).Inv W := by
  cases c with
  | write r => exact h.write hs
  | prune maxEvents => exact h.prune hsha hs

end History

/-- **The audit feed**: over the calls of a run from a new database the feed is kept after each call
exactly when each call is sound. -/
theorem audit_feed_iff {W : World} (hsha : ∀ b, (W.sha256 b).length = 32) (calls : List AuditCall) :
    Along (Audited.step W) (fun s c => (s.step W c).Feed W) Audited.new calls ↔
      Along (Audited.step W) (Audited.Sound W) Audited.new calls :=
  along_iff (fun (s : Audited) c (h : s.Inv W) => h.feed_iff hsha c)
    (fun (s : Audited) _ (h : s.Inv W) hs => h.step hsha hs) calls (Audited.Inv.new W)

/-! ## Samples -/

theorem sample_sha256_length (n : Nat) (b : Bytes) : ((World.sample n).sha256 b).length = 32 := by
  show (List.replicate 24 0 ++ beBytes 8 _).length = 32
  rw [List.length_append, List.length_replicate, length_beBytes]

/-- Two records, the first of which is pruned. -/
theorem audit_feed_two :
    Along (Audited.step (World.sample 0)) (fun s c => (s.step (World.sample 0) c).Feed (World.sample 0))
      Audited.new [.write [1], .write [2], .prune 1] := by
  refine (audit_feed_iff (sample_sha256_length 0) _).mpr ⟨⟨Or.inl rfl, ?_⟩, ⟨Or.inr rfl, ?_⟩,
    ⟨Or.inr (by decide), ?_⟩, trivial⟩
  · rintro n ⟨hpos, hlen⟩
    exact absurd hlen (Nat.not_le_of_lt hpos)
  · rintro n ⟨hpos, hlen⟩ heq
    have hone : n = 1 := Nat.le_antisymm hlen hpos
    subst hone
    exact absurd heq (by decide +kernel)
  · intro m n hm hold hn hnew heq
    have hone : m = 1 := Nat.le_antisymm hold hm.1
    have htwo : n = 2 := Nat.le_antisymm hn.2 hnew
    subst hone htwo
    exact absurd heq (by decide +kernel)

/-- The state after records are written over and over. -/
theorem Audited.Inv.writes (W : World) (r : Bytes) : ∀ k < 256,
    ((List.replicate k (AuditCall.write r)).foldl (Audited.step W) Audited.new).Inv W ∧
      ((List.replicate k (AuditCall.write r)).foldl (Audited.step W) Audited.new).history =
        ⟨List.replicate k r, 0⟩ := by
  intro k
  induction k with
  | zero => exact fun _ => ⟨.new W, rfl⟩
  | succ k ih =>
    intro hk
    obtain ⟨hinv, hhistory⟩ := ih (by omega)
    rw [List.replicate_succ', List.foldl_append, List.foldl_cons, List.foldl_nil]
    refine ⟨hinv.write ⟨?_, fun n hn _ => ?_⟩, ?_⟩
    · right
      rw [hhistory, List.length_replicate]
      show (k + 1) / 256 = 1 / 256
      omega
    · rw [hhistory] at hn ⊢
      obtain ⟨hpos, hlen⟩ := hn
      rw [List.length_replicate] at hlen
      unfold AuditHistory.record
      rw [List.getElem?_replicate, if_pos (by change 0 < n at hpos; omega), Option.getD_some]
    · show AuditHistory.mk (_ ++ [r]) _ = _
      rw [hhistory, List.replicate_succ']

/-- What the last call of a run has to be when records are written over and over before it. -/
theorem Audited.sound_last {W : World} (hsha : ∀ b, (W.sha256 b).length = 32) {r : Bytes} {k : Nat}
    (hk : k < 256) {c : AuditCall}
    (h : Along (Audited.step W) (fun s c => (s.step W c).Feed W) Audited.new
      (List.replicate k (.write r) ++ [c])) :
    ∃ s : Audited, s.history.written = List.replicate k r ∧ s.history.pruned = 0 ∧
      s.Sound W c := by
  obtain ⟨hinv, hhistory⟩ := Audited.Inv.writes W r k hk
  exact ⟨_, by rw [hhistory], by rw [hhistory], (hinv.feed_iff hsha c).mp h.last⟩

/-- The feed is lost with the 256th event, and with a record that was written twice and pruned once. -/
theorem audit_feed_fails :
    ¬Along (Audited.step (World.sample 0))
        (fun s c => (s.step (World.sample 0) c).Feed (World.sample 0)) Audited.new
        (List.replicate 255 (.write []) ++ [.write []]) ∧
      ¬Along (Audited.step (World.sample 0))
        (fun s c => (s.step (World.sample 0) c).Feed (World.sample 0)) Audited.new
        (List.replicate 2 (.write []) ++ [.prune 1]) := by
  constructor
  · intro h
    obtain ⟨s, hwritten, hpruned, hroom, -⟩ :=
      Audited.sound_last (sample_sha256_length 0) (by decide) h
    have hlen := congrArg List.length hwritten
    rw [List.length_replicate] at hlen
    rcases hroom with hnone | hsame
    · rw [hnone, List.length_nil] at hlen
      omega
    · rw [hlen, hpruned] at hsame
      omega
  · intro h
    obtain ⟨s, hwritten, hpruned, -, hshared⟩ :=
      Audited.sound_last (sample_sha256_length 0) (by decide) h
    have hhistory : s.history = ⟨List.replicate 2 [], 0⟩ := by
      rw [← hwritten, ← hpruned]
    rw [hhistory] at hshared
    exact hshared 1 2 ⟨by decide, by decide⟩ (by decide) ⟨by decide, by decide⟩ (by decide) rfl

end Ledger

end TetCore
