import TetCore.Lib.Utf8
import TetCore.SigStore

/-!
# Searching the published records

`sigs.rs`, `search`: one of the four indexes is read, up to a limit and newest first where it is in the
order of time, and the records it names are filtered, sorted and cut.

* `Stored`: a record has the lengths that the indexes' keys are cut by.
* `Indexes.perm`: what an index's entries name are the records they are of.
* `search_eq`: where no more than `SEARCH_SCAN_MAX` records share a code, a file or a signer, a search
  returns the first records of all that satisfy it.
-/

namespace TetCore.Sigs

open TetCore.Lib

/-- `SEARCH_MAX`. -/
def searchMax : Nat := 50

/-- `SEARCH_SCAN_MAX`. -/
def searchScanMax : Nat := 500

/-- `SigQuery`. -/
structure SigQuery where
  codePrefix : Option Str
  fileSha256 : Option Str
  signer : Option Str
  fromMs : Option Nat
  toMs : Option Nat

/-! ## The search -/

/-- `scan_prefix(p).keys()`. -/
def scanPrefix (index : Tree Bytes Unit) (p : Str) : List Bytes :=
  (index.iter.map Prod.fst).filter fun k => (utf8 p).isPrefixOf k

/-- `range(lo..hi).keys()`. -/
def scanRange (index : Tree Bytes Unit) (lo hi : Bytes) : List Bytes :=
  (index.iter.map Prod.fst).filter fun k => compare lo k != .gt && compare k hi == .lt

/-- `String::from_utf8(k[skip..])`, of those that are text. -/
def named (skip : Nat) (keys : List Bytes) : List Str :=
  keys.filterMap fun k => utf8Decode (k.drop skip)

namespace SigQuery

/-- The filters. -/
def passes (q : SigQuery) (r : StoredRecord) : Bool :=
  q.fileSha256.all (fun f => r.fileSha256 == f) && q.signer.all (fun s => r.signerEd25519 == s) &&
    q.fromMs.all (fun t => decide (t ≤ r.publishedAtMs)) &&
    q.toMs.all (fun t => decide (r.publishedAtMs ≤ t))

/-- The order of what is returned: by time, for a file the earliest first. -/
def inOrder (q : SigQuery) (a b : StoredRecord) : Bool :=
  if q.fileSha256.isSome then decide (a.publishedAtMs ≤ b.publishedAtMs)
  else decide (b.publishedAtMs ≤ a.publishedAtMs)

end SigQuery

namespace SigStore

/-- The records to look at. -/
def hashes (s : SigStore) (q : SigQuery) : List Str :=
  match q.codePrefix, q.fileSha256, q.signer with
  | some c, _, _ => named 10 ((scanPrefix s.byCode c).take searchScanMax)
  | none, some f, _ => named 72 ((scanPrefix s.byFile f).take searchScanMax)
  | none, none, some signer =>
    named 72 ((scanPrefix s.bySigner signer).reverse.take searchScanMax)
  | none, none, none =>
    let lo := beBytes 8 (q.fromMs.getD 0)
    let hi := beBytes 8 (q.toMs.getD u64Max) ++ [0xff]
    named 8 ((scanRange s.byTime lo hi).reverse.take searchMax)

/-- `search`. -/
def search (s : SigStore) (q : SigQuery) : List StoredRecord :=
  ((((s.hashes q).filterMap s.records.get).filter q.passes).mergeSort q.inOrder).take searchMax

end SigStore

/-! ## What a search is for -/

/-- Every criterion that is given is satisfied. -/
def SigQuery.wants (q : SigQuery) (r : StoredRecord) : Bool :=
  q.codePrefix.all (fun c => r.recordSha256.take 10 == c) && q.passes r

/-- Ten digits of a code, 64 of a file and of a signer, and times of 64 bits. -/
structure SigQuery.WellFormed (q : SigQuery) : Prop where
  code : ∀ c, q.codePrefix = some c → byteLen c = 10
  file : ∀ f, q.fileSha256 = some f → byteLen f = 64
  signer : ∀ s, q.signer = some s → byteLen s = 64
  fromMs : ∀ t, q.fromMs = some t → t < 2 ^ 64
  toMs : ∀ t, q.toMs = some t → t < 2 ^ 64

namespace SigStore

/-- All records. -/
def all (s : SigStore) : List StoredRecord := s.records.iter.map Prod.snd

/-- At most `SEARCH_SCAN_MAX` records share a code, a file or a signer. -/
structure Uncrowded (s : SigStore) : Prop where
  code : ∀ c, (s.all.filter fun r => r.recordSha256.take 10 == c).length ≤ searchScanMax
  file : ∀ f, (s.all.filter fun r => r.fileSha256 == f).length ≤ searchScanMax
  signer : ∀ k, (s.all.filter fun r => r.signerEd25519 == k).length ≤ searchScanMax

end SigStore

/-! ## The records of a store -/

/-- The lengths of a record that is stored. -/
structure StoredRecord.Stored (rh : Str) (r : StoredRecord) : Prop where
  name : r.recordSha256 = rh
  digest : ∃ b : Bytes, b.length = 32 ∧ hexEncode b = rh
  file : byteLen r.fileSha256 = 64
  signer : byteLen r.signerEd25519 = 64
  time : r.publishedAtMs < 2 ^ 64

/-- A clock of 64 bits. -/
def SigCall.Timed : SigCall → Prop
  | .publish _ _ nowMs => nowMs < 2 ^ 64
  | .setAnchor _ _ => True

namespace SigStore

/-- Every record has its lengths. -/
def Stored (s : SigStore) : Prop := ∀ rh r, s.records.get rh = some r → r.Stored rh

section Steps

variable {A : Auth} {W : World} {S : SigPrimitives} {parse : Bytes → Option JsValue} {cap : Nat}
  {s : SigStore}

theorem stored_new : new.Stored := by
  intro rh r h
  rw [show new.records.get rh = none from Tree.get_empty rh] at h
  cases h

/-- One row that is written has them. -/
theorem Stored.insert (h : s.Stored) {rh : Str} {r : StoredRecord} (hr : r.Stored rh) {a : Str}
    {r' : StoredRecord} (hget : (s.records.insert rh r).get a = some r') : r'.Stored a := by
  rw [Tree.get_insert] at hget
  by_cases hsame : rh = a
  · rw [if_pos hsame, Option.some.injEq] at hget
    subst hget hsame
    exact hr
  · rw [if_neg hsame] at hget
    exact h a r' hget

theorem Stored.step (hsha : ∀ b, (W.sha256 b).length = 32) (h : s.Stored) (c : SigCall)
    (htimed : c.Timed) : (s.step A W S parse cap c).Stored := by
  cases c with
  | publish bytes consent nowMs =>
    rw [SigStore.step]
    rcases publish_cases A W S parse cap s bytes consent nowMs with
      ⟨r, hadmits, -, hpublish⟩ | ⟨hsame, -⟩
    · rw [hpublish]
      obtain ⟨-, -, hfile, hsigner, -, -⟩ := hadmits.spec hsha
      obtain ⟨file, signer, -, -, -, -, rfl⟩ := hadmits
      intro a r' hget
      exact h.insert ⟨rfl, ⟨W.sha256 bytes, hsha bytes, rfl⟩, hfile, hsigner, htimed⟩ hget
    · rwa [hsame]
  | setAnchor recordSha256 anchor =>
    rw [SigStore.step]
    rcases setAnchor_cases (s := s) recordSha256 anchor with
      ⟨-, hsame⟩ | ⟨r, hget, ⟨a, -, hkept⟩ | ⟨-, hset⟩⟩
    · rwa [hsame]
    · rwa [hkept]
    · rw [hset]
      obtain ⟨hname, hdigest, hfile, hsigner, htime⟩ := h recordSha256 r hget
      have hr : StoredRecord.Stored recordSha256 { r with anchor := some anchor } :=
        ⟨hname, hdigest, hfile, hsigner, htime⟩
      intro a r' hget'
      exact h.insert hr hget'

/-- **After any run**, the books are kept and every record has its lengths. -/
theorem run_stored (hsha : ∀ b, (W.sha256 b).length = 32) : ∀ (calls : List SigCall) {s : SigStore},
    s.Inv cap → s.Stored → (∀ c ∈ calls, c.Timed) →
    (calls.foldl (SigStore.step A W S parse cap) s).Inv cap ∧
      (calls.foldl (SigStore.step A W S parse cap) s).Stored
  | [], _, hinv, hstored, _ => ⟨hinv, hstored⟩
  | c :: calls, _, hinv, hstored, htimed =>
    run_stored hsha calls (hinv.step hsha c).1
      (hstored.step hsha c (htimed c List.mem_cons_self))
      fun c' hc' => htimed c' (List.mem_cons_of_mem _ hc')

end Steps

/-! ## Reading an index -/

section Reads

variable {s : SigStore} {cap : Nat}

/-- The record that an entry names. -/
def reads (s : SigStore) (skip : Nat) (k : Bytes) : Option StoredRecord :=
  (utf8Decode (k.drop skip)).bind s.records.get

theorem filterMap_named (s : SigStore) (skip : Nat) (keys : List Bytes) :
    (named skip keys).filterMap s.records.get = keys.filterMap (s.reads skip) := by
  rw [named, List.filterMap_filterMap]
  rfl

variable {index : Tree Bytes Unit} {skip : Nat} {entry : Str → StoredRecord → Bytes}

/-- An entry names the record it is of. -/
theorem Indexes.reads (h : s.Indexes index skip entry) (rh : Str) (r : StoredRecord)
    (hget : s.records.get rh = some r) : s.reads skip (entry rh r) = some r := by
  rw [SigStore.reads, (h.entry_mem hget).2, utf8Decode_utf8, Option.bind_some, hget]

/-- **The entries that satisfy `p`** name the records that satisfy `w`, where `p` of an entry is `w` of
its record. -/
theorem Indexes.perm (h : s.Indexes index skip entry) {p : Bytes → Bool} {w : StoredRecord → Bool}
    (hpw : ∀ rh r, s.records.get rh = some r → p (entry rh r) = w r) :
    (((index.iter.map Prod.fst).filter p).filterMap (s.reads skip)).Perm (s.all.filter w) :=
  h.scan_perm (fun _ _ heq => utf8_injective heq) h.reads hpw

/-- As many entries as records. -/
theorem Indexes.length (h : s.Indexes index skip entry) {p : Bytes → Bool} {w : StoredRecord → Bool}
    (hpw : ∀ rh r, s.records.get rh = some r → p (entry rh r) = w r) :
    ((index.iter.map Prod.fst).filter p).length = (s.all.filter w).length := by
  have hperm := ((h.iter_perm fun _ _ heq => utf8_injective heq).filter p).length_eq
  rw [hperm, all, List.filter_map, List.filter_map, List.length_map, List.length_map]
  refine congrArg List.length (List.filter_congr ?_)
  rintro ⟨rh, r⟩ hmem
  exact hpw rh r (Tree.mem_iter.mp hmem)

/-- A key of the index is the entry of the record that it names. -/
theorem Indexes.reads_key (h : s.Indexes index skip entry) {k : Bytes} (hk : index.get k = some ()) :
    ∃ rh r, s.records.get rh = some r ∧ entry rh r = k ∧ s.reads skip k = some r := by
  obtain ⟨rh, r, hget, rfl⟩ := h.get_iff.mp hk
  exact ⟨rh, r, hget, rfl, h.reads rh r hget⟩

/-- A scan that is not cut names the records that satisfy `w`. -/
theorem Indexes.scan (h : s.Indexes index skip entry) {p : Bytes → Bool} {w : StoredRecord → Bool}
    (hpw : ∀ rh r, s.records.get rh = some r → p (entry rh r) = w r)
    (hfew : (s.all.filter w).length ≤ searchScanMax) {keys : List Bytes}
    (hkeys : keys.Perm ((index.iter.map Prod.fst).filter p)) :
    ((named skip (keys.take searchScanMax)).filterMap s.records.get).Perm (s.all.filter w) := by
  have hall : keys.take searchScanMax = keys := by
    rw [List.take_of_length_le]
    rwa [hkeys.length_eq, h.length hpw]
  rw [hall, filterMap_named]
  exact (hkeys.filterMap _).trans (h.perm hpw)

theorem Stored.codePrefix (h : s.Stored) {rh : Str} {r : StoredRecord}
    (hget : s.records.get rh = some r) {c : Str} (hc : byteLen c = 10) :
    (utf8 c).isPrefixOf (r.codeEntry rh) = (r.recordSha256.take 10 == c) := by
  obtain ⟨hname, ⟨b, hb, hdigest⟩, -, -, -⟩ := h rh r hget
  rw [StoredRecord.codeEntry, utf8_append, hname]
  refine isPrefixOf_utf8_append _ (hc.trans ?_)
  rw [← hdigest]
  exact (length_take_hexEncode hb).symm

theorem Stored.filePrefix (h : s.Stored) {rh : Str} {r : StoredRecord}
    (hget : s.records.get rh = some r) {f : Str} (hf : byteLen f = 64) :
    (utf8 f).isPrefixOf (r.fileEntry rh) = (r.fileSha256 == f) :=
  isPrefixOf_utf8_append _ (hf.trans (h rh r hget).file.symm)

theorem Stored.signerPrefix (h : s.Stored) {rh : Str} {r : StoredRecord}
    (hget : s.records.get rh = some r) {k : Str} (hk : byteLen k = 64) :
    (utf8 k).isPrefixOf (r.signerEntry rh) = (r.signerEd25519 == k) :=
  isPrefixOf_utf8_append _ (hk.trans (h rh r hget).signer.symm)

/-- The digits of a digest come before `0xff`. -/
theorem Stored.compare_name (h : s.Stored) {rh : Str} {r : StoredRecord}
    (hget : s.records.get rh = some r) : compare (utf8 rh) [0xff] = .lt := by
  obtain ⟨-, ⟨b, hb, rfl⟩, -, -, -⟩ := h rh r hget
  have hdigit : ∀ n < 16, compare (String.utf8EncodeChar (hexDigit n)) [0xff] = .lt := by decide
  cases b with
  | nil => cases hb
  | cons x b =>
    have hx : x.toNat / 16 < 16 := by
      have := x.toNat_lt
      omega
    exact compare_append_of_lt (hexDigit_ascii _ hx) (hdigit _ hx) _ []

/-- The range of keys is the range of times. -/
theorem Stored.timeRange (h : s.Stored) {rh : Str} {r : StoredRecord}
    (hget : s.records.get rh = some r) {lo hi : Nat} (hlo : lo < 2 ^ 64) (hhi : hi < 2 ^ 64) :
    (compare (beBytes 8 lo) (r.timeEntry rh) != .gt &&
        compare (r.timeEntry rh) (beBytes 8 hi ++ [0xff]) == .lt) =
      (decide (lo ≤ r.publishedAtMs) && decide (r.publishedAtMs ≤ hi)) := by
  have htime := (h rh r hget).time
  have hbefore := compare_beBytes_append (n := 8) hlo htime [] (utf8 rh)
  have hafter := compare_beBytes_append (n := 8) htime hhi (utf8 rh) [0xff]
  rw [List.append_nil] at hbefore
  rw [StoredRecord.timeEntry, hbefore, hafter, h.compare_name hget]
  have hnil : compare [] (utf8 rh) ≠ .gt := Ordering.isLE_iff_ne_gt.mp List.isLE_compare_nil_left
  congr 1
  · rw [Bool.eq_iff_iff, bne_iff_ne, decide_eq_true_eq, ne_eq, Ordering.then_eq_gt, Nat.compare_eq_gt]
    constructor
    · intro hle
      exact Nat.le_of_not_lt fun hlt => hle (Or.inl hlt)
    · rintro hle (hgt | ⟨-, hgt⟩)
      · exact absurd hle (Nat.not_le_of_lt hgt)
      · exact hnil hgt
  · rw [beq_eq_decide, decide_eq_decide, Ordering.then_eq_lt, Nat.compare_eq_lt, Nat.compare_eq_eq]
    constructor
    · rintro (hlt | ⟨heq, -⟩)
      · exact hlt.le
      · exact heq.le
    · intro hle
      rcases Nat.lt_or_eq_of_le hle with hlt | heq
      · exact Or.inl hlt
      · exact Or.inr ⟨heq, rfl⟩

/-- The newest entries name the newest records. -/
theorem Inv.newest (h : s.Inv cap) (hstored : s.Stored) {lo hi : Nat} (hlo : lo < 2 ^ 64)
    (hhi : hi < 2 ^ 64) :
    let keys := (scanRange s.byTime (beBytes 8 lo) (beBytes 8 hi ++ [0xff])).reverse
    let rows := keys.filterMap (s.reads 8)
    rows.Perm (s.all.filter fun r => decide (lo ≤ r.publishedAtMs) && decide (r.publishedAtMs ≤ hi)) ∧
      rows.Pairwise (fun a b => b.publishedAtMs ≤ a.publishedAtMs) ∧
      (named 8 (keys.take searchMax)).filterMap s.records.get = rows.take searchMax := by
  intro keys rows
  have hkey : ∀ k ∈ keys, s.byTime.get k = some () := by
    intro k hk
    obtain ⟨⟨k', u⟩, hmem, rfl⟩ :=
      List.mem_map.mp (List.mem_of_mem_filter (List.mem_reverse.mp hk))
    exact Tree.mem_iter.mp hmem
  refine ⟨?_, ?_, ?_⟩
  · exact ((List.reverse_perm _).filterMap _).trans
      (h.times.perm fun rh r hget => hstored.timeRange hget hlo hhi)
  · refine List.pairwise_filterMap.mpr ?_
    have hsorted : keys.Pairwise fun a b => compare b a = .lt := by
      refine List.pairwise_reverse.mpr (List.Pairwise.filter _ ?_)
      exact List.Pairwise.map Prod.fst (fun _ _ hab => hab) s.byTime.iter_sorted
    refine (List.Pairwise.and_mem.mp hsorted).imp ?_
    rintro k k' ⟨hk, hk', hlt⟩ r hr r' hr'
    obtain ⟨rh, r₀, hget, rfl, hread⟩ := h.times.reads_key (hkey k hk)
    obtain ⟨rh', r₀', hget', rfl, hread'⟩ := h.times.reads_key (hkey k' hk')
    obtain rfl := Option.some.inj (hread.symm.trans hr)
    obtain rfl := Option.some.inj (hread'.symm.trans hr')
    rw [StoredRecord.timeEntry, StoredRecord.timeEntry,
      compare_beBytes_append (n := 8) (hstored rh' r₀' hget').time (hstored rh r₀ hget).time,
      Ordering.then_eq_lt, Nat.compare_eq_lt, Nat.compare_eq_eq] at hlt
    rcases hlt with hlt | ⟨heq, -⟩
    · exact hlt.le
    · exact heq.le
  · rw [filterMap_named]
    refine filterMap_take fun k hk => ?_
    obtain ⟨rh, r, -, -, hread⟩ := h.times.reads_key (hkey k hk)
    exact ⟨r, hread⟩

end Reads

/-! ## The search -/

variable {s : SigStore} {cap : Nat} {q : SigQuery}

/-- **A scan that is not cut** finds what is wanted. -/
theorem Inv.scanned (h : s.Inv cap) (hstored : s.Stored) (hq : q.WellFormed)
    (huncrowded : s.Uncrowded)
    (hgiven : q.codePrefix.isSome ∨ q.fileSha256.isSome ∨ q.signer.isSome) :
    (((s.hashes q).filterMap s.records.get).filter q.passes).Perm (s.all.filter q.wants) := by
  -- what a scan has found by `w` is filtered again
  have hboth : ∀ {found : List StoredRecord} {w : StoredRecord → Bool},
      found.Perm (s.all.filter w) → (∀ r, (q.passes r && w r) = q.wants r) →
        (found.filter q.passes).Perm (s.all.filter q.wants) := by
    intro found w hfound hw
    refine (hfound.filter q.passes).trans (List.Perm.of_eq ?_)
    rw [List.filter_filter]
    exact List.filter_congr fun r _ => hw r
  unfold hashes
  cases hcode : q.codePrefix with
  | some c =>
    refine hboth (h.codes.scan (fun rh r hget => hstored.codePrefix hget (hq.code c hcode))
      (huncrowded.code c) (List.Perm.refl _)) fun r => ?_
    rw [SigQuery.wants, hcode, Option.all_some, Bool.and_comm]
  | none =>
    have hwants : ∀ r, q.wants r = q.passes r := by
      intro r
      rw [SigQuery.wants, hcode, Option.all_none, Bool.true_and]
    cases hfile : q.fileSha256 with
    | some f =>
      refine hboth (h.files.scan (fun rh r hget => hstored.filePrefix hget (hq.file f hfile))
        (huncrowded.file f) (List.Perm.refl _)) fun r => ?_
      rw [hwants, SigQuery.passes, hfile, Option.all_some]
      cases r.fileSha256 == f with
      | true => rw [Bool.and_true]
      | false => simp only [Bool.and_false, Bool.false_and]
    | none =>
      cases hsigner : q.signer with
      | some k =>
        refine hboth (h.signers.scan (fun rh r hget => hstored.signerPrefix hget (hq.signer k hsigner))
          (huncrowded.signer k) (List.reverse_perm _)) fun r => ?_
        rw [hwants, SigQuery.passes, hsigner, Option.all_some]
        cases r.signerEd25519 == k with
        | true => rw [Bool.and_true]
        | false => simp only [Bool.and_false, Bool.false_and]
      | none =>
        rw [hcode, hfile, hsigner] at hgiven
        rcases hgiven with hgiven | hgiven | hgiven <;> cases hgiven

/-- **A search by date alone** reads the newest of what is wanted. -/
theorem Inv.dated (h : s.Inv cap) (hstored : s.Stored) (hq : q.WellFormed)
    (hcode : q.codePrefix = none) (hfile : q.fileSha256 = none) (hsigner : q.signer = none) :
    ∃ rows : List StoredRecord, rows.Perm (s.all.filter q.wants) ∧
      rows.Pairwise (fun a b => q.inOrder a b) ∧
      ((s.hashes q).filterMap s.records.get).filter q.passes = rows.take searchMax := by
  have hlo : q.fromMs.getD 0 < 2 ^ 64 := by
    cases hfrom : q.fromMs with
    | none => exact Nat.two_pow_pos 64
    | some t => exact hq.fromMs t hfrom
  have hhi : q.toMs.getD u64Max < 2 ^ 64 := by
    cases hto : q.toMs with
    | none => exact Nat.sub_lt (Nat.two_pow_pos 64) Nat.one_pos
    | some t => exact hq.toMs t hto
  obtain ⟨hperm, hsorted, hread⟩ := h.newest hstored hlo hhi
  -- the bounds that were not given bound nothing
  have hrange : ∀ r ∈ s.all, (decide (q.fromMs.getD 0 ≤ r.publishedAtMs) &&
      decide (r.publishedAtMs ≤ q.toMs.getD u64Max)) = q.passes r := by
    intro r hr
    obtain ⟨⟨rh, r⟩, hmem, rfl⟩ := List.mem_map.mp hr
    have htime := (hstored rh r (Tree.mem_iter.mp hmem)).time
    rw [SigQuery.passes, hfile, hsigner, Option.all_none, Option.all_none, Bool.true_and,
      Bool.true_and]
    congr 1
    · cases q.fromMs with
      | none => exact decide_eq_true (Nat.zero_le _)
      | some t => rfl
    · cases q.toMs with
      | none => exact decide_eq_true (Nat.le_sub_one_of_lt htime)
      | some t => rfl
  have hwants : ∀ r, q.wants r = q.passes r := by
    intro r
    rw [SigQuery.wants, hcode, Option.all_none, Bool.true_and]
  refine ⟨_, hperm.trans (List.Perm.of_eq (List.filter_congr fun r hr => ?_)), ?_, ?_⟩
  · rw [hwants, hrange r hr]
  · refine hsorted.imp fun {a b} hle => ?_
    rw [SigQuery.inOrder, hfile, if_neg (by decide)]
    exact decide_eq_true hle
  · unfold hashes
    rw [hcode, hfile, hsigner]
    simp only
    rw [hread, List.filter_eq_self]
    intro r hr
    have hmem := List.mem_filter.mp (hperm.mem_iff.mp (List.mem_of_mem_take hr))
    rw [← hrange r hmem.1]
    exact hmem.2

end SigStore

section Order

variable (q : SigQuery)

theorem SigQuery.inOrder_trans (a b c : StoredRecord) (hab : q.inOrder a b = true)
    (hbc : q.inOrder b c = true) : q.inOrder a c = true := by
  unfold SigQuery.inOrder at *
  by_cases hfile : q.fileSha256.isSome = true
  · rw [if_pos hfile, decide_eq_true_eq] at *
    exact hab.trans hbc
  · rw [if_neg hfile, decide_eq_true_eq] at *
    exact hbc.trans hab

theorem SigQuery.inOrder_total (a b : StoredRecord) : (q.inOrder a b || q.inOrder b a) = true := by
  unfold SigQuery.inOrder
  rw [Bool.or_eq_true]
  by_cases hfile : q.fileSha256.isSome = true
  · rw [if_pos hfile, if_pos hfile, decide_eq_true_eq, decide_eq_true_eq]
    exact Nat.le_total _ _
  · rw [if_neg hfile, if_neg hfile, decide_eq_true_eq, decide_eq_true_eq]
    exact Nat.le_total _ _

end Order

/-- **A search is the plain filter.** After any run, where no more than `SEARCH_SCAN_MAX` records share a
code, a file or a signer, it returns the first `SEARCH_MAX` of all the records that satisfy every
criterion, in the order of time: the earliest first for a file, else the newest first. -/
theorem search_eq {A : Auth} {W : World} {S : SigPrimitives} {parse : Bytes → Option JsValue}
    (hsha : ∀ b, (W.sha256 b).length = 32) (cap : Nat) (calls : List SigCall)
    (htimed : ∀ c ∈ calls, c.Timed) (q : SigQuery) (hq : q.WellFormed) :
    let s := calls.foldl (SigStore.step A W S parse cap) SigStore.new
    s.Uncrowded → ∃ ordered : List StoredRecord, ordered.Perm (s.all.filter q.wants) ∧
      ordered.Pairwise (fun a b => if q.fileSha256.isSome then a.publishedAtMs ≤ b.publishedAtMs
        else b.publishedAtMs ≤ a.publishedAtMs) ∧ s.search q = ordered.take searchMax := by
  intro s huncrowded
  obtain ⟨hinv, hstored⟩ : s.Inv cap ∧ s.Stored :=
    SigStore.run_stored hsha calls (SigStore.inv_new cap) SigStore.stored_new htimed
  have horder : ∀ {l : List StoredRecord}, l.Pairwise (fun a b => q.inOrder a b = true) →
      l.Pairwise fun a b => if q.fileSha256.isSome then a.publishedAtMs ≤ b.publishedAtMs
        else b.publishedAtMs ≤ a.publishedAtMs := by
    intro l hl
    refine hl.imp fun {a b} hab => ?_
    unfold SigQuery.inOrder at hab
    by_cases hfile : q.fileSha256.isSome = true
    · rw [if_pos hfile] at hab ⊢
      exact of_decide_eq_true hab
    · rw [if_neg hfile] at hab ⊢
      exact of_decide_eq_true hab
  by_cases hgiven : q.codePrefix.isSome ∨ q.fileSha256.isSome ∨ q.signer.isSome
  · refine ⟨_, (List.mergeSort_perm _ _).trans (hinv.scanned hstored hq huncrowded hgiven), ?_, rfl⟩
    exact horder (List.pairwise_mergeSort q.inOrder_trans q.inOrder_total _)
  · simp only [not_or, Option.not_isSome_iff_eq_none] at hgiven
    obtain ⟨rows, hperm, hsorted, hfound⟩ :=
      hinv.dated hstored hq hgiven.1 hgiven.2.1 hgiven.2.2
    refine ⟨rows, hperm, horder hsorted, ?_⟩
    rw [SigStore.search, hfound, List.mergeSort_of_pairwise (hsorted.sublist (List.take_sublist _ _)),
      List.take_take, Nat.min_self]

/-- One record is published, and searched for by its signer. -/
theorem search_eq_one :
    let s := [SigCall.publish [0] [1] 5].foldl
      (SigStore.step Sample.auth (World.sample 0) Sample.takesAll Sample.sealedParse
        defaultTotalBytes) SigStore.new
    let q : SigQuery := ⟨none, none, some (Sample.wallet 'a'), some 5, none⟩
    s.Uncrowded ∧ ∃ ordered : List StoredRecord, ordered.Perm (s.all.filter q.wants) ∧
      ordered.Pairwise (fun a b => if q.fileSha256.isSome then a.publishedAtMs ≤ b.publishedAtMs
        else b.publishedAtMs ≤ a.publishedAtMs) ∧ s.search q = ordered.take searchMax := by
  intro s q
  have hall : s.all.length ≤ searchScanMax := by
    have hs : s = SigStore.new.store (Sample.sealedRow 5) := congrArg Prod.snd Sample.sealed_publish
    have hlen := Tree.length_insert_le SigStore.new.records (Sample.sealedRow 5).recordSha256
      (Sample.sealedRow 5)
    rw [hs, SigStore.all, List.length_map]
    exact hlen.trans (by decide)
  have huncrowded : s.Uncrowded :=
    ⟨fun _ => (List.length_filter_le _ _).trans hall, fun _ => (List.length_filter_le _ _).trans hall,
      fun _ => (List.length_filter_le _ _).trans hall⟩
  refine ⟨huncrowded, search_eq (Ledger.sample_sha256_length 0) defaultTotalBytes _ ?_ q
    ⟨?_, ?_, ?_, ?_, ?_⟩ huncrowded⟩
  · intro c hc
    obtain rfl := List.mem_singleton.mp hc
    exact (by decide : (5 : Nat) < 2 ^ 64)
  · intro c hc
    cases hc
  · intro f hf
    cases hf
  · intro k hk
    cases hk
    decide +kernel
  · intro t ht
    cases ht
    decide
  · intro t ht
    cases ht

end TetCore.Sigs
