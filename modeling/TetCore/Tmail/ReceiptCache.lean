import Mathlib.Data.List.Dedup
import TetCore.Ledger.Sample
import TetCore.Lib.Along
import TetCore.Lib.Encoding

/-!
# The receipt cache

Model of `put_anon_receipt` and `get_anon_receipt` (`tmail/store.rs`). Receipts are kept under their
own SHA-256, in the order of these hashes; nothing says how old one is. A deposit into a full cache
first drops the receipt with the smallest hash, also when it repeats one that is kept.

* `KeepsNewest`: at most the cap is kept, and each receipt until `cap - 1` others came after it.
* `Sound`: what a deposit needs: it drops and overwrites no newer receipt than that.
* `receipt_cache_iff`: a run keeps the newest after each of its deposits exactly when each is `Sound`.
* `receipt_cache_smallestHash`: a receipt dropped by the second deposit after its own.
-/

namespace TetCore.Tmail

open TetCore.Lib

/-! ## The cache -/

/-- `env_usize`, from the number the variable holds. -/
def envUsize (setting : Option Nat) (default : Nat) : Nat :=
  (setting.filter fun v => decide (0 < v)).getD default

/-- `anon_receipt_cache_cap`, with `DEFAULT_ANON_RECEIPT_CACHE`. -/
def anonReceiptCacheCap (setting : Option Nat) : Nat := envUsize setting 2000

/-- The part of the store that keeps receipts. -/
structure ReceiptCache where
  anonReceipts : Tree Str Bytes

namespace ReceiptCache

/-- `sled::Tree::first`. -/
def firstKey (s : ReceiptCache) : Option Str := s.anonReceipts.iter.head?.map Prod.fst

/-- The receipt with the smallest hash is dropped when the cache is full. -/
def makeRoom (cap : Nat) (s : ReceiptCache) : Tree Str Bytes :=
  if cap ≤ s.anonReceipts.iter.length then
    match s.firstKey with
    | none => s.anonReceipts
    | some k => s.anonReceipts.remove k
  else s.anonReceipts

/-- `put_anon_receipt`. -/
def putAnonReceipt (W : World) (cap : Nat) (expectedSha256Hex : Str) (bytes : Bytes)
    (s : ReceiptCache) : Bool × ReceiptCache :=
  let actual := W.sha256Hex bytes
  if eqIgnoreAsciiCase actual (trim expectedSha256Hex) then
    (true, ⟨(s.makeRoom cap).insert actual bytes⟩)
  else (false, s)

/-- `get_anon_receipt`. -/
def getAnonReceipt (s : ReceiptCache) (sha256Hex : Str) : Option Bytes :=
  s.anonReceipts.get (trimLower sha256Hex)

end ReceiptCache

/-! ## Runs -/

/-- A receipt that is handed in under a hash. -/
structure Deposit where
  expectedSha256Hex : Str
  bytes : Bytes

/-- The cache, and the receipts that were taken, newest first. -/
structure ReceiptTrace where
  cache : ReceiptCache
  taken : List Bytes

/-- How many other receipts came after the last deposit of `r`. -/
def othersSince (r : Bytes) (taken : List Bytes) : Nat :=
  (taken.takeWhile fun b => b != r).dedup.length

namespace ReceiptTrace

/-- A new store. -/
def new : ReceiptTrace := ⟨⟨.empty⟩, []⟩

/-- The deposit is under its own hash. -/
def Matches (W : World) (d : Deposit) : Prop :=
  eqIgnoreAsciiCase (W.sha256Hex d.bytes) (trim d.expectedSha256Hex) = true

instance (W : World) (d : Deposit) : Decidable (Matches W d) := inferInstanceAs (Decidable (_ = _))

/-- The cache after one deposit. -/
def step (W : World) (cap : Nat) (s : ReceiptTrace) (d : Deposit) : ReceiptTrace :=
  let r := s.cache.putAnonReceipt W cap d.expectedSha256Hex d.bytes
  ⟨r.2, if r.1 then d.bytes :: s.taken else s.taken⟩

/-- **The newest are kept**: not more than the cap, and each receipt, under any spelling of its hash,
until `cap - 1` others came after it. -/
structure KeepsNewest (W : World) (cap : Nat) (s : ReceiptTrace) : Prop where
  size : s.cache.anonReceipts.iter.length ≤ cap
  newest : ∀ r ∈ s.taken, othersSince r s.taken + 1 < cap → ∀ sha256Hex,
    trimLower sha256Hex = W.sha256Hex r → s.cache.getAnonReceipt sha256Hex = some r

/-- What a deposit needs: no receipt that is to stay has the smallest hash of a full cache, or the
hash of the new one. -/
def Sound (W : World) (cap : Nat) (s : ReceiptTrace) (d : Deposit) : Prop :=
  Matches W d → ∀ r ∈ s.taken, r ≠ d.bytes → othersSince r (d.bytes :: s.taken) + 1 < cap →
    W.sha256Hex r ≠ W.sha256Hex d.bytes ∧
      (cap ≤ s.cache.anonReceipts.iter.length → s.cache.firstKey ≠ some (W.sha256Hex r))

end ReceiptTrace

/-! ## One deposit -/

section Deposits

variable {W : World} {cap : Nat} {s : ReceiptTrace} {d : Deposit}

theorem ReceiptTrace.step_of_matches (h : Matches W d) : s.step W cap d =
    ⟨⟨(s.cache.makeRoom cap).insert (W.sha256Hex d.bytes) d.bytes⟩, d.bytes :: s.taken⟩ := by
  have hput : s.cache.putAnonReceipt W cap d.expectedSha256Hex d.bytes =
      (true, ⟨(s.cache.makeRoom cap).insert (W.sha256Hex d.bytes) d.bytes⟩) := if_pos h
  rw [step, hput]
  rfl

theorem ReceiptTrace.step_of_mismatch (h : ¬Matches W d) : s.step W cap d = s := by
  have hput : s.cache.putAnonReceipt W cap d.expectedSha256Hex d.bytes = (false, s.cache) :=
    if_neg h
  rw [step, hput]
  rfl

/-- What is left when room is made. -/
theorem ReceiptCache.get_makeRoom (s : ReceiptCache) (k : Str) : (s.makeRoom cap).get k =
    if cap ≤ s.anonReceipts.iter.length ∧ s.firstKey = some k then none
    else s.anonReceipts.get k := by
  unfold makeRoom
  by_cases hfull : cap ≤ s.anonReceipts.iter.length
  · rw [if_pos hfull]
    cases hfirst : s.firstKey with
    | none => simp
    | some a =>
      simp only [Tree.get_remove, Option.some.injEq, hfull, true_and]
  · rw [if_neg hfull, if_neg fun h => hfull h.1]

/-- Room is made for one more. -/
theorem ReceiptCache.length_makeRoom (hcap : 0 < cap) {s : ReceiptCache}
    (h : s.anonReceipts.iter.length ≤ cap) : (s.makeRoom cap).iter.length + 1 ≤ cap := by
  unfold makeRoom
  by_cases hfull : cap ≤ s.anonReceipts.iter.length
  · rw [if_pos hfull]
    obtain ⟨row, rest, hrows⟩ := List.exists_cons_of_length_pos (Nat.lt_of_lt_of_le hcap hfull)
    have hfirst : s.firstKey = some row.1 := by rw [firstKey, hrows]; rfl
    have hget : s.anonReceipts.get row.1 = some row.2 :=
      Tree.mem_iter.mp (by rw [hrows]; exact List.mem_cons_self)
    have hlen := Tree.iter_length_remove hget
    simp only [hfirst]
    omega
  · rw [if_neg hfull]
    omega

/-- One more deposit makes no receipt newer. -/
theorem othersSince_le {r x : Bytes} (h : r ≠ x) (taken : List Bytes) :
    othersSince r taken ≤ othersSince r (x :: taken) := by
  have hmore : (x :: taken).takeWhile (fun b => b != r) = x :: taken.takeWhile fun b => b != r :=
    List.takeWhile_cons_of_pos (bne_iff_ne.mpr h.symm)
  unfold othersSince
  rw [hmore]
  exact (List.subperm_of_subset (List.nodup_dedup _) fun b hb =>
    List.mem_dedup.mpr (List.mem_cons_of_mem _ (List.mem_dedup.mp hb))).length_le

theorem ReceiptTrace.not_keepsNewest {r : Bytes} (hmem : r ∈ s.taken)
    (hfew : othersSince r s.taken + 1 < cap)
    (hnone : s.cache.getAnonReceipt (W.sha256Hex r) = none) : ¬s.KeepsNewest W cap := by
  intro h
  have hread := h.newest r hmem hfew (W.sha256Hex r) (trimLower_hexEncode _)
  rw [hnone] at hread
  cases hread

/-- **A deposit keeps the newest** exactly when it is sound. -/
theorem ReceiptTrace.KeepsNewest.step_iff (hcap : 0 < cap) (h : s.KeepsNewest W cap) (d : Deposit) :
    (s.step W cap d).KeepsNewest W cap ↔ s.Sound W cap d := by
  by_cases hmatch : Matches W d
  swap
  · rw [step_of_mismatch hmatch]
    exact iff_of_true h fun hm => absurd hm hmatch
  have hget : ∀ r, ((s.cache.makeRoom cap).insert (W.sha256Hex d.bytes) d.bytes).get
      (W.sha256Hex r) = if W.sha256Hex d.bytes = W.sha256Hex r then some d.bytes
        else if cap ≤ s.cache.anonReceipts.iter.length ∧
          s.cache.firstKey = some (W.sha256Hex r) then none
        else s.cache.anonReceipts.get (W.sha256Hex r) := fun r => by
    rw [Tree.get_insert, ReceiptCache.get_makeRoom]
  rw [step_of_matches hmatch]
  constructor
  · intro hkeeps _ r hr hne hfew
    have hread := hkeeps.newest r (List.mem_cons_of_mem _ hr) hfew (W.sha256Hex r)
      (trimLower_hexEncode _)
    unfold ReceiptCache.getAnonReceipt at hread
    rw [show trimLower (W.sha256Hex r) = W.sha256Hex r from trimLower_hexEncode _, hget] at hread
    by_cases hsame : W.sha256Hex d.bytes = W.sha256Hex r
    · rw [if_pos hsame, Option.some.injEq] at hread
      exact absurd hread.symm hne
    · rw [if_neg hsame] at hread
      refine ⟨fun heq => hsame heq.symm, fun hfull hfirst => ?_⟩
      rw [if_pos ⟨hfull, hfirst⟩] at hread
      cases hread
  · intro hsound
    refine ⟨?_, fun r hr hfew sha256Hex hspelled => ?_⟩
    · exact (Tree.length_insert_le _ _ _).trans (ReceiptCache.length_makeRoom hcap h.size)
    · unfold ReceiptCache.getAnonReceipt
      rw [hspelled, hget]
      by_cases hsame : r = d.bytes
      · rw [hsame, if_pos rfl]
      · have hold : r ∈ s.taken := (List.mem_cons.mp hr).resolve_left hsame
        obtain ⟨hhash, hstays⟩ := hsound hmatch r hold hsame hfew
        rw [if_neg hhash.symm, if_neg fun hdrop => hstays hdrop.1 hdrop.2]
        have hbefore : othersSince r s.taken + 1 < cap :=
          Nat.lt_of_le_of_lt (Nat.succ_le_succ (othersSince_le hsame _)) hfew
        have hread := h.newest r hold hbefore sha256Hex hspelled
        rwa [ReceiptCache.getAnonReceipt, hspelled] at hread

end Deposits

theorem anonReceiptCacheCap_pos (setting : Option Nat) : 0 < anonReceiptCacheCap setting := by
  unfold anonReceiptCacheCap envUsize
  cases hset : setting.filter fun v => decide (0 < v) with
  | none => exact Nat.zero_lt_succ _
  | some v => exact of_decide_eq_true (Option.filter_eq_some_iff.mp hset).2

/-- **The receipt cache**: over the deposits of a run from a new store the newest are kept after each
deposit exactly when each is sound. -/
theorem receipt_cache_iff (W : World) (setting : Option Nat) (deposits : List Deposit) :
    Along (ReceiptTrace.step W (anonReceiptCacheCap setting))
        (fun s d => (s.step W (anonReceiptCacheCap setting) d).KeepsNewest W
          (anonReceiptCacheCap setting)) ReceiptTrace.new deposits ↔
      Along (ReceiptTrace.step W (anonReceiptCacheCap setting))
        (ReceiptTrace.Sound W (anonReceiptCacheCap setting)) ReceiptTrace.new deposits := by
  have hcap := anonReceiptCacheCap_pos setting
  refine along_iff (fun (s : ReceiptTrace) d (h : s.KeepsNewest W _) => h.step_iff hcap d)
    (fun (s : ReceiptTrace) d (h : s.KeepsNewest W _) hs => (h.step_iff hcap d).mpr hs) deposits ?_
  exact ⟨Nat.zero_le _, fun r hr => absurd hr List.not_mem_nil⟩

/-! ## Samples -/

/-- A receipt under its own hash. -/
def Sample.deposit (bytes : Bytes) : Deposit := ⟨(World.sample 0).sha256Hex bytes, bytes⟩

/-- A cache of three: the receipt `[1]`, which has the smallest hash, is dropped by the next
deposit. -/
theorem receipt_cache_smallestHash :
    ¬Along (ReceiptTrace.step (World.sample 0) (anonReceiptCacheCap (some 3)))
      (fun s d => (s.step (World.sample 0) (anonReceiptCacheCap (some 3)) d).KeepsNewest
        (World.sample 0) (anonReceiptCacheCap (some 3))) ReceiptTrace.new
      ([[2], [3], [1]].map Sample.deposit ++ [Sample.deposit [4]]) := by
  intro h
  let s := (([[2], [3], [1]].map Sample.deposit).foldl
    (ReceiptTrace.step (World.sample 0) (anonReceiptCacheCap (some 3))) ReceiptTrace.new).step
    (World.sample 0) (anonReceiptCacheCap (some 3)) (Sample.deposit [4])
  have hall : [1] ∈ s.taken ∧ othersSince [1] s.taken + 1 < anonReceiptCacheCap (some 3) ∧
      s.cache.getAnonReceipt ((World.sample 0).sha256Hex [1]) = none := by decide +kernel
  exact ReceiptTrace.not_keepsNewest hall.1 hall.2.1 hall.2.2 h.last

end TetCore.Tmail
