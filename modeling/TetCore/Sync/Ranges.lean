import TetCore.Consensus.Canonical
import TetCore.Sync.CatchUp

/-!
# Answering a range request

Model of `build_chain_sync_range_response_with_caps` of `sync.rs`: the canonical blocks of a range of
heights, read one height after another until a cap on their number or on their encoded bytes would
be broken. `encodedLen` is the length of a block's JSON encoding.

Nothing is stored at height 0, so a request from there is answered with no block. A catch-up request
never asks for it (`planCatchUpRangeRequest`).

* `rangeLoop_step`: what one height adds to the answer.
* `range_response`: on a chain with a canonical block at every height up to its own, the answer is a
  run of canonical blocks within the caps that stops early only at a cap.
* `served_of_reaches`: the ledgers that orderly calls reach have such a chain.
-/

namespace TetCore.Sync

open TetCore.Lib

/-- `ChainSyncRangeResponse`. -/
structure ChainSyncRangeResponse where
  fromHeight : Nat
  toHeight : Nat
  blocks : List BlockRecordV1

/-- `ChainSyncRangeRequest::validate`. -/
def ChainSyncRangeRequest.validate (req : ChainSyncRangeRequest) : Bool :=
  decide (req.fromHeight ≤ req.toHeight)

/-- The variables of the loop. -/
structure RangeBatch where
  blocks : List BlockRecordV1
  bytesUsed : Nat
  actualTo : Nat

/-- The loop of `build_chain_sync_range_response_with_caps` over the heights. -/
def rangeLoop (L : Ledger) (encodedLen : BlockRecordV1 → Nat) (maxBlocks maxBytes : UInt64) :
    List Nat → RangeBatch → RangeBatch
  | [], s => s
  | h :: hs, s =>
    if maxBlocks.toNat ≤ s.blocks.length then s
    else
      match L.canonicalBlockIdAtHeight h with
      | none => s
      | some blockId =>
        match L.blockRecordById blockId with
        | none => s
        | some block =>
          if s.blocks ≠ [] ∧ maxBytes.toNat < satAdd s.bytesUsed (encodedLen block) then s
          else
            rangeLoop L encodedLen maxBlocks maxBytes hs
              ⟨s.blocks ++ [block], satAdd s.bytesUsed (encodedLen block), h⟩

/-- `build_chain_sync_range_response_with_caps`. -/
def buildChainSyncRangeResponseWithCaps (L : Ledger) (encodedLen : BlockRecordV1 → Nat)
    (req : ChainSyncRangeRequest) (maxBlocks maxBytes : UInt64) : ChainSyncRangeResponse :=
  let fromHeight := req.fromHeight.toNat
  let toHeight := min req.toHeight.toNat L.blockHeight
  if req.validate = false then ⟨fromHeight, req.toHeight.toNat, []⟩
  else if L.blockHeight < fromHeight then ⟨fromHeight, req.toHeight.toNat, []⟩
  else if toHeight < fromHeight then ⟨fromHeight, req.toHeight.toNat, []⟩
  else
    let s := rangeLoop L encodedLen maxBlocks maxBytes
      (List.range' fromHeight (toHeight + 1 - fromHeight)) ⟨[], 0, fromHeight - 1⟩
    ⟨fromHeight, if s.blocks = [] then fromHeight - 1 else s.actualTo, s.blocks⟩

/-! ## The canonical blocks -/

/-- The canonical block at a height. -/
def canonicalBlockAt (L : Ledger) (height : Nat) : Option BlockRecordV1 :=
  (L.canonicalBlockIdAtHeight height).bind L.blockRecordById

/-- The canonical blocks from one height to another one. -/
def canonicalBlocks (L : Ledger) (lo hi : Nat) : List BlockRecordV1 :=
  (List.range' lo (hi + 1 - lo)).filterMap (canonicalBlockAt L)

/-- The bytes of the encoded blocks. -/
def encodedBytes (encodedLen : BlockRecordV1 → Nat) (blocks : List BlockRecordV1) : Nat :=
  (blocks.map encodedLen).sum

/-- Every height from 1 to the tip has a canonical block, and a canonical block is of the height it
stands at. -/
structure ServedChain (L : Ledger) : Prop where
  stored : ∀ height, 1 ≤ height → height ≤ L.blockHeight → ∃ b, canonicalBlockAt L height = some b
  filed : ∀ height b, canonicalBlockAt L height = some b → b.height = height

/-- What the answer to a request is, up to the height `last`. -/
structure Answers (L : Ledger) (encodedLen : BlockRecordV1 → Nat) (req : ChainSyncRangeRequest)
    (maxBlocks maxBytes : UInt64) (r : ChainSyncRangeResponse) (last : Nat) : Prop where
  within : last ≤ min req.toHeight.toNat L.blockHeight
  blocks : r.blocks = canonicalBlocks L req.fromHeight.toNat last
  nonempty : 1 ≤ req.fromHeight.toNat → req.fromHeight ≤ req.toHeight →
    req.fromHeight.toNat ≤ L.blockHeight → r.blocks ≠ []
  count : r.blocks.length ≤ maxBlocks.toNat
  bytes : r.blocks.length ≠ 1 →
    encodedBytes encodedLen r.blocks ≤ maxBytes.toNat ∨ maxBytes.toNat = u64Max
  stops : 1 ≤ req.fromHeight.toNat →
    req.fromHeight.toNat ≤ min req.toHeight.toNat L.blockHeight →
    last < min req.toHeight.toNat L.blockHeight →
    ∃ next, canonicalBlockAt L (last + 1) = some next ∧
      (maxBlocks.toNat < r.blocks.length + 1 ∨
        maxBytes.toNat < encodedBytes encodedLen r.blocks + encodedLen next)
  toHeight : ∀ b, r.blocks.getLast? = some b → r.toHeight = last ∧ b.height = last

section Loop

variable {L : Ledger} {encodedLen : BlockRecordV1 → Nat} {maxBlocks maxBytes : UInt64}

theorem rangeLoop_cons (h : Nat) (hs : List Nat) (s : RangeBatch) :
    rangeLoop L encodedLen maxBlocks maxBytes (h :: hs) s =
      if maxBlocks.toNat ≤ s.blocks.length then s
      else (canonicalBlockAt L h).elim s fun block =>
        if s.blocks ≠ [] ∧ maxBytes.toNat < satAdd s.bytesUsed (encodedLen block) then s
        else rangeLoop L encodedLen maxBlocks maxBytes hs
          ⟨s.blocks ++ [block], satAdd s.bytesUsed (encodedLen block), h⟩ := by
  rw [rangeLoop, canonicalBlockAt]
  cases L.canonicalBlockIdAtHeight h with
  | none => rfl
  | some id =>
    simp only [Option.bind_some]
    cases L.blockRecordById id with
    | none => rfl
    | some b => rfl

/-- The loop has collected the blocks from `lo` on, and `next` is the height it reads next. -/
structure Collected (L : Ledger) (encodedLen : BlockRecordV1 → Nat) (maxBlocks maxBytes : UInt64)
    (lo next : Nat) (s : RangeBatch) : Prop where
  le : lo ≤ next
  blocks : s.blocks = (List.range' lo (next - lo)).filterMap (canonicalBlockAt L)
  length : s.blocks.length = next - lo
  count : s.blocks.length ≤ maxBlocks.toNat
  used : s.bytesUsed = min (encodedBytes encodedLen s.blocks) u64Max
  bytes : s.blocks.length ≠ 1 → s.bytesUsed ≤ maxBytes.toNat
  last : ∀ b, s.blocks.getLast? = some b →
    canonicalBlockAt L s.actualTo = some b ∧ s.actualTo + 1 = next

/-- Why the loop reads no further height. -/
def Stopped (L : Ledger) (encodedLen : BlockRecordV1 → Nat) (maxBlocks maxBytes : UInt64)
    (next : Nat) (s : RangeBatch) : Prop :=
  canonicalBlockAt L next = none ∨ maxBlocks.toNat ≤ s.blocks.length ∨
    ∃ block, canonicalBlockAt L next = some block ∧ s.blocks ≠ [] ∧
      maxBytes.toNat < satAdd s.bytesUsed (encodedLen block)

theorem encodedBytes_append (blocks : List BlockRecordV1) (block : BlockRecordV1) :
    encodedBytes encodedLen (blocks ++ [block]) =
      encodedBytes encodedLen blocks + encodedLen block := by
  simp [encodedBytes]

theorem satAdd_min (a b : Nat) : satAdd (min a u64Max) b = min (a + b) u64Max := by
  unfold satAdd
  omega

theorem collected_start (L : Ledger) (encodedLen : BlockRecordV1 → Nat)
    (maxBlocks maxBytes : UInt64) (lo : Nat) :
    Collected L encodedLen maxBlocks maxBytes lo lo ⟨[], 0, lo - 1⟩ where
  le := Nat.le_refl lo
  blocks := by rw [Nat.sub_self, List.range'_zero, List.filterMap_nil]
  length := (Nat.sub_self lo).symm
  count := Nat.zero_le _
  used := rfl
  bytes := fun _ => Nat.zero_le _
  last := by
    intro b hb
    cases hb

/-- **One height** whose block breaks no cap. -/
theorem rangeLoop_step {lo next : Nat} {s : RangeBatch} {block : BlockRecordV1}
    (h : Collected L encodedLen maxBlocks maxBytes lo next s)
    (hroom : s.blocks.length < maxBlocks.toNat) (hblock : canonicalBlockAt L next = some block)
    (hbytes : s.blocks ≠ [] → satAdd s.bytesUsed (encodedLen block) ≤ maxBytes.toNat) :
    Collected L encodedLen maxBlocks maxBytes lo (next + 1)
      ⟨s.blocks ++ [block], satAdd s.bytesUsed (encodedLen block), next⟩ where
  le := Nat.le_succ_of_le h.le
  blocks := by
    have hlo := h.le
    have hnext : lo + 1 * (next - lo) = next := by omega
    rw [Nat.succ_sub h.le, List.range'_concat, List.filterMap_append, ← h.blocks, hnext,
      List.filterMap_cons_some hblock, List.filterMap_nil]
  length := by
    have hlo := h.le
    have hlen := h.length
    simp only [List.length_append, List.length_singleton]
    omega
  count := by
    simp only [List.length_append, List.length_singleton]
    exact hroom
  used := by
    simp only
    rw [h.used, satAdd_min, encodedBytes_append]
  bytes := by
    intro hne
    refine hbytes fun hnil => hne ?_
    simp only [hnil, List.nil_append, List.length_singleton]
  last := by
    intro b hb
    simp only [List.getLast?_concat, Option.some.injEq] at hb
    rw [← hb]
    exact ⟨hblock, rfl⟩

/-- **The loop** collects the blocks up to a height where it stops. -/
theorem rangeLoop_collected {lo : Nat} (n : Nat) {next : Nat} {s : RangeBatch}
    (h : Collected L encodedLen maxBlocks maxBytes lo next s) :
    ∃ stop, stop ≤ next + n ∧
      Collected L encodedLen maxBlocks maxBytes lo stop
        (rangeLoop L encodedLen maxBlocks maxBytes (List.range' next n) s) ∧
      (stop < next + n → Stopped L encodedLen maxBlocks maxBytes stop
        (rangeLoop L encodedLen maxBlocks maxBytes (List.range' next n) s)) := by
  induction n generalizing next s with
  | zero => exact ⟨next, Nat.le_refl next, h, fun hlt => absurd hlt (Nat.lt_irrefl next)⟩
  | succ n ih =>
    rw [List.range'_succ, rangeLoop_cons]
    by_cases hroom : maxBlocks.toNat ≤ s.blocks.length
    · rw [if_pos hroom]
      exact ⟨next, Nat.le_add_right _ _, h, fun _ => Or.inr (Or.inl hroom)⟩
    · rw [if_neg hroom]
      cases hblock : canonicalBlockAt L next with
      | none => exact ⟨next, Nat.le_add_right _ _, h, fun _ => Or.inl hblock⟩
      | some block =>
        rw [Option.elim_some]
        by_cases hcap : s.blocks ≠ [] ∧ maxBytes.toNat < satAdd s.bytesUsed (encodedLen block)
        · rw [if_pos hcap]
          exact ⟨next, Nat.le_add_right _ _, h,
            fun _ => Or.inr (Or.inr ⟨block, hblock, hcap.1, hcap.2⟩)⟩
        · rw [if_neg hcap]
          have hstep := rangeLoop_step h (Nat.lt_of_not_le hroom) hblock fun hne =>
            Nat.le_of_not_lt fun hlt => hcap ⟨hne, hlt⟩
          obtain ⟨stop, hle, hcollected, hstopped⟩ := ih hstep
          have hn : next + 1 + n = next + (n + 1) := by omega
          rw [hn] at hle hstopped
          exact ⟨stop, hle, hcollected, hstopped⟩

end Loop

/-! ## The answer -/

variable {L : Ledger}

theorem canonicalBlocks_of_lt {lo hi : Nat} (h : hi < lo) : canonicalBlocks L lo hi = [] := by
  rw [canonicalBlocks, Nat.sub_eq_zero_of_le h, List.range'_zero, List.filterMap_nil]

/-- An answer without a block, to a request that asks for none of the chain. -/
theorem answers_none (encodedLen : BlockRecordV1 → Nat) {req : ChainSyncRangeRequest}
    {maxBlocks maxBytes : UInt64} {r : ChainSyncRangeResponse} (hr : r.blocks = [])
    (hfrom : min req.toHeight.toNat L.blockHeight < req.fromHeight.toNat) :
    Answers L encodedLen req maxBlocks maxBytes r 0 where
  within := Nat.zero_le _
  blocks := by
    rw [hr, canonicalBlocks_of_lt (Nat.zero_lt_of_lt hfrom)]
  nonempty := by
    intro _ hto htip
    rw [UInt64.le_iff_toNat_le] at hto
    omega
  count := by
    rw [hr]
    exact Nat.zero_le _
  bytes := by
    intro _
    rw [hr]
    exact Or.inl (Nat.zero_le _)
  stops := by
    intro _ hle _
    omega
  toHeight := by
    intro b hb
    rw [hr] at hb
    cases hb

section Answer

variable {encodedLen : BlockRecordV1 → Nat} {maxBlocks maxBytes : UInt64}

/-- A height from 1 to the tip stops the loop at a cap only. -/
theorem Stopped.cap (hchain : ServedChain L) {next : Nat} {s : RangeBatch}
    (h : Stopped L encodedLen maxBlocks maxBytes next s) (hlo : 1 ≤ next)
    (hhi : next ≤ L.blockHeight) :
    ∃ block, canonicalBlockAt L next = some block ∧ (maxBlocks.toNat ≤ s.blocks.length ∨
      s.blocks ≠ [] ∧ maxBytes.toNat < satAdd s.bytesUsed (encodedLen block)) := by
  obtain ⟨block, hblock⟩ := hchain.stored next hlo hhi
  refine ⟨block, hblock, ?_⟩
  rcases h with hnone | hcount | ⟨block', hblock', hne, hbytes⟩
  · rw [hblock] at hnone
    cases hnone
  · exact Or.inl hcount
  · rw [hblock, Option.some.injEq] at hblock'
    exact Or.inr ⟨hne, hblock'.symm ▸ hbytes⟩

/-- The loop reads the first height asked for, unless it is 0 and nothing is stored there. -/
theorem Collected.first (hchain : ServedChain L) (hmax : 1 ≤ maxBlocks.toNat) {lo hi stop : Nat}
    {s : RangeBatch} (h : Collected L encodedLen maxBlocks maxBytes lo stop s)
    (hhi : hi ≤ L.blockHeight) (hlo : lo ≤ hi)
    (hstopped : stop < hi + 1 → Stopped L encodedLen maxBlocks maxBytes stop s) :
    lo < stop ∨ lo = 0 ∧ stop = 0 ∧ canonicalBlockAt L 0 = none := by
  rcases Nat.lt_or_eq_of_le h.le with hlt | rfl
  · exact Or.inl hlt
  · have hlen : s.blocks.length = 0 := h.length.trans (Nat.sub_self lo)
    have hnil : s.blocks = [] := List.length_eq_zero_iff.mp hlen
    have hstop := hstopped (Nat.lt_succ_of_le hlo)
    rcases Nat.eq_zero_or_pos lo with rfl | hpos
    · rcases hstop with hnone | hcount | ⟨_, -, hne, -⟩
      · exact Or.inr ⟨rfl, rfl, hnone⟩
      · omega
      · exact absurd hnil hne
    · obtain ⟨_, -, hcount | ⟨hne, -⟩⟩ := hstop.cap hchain hpos (hlo.trans hhi)
      · omega
      · exact absurd hnil hne

theorem Collected.answers_bytes {lo stop : Nat} {s : RangeBatch}
    (h : Collected L encodedLen maxBlocks maxBytes lo stop s) (hlen : s.blocks.length ≠ 1) :
    encodedBytes encodedLen s.blocks ≤ maxBytes.toNat ∨ maxBytes.toNat = u64Max := by
  have hused := h.used
  have hbytes := h.bytes hlen
  have hmax : maxBytes.toNat ≤ u64Max := Nat.le_of_lt_succ maxBytes.toNat_lt
  omega

/-- What the loop has collected answers the request. -/
theorem Collected.answers (hchain : ServedChain L) (hmax : 1 ≤ maxBlocks.toNat)
    {req : ChainSyncRangeRequest} {stop : Nat} {s : RangeBatch}
    (h : Collected L encodedLen maxBlocks maxBytes req.fromHeight.toNat stop s)
    (hfrom : req.fromHeight.toNat ≤ min req.toHeight.toNat L.blockHeight)
    (hstop : stop ≤ min req.toHeight.toNat L.blockHeight + 1)
    (hstopped : stop < min req.toHeight.toNat L.blockHeight + 1 →
      Stopped L encodedLen maxBlocks maxBytes stop s) :
    Answers L encodedLen req maxBlocks maxBytes
      ⟨req.fromHeight.toNat, if s.blocks = [] then req.fromHeight.toNat - 1 else s.actualTo,
        s.blocks⟩ (stop - 1) where
  within := by omega
  blocks := by
    show s.blocks = _
    rw [h.blocks, canonicalBlocks]
    rcases h.first hchain hmax (Nat.min_le_right _ _) hfrom hstopped with hlt | ⟨hlo, rfl, hnone⟩
    · have hpred : stop - 1 + 1 = stop := by omega
      rw [hpred]
    · rw [hlo]
      exact (List.filterMap_cons_none hnone).symm
  nonempty := by
    intro hpos _ _ hnil
    have hnil' : s.blocks = [] := hnil
    rcases h.first hchain hmax (Nat.min_le_right _ _) hfrom hstopped with hlt | ⟨hlo, -, -⟩
    · have hlen := h.length
      rw [hnil', List.length_nil] at hlen
      omega
    · omega
  count := h.count
  bytes := h.answers_bytes
  stops := by
    intro hpos _ hlast
    have hle := h.le
    have hpred : stop - 1 + 1 = stop := by omega
    obtain ⟨block, hblock, hcap⟩ :=
      (hstopped (by omega)).cap hchain (by omega) (by omega)
    rw [hpred]
    refine ⟨block, hblock, ?_⟩
    rcases hcap with hcount | ⟨-, hbytes⟩
    · exact Or.inl (Nat.lt_succ_of_le hcount)
    · rw [h.used, satAdd_min] at hbytes
      exact Or.inr (lt_of_lt_of_le hbytes (Nat.min_le_left _ _))
  toHeight := by
    intro b hb
    obtain ⟨hblock, hnext⟩ := h.last b hb
    have hne : s.blocks ≠ [] := by
      intro hnil
      have hb' : s.blocks.getLast? = some b := hb
      rw [hnil] at hb'
      cases hb'
    have hactual : s.actualTo = stop - 1 := by omega
    have hfiled := hchain.filed _ b hblock
    simp only [if_neg hne]
    exact ⟨hactual, hfiled.trans hactual⟩

end Answer

/-- **The answer to a range request** on a chain with a canonical block at every height: the
canonical blocks from the height asked for on, within the caps; it stops early only at a cap. -/
theorem range_response (hchain : ServedChain L) (encodedLen : BlockRecordV1 → Nat)
    (req : ChainSyncRangeRequest) {maxBlocks : UInt64} (maxBytes : UInt64)
    (hmax : 1 ≤ maxBlocks.toNat) :
    ∃ last, Answers L encodedLen req maxBlocks maxBytes
      (buildChainSyncRangeResponseWithCaps L encodedLen req maxBlocks maxBytes) last := by
  unfold buildChainSyncRangeResponseWithCaps
  simp only
  by_cases hvalid : req.validate = false
  · rw [if_pos hvalid]
    have hlt : ¬ req.fromHeight ≤ req.toHeight := of_decide_eq_false hvalid
    rw [UInt64.le_iff_toNat_le] at hlt
    exact ⟨0, answers_none encodedLen rfl (by omega)⟩
  · rw [if_neg hvalid]
    by_cases hahead : L.blockHeight < req.fromHeight.toNat
    · rw [if_pos hahead]
      exact ⟨0, answers_none encodedLen rfl (by omega)⟩
    · rw [if_neg hahead]
      by_cases hempty : min req.toHeight.toNat L.blockHeight < req.fromHeight.toNat
      · rw [if_pos hempty]
        exact ⟨0, answers_none encodedLen rfl hempty⟩
      · rw [if_neg hempty]
        have hfrom := Nat.le_of_not_lt hempty
        obtain ⟨stop, hle, hcollected, hstopped⟩ :=
          rangeLoop_collected (min req.toHeight.toNat L.blockHeight + 1 - req.fromHeight.toNat)
            (collected_start L encodedLen maxBlocks maxBytes req.fromHeight.toNat)
        have hend : req.fromHeight.toNat +
            (min req.toHeight.toNat L.blockHeight + 1 - req.fromHeight.toNat) =
              min req.toHeight.toNat L.blockHeight + 1 := by omega
        rw [hend] at hle hstopped
        exact ⟨stop - 1, hcollected.answers hchain hmax hfrom hle hstopped⟩

/-- Orderly calls lead from genesis to a chain that is served whole. -/
theorem served_of_reaches {W : World} {G : Ledger} (hG : Consensus.Genesis G)
    (h : Consensus.Reaches W G L) : ServedChain L := by
  have hkept : Consensus.KeptByBlocks W fun _ _ => True :=
    ⟨fun _ _ _ _ _ => trivial, fun _ _ _ _ => trivial⟩
  obtain ⟨cs, hcs⟩ := h.onChain hG trivial hkept
  have hby := hcs.atTop.byHeight
  constructor
  · intro height hlo hhi
    obtain ⟨id, r, hid, hr, -⟩ := hcs.consistent.canonical height hlo hhi
    exact ⟨r, by rw [canonicalBlockAt, hid, Option.bind_some, hr]⟩
  · intro height b hb
    rw [canonicalBlockAt, hby] at hb
    cases hfind : cs.find? fun c => c.height = height with
    | none =>
      rw [hfind] at hb
      cases hb
    | some c =>
      rw [hfind, Option.map_some, Option.bind_some, hcs.stored c (List.mem_of_find?_eq_some hfind),
        Option.some.injEq] at hb
      rw [← hb]
      simpa using List.find?_some hfind

namespace Sample

/-- A canonical block. -/
def servedBlock (id : Str) (height : Nat) : BlockRecordV1 where
  v := 1
  height := height
  blockId := id
  parentBlockId := none
  producerId := "producer".toList
  txHashes := []
  txs := []
  stateRoot := "root".toList
  reward := ⟨0, 0, 0⟩
  caacWeight := 1
  cumulativeWeight := 1
  canonical := true
  tsMs := 1

/-- A ledger with three canonical blocks. -/
def servedLedger : Ledger :=
  { Ledger.empty with
    metaTree := Tree.empty.insert .ledgerBlockHeight (.u64 3)
    canonicalByHeight :=
      ((Tree.empty.insert 1 "a".toList).insert 2 "b".toList).insert 3 "c".toList
    blocksById := ((Tree.empty.insert "a".toList (servedBlock "a".toList 1)).insert "b".toList
      (servedBlock "b".toList 2)).insert "c".toList (servedBlock "c".toList 3) }

theorem servedLedger_chain : ServedChain servedLedger := by
  have hat : canonicalBlockAt servedLedger 1 = some (servedBlock "a".toList 1) ∧
      canonicalBlockAt servedLedger 2 = some (servedBlock "b".toList 2) ∧
      canonicalBlockAt servedLedger 3 = some (servedBlock "c".toList 3) ∧ servedLedger.blockHeight = 3 := by
    decide +kernel
  obtain ⟨h₁, h₂, h₃, htip⟩ := hat
  constructor
  · intro height hlo hhi
    rw [htip] at hhi
    have hcases : height = 1 ∨ height = 2 ∨ height = 3 := by omega
    rcases hcases with rfl | rfl | rfl
    · exact ⟨_, h₁⟩
    · exact ⟨_, h₂⟩
    · exact ⟨_, h₃⟩
  · intro height b hb
    by_cases hcases : height = 1 ∨ height = 2 ∨ height = 3
    · rcases hcases with rfl | rfl | rfl
      · rw [h₁, Option.some.injEq] at hb
        rw [← hb]
        rfl
      · rw [h₂, Option.some.injEq] at hb
        rw [← hb]
        rfl
      · rw [h₃, Option.some.injEq] at hb
        rw [← hb]
        rfl
    · have hnone : servedLedger.canonicalBlockIdAtHeight height = none := by
        show ((((Tree.empty.insert 1 _).insert 2 _).insert 3 _).get height : Option Str) = none
        rw [Tree.get_insert_ne (by omega), Tree.get_insert_ne (by omega),
          Tree.get_insert_ne (by omega), Tree.get_empty]
      rw [canonicalBlockAt, hnone] at hb
      cases hb

end Sample

/-- The first two blocks fit, and the third one would break a cap. -/
theorem range_response_capped : ∃ last, Answers Sample.servedLedger (fun _ => 400) ⟨1, 3⟩ 100 1000
    (buildChainSyncRangeResponseWithCaps Sample.servedLedger (fun _ => 400) ⟨1, 3⟩ 100 1000) last :=
  range_response Sample.servedLedger_chain (fun _ => 400) ⟨1, 3⟩ 1000 (by decide)

/-- A request from height 0 is answered with no block, whatever the caps; and the largest cap on the
bytes is none. -/
theorem range_response_fromZero :
    (¬ ∃ last, last ≤ min 3 Sample.servedLedger.blockHeight ∧
      (buildChainSyncRangeResponseWithCaps Sample.servedLedger (fun _ => 400) ⟨0, 3⟩ 100 1000).blocks =
        canonicalBlocks Sample.servedLedger 0 last ∧
      (last < min 3 Sample.servedLedger.blockHeight →
        ∃ next, canonicalBlockAt Sample.servedLedger (last + 1) = some next ∧
          (100 < (canonicalBlocks Sample.servedLedger 0 last).length + 1 ∨
            1000 < encodedBytes (fun _ => 400) (canonicalBlocks Sample.servedLedger 0 last) + 400))) ∧
    (buildChainSyncRangeResponseWithCaps Sample.servedLedger (fun _ => 2 ^ 63 - 1) ⟨1, 3⟩ 100
        18446744073709551615).blocks.length = 3 ∧
      18446744073709551615 < encodedBytes (fun _ => 2 ^ 63 - 1)
        (buildChainSyncRangeResponseWithCaps Sample.servedLedger (fun _ => 2 ^ 63 - 1) ⟨1, 3⟩ 100
          18446744073709551615).blocks := by
  have hall : ((buildChainSyncRangeResponseWithCaps Sample.servedLedger (fun _ => 400) ⟨0, 3⟩ 100
        1000).blocks = [] ∧ Sample.servedLedger.blockHeight = 3 ∧
        canonicalBlocks Sample.servedLedger 0 0 = [] ∧ (canonicalBlocks Sample.servedLedger 0 1).length = 1 ∧
        (canonicalBlocks Sample.servedLedger 0 2).length = 2 ∧
        (canonicalBlocks Sample.servedLedger 0 3).length = 3) ∧
      (buildChainSyncRangeResponseWithCaps Sample.servedLedger (fun _ => 2 ^ 63 - 1) ⟨1, 3⟩ 100
        18446744073709551615).blocks.length = 3 ∧
      18446744073709551615 < encodedBytes (fun _ => 2 ^ 63 - 1)
        (buildChainSyncRangeResponseWithCaps Sample.servedLedger (fun _ => 2 ^ 63 - 1) ⟨1, 3⟩ 100
          18446744073709551615).blocks := by decide +kernel
  obtain ⟨⟨hnone, htip, h₀, h₁, h₂, h₃⟩, hbytes⟩ := hall
  refine ⟨?_, hbytes⟩
  rintro ⟨last, hlast, hblocks, hstops⟩
  rw [hnone] at hblocks
  rw [htip] at hlast hstops
  have hlen := congrArg List.length hblocks
  have hcases : last = 0 ∨ last = 1 ∨ last = 2 ∨ last = 3 := by omega
  rcases hcases with rfl | rfl | rfl | rfl
  · obtain ⟨next, -, hcap⟩ := hstops (by decide)
    rw [h₀] at hcap
    exact absurd hcap (by decide)
  · rw [h₁] at hlen
    cases hlen
  · rw [h₂] at hlen
    cases hlen
  · rw [h₃] at hlen
    cases hlen

end TetCore.Sync
