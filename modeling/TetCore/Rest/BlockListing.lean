import TetCore.Lib.Listing
import TetCore.Sync.Ranges

/-!
# The transactions of a block

`txs_by_block_height` reads the transaction index, one row for each hash that any recorded block
carried. It takes the rows of a height in the order of their hashes until the limit is reached, and
sorts those by their positions. It does not read the block.

* `Listed`: the rows a listing of the block needs in the index.
* `block_listing_iff`: the listing is the block's first transactions in order exactly when the index
  has such rows.
* `block_listing_orphan`: the transaction of a block that gave way is listed for the block that
  replaced it.
-/

namespace TetCore

open TetCore.Lib

/-- `txs_by_block_height`. -/
def Ledger.txsByBlockHeight (L : Ledger) (height limit : Nat) : List TxIndexRecordV1 :=
  listed (fun row => row.txIndex) (min (max limit 1) 500)
    ((L.txIndex.iter.map Prod.snd).filter fun row => row.blockHeight == height)

namespace Rest

open TetCore.Sync (canonicalBlockAt)
open TetCore.Consensus (Reaches)

/-- The rows recorded at a height, in the order of their hashes. -/
def rowsAt (L : Ledger) (height : Nat) : List (Str × TxIndexRecordV1) :=
  L.txIndex.iter.filter fun row => row.2.blockHeight == height

/-- A smaller hash. -/
def HashBefore (a b : Str × TxIndexRecordV1) : Prop := compare a.1 b.1 = .lt

instance : DecidableRel HashBefore := fun _ _ => inferInstanceAs (Decidable (_ = _))

/-- The listing is the first transactions of the canonical block, in order. -/
def ListsBlock (L : Ledger) (height limit : Nat) : Prop :=
  ∀ block, canonicalBlockAt L height = some block →
    (L.txsByBlockHeight height limit).map (fun row => row.tx) = block.txs.take limit

/-- **The rows of a listing**: one for each of the block's first transactions, at this height, in
positions that follow the block's order; few rows of the height have a smaller hash, and there are no
others when the limit allows more. -/
structure Listed (L : Ledger) (height limit : Nat) (block : BlockRecordV1)
    (rows : List (Str × TxIndexRecordV1)) : Prop where
  txs : rows.map (fun row => row.2.tx) = block.txs.take limit
  recorded : ∀ row ∈ rows, L.txIndex.get row.1 = some row.2 ∧ row.2.blockHeight = height
  ordered : rows.Pairwise (NumberedBefore HashBefore fun row => row.2.txIndex)
  early : ∀ row ∈ rows, ahead HashBefore (rowsAt L height) row < limit
  alone : block.txs.length < limit → (rowsAt L height).length = block.txs.length

theorem hashBefore_asymm (a b : Str × TxIndexRecordV1) (h : HashBefore a b) : ¬HashBefore b a := by
  intro h'
  unfold HashBefore at h h'
  rw [Std.OrientedCmp.gt_of_lt h] at h'
  cases h'

theorem rowsAt_sorted (L : Ledger) (height : Nat) : (rowsAt L height).Pairwise HashBefore :=
  L.txIndex.iter_sorted.sublist List.filter_sublist

theorem mem_rowsAt {L : Ledger} {height : Nat} {row : Str × TxIndexRecordV1} :
    row ∈ rowsAt L height ↔ L.txIndex.get row.1 = some row.2 ∧ row.2.blockHeight = height := by
  rw [rowsAt, List.mem_filter, beq_iff_eq]
  exact and_congr_left' Tree.mem_iter

/-- The listing of the index's rows, with their hashes. -/
theorem txsByBlockHeight_eq {L : Ledger} {height limit : Nat} (hlo : 1 ≤ limit) (hhi : limit ≤ 500) :
    L.txsByBlockHeight height limit =
      (listed (fun row => row.2.txIndex) limit (rowsAt L height)).map Prod.snd := by
  have hlimit : min (max limit 1) 500 = limit := by omega
  rw [Ledger.txsByBlockHeight, hlimit, rowsAt,
    map_listed (fun row : TxIndexRecordV1 => row.txIndex) Prod.snd, List.filter_map]
  rfl

theorem Listed.length {L : Ledger} {height limit : Nat} {block : BlockRecordV1}
    {rows : List (Str × TxIndexRecordV1)} (h : Listed L height limit block rows) :
    rows.length = min limit block.txs.length := by
  have hlen := congrArg List.length h.txs
  rwa [List.length_map, List.length_take] at hlen

/-- **The listing of a height** is the block's first transactions in order exactly when the index has
the rows for it. -/
theorem block_listing_iff (L : Ledger) (height : Nat) {limit : Nat} (hlo : 1 ≤ limit)
    (hhi : limit ≤ 500) : ListsBlock L height limit ↔
      ∀ block, canonicalBlockAt L height = some block →
        ∃ rows, Listed L height limit block rows := by
  refine forall_congr' fun block => imp_congr_right fun _ => ?_
  rw [txsByBlockHeight_eq hlo hhi, List.map_map]
  constructor
  · intro htxs
    obtain ⟨hrows, hordered, hlen⟩ :=
      (listed_eq_iff hashBefore_asymm (rowsAt_sorted L height)).mp
        (rfl : listed (fun row => row.2.txIndex) limit (rowsAt L height) = _)
    refine ⟨_, htxs, fun row hrow => mem_rowsAt.mp (hrows row hrow).1, hordered,
      fun row hrow => (hrows row hrow).2, fun hshort => ?_⟩
    have hcount := congrArg List.length htxs
    rw [List.length_map, List.length_take, hlen] at hcount
    omega
  · rintro ⟨rows, h⟩
    have hlisted : listed (fun row => row.2.txIndex) limit (rowsAt L height) = rows := by
      refine (listed_eq_iff hashBefore_asymm (rowsAt_sorted L height)).mpr
        ⟨fun row hrow => ⟨mem_rowsAt.mpr (h.recorded row hrow), h.early row hrow⟩, h.ordered, ?_⟩
      have hrows : rows.length ≤ (rowsAt L height).length := by
        have hnodup := nodup_of_before (fun a b => numberedBefore_asymm hashBefore_asymm) h.ordered
        exact (List.subperm_of_subset hnodup fun row hrow =>
          mem_rowsAt.mpr (h.recorded row hrow)).length_le
      have hlen := h.length
      have halone := h.alone
      omega
    rw [hlisted]
    exact h.txs

/-- A block with one transfer. -/
theorem block_listing_transfer :
    let W := World.sample 100000
    let L := Sample.gossiped W (Sample.block W Sample.ledger 1 none [Sample.transfer]) Sample.ledger
    ListsBlock L 1 500 := by
  intro W L
  have hall : (canonicalBlockAt L 1).map (fun block => block.txs) = some [Sample.transfer] ∧
      (rowsAt L 1).map (fun row => row.2.tx) = [Sample.transfer] ∧
      ∀ row ∈ rowsAt L 1, ahead HashBefore (rowsAt L 1) row < 500 := by decide +kernel
  obtain ⟨hblock, htxs, hearly⟩ := hall
  have hone := congrArg List.length htxs
  rw [List.length_map, List.length_singleton] at hone
  obtain ⟨row, hrow⟩ := List.length_eq_one_iff.mp hone
  refine (block_listing_iff L 1 (by decide) (by decide)).mpr fun block hat => ⟨rowsAt L 1, ?_⟩
  rw [hat, Option.map_some, Option.some.injEq] at hblock
  refine ⟨?_, fun row hrow => mem_rowsAt.mp hrow, ?_, hearly, fun _ => ?_⟩
  · rw [htxs, hblock]
    rfl
  · rw [hrow]
    exact List.pairwise_singleton _ _
  · rw [hone, hblock]
    rfl

/-- After two empty blocks have taken its place, the transfer of a block is still listed at its
height. -/
theorem block_listing_orphan :
    Reaches (World.sample 100000) Sample.ledger Consensus.Sample.reorgedLedger ∧
      1 ≤ Consensus.Sample.reorgedLedger.blockHeight ∧
      ¬ListsBlock Consensus.Sample.reorgedLedger 1 500 := by
  have hall : (canonicalBlockAt Consensus.Sample.reorgedLedger 1).map (fun block => block.txs) =
        some [] ∧
      (Consensus.Sample.reorgedLedger.txsByBlockHeight 1 500).map (fun row => row.tx) =
        [Sample.transfer] ∧ 1 ≤ Consensus.Sample.reorgedLedger.blockHeight := by decide +kernel
  obtain ⟨hblock, hlisted, hheight⟩ := hall
  refine ⟨Consensus.reaches_reorged.1, hheight, fun h => ?_⟩
  obtain ⟨block, hat, htxs⟩ := Option.map_eq_some_iff.mp hblock
  have hnone := h block hat
  rw [hlisted, htxs] at hnone
  cases hnone

end Rest

end TetCore
