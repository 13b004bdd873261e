import TetCore.Ledger.Frame
import TetCore.Ledger.Sample
import Mathlib.Data.List.Zip

/-!
# Undo is the inverse of apply

`prepare_block_undo` captures a third hand-written list of keys. By `apply_frame` it covers every
key the apply changes, and the recording steps touch the height's own rows, the tip and the block's
index rows, which are captured too. So `apply_block_undo` gives the readable state back.

* `ReadEq`: two ledgers read the same in every tree a block changes, an absent counter reading `0`.
* `restoreUndo_of_confined`: restoring what was captured undoes any change within the captured keys.
* `applyBlockUndo_inverse`: apply, record, undo is the identity on what can be read.
-/

namespace TetCore

open TetCore.Lib

namespace Ledger

/-- Two ledgers that read the same: every tree but the block records, the undo records and the
transaction index, with absent counters read as `0`. -/
structure ReadEq (L L' : Ledger) : Prop where
  balances : L.balances = L'.balances
  metaRows : ∀ k, readMeta L.metaTree k = readMeta L'.metaTree k
  vestLocks : L.vestLocks = L'.vestLocks
  workerStakes : L.workerStakes = L'.workerStakes
  workersRegistry : L.workersRegistry = L'.workersRegistry
  blocks : L.blocks = L'.blocks
  canonicalByHeight : L.canonicalByHeight = L'.canonicalByHeight
  chainTip : L.chainTip = L'.chainTip
  zkcourtBonds : L.zkcourtBonds = L'.zkcourtBonds

theorem ReadEq.refl (L : Ledger) : ReadEq L L :=
  ⟨rfl, fun _ => rfl, rfl, rfl, rfl, rfl, rfl, rfl, rfl⟩

theorem ReadEq.symm {L L' : Ledger} (h : ReadEq L L') : ReadEq L' L :=
  ⟨h.1.symm, fun k => (h.2 k).symm, h.3.symm, h.4.symm, h.5.symm, h.6.symm, h.7.symm, h.8.symm,
    h.9.symm⟩

theorem ReadEq.trans {L L' L'' : Ledger} (h : ReadEq L L') (h' : ReadEq L' L'') : ReadEq L L'' :=
  ⟨h.1.trans h'.1, fun k => (h.2 k).trans (h'.2 k), h.3.trans h'.3, h.4.trans h'.4, h.5.trans h'.5,
    h.6.trans h'.6, h.7.trans h'.7, h.8.trans h'.8, h.9.trans h'.9⟩

/-! ## The recording steps -/

section Records

variable {L L' : Ledger} {nowMs height : Nat} {row : BlockRecordV1}

/-- A canonical record touches its own row, its height and the tip. -/
theorem recordBlockRecord_canonical (h : recordBlockRecord nowMs row L = .ok L')
    (hc : row.canonical = true) :
    trim row.blockId ≠ [] ∧ L' = { L with
      blocksById := L.blocksById.insert (trim row.blockId) row
      canonicalByHeight := L.canonicalByHeight.insert row.height (trim row.blockId)
      chainTip := L.chainTip.insert () ⟨1, row.height, trim row.blockId, row.cumulativeWeight,
        row.stateRoot, nowMs⟩ } := by
  simp only [recordBlockRecord, bind_eq_ok, require_eq_ok, hc, if_true, Except.ok.injEq] at h
  obtain ⟨_, hne, rfl⟩ := h
  exact ⟨hne, rfl⟩

/-- A record that is not canonical touches its own row only. -/
theorem recordBlockRecord_fork (h : recordBlockRecord nowMs row L = .ok L')
    (hc : row.canonical = false) :
    trim row.blockId ≠ [] ∧
      L' = { L with blocksById := L.blocksById.insert (trim row.blockId) row } := by
  simp only [recordBlockRecord, bind_eq_ok, require_eq_ok, hc, Bool.false_eq_true, if_false,
    Except.ok.injEq] at h
  obtain ⟨_, hne, rfl⟩ := h
  exact ⟨hne, rfl⟩

/-- A record with an id can always be stored. -/
theorem exists_recordBlockRecord (nowMs : Nat) (row : BlockRecordV1) (L : Ledger)
    (h : trim row.blockId ≠ []) :
    ∃ L', recordBlockRecord nowMs row L = .ok L' := by
  simp only [recordBlockRecord, require_of h, ok_bind]
  split <;> exact ⟨_, rfl⟩

theorem recordTxIndexesBatch_eq_ok {hashes : List Str} {txs : List SignedTxEnvelopeV1} {c : Bool} :
    recordTxIndexesBatch nowMs height hashes txs c L = .ok L' ↔
      hashes.length = txs.length ∧ L' = { L with
        txIndex := L.txIndex.applyBatch (txIndexRows nowMs height c 0 (hashes.zip txs)) } := by
  simp only [recordTxIndexesBatch, bind_eq_ok, require_eq_ok, Except.ok.injEq]
  exact ⟨fun ⟨_, hlen, h⟩ => ⟨hlen, h.symm⟩, fun ⟨hlen, h⟩ => ⟨(), hlen, h.symm⟩⟩

theorem txIndexRows_keys (c : Bool) : ∀ (l : List (Str × SignedTxEnvelopeV1)) (idx : Nat),
    (txIndexRows nowMs height c idx l).map Prod.fst = l.map fun p => normalizeTxHash p.1
  | [], _ => rfl
  | (h, tx) :: l, idx => by
    rw [txIndexRows, List.map_cons, List.map_cons, txIndexRows_keys c l]

/-- The index keys of a block are the ones its undo captures. -/
theorem blockUndoKeys_txIndex (W : World) (txs : List SignedTxEnvelopeV1) (hashes : List Str)
    (producer : Str) (reward : Nat) : (blockUndoKeys W txs hashes producer reward).txIndex =
      (txs.zip hashes).map fun p => normalizeTxHash p.2 := by
  have hone : ∀ p : SignedTxEnvelopeV1 × Str,
      (undoKeysOf W p.1 p.2).txIndex = [normalizeTxHash p.2] := by
    intro p
    unfold undoKeysOf
    split <;> rfl
  simp only [blockUndoKeys, List.flatMap_map, hone]
  exact List.map_eq_flatMap.symm

theorem txIndexRows_covered (W : World) {txs : List SignedTxEnvelopeV1} {hashes : List Str}
    (producer : Str) (reward : Nat) {c : Bool} {k : Str}
    (hk : k ∉ (blockUndoKeys W txs hashes producer reward).txIndex) :
    k ∉ (txIndexRows nowMs height c 0 (hashes.zip txs)).map Prod.fst := by
  rw [txIndexRows_keys]
  rw [blockUndoKeys_txIndex] at hk
  intro hmem
  obtain ⟨p, hp, rfl⟩ := List.mem_map.mp hmem
  refine hk (List.mem_map.mpr ⟨p.swap, ?_, rfl⟩)
  rw [← List.zip_swap]
  exact List.mem_map_of_mem hp

/-- The ledger after a block's summary, canonical record and index rows are written. -/
def recorded (L : Ledger) (sum : BlockSummary) (row : BlockRecordV1) (t₃ t₄ : Nat)
    (hashes : List Str) (txs : List SignedTxEnvelopeV1) : Ledger :=
  { L with
    blocks := L.blocks.insert sum.height sum
    blocksById := L.blocksById.insert (trim row.blockId) row
    canonicalByHeight := L.canonicalByHeight.insert row.height (trim row.blockId)
    chainTip := L.chainTip.insert () ⟨1, row.height, trim row.blockId, row.cumulativeWeight,
      row.stateRoot, t₃⟩
    txIndex := L.txIndex.applyBatch (txIndexRows t₄ row.height true 0 (hashes.zip txs)) }

/-- The three recording steps of a canonical block. -/
theorem recorded_of_ok {L L₃ L₄ : Ledger} {t₂ t₃ t₄ txCount : Nat} {sumRoot : Str}
    {hashes : List Str} {txs : List SignedTxEnvelopeV1} (hc : row.canonical = true)
    (hr : recordBlockRecord t₃ row
      (L.recordBlockSummary t₂ row.height row.blockId sumRoot txCount) = .ok L₃)
    (hi : recordTxIndexesBatch t₄ row.height hashes txs true L₃ = .ok L₄) :
    trim row.blockId ≠ [] ∧
      L₄ = L.recorded ⟨row.height, row.blockId, sumRoot, txCount, t₂⟩ row t₃ t₄ hashes txs := by
  obtain ⟨hne, h₃⟩ := recordBlockRecord_canonical hr hc
  obtain ⟨-, h₄⟩ := recordTxIndexesBatch_eq_ok.mp hi
  rw [h₄, h₃]
  exact ⟨hne, rfl⟩

end Records

/-! ## Restoring -/

/-- What changed from `L` to `L'` lies within the keys a block's undo captures. -/
structure Confined (ks : UndoKeys) (height : Nat) (L L' : Ledger) : Prop where
  balances : ∀ k, k ∉ ks.balances → L'.balances.get k = L.balances.get k
  readMeta : ∀ k, k ∉ ks.metaKeys → readMeta L'.metaTree k = readMeta L.metaTree k
  workersRegistry : ∀ k, k ∉ ks.workersRegistry →
    L'.workersRegistry.get k = L.workersRegistry.get k
  blocks : ∀ k, k ≠ height → L'.blocks.get k = L.blocks.get k
  canonicalByHeight : ∀ k, k ≠ height → L'.canonicalByHeight.get k = L.canonicalByHeight.get k
  vestLocks : L'.vestLocks = L.vestLocks
  workerStakes : L'.workerStakes = L.workerStakes
  zkcourtBonds : L'.zkcourtBonds = L.zkcourtBonds

/-- **A restore undoes any change within the captured keys.** -/
theorem restoreUndo_of_confined {W : World} {L L' : Ledger} (nowMs : Nat) {height : Nat} (id : Str)
    {txs : List SignedTxEnvelopeV1} {hashes : List Str} {producer : Str} {reward : Nat}
    (h : Confined (blockUndoKeys W txs hashes producer reward) height L L') :
    ReadEq (L'.restoreUndo (L.prepareBlockUndo W nowMs id height txs hashes producer reward))
      L := by
  refine ⟨Tree.restore_capture h.balances, fun k => ?_, h.vestLocks, h.workerStakes,
    Tree.restore_capture h.workersRegistry,
    Tree.restore_capture fun k hk => h.blocks k (by simpa using hk),
    Tree.restore_capture fun k hk => h.canonicalByHeight k (by simpa using hk),
    Tree.restore_capture fun k hk => absurd (by simp) hk, h.zkcourtBonds⟩
  -- captured rows come back as they were; the others already read the same
  simp only [restoreUndo, prepareBlockUndo]
  by_cases hk : k ∈ (blockUndoKeys W txs hashes producer reward).metaKeys
  · exact readMeta_congr (by rw [Tree.get_restore_capture, if_pos hk])
  · rw [← h.readMeta k hk]
    exact readMeta_congr (by rw [Tree.get_restore_capture, if_neg hk])

/-- An apply together with its recording steps stays within the captured keys. -/
theorem Confined.of_frame {W : World} {L L₁ : Ledger} {txs : List SignedTxEnvelopeV1}
    {hashes : List Str} {producer : Str} {reward : Nat}
    (hf : BlockFrame (blockUndoKeys W txs hashes producer reward) L L₁)
    (sum : BlockSummary) (row : BlockRecordV1) (hsum : sum.height = row.height) (t₃ t₄ : Nat) :
    Confined (blockUndoKeys W txs hashes producer reward) row.height L
      (L₁.recorded sum row t₃ t₄ hashes txs) where
  balances := hf.balances
  readMeta := hf.readMeta
  workersRegistry := hf.workersRegistry
  blocks k hk := by
    simp only [recorded]
    rw [hsum, Tree.get_insert_ne (Ne.symm hk), hf.rest]
  canonicalByHeight k hk := by
    simp only [recorded]
    rw [Tree.get_insert_ne (Ne.symm hk), hf.rest]
  vestLocks := by rw [recorded, hf.rest]
  workerStakes := by rw [recorded, hf.rest]
  zkcourtBonds := by rw [recorded, hf.rest]

/-- Storing an undo record does not show in the frame of the apply that follows it. -/
theorem apply_frame_stored {W : World} {L L₁ : Ledger} {undo : BlockUndoV1} {t₁ height : Nat}
    {txs : List SignedTxEnvelopeV1} {hashes : List Str} {producer root : Str} {reward : Nat}
    (ha : applyConsensusBlockBatch W t₁ height txs hashes producer reward
      (L.storeBlockUndo undo) = .ok (root, L₁)) :
    BlockFrame (blockUndoKeys W txs hashes producer reward)
        { L with blockUndo := L₁.blockUndo } L₁ ∧
      L₁.blockUndo = L.blockUndo.insert (trim undo.blockId) undo := by
  have hf := apply_frame ha
  refine ⟨⟨by rw [hf.rest]; rfl, hf.balances, hf.readMeta, hf.workersRegistry⟩, ?_⟩
  rw [hf.rest]
  rfl

/-- **Block undo is an exact inverse of block apply.** The undo record is taken and stored before
the apply; the summary, the canonical record and the index rows follow it, at any later times. -/
theorem applyBlockUndo_inverse {W : World} {L L₁ L₃ L₄ : Ledger} {t₀ t₁ t₂ t₃ t₄ height : Nat}
    {id root sumRoot : Str} {txs : List SignedTxEnvelopeV1} {hashes : List Str} {producer : Str}
    {reward txCount : Nat} {row : BlockRecordV1}
    (hrow : row.blockId = id ∧ row.height = height ∧ row.canonical = true)
    (ha : applyConsensusBlockBatch W t₁ height txs hashes producer reward
      (L.storeBlockUndo (L.prepareBlockUndo W t₀ id height txs hashes producer reward)) =
        .ok (root, L₁))
    (hr : recordBlockRecord t₃ row (L₁.recordBlockSummary t₂ height id sumRoot txCount) = .ok L₃)
    (hi : recordTxIndexesBatch t₄ height hashes txs true L₃ = .ok L₄) :
    ∃ undo L₅, applyBlockUndo id L₄ = .ok (undo, L₅) ∧ ReadEq L₅ L ∧ L₅.txIndex = L.txIndex := by
  obtain ⟨rfl, rfl, hc⟩ := hrow
  obtain ⟨hf, hundo⟩ := apply_frame_stored ha
  obtain ⟨-, rfl⟩ := recorded_of_ok hc hr hi
  have hget : (L₁.recorded ⟨row.height, row.blockId, sumRoot, txCount, t₂⟩ row t₃ t₄ hashes
      txs).blockUndoById row.blockId =
      some (L.prepareBlockUndo W t₀ row.blockId row.height txs hashes producer reward) := by
    simp [blockUndoById, recorded, hundo, prepareBlockUndo, trim_trim]
  refine ⟨_, _, by rw [applyBlockUndo, hget], ?_⟩
  have hread := restoreUndo_of_confined t₀ row.blockId
    (Confined.of_frame hf ⟨row.height, row.blockId, sumRoot, txCount, t₂⟩ row rfl t₃ t₄)
  refine ⟨⟨hread.1, hread.2, hread.3, hread.4, hread.5, hread.6, hread.7, hread.8, hread.9⟩, ?_⟩
  refine Tree.restore_capture fun k hk => ?_
  simp only [recorded]
  rw [Tree.get_applyBatch_of_notMem _ _ (txIndexRows_covered W producer reward hk), hf.rest]

/-- The block of one transfer, applied, recorded and undone on the sample ledger. -/
theorem applyBlockUndo_inverse_transfer :
    ∃ root L₁ L₃ L₄ undo L₅,
      applyConsensusBlockBatch (World.sample 100000) 1 1 [Sample.transfer] ["0x1".toList]
        Sample.node 100000 (Sample.ledger.storeBlockUndo (Sample.ledger.prepareBlockUndo
          (World.sample 100000) 0 "0xb".toList 1 [Sample.transfer] ["0x1".toList] Sample.node
          100000)) = .ok (root, L₁) ∧
      recordBlockRecord 3
        (Sample.record 1 "0xb".toList ["0x1".toList] [Sample.transfer] root 100000)
        (L₁.recordBlockSummary 2 1 "0xb".toList root 1) = .ok L₃ ∧
      recordTxIndexesBatch 4 1 ["0x1".toList] [Sample.transfer] true L₃ = .ok L₄ ∧
      applyBlockUndo "0xb".toList L₄ = .ok (undo, L₅) ∧
      ReadEq L₅ Sample.ledger ∧ L₅.txIndex = Sample.ledger.txIndex := by
  obtain ⟨⟨root, L₁⟩, ha⟩ : ∃ r, applyConsensusBlockBatch (World.sample 100000) 1 1
      [Sample.transfer] ["0x1".toList] Sample.node 100000 (Sample.ledger.storeBlockUndo
        (Sample.ledger.prepareBlockUndo (World.sample 100000) 0 "0xb".toList 1 [Sample.transfer]
          ["0x1".toList] Sample.node 100000)) = .ok r := exists_ok (by decide +kernel)
  obtain ⟨L₃, hr⟩ : ∃ L₃, recordBlockRecord 3
      (Sample.record 1 "0xb".toList ["0x1".toList] [Sample.transfer] root 100000)
      (L₁.recordBlockSummary 2 1 "0xb".toList root 1) = .ok L₃ := exists_ok rfl
  obtain ⟨L₄, hi⟩ : ∃ L₄, recordTxIndexesBatch 4 1 ["0x1".toList] [Sample.transfer] true L₃ =
      .ok L₄ := exists_ok rfl
  have hrow : (Sample.record 1 "0xb".toList ["0x1".toList] [Sample.transfer] root
      100000).blockId = "0xb".toList ∧ (Sample.record 1 "0xb".toList ["0x1".toList]
        [Sample.transfer] root 100000).height = 1 ∧ (Sample.record 1 "0xb".toList ["0x1".toList]
          [Sample.transfer] root 100000).canonical = true := ⟨rfl, rfl, rfl⟩
  obtain ⟨undo, L₅, hu, hread, htx⟩ := applyBlockUndo_inverse hrow ha hr hi
  exact ⟨root, L₁, L₃, L₄, undo, L₅, ha, hr, hi, hu, hread, htx⟩

end Ledger

end TetCore
