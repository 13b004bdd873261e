import TetCore.Consensus.Chain
import TetCore.Lib.UndoStack

/-!
# Blocks as a stack of undoable updates

The canonical chain is an undo stack: applying a block pushes it (`ChainStack.applied`), unwinding
the tip pops it (`ChainStack.unwound`), and writes to the block records, the undo records of other
blocks or the index do not show. What a good state is stays a parameter: a property of the chain and
of the readable ledger (`Readable`).
-/

namespace TetCore.Consensus

open TetCore.Lib
open TetCore.Ledger (ReadEq txIndexRows)

/-- The ledger on top of a chain of blocks, newest first. -/
abbrev ChainStack (Good : List BlockRecordV1 → Ledger → Prop) (cs : List BlockRecordV1)
    (L : Ledger) : Prop :=
  UndoStack (fun u L => Ledger.restoreUndo u L) Good (fun b => L.blockUndoById b.blockId) cs L

/-- The property depends on the readable state only. -/
def Readable (Good : List BlockRecordV1 → Ledger → Prop) : Prop :=
  ∀ (cs : List BlockRecordV1) (L L' : Ledger), ReadEq L L' → Good cs L → Good cs L'

section Steps

variable {W : World} {Good : List BlockRecordV1 → Ledger → Prop} {L L' : Ledger} {nowMs : Nat}
  {b : BlockRecordV1} {cs : List BlockRecordV1}

/-- What an applied block leaves in the hidden trees. -/
theorem Applied.hidden (h : Applied W nowMs b L L') :
    L'.blockUndo = L.blockUndo.insert (trim b.blockId) (undoFor W nowMs b L) ∧
      L'.blocksById = L.blocksById.insert (trim b.blockId) b ∧
      L'.txIndex = L.txIndex.applyBatch
        (txIndexRows nowMs b.height true 0 (b.txHashes.zip b.txs)) := by
  obtain ⟨-, -, L₁, ha, rfl⟩ := h
  obtain ⟨hf, hundo⟩ := Ledger.apply_frame_stored ha
  simp only [Ledger.recorded]
  rw [hundo, hf.rest]
  exact ⟨by simp [undoFor, Ledger.prepareBlockUndo, trim_trim], rfl, rfl⟩

/-- The undo record of an applied block leads back. -/
theorem Applied.back (h : Applied W nowMs b L L') :
    ReadEq (L'.restoreUndo (undoFor W nowMs b L)) L := by
  obtain ⟨-, -, L₁, ha, rfl⟩ := h
  obtain ⟨hf, -⟩ := Ledger.apply_frame_stored ha
  have hback := Ledger.restoreUndo_of_confined nowMs b.blockId
    (Ledger.Confined.of_frame hf (summaryOf nowMs b) b rfl nowMs nowMs)
  exact hback.trans (ReadEq.hidden L L.blocksById _ L.txIndex)

/-- **Applying a block** pushes it on the stack. -/
theorem ChainStack.applied (hG : Readable Good) (h : ChainStack Good cs L)
    (ha : Applied W nowMs b L L') (htop : Good (b :: cs) L')
    (hnew : ∀ c ∈ cs, trim c.blockId ≠ trim b.blockId) : ChainStack Good (b :: cs) L' := by
  obtain ⟨hundo, -, -⟩ := ha.hidden
  refine UndoStack.push (R := ReadEq) h (hG _ _ _) (fun u => fun hread => hread.restoreUndo u) htop ?_ ?_
  · intro u hu
    rw [Ledger.blockUndoById, hundo, Tree.get_insert_self, Option.some.injEq] at hu
    subst hu
    exact ha.back.symm
  · intro c hc u hu
    rw [Ledger.blockUndoById, hundo, Tree.get_insert_ne (Ne.symm (hnew c hc))] at hu
    exact hu

/-- Ledgers that read the same and keep the same undo records have the same stacks. -/
theorem ChainStack.readEq (hG : Readable Good) (h : ChainStack Good cs L) (hread : ReadEq L L')
    (hundo : ∀ c ∈ cs, ∀ u, L'.blockUndoById c.blockId = some u →
      L.blockUndoById c.blockId = some u) : ChainStack Good cs L' :=
  (UndoStack.forget h hundo).congr (hG _ _ _) (fun _ _ u _ => fun hread => hread.restoreUndo u) hread

/-- **Unwinding the tip** pops it. -/
theorem ChainStack.unwound (hG : Readable Good) {r : BlockRecordV1}
    (h : ChainStack Good (b :: cs) L) (hu : Unwound nowMs b.blockId r L L') :
    ChainStack Good cs L' := by
  obtain ⟨-, -, u, hundo, rfl⟩ := hu
  refine ChainStack.readEq hG ?_ (unwound_readEq b.blockId r u L).symm fun c _ u' hu' => ?_
  · exact h.pop hundo
  · rw [Ledger.blockUndoById, unwound_blockUndo] at hu'
    exact hu'

end Steps

end TetCore.Consensus
