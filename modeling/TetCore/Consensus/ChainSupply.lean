import TetCore.Consensus.Canonical
import TetCore.Ledger.Supply

/-!
# The supply across reorganisations

A block conserves (`applyConsensusBlock_conserves`), and undoing it leads back to a ledger that reads
the same, so in every state of a node's run the holdings are the recorded supply.
-/

namespace TetCore

/-- The holdings and the supply are read from the readable state. -/
theorem Ledger.ReadEq.inFlight {L L' : Ledger} {f : Option MetaVal} (h : ReadEq L L')
    (hc : L.InFlight f 0) : L'.InFlight f 0 := by
  have hsupply : L'.supply = L.supply := (h.metaU64 (k := .totalSupply) rfl).symm
  have hstakes := stakes_congr fun w => (h.metaU64 (k := .walletStake w) rfl).symm
  have hheld : L'.held = L.held := by
    rw [held, held, hstakes, ← h.balances, ← h.workerStakes, ← h.zkcourtBonds]
  exact ⟨by rw [hheld, hsupply]; exact hc.held, by rw [hsupply]; exact hc.cap,
    (h.get (k := .founderWallet) rfl).symm.trans hc.founder⟩

namespace Consensus

theorem inFlight_kept (W : World) (f : Option MetaVal) :
    KeptByBlocks W fun _ L => L.InFlight f 0 where
  readable _ _ _ hread hc := hread.inFlight hc
  applied := by
    rintro cs b nowMs L L' hc - - ⟨-, -, L₁, hrun, rfl⟩
    -- neither the undo record nor the block's records hold anything
    have hstored : (L.storeBlockUndo (undoFor W nowMs b L)).InFlight f 0 :=
      ⟨hc.held, hc.cap, hc.founder⟩
    have happlied := Ledger.applyConsensusBlock_conserves hstored hrun
    exact ⟨happlied.held, happlied.cap, happlied.founder⟩

end Consensus

end TetCore
