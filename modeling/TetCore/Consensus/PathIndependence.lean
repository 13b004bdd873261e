import TetCore.Consensus.PreviewSuffices

/-!
# The two ways a block gets on the chain

The next block arrives by gossip (`apply_remote_block_from_gossip_sync`) or as part of a
reorganized branch (`apply_block_record_forward`). The reorg path compares the announced root with
that of the apply, which skips the settled transactions. The gossip path compares it first with that
of a preview, which counts them.

So the reorg path takes a block exactly when it is right without its settled transactions
(`forward_ok_iff`), the gossip path when moreover its preview with them gives the announced root
(`gossipApplies_iff`), and the paths agree exactly on blocks where the first implies the second
(`block_path_independent_iff`).
-/

namespace TetCore.Consensus

open TetCore.Lib
open TetCore.Ledger (PassesApply applyConsensusBlockBatch computeStateRootAfterRemoteBlock unsettled)

/-- The reward a peer announces. -/
def RemoteBlockGossip.reward (block : RemoteBlockGossip) : BlockReward :=
  ⟨block.baseRewardMicro, block.computeRewardMicro, block.totalRewardMicro⟩

/-- A block on top of the canonical tip that passes the checks of its producer, parent, hashes, id,
workload and ZK claims. -/
structure PassesChecks (W : World) (L : Ledger) (block : RemoteBlockGossip) (producerId : Str)
    (parent : Option Str) (txHashes : List Str) : Prop where
  height : block.blockHeight = L.blockHeight + 1
  height_le : block.blockHeight ≤ u64Max
  producer : checkProducer W L block.blockHeight block.producerId = .ok producerId
  parent_eq : gossipParent L block.blockHeight block.parentBlockId = .ok parent
  hashes : hashTxs W block.txs [] = .ok txHashes
  id : blockIdForBlock W block.blockHeight (parent.getD []) block.stateRoot txHashes producerId =
    block.blockId
  workload : blockContainsAiWorkload block.txs = false ∨
    producerCanMineAiWorkload L producerId = true
  claims : validateZkTaskClaims W L block.txs = .ok ()

/-- The record of the block as it was stored, on the ledger and at the time of then. -/
def RemoteBlockGossip.storedRecord (block : RemoteBlockGossip) (producerId : Str)
    (txHashes : List Str) (L₀ : Ledger) (nowMs₀ : Nat) (parent₀ : Option Str) : BlockRecordV1 :=
  (block.recordArgs ⟨producerId, txHashes, block.reward⟩ parent₀ false).row L₀ nowMs₀ parent₀

/-- The gossip path ends with the block applied. -/
def GossipApplies (W : World) (nowMs fuel : Nat) (block : RemoteBlockGossip) (L : Ledger) : Prop :=
  ∃ txHashes L', applyRemoteBlockFromGossipSync W nowMs fuel block L =
    (.ok (.appliedPendingEviction block.blockHeight block.txs.length txHashes block.stateRoot), L')

/-- The announced reward is the computed one, the transactions that are not settled preview to the
announced root, and all transactions pass the checks of the apply that the preview leaves out. -/
def RightWithoutSettled (W : World) (L : Ledger) (nowMs : Nat) (block : RemoteBlockGossip)
    (producerId : Str) (txHashes : List Str) : Prop :=
  rewardForBlock W block.txs = .ok block.reward ∧
    computeStateRootAfterRemoteBlock W L nowMs (L.unsettled (block.txs.zip txHashes)) producerId
      block.totalRewardMicro = .ok block.stateRoot ∧
    ∀ p ∈ block.txs.zip txHashes, PassesApply W L p

section Paths

variable {W : World} {L : Ledger} {nowMs : Nat} {block : RemoteBlockGossip} {producerId : Str}
  {parent : Option Str} {txHashes : List Str}

theorem PassesChecks.id_ne (h : PassesChecks W L block producerId parent txHashes) :
    trim block.blockId ≠ [] := by
  rw [← h.id, trim_blockIdForBlock]
  exact blockIdForBlock_ne_nil _ _ _ _ _ _

/-- The batch of the block, with its undo record stored before it. -/
theorem apply_stored_iff (u : BlockUndoV1) (hlen : block.txs.length = txHashes.length) :
    (∃ L', applyConsensusBlockBatch W nowMs block.blockHeight block.txs txHashes producerId
      block.totalRewardMicro (L.storeBlockUndo u) = .ok (block.stateRoot, L')) ↔
      computeStateRootAfterRemoteBlock W L nowMs (L.unsettled (block.txs.zip txHashes)) producerId
        block.totalRewardMicro = .ok block.stateRoot ∧
      ∀ p ∈ block.txs.zip txHashes, PassesApply W L p := by
  rw [← Ledger.apply_root_iff block.blockHeight hlen]
  have hread := (Untouched.storeBlockUndo L u).readEq
  constructor
  · rintro ⟨L', ha⟩
    obtain ⟨M, hM, -⟩ := hread.applyBlock ha
    exact ⟨M, hM⟩
  · rintro ⟨L', ha⟩
    obtain ⟨M, hM, -⟩ := hread.symm.applyBlock ha
    exact ⟨M, hM⟩

/-- **The reorg path** takes the block exactly when it is right without its settled transactions. -/
theorem forward_ok_iff (h : PassesChecks W L block producerId parent txHashes) (L₀ : Ledger)
    (nowMs₀ : Nat) (parent₀ : Option Str) :
    (∃ L', applyBlockRecordForward W nowMs
        (block.storedRecord producerId txHashes L₀ nowMs₀ parent₀) L = (.ok (), L')) ↔
      RightWithoutSettled W L nowMs block producerId txHashes := by
  have hlen := (hashTxs_length h.hashes).symm
  constructor
  · rintro ⟨L', hrun⟩
    obtain ⟨-, hreward, happ⟩ := applyBlockRecordForward_ok hrun
    obtain ⟨L₁, ha, -⟩ := happ.run
    exact ⟨hreward, (apply_stored_iff _ hlen).mp ⟨L₁, ha⟩⟩
  · rintro ⟨hreward, hright⟩
    obtain ⟨L₁, ha⟩ := (apply_stored_iff (undoFor W nowMs { block.storedRecord producerId txHashes
      L₀ nowMs₀ parent₀ with canonical := true } L) hlen).mpr hright
    exact ⟨_, applyBlockRecordForward_of_applied h.claims hreward ⟨h.id_ne, rfl, L₁, ha, rfl⟩⟩

/-- What is left of the gossip checks is the reward. -/
theorem PassesChecks.gossipChecks_ok_iff (h : PassesChecks W L block producerId parent txHashes)
    {q : Option Str × CheckedBlock} :
    gossipChecks W L block = .ok q ↔ rewardForBlock W block.txs = .ok block.reward ∧
      q = (parent, ⟨producerId, txHashes, block.reward⟩) := by
  simp only [gossipChecks, h.producer, h.parent_eq, ok_bind, checkBlock, h.hashes, require_of h.id,
    require_of h.workload, h.claims, bind_eq_ok, require_eq_ok, mapError_eq_ok, Except.ok.injEq]
  constructor
  · rintro ⟨c, ⟨_, -, reward, hreward, _, rfl, rfl⟩, rfl⟩
    exact ⟨hreward, rfl⟩
  · rintro ⟨hreward, rfl⟩
    exact ⟨_, ⟨(), trivial, _, hreward, (), rfl, rfl⟩, rfl⟩

/-- **The gossip path** takes the block exactly when moreover its preview with the settled
transactions gives the announced root. -/
theorem gossipApplies_iff (fuel : Nat) (h : PassesChecks W L block producerId parent txHashes) :
    GossipApplies W nowMs fuel block L ↔ RightWithoutSettled W L nowMs block producerId txHashes ∧
      computeStateRootAfterRemoteBlock W L nowMs block.txs producerId block.totalRewardMicro =
        .ok block.stateRoot := by
  have hlen := (hashTxs_length h.hashes).symm
  have hsat : satAdd L.blockHeight 1 = L.blockHeight + 1 :=
    satAdd_of_le (h.height ▸ h.height_le)
  have hheight : block.blockHeight = satAdd L.blockHeight 1 := h.height.trans hsat.symm
  have hne : block.blockHeight ≠ L.blockHeight := by
    rw [h.height]
    omega
  have hlo : L.blockHeight ≤ block.blockHeight := by
    rw [h.height]
    omega
  constructor
  · rintro ⟨hashes, L', hrun⟩
    rw [gossip_eq hlo (Nat.le_of_eq hheight)] at hrun
    cases hc : gossipChecks W L block with
    | error e =>
      rw [hc] at hrun
      cases hrun
    | ok q =>
      obtain ⟨hreward, rfl⟩ := h.gossipChecks_ok_iff.mp hc
      rw [hc] at hrun
      simp only [if_neg hne, applyNext, Proc.bind_eq_ok_iff, Proc.check_eq_ok_iff, require_eq_ok,
        Proc.write_apply, Prod.mk.injEq, Proc.atomic_eq_ok_iff] at hrun
      obtain ⟨root, _, ⟨hp, rfl⟩, _, _, ⟨rfl, rfl⟩, _, _, ⟨-, rfl⟩, actual, L₁, ha, _, _,
        ⟨rfl, rfl⟩, -⟩ := hrun
      exact ⟨⟨hreward, (apply_stored_iff _ hlen).mp ⟨L₁, ha⟩⟩, hp⟩
  · rintro ⟨⟨hreward, hright⟩, hp⟩
    have hc := h.gossipChecks_ok_iff.mpr ⟨hreward, rfl⟩
    obtain ⟨L₁, ha⟩ := (apply_stored_iff (L.prepareBlockUndo W nowMs block.blockId
      block.blockHeight block.txs txHashes producerId block.totalRewardMicro) hlen).mpr hright
    obtain ⟨M, L', hdone, -, -⟩ := applyNext_done hc hheight hp ha
    refine ⟨txHashes, L', ?_⟩
    rw [gossip_eq hlo (Nat.le_of_eq hheight), hc]
    simp only [if_neg hne]
    exact hdone

end Paths

end TetCore.Consensus
