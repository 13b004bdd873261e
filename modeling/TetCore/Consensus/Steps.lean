import TetCore.Consensus.Mine
import TetCore.Ledger.ReadCongr

/-!
# The events of a node

Whatever call a node makes, its ledger changes by a few kinds of event: a block is applied on top of
the chain (`Applied`, by mining, gossip or the forward part of a reorg), the top block is unwound
(`Unwound`), or a record that is not canonical is stored. This module takes the successful runs of
the calls apart into these events.
-/

namespace TetCore.Consensus

open TetCore.Lib
open TetCore.Ledger (applyConsensusBlockBatch computeStateRootAfterRemoteBlock recordTxIndexesBatch
  ReadEq BlockFrame blockUndoKeys txIndexRows)

/-! ## The events -/

/-- The summary a block is recorded with. -/
def summaryOf (nowMs : Nat) (row : BlockRecordV1) : BlockSummary :=
  ⟨row.height, row.blockId, row.stateRoot, row.txs.length, nowMs⟩

/-- The block of `row` is applied and recorded as canonical: its undo record is stored, the batch
gives its state root, then come the summary, the record and the index rows. -/
structure Applied (W : World) (nowMs : Nat) (row : BlockRecordV1) (L L' : Ledger) : Prop where
  id_ne : trim row.blockId ≠ []
  canonical : row.canonical = true
  run : ∃ L₁, applyConsensusBlockBatch W nowMs row.height row.txs row.txHashes row.producerId
      row.reward.totalRewardMicro (L.storeBlockUndo (undoFor W nowMs row L)) =
        .ok (row.stateRoot, L₁) ∧
    L' = L₁.recorded (summaryOf nowMs row) row nowMs nowMs row.txHashes row.txs

/-- The ledger after the block `id` is unwound with the undo record `u`. -/
def unwound (nowMs : Nat) (id : Str) (block : BlockRecordV1) (u : BlockUndoV1) (L : Ledger) :
    Ledger :=
  { (L.restoreUndo u).setBlockRecordCanonical id false with
    txIndex := ((L.restoreUndo u).setBlockRecordCanonical id false).txIndex.applyBatch
      (txIndexRows nowMs block.height false 0 (block.txHashes.zip block.txs)) }

/-- The block `id`, stored as `block`, is unwound. -/
structure Unwound (nowMs : Nat) (id : Str) (block : BlockRecordV1) (L L' : Ledger) : Prop where
  record : L.blockRecordById id = some block
  lengths : block.txHashes.length = block.txs.length
  run : ∃ u, L.blockUndoById id = some u ∧ L' = unwound nowMs id block u L

/-- A branch applied block by block, each passing the checks of `apply_block_record_forward`. -/
inductive ApplyRun (W : World) (nowMs : Nat) : List BlockRecordV1 → Ledger → Ledger → Prop where
  | nil (L : Ledger) : ApplyRun W nowMs [] L L
  | cons {b : BlockRecordV1} {bs : List BlockRecordV1} {L L₁ L' : Ledger}
      (zk : validateZkTaskClaims W L b.txs = .ok ()) (reward : rewardForBlock W b.txs = .ok b.reward)
      (head : Applied W nowMs { b with canonical := true } L L₁)
      (tail : ApplyRun W nowMs bs L₁ L') : ApplyRun W nowMs (b :: bs) L L'

/-- Blocks unwound from `cur` down to the ancestor, newest first. -/
inductive UnwindRun (nowMs : Nat) (ancestor : Str) :
    Option Str → List BlockRecordV1 → Ledger → Ledger → Prop where
  | genesis (L : Ledger) : UnwindRun nowMs ancestor none [] L L
  | ancestor (L : Ledger) : UnwindRun nowMs ancestor (some ancestor) [] L L
  | cons {id : Str} {b : BlockRecordV1} {bs : List BlockRecordV1} {L L₁ L' : Ledger}
      (ne : id ≠ ancestor) (head : Unwound nowMs id b L L₁)
      (tail : UnwindRun nowMs ancestor b.parentBlockId bs L₁ L') :
      UnwindRun nowMs ancestor (some id) (b :: bs) L L'

/-- Only block records and undo records may differ. -/
def Untouched (L L' : Ledger) : Prop :=
  L' = { L with blocksById := L'.blocksById, blockUndo := L'.blockUndo }

namespace Untouched

theorem refl (L : Ledger) : Untouched L L := rfl

theorem trans {L L' L'' : Ledger} (h : Untouched L L') (h' : Untouched L' L'') :
    Untouched L L'' := by
  unfold Untouched at h h' ⊢
  rw [h', h]

theorem storeBlockUndo (L : Ledger) (u : BlockUndoV1) : Untouched L (L.storeBlockUndo u) := rfl

theorem readEq {L L' : Ledger} (h : Untouched L L') : ReadEq L' L := by
  unfold Untouched at h
  rw [h]
  exact ReadEq.hidden L _ _ _

end Untouched

/-! ## Applying -/

section Apply

variable {W : World} {nowMs : Nat} {L L' : Ledger}

/-- The ZK claims of a block read the readable state. -/
theorem validateZkTaskClaims_readEq (h : ReadEq L L') (txs : List SignedTxEnvelopeV1) :
    validateZkTaskClaims W L txs = validateZkTaskClaims W L' txs := by
  have htask : ∀ id, L.aiWorkloadTask id = L'.aiWorkloadTask id := by
    intro id
    unfold Ledger.aiWorkloadTask
    rw [h.get rfl]
  have hclaim : ∀ seen id, claimTask L seen id = claimTask L' seen id := by
    intro seen id
    unfold claimTask
    rw [htask]
  unfold validateZkTaskClaims
  generalize ([] : List Str) = seen
  induction txs generalizing seen with
  | nil => rfl
  | cons env txs ih =>
    unfold claimTasks
    simp only [hclaim, ih]

theorem Applied.lengths {row : BlockRecordV1} (h : Applied W nowMs row L L') :
    row.txs.length = row.txHashes.length := by
  obtain ⟨L₁, ha, -⟩ := h.run
  exact Ledger.apply_lengths ha

/-- The recording steps that follow a committed batch. -/
theorem Applied.of_records {row : BlockRecordV1} {L₁ L₂ : Ledger} (hc : row.canonical = true)
    (ha : applyConsensusBlockBatch W nowMs row.height row.txs row.txHashes row.producerId
      row.reward.totalRewardMicro (L.storeBlockUndo (undoFor W nowMs row L)) =
        .ok (row.stateRoot, L₁))
    (hr : Ledger.recordBlockRecord nowMs row
      (L₁.recordBlockSummary nowMs row.height row.blockId row.stateRoot row.txs.length) = .ok L₂)
    (hi : recordTxIndexesBatch nowMs row.height row.txHashes row.txs true L₂ = .ok L') :
    Applied W nowMs row L L' := by
  obtain ⟨hne, heq⟩ := Ledger.recorded_of_ok hc hr hi
  exact ⟨hne, hc, L₁, ha, heq⟩

theorem applyBlockRecordForward_ok {b : BlockRecordV1} {u : Unit}
    (h : applyBlockRecordForward W nowMs b L = (.ok u, L')) :
    validateZkTaskClaims W L b.txs = .ok () ∧ rewardForBlock W b.txs = .ok b.reward ∧
      Applied W nowMs { b with canonical := true } L L' := by
  simp only [applyBlockRecordForward, Proc.bind_eq_ok_iff, Proc.check_eq_ok_iff, require_eq_ok,
    Proc.write_apply, Prod.mk.injEq, Proc.atomic_eq_ok_iff, Proc.update_eq_ok_iff] at h
  obtain ⟨_, _, ⟨hzk, rfl⟩, reward, _, ⟨hreward, rfl⟩, _, _, ⟨heq, rfl⟩, _, _, ⟨-, rfl⟩, root, L₁,
    ha, _, _, ⟨hroot, rfl⟩, _, _, ⟨-, rfl⟩, _, L₂, hr, hi⟩ := h
  subst heq hroot
  exact ⟨hzk, hreward, Applied.of_records rfl ha hr hi⟩

theorem applyBlockRecordForward_of_applied {b : BlockRecordV1}
    (hzk : validateZkTaskClaims W L b.txs = .ok ()) (hreward : rewardForBlock W b.txs = .ok b.reward)
    (h : Applied W nowMs { b with canonical := true } L L') :
    applyBlockRecordForward W nowMs b L = (.ok (), L') := by
  obtain ⟨hne, -, L₁, ha, rfl⟩ := h
  have hlen := Ledger.apply_lengths ha
  obtain ⟨L₂, hr⟩ := Ledger.exists_recordBlockRecord nowMs { b with canonical := true }
    (L₁.recordBlockSummary nowMs b.height b.blockId b.stateRoot b.txs.length) hne
  have hi : recordTxIndexesBatch nowMs b.height b.txHashes b.txs true L₂ = .ok _ :=
    Ledger.recordTxIndexesBatch_eq_ok.mpr ⟨hlen.symm, rfl⟩
  obtain ⟨-, hrec⟩ := Ledger.recorded_of_ok rfl hr hi
  simp only [applyBlockRecordForward, Proc.bind_eq_ok_iff, Proc.check_eq_ok_iff, require_eq_ok,
    Proc.write_apply, Prod.mk.injEq, Proc.atomic_eq_ok_iff, Proc.update_eq_ok_iff]
  refine ⟨(), L, ⟨hzk, rfl⟩, b.reward, L, ⟨hreward, rfl⟩, (), L, ⟨rfl, rfl⟩, (), _, ⟨trivial, rfl⟩,
    b.stateRoot, L₁, ha, (), L₁, ⟨rfl, rfl⟩, (), _, ⟨trivial, rfl⟩, (), L₂, hr, ?_⟩
  rw [hi, hrec]
  rfl

theorem applyBranch_ok : ∀ {bs : List BlockRecordV1} {L L' : Ledger} {u : Unit},
    applyBranch W nowMs bs L = (.ok u, L') → ApplyRun W nowMs bs L L' := by
  intro bs
  induction bs with
  | nil =>
    intro L L' u h
    cases h
    exact .nil L
  | cons b bs ih =>
    intro L L' u h
    simp only [applyBranch, Proc.bind_eq_ok_iff] at h
    obtain ⟨_, L₁, hb, hbs⟩ := h
    obtain ⟨hzk, hreward, ha⟩ := applyBlockRecordForward_ok hb
    exact .cons hzk hreward ha (ih hbs)

theorem ApplyRun.applyBranch {bs : List BlockRecordV1} (h : ApplyRun W nowMs bs L L') :
    applyBranch W nowMs bs L = (.ok (), L') := by
  induction h with
  | nil L => rfl
  | cons hzk hreward ha _ ih =>
    rw [Consensus.applyBranch, Proc.bind_of_ok (applyBlockRecordForward_of_applied hzk hreward ha)]
    exact ih

end Apply

/-! ## Unwinding -/

section Unwind

variable {nowMs : Nat} {L L' : Ledger}

theorem unwindBlock_ok {id : Str} {b : BlockRecordV1} {u : Unit}
    (h : unwindBlock nowMs id b L = (.ok u, L')) :
    b.txHashes.length = b.txs.length ∧
      ∃ u, L.blockUndoById id = some u ∧ L' = unwound nowMs id b u L := by
  simp only [unwindBlock, Proc.bind_eq_ok_iff, Proc.atomic_eq_ok_iff, Proc.write_apply,
    Prod.mk.injEq, Proc.update_eq_ok_iff, Ledger.applyBlockUndo] at h
  obtain ⟨u, L₁, hu, _, _, ⟨-, rfl⟩, hi⟩ := h
  cases hundo : L.blockUndoById id with
  | none =>
    rw [hundo] at hu
    cases hu
  | some undo =>
    rw [hundo] at hu
    cases hu
    obtain ⟨hlen, rfl⟩ := Ledger.recordTxIndexesBatch_eq_ok.mp hi
    exact ⟨hlen, _, rfl, rfl⟩

theorem unwindBlock_of_undo {id : Str} {b : BlockRecordV1} {u : BlockUndoV1}
    (hlen : b.txHashes.length = b.txs.length) (hu : L.blockUndoById id = some u) :
    unwindBlock nowMs id b L = (.ok (), unwound nowMs id b u L) := by
  simp only [unwindBlock, Proc.bind_eq_ok_iff, Proc.atomic_eq_ok_iff, Proc.write_apply,
    Prod.mk.injEq, Proc.update_eq_ok_iff, Ledger.applyBlockUndo]
  refine ⟨u, L.restoreUndo u, by rw [hu], (), _, ⟨trivial, rfl⟩, ?_⟩
  exact Ledger.recordTxIndexesBatch_eq_ok.mpr ⟨hlen, rfl⟩

theorem blockToUnwind_eq_ok {id : Str} {b : BlockRecordV1} :
    blockToUnwind id L = .ok b ↔ L.blockRecordById id = some b := by
  unfold blockToUnwind
  cases L.blockRecordById id <;> simp

/-- One step of the unwind whose record and undo record are there. -/
theorem unwindTo_succ {ancestor id : Str} {b : BlockRecordV1} {u : BlockUndoV1} (fuel : Nat)
    (hne : id ≠ ancestor) (hb : L.blockRecordById id = some b)
    (hlen : b.txHashes.length = b.txs.length) (hu : L.blockUndoById id = some u) :
    unwindTo nowMs ancestor (fuel + 1) (some id) L =
      unwindTo nowMs ancestor fuel b.parentBlockId (unwound nowMs id b u L) := by
  have hobs : (Proc.observe (blockToUnwind id) : Proc Ledger String BlockRecordV1) L = (.ok b, L) :=
    Proc.observe_eq_ok_iff.mpr ⟨blockToUnwind_eq_ok.mpr hb, rfl⟩
  rw [unwindTo, if_neg hne]
  refine (Proc.bind_of_ok hobs).trans ?_
  exact Proc.bind_of_ok (unwindBlock_of_undo hlen hu)

theorem unwindTo_ok {ancestor : Str} : ∀ {fuel : Nat} {cur : Option Str} {L L' : Ledger} {u : Unit},
    unwindTo nowMs ancestor fuel cur L = (.ok u, L') →
      ∃ bs, UnwindRun nowMs ancestor cur bs L L' := by
  intro fuel
  induction fuel with
  | zero =>
    intro cur L L' u h
    cases cur with
    | none =>
      cases h
      exact ⟨[], .genesis L⟩
    | some id => cases h
  | succ fuel ih =>
    intro cur L L' u h
    cases cur with
    | none =>
      cases h
      exact ⟨[], .genesis L⟩
    | some id =>
      rw [unwindTo] at h
      by_cases hid : id = ancestor
      · subst hid
        rw [if_pos rfl] at h
        cases h
        exact ⟨[], .ancestor L⟩
      · rw [if_neg hid] at h
        simp only [Proc.bind_eq_ok_iff, Proc.observe_eq_ok_iff] at h
        obtain ⟨b, _, ⟨hb, rfl⟩, _, L₁, hu, hrest⟩ := h
        obtain ⟨hlen, hund⟩ := unwindBlock_ok hu
        obtain ⟨bs, hbs⟩ := ih hrest
        exact ⟨b :: bs, .cons hid ⟨blockToUnwind_eq_ok.mp hb, hlen, hund⟩ hbs⟩

theorem UnwindRun.step {ancestor id : Str} {bs : List BlockRecordV1}
    (h : UnwindRun nowMs ancestor (some id) bs L L') (hne : id ≠ ancestor) :
    ∃ b bs' L₁, Unwound nowMs id b L L₁ ∧
      UnwindRun nowMs ancestor b.parentBlockId bs' L₁ L' := by
  cases h with
  | ancestor => exact absurd rfl hne
  | cons _ hhead htail => exact ⟨_, _, _, hhead, htail⟩

/-- The same records, up to the canonical flag. -/
def SameRecords (L L' : Ledger) : Prop :=
  ∀ id, (L'.blockRecordById id).map (fun r => { r with canonical := false }) =
    (L.blockRecordById id).map fun r => { r with canonical := false }

theorem SameRecords.some {id : Str} {b : BlockRecordV1} (h : SameRecords L L')
    (hb : L.blockRecordById id = some b) :
    ∃ b', L'.blockRecordById id = some b' ∧
      { b' with canonical := false } = { b with canonical := false } := by
  have := h id
  rw [hb] at this
  cases hb' : L'.blockRecordById id with
  | none =>
    rw [hb'] at this
    cases this
  | some b' =>
    rw [hb'] at this
    exact ⟨b', rfl, Option.some.inj this⟩

/-- Setting the flag of a record filed under its own id changes nothing else. -/
theorem setBlockRecordCanonical_same {id : Str} {b : BlockRecordV1} {c : Bool}
    (hb : L.blockRecordById id = some b) (hfiled : trim b.blockId = trim id) :
    SameRecords L (L.setBlockRecordCanonical id c) := by
  intro a
  simp only [Ledger.setBlockRecordCanonical, hb]
  simp only [Ledger.blockRecordById, Tree.get_insert]
  by_cases ha : b.blockId = trim a
  · have htrim : trim a = trim id := by rw [← hfiled, ha, trim_trim]
    rw [if_pos ha, htrim]
    have hb' : L.blocksById.get (trim id) = some b := hb
    rw [hb']
    rfl
  · rw [if_neg ha]

theorem setBlockRecordCanonical_rest (id : Str) (c : Bool) (L : Ledger) :
    L.setBlockRecordCanonical id c =
      { L with blocksById := (L.setBlockRecordCanonical id c).blocksById } := by
  unfold Ledger.setBlockRecordCanonical
  split <;> rfl

theorem unwound_readEq (id : Str) (b : BlockRecordV1) (u : BlockUndoV1) (L : Ledger) :
    ReadEq (unwound nowMs id b u L) (L.restoreUndo u) := by
  unfold unwound
  rw [setBlockRecordCanonical_rest]
  exact ⟨rfl, fun _ => rfl, rfl, rfl, rfl, rfl, rfl, rfl, rfl⟩

theorem unwound_blockUndo (id : Str) (b : BlockRecordV1) (u : BlockUndoV1) (L : Ledger) :
    (unwound nowMs id b u L).blockUndo = L.blockUndo := by
  unfold unwound
  rw [setBlockRecordCanonical_rest]
  rfl

theorem unwound_blocksById (id : Str) (b : BlockRecordV1) (u : BlockUndoV1) (L : Ledger) :
    (unwound nowMs id b u L).blocksById = (L.setBlockRecordCanonical id false).blocksById := by
  unfold unwound Ledger.setBlockRecordCanonical
  simp only [Ledger.blockRecordById, Ledger.restoreUndo]
  split <;> rfl

theorem unwound_sameRecords {id : Str} {b b' : BlockRecordV1} {u : BlockUndoV1}
    (hb : L.blockRecordById id = some b) (hfiled : trim b.blockId = trim id) :
    SameRecords L (unwound nowMs id b' u L) := by
  intro a
  have := setBlockRecordCanonical_same (c := false) hb hfiled a
  simp only [Ledger.blockRecordById, unwound_blocksById] at this ⊢
  exact this

theorem SameRecords.trans {L'' : Ledger} (h : SameRecords L L') (h' : SameRecords L' L'') :
    SameRecords L L'' := fun id => (h' id).trans (h id)

end Unwind

/-! ## Reorgs -/

section Reorgs

variable {W : World} {nowMs fuel : Nat} {L L' : Ledger}

theorem planReorg_ok {newTipId : Str} {plan : ReorgPlan}
    (h : planReorg L fuel newTipId = .ok (some plan)) :
    L.getChainTip = some plan.tip ∧ ∃ newTip, L.blockRecordById newTipId = some newTip ∧
      plan.tip.cumulativeWeight < newTip.cumulativeWeight ∧
      findCommonAncestor L fuel newTip.blockId = .ok (some plan.ancestor) ∧
      branchFromAncestorToTip L fuel plan.ancestor newTip.blockId = .ok plan.branch := by
  unfold planReorg at h
  cases htip : L.getChainTip with
  | none =>
    rw [htip] at h
    cases h
  | some tip =>
    simp only [htip] at h
    cases hrec : L.blockRecordById newTipId with
    | none =>
      rw [hrec] at h
      cases h
    | some newTip =>
      simp only [hrec] at h
      by_cases hw : newTip.cumulativeWeight ≤ tip.cumulativeWeight
      · rw [if_pos hw] at h
        cases h
      · rw [if_neg hw] at h
        split at h <;> try cases h
        rename_i ancestor hanc
        split at h <;> cases h
        rename_i branch hbranch
        exact ⟨rfl, newTip, rfl, Nat.lt_of_not_le hw, hanc, hbranch⟩

/-- **A successful reorg** unwinds to the common ancestor and applies the branch. -/
theorem reorgToBranch_ok_true {newTipId : Str}
    (h : reorgToBranch W nowMs fuel newTipId L = (.ok true, L')) :
    ∃ plan M bs, planReorg L fuel newTipId = .ok (some plan) ∧
      UnwindRun nowMs plan.ancestor (some plan.tip.blockId) bs L M ∧
      ApplyRun W nowMs plan.branch M L' := by
  simp only [reorgToBranch, Proc.bind_eq_ok_iff, Proc.observe_eq_ok_iff] at h
  obtain ⟨plan?, _, ⟨hplan, rfl⟩, h⟩ := h
  cases plan? with
  | none => cases h
  | some plan =>
    simp only [runReorg, Proc.bind_eq_ok_iff, Proc.pure_apply] at h
    obtain ⟨_, L₂, ⟨_, M, hu, ha⟩, h⟩ := h
    cases h
    obtain ⟨bs, hbs⟩ := unwindTo_ok hu
    exact ⟨plan, M, bs, hplan, hbs, applyBranch_ok ha⟩

/-- A reorg that declines has no heavier branch to apply. -/
theorem reorgToBranch_declined {newTipId : Str}
    (h : reorgToBranch W nowMs fuel newTipId L = (.ok false, L')) :
    planReorg L fuel newTipId = .ok none ∧ L' = L := by
  simp only [reorgToBranch, Proc.bind_eq_ok_iff, Proc.observe_eq_ok_iff] at h
  obtain ⟨plan?, _, ⟨hplan, rfl⟩, h⟩ := h
  cases plan? with
  | none =>
    cases h
    exact ⟨hplan, rfl⟩
  | some plan =>
    simp only [Proc.bind_eq_ok_iff, Proc.pure_apply] at h
    obtain ⟨_, L₂, -, h⟩ := h
    cases h

/-- A reorg that declines changes nothing. -/
theorem reorgToBranch_ok_false {newTipId : Str}
    (h : reorgToBranch W nowMs fuel newTipId L = (.ok false, L')) : L' = L :=
  (reorgToBranch_declined h).2

theorem planReorg_none {newTipId : Str} {tip : ChainTipV1} {newTip : BlockRecordV1}
    (h : planReorg L fuel newTipId = .ok none) (htip : L.getChainTip = some tip)
    (hrec : L.blockRecordById newTipId = some newTip) :
    newTip.cumulativeWeight ≤ tip.cumulativeWeight := by
  unfold planReorg at h
  simp only [htip, hrec] at h
  by_cases hw : newTip.cumulativeWeight ≤ tip.cumulativeWeight
  · exact hw
  · rw [if_neg hw] at h
    split at h <;> try cases h
    split at h <;> cases h

end Reorgs

/-! ## Gossip -/

section Gossip

variable {W : World} {nowMs fuel : Nat} {L L' : Ledger} {block : RemoteBlockGossip}

/-- The checks of a gossiped block: the parent it is recorded with, and what they establish. -/
def gossipChecks (W : World) (L : Ledger) (block : RemoteBlockGossip) :
    Except RemoteBlockApplyError (Option Str × CheckedBlock) := do
  let producerId ← checkProducer W L block.blockHeight block.producerId
  let parentBlockId ← gossipParent L block.blockHeight block.parentBlockId
  let c ← checkBlock W L block producerId parentBlockId
  .ok (parentBlockId, c)

/-- The path of a block of the current or the next height. -/
theorem gossip_eq (hlo : L.blockHeight ≤ block.blockHeight)
    (hhi : block.blockHeight ≤ satAdd L.blockHeight 1) :
    applyRemoteBlockFromGossipSync W nowMs fuel block L = match gossipChecks W L block with
      | .error e => (.err e, L)
      | .ok (parent, c) =>
        if block.blockHeight = L.blockHeight then applyFork W nowMs fuel block c parent L
        else applyNext W nowMs block c parent L := by
  unfold applyRemoteBlockFromGossipSync gossipChecks
  rw [Proc.bind_of_ok (Proc.read_apply _ _), if_neg (by omega), if_neg (by omega)]
  cases hp : checkProducer W L block.blockHeight block.producerId with
  | error e =>
    simp only [Proc.bind_apply, Proc.check, hp, error_bind]
    rfl
  | ok producer =>
    cases hpar : gossipParent L block.blockHeight block.parentBlockId with
    | error e =>
      simp only [Proc.bind_apply, Proc.check, hp, hpar, ok_bind, error_bind]
      rfl
    | ok parent =>
      cases hc : checkBlock W L block producer parent with
      | error e =>
        simp only [Proc.bind_apply, Proc.check, hp, hpar, hc, ok_bind, error_bind]
        rfl
      | ok c =>
        simp only [Proc.bind_apply, Proc.check, hp, hpar, hc, ok_bind]
        split <;> rfl

theorem gossipChecks_ok {parent : Option Str} {c : CheckedBlock}
    (h : gossipChecks W L block = .ok (parent, c)) :
    gossipParent L block.blockHeight block.parentBlockId = .ok parent ∧
      hashTxs W block.txs [] = .ok c.txHashes ∧
      block.blockId = blockIdForBlock W block.blockHeight (parent.getD []) block.stateRoot
        c.txHashes c.producerId ∧
      validateZkTaskClaims W L block.txs = .ok () ∧ rewardForBlock W block.txs = .ok c.reward := by
  simp only [gossipChecks, checkBlock, bind_eq_ok, require_eq_ok, mapError_eq_ok, Except.ok.injEq,
    Prod.mk.injEq] at h
  obtain ⟨producer, -, _, hpar, _, ⟨hashes, hhash, _, hid, _, -, _, hzk, reward, hreward, _, -, rfl⟩,
    rfl, rfl⟩ := h
  exact ⟨hpar, hhash, hid.symm, hzk, hreward⟩

/-- **A gossiped block** is ignored or refused, a fork of the current height, or the next block. -/
theorem gossip_cases {r : Outcome RemoteBlockApplyError RemoteBlockSyncOutcome}
    (h : applyRemoteBlockFromGossipSync W nowMs fuel block L = (r, L')) :
    L' = L ∨ ∃ parent c, gossipChecks W L block = .ok (parent, c) ∧
      (block.blockHeight = L.blockHeight ∧ applyFork W nowMs fuel block c parent L = (r, L') ∨
        L.blockHeight < block.blockHeight ∧ block.blockHeight = satAdd L.blockHeight 1 ∧
          applyNext W nowMs block c parent L = (r, L')) := by
  by_cases hlo : block.blockHeight < L.blockHeight
  · left
    unfold applyRemoteBlockFromGossipSync at h
    rw [Proc.bind_of_ok (Proc.read_apply _ _), if_pos hlo] at h
    cases h
    rfl
  by_cases hhi : satAdd L.blockHeight 1 < block.blockHeight
  · left
    unfold applyRemoteBlockFromGossipSync at h
    rw [Proc.bind_of_ok (Proc.read_apply _ _), if_neg hlo, if_pos hhi] at h
    cases h
    rfl
  rw [gossip_eq (by omega) (by omega)] at h
  cases hc : gossipChecks W L block with
  | error e =>
    rw [hc] at h
    cases h
    exact Or.inl rfl
  | ok p =>
    obtain ⟨parent, c⟩ := p
    rw [hc] at h
    simp only at h
    refine Or.inr ⟨parent, c, rfl, ?_⟩
    by_cases heq : block.blockHeight = L.blockHeight
    · rw [if_pos heq] at h
      exact Or.inl ⟨heq, h⟩
    · rw [if_neg heq] at h
      refine Or.inr ⟨by omega, ?_, h⟩
      simp only [satAdd] at hhi ⊢
      omega

theorem hashTxs_length : ∀ {txs : List SignedTxEnvelopeV1} {seen hashes : List Str},
    hashTxs W txs seen = .ok hashes → hashes.length = txs.length := by
  intro txs
  induction txs with
  | nil =>
    intro seen hashes h
    cases h
    rfl
  | cons env txs ih =>
    intro seen hashes h
    unfold hashTxs at h
    cases htx : txHashForEnv W env with
    | error e =>
      rw [htx] at h
      cases h
    | ok txHash =>
      simp only [htx, bind_eq_ok, require_eq_ok, Except.ok.injEq] at h
      obtain ⟨_, -, rest, hrest, rfl⟩ := h
      rw [List.length_cons, List.length_cons, ih hrest]

theorem parentBlockIdForHeight_congr {M : Ledger} (hc : M.canonicalByHeight = L.canonicalByHeight)
    (ht : M.chainTip = L.chainTip) (height : Nat) :
    parentBlockIdForHeight M height = parentBlockIdForHeight L height := by
  unfold parentBlockIdForHeight Ledger.canonicalBlockIdAtHeight Ledger.getChainTip
  rw [hc, ht]

/-- A block whose parent is the canonical one, or given, is recorded with that parent. -/
theorem recordedParent_eq {M : Ledger} {height : Nat} {parent : Option Str}
    (hc : M.canonicalByHeight = L.canonicalByHeight) (ht : M.chainTip = L.chainTip)
    (h : parent = none → parentBlockIdForHeight L height = .ok none) :
    recordedParent M height parent = .ok parent := by
  cases parent with
  | some p => rfl
  | none => rw [recordedParent, parentBlockIdForHeight_congr hc ht, h rfl]

/-- The parent of the next block: the canonical one, or one of its own when there is none. -/
theorem gossipParent_next {height : Nat} {explicit parent : Option Str}
    (hheight : height = satAdd L.blockHeight 1) (h : gossipParent L height explicit = .ok parent) :
    ∃ expected, parentBlockIdForHeight L height = .ok expected ∧
      (parent = expected ∨ expected = none ∧
        parent = (explicit.map trim).filter fun p => !p.isEmpty) := by
  rw [gossipParent, if_pos hheight, resolveParentBlockId] at h
  cases hp : parentBlockIdForHeight L height with
  | error e =>
    rw [hp] at h
    cases h
  | ok expected =>
    refine ⟨expected, rfl, ?_⟩
    simp only [hp] at h
    split at h
    · split at h
      · cases h
        left
        congr
      · cases h
    · rename_i hexp
      cases h
      exact Or.inr ⟨rfl, hexp.symm⟩
    · cases h
      exact Or.inl rfl

/-- Applying a batch leaves the chain alone. -/
theorem applyBlock_chain {undo : BlockUndoV1} {height reward : Nat}
    {txs : List SignedTxEnvelopeV1} {hashes : List Str} {producer root : Str}
    (ha : applyConsensusBlockBatch W nowMs height txs hashes producer reward
      (L.storeBlockUndo undo) = .ok (root, L')) :
    L'.canonicalByHeight = L.canonicalByHeight ∧ L'.chainTip = L.chainTip ∧
      L'.blocksById = L.blocksById := by
  obtain ⟨hf, -⟩ := Ledger.apply_frame_stored ha
  rw [hf.rest]
  exact ⟨rfl, rfl, rfl⟩

/-- The ledger a block is recorded in: the records are those before the block, the weights of the
producers those after it. -/
structure RecordedIn (M L L' : Ledger) : Prop where
  records : M.blocksById = L.blocksById
  weights : M.metaTree = L'.metaTree

/-- A block whose parent is settled can be recorded. -/
theorem exists_recordBlockRecord (nowMs : Nat) (args : RecordBlockArgs) (M : Ledger)
    {parent : Option Str} (hp : recordedParent M args.blockHeight args.parentBlockId = .ok parent)
    (hne : trim args.blockId ≠ []) :
    ∃ M', recordBlockRecord nowMs args M = .ok M' ∧
      Ledger.recordBlockRecord nowMs (args.row M nowMs parent) M = .ok M' := by
  obtain ⟨M', hM'⟩ := Ledger.exists_recordBlockRecord nowMs (args.row M nowMs parent) M hne
  refine ⟨M', ?_, hM'⟩
  rw [recordBlockRecord, hp, ok_bind, hM']
  rfl

/-- **The next block goes through** when its preview and its batch give the root it claims. -/
theorem applyNext_done {parent : Option Str} {c : CheckedBlock} {L₁ : Ledger}
    (hc : gossipChecks W L block = .ok (parent, c))
    (hheight : block.blockHeight = satAdd L.blockHeight 1)
    (hp : computeStateRootAfterRemoteBlock W L nowMs block.txs c.producerId
      c.reward.totalRewardMicro = .ok block.stateRoot)
    (ha : applyConsensusBlockBatch W nowMs block.blockHeight block.txs c.txHashes c.producerId
      c.reward.totalRewardMicro (L.storeBlockUndo (L.prepareBlockUndo W nowMs block.blockId
        block.blockHeight block.txs c.txHashes c.producerId c.reward.totalRewardMicro)) =
        .ok (block.stateRoot, L₁)) :
    ∃ M L', applyNext W nowMs block c parent L = (.ok (.appliedPendingEviction block.blockHeight
        block.txs.length c.txHashes block.stateRoot), L') ∧ RecordedIn M L L' ∧
      Applied W nowMs ((block.recordArgs c parent true).row M nowMs parent) L L' := by
  obtain ⟨hpar, hhash, hid, -, -⟩ := gossipChecks_ok hc
  obtain ⟨hcan, htip, hrecords⟩ := applyBlock_chain ha
  have hne : trim block.blockId ≠ [] := by
    rw [hid, trim_blockIdForBlock]
    exact blockIdForBlock_ne_nil _ _ _ _ _ _
  have hnone : parent = none → parentBlockIdForHeight L block.blockHeight = .ok none := by
    rintro rfl
    obtain ⟨expected, hexp, heq | ⟨heq, -⟩⟩ := gossipParent_next hheight hpar
    · rw [hexp, heq]
    · rw [hexp, heq]
  -- the records cannot fail: the parent is settled and the id is not empty
  obtain ⟨L₂, hr, hr'⟩ := exists_recordBlockRecord nowMs (block.recordArgs c parent true)
    (L₁.recordBlockSummary nowMs block.blockHeight block.blockId block.stateRoot block.txs.length)
    (recordedParent_eq hcan htip hnone) hne
  have hi : recordTxIndexesBatch nowMs block.blockHeight c.txHashes block.txs true L₂ = .ok _ :=
    Ledger.recordTxIndexesBatch_eq_ok.mpr ⟨hashTxs_length hhash, rfl⟩
  obtain ⟨-, hrec⟩ := Ledger.recorded_of_ok rfl hr' hi
  refine ⟨_, _, ?_, ⟨hrecords, (congrArg Ledger.metaTree hrec).symm⟩,
    Applied.of_records rfl ha hr' hi⟩
  unfold applyNext
  simp only [Proc.bind_apply, Proc.check, Proc.atomic, Proc.update, Proc.write_apply, hp, require,
    if_true, ha, hr, hi]
  rfl

/-- **The next block**: refused with at most its undo record written, applied with another root
than it claims, or applied and recorded. -/
theorem applyNext_cases {parent : Option Str} {c : CheckedBlock}
    {r : Outcome RemoteBlockApplyError RemoteBlockSyncOutcome}
    (hc : gossipChecks W L block = .ok (parent, c))
    (hheight : block.blockHeight = satAdd L.blockHeight 1)
    (h : applyNext W nowMs block c parent L = (r, L')) :
    (∃ e, r = .err e) ∧ Untouched L L' ∨
      (∃ e root, r = .err e ∧ root ≠ block.stateRoot ∧
        computeStateRootAfterRemoteBlock W L nowMs block.txs c.producerId
          c.reward.totalRewardMicro = .ok block.stateRoot ∧
        applyConsensusBlockBatch W nowMs block.blockHeight block.txs c.txHashes c.producerId
          c.reward.totalRewardMicro (L.storeBlockUndo (L.prepareBlockUndo W nowMs block.blockId
            block.blockHeight block.txs c.txHashes c.producerId c.reward.totalRewardMicro)) =
            .ok (root, L')) ∨
      ∃ out M, r = .ok out ∧ RecordedIn M L L' ∧
        Applied W nowMs ((block.recordArgs c parent true).row M nowMs parent) L L' := by
  unfold applyNext at h
  cases hp : computeStateRootAfterRemoteBlock W L nowMs block.txs c.producerId
      c.reward.totalRewardMicro with
  | error e =>
    simp only [Proc.bind_apply, Proc.check, hp] at h
    cases h
    exact Or.inl ⟨⟨_, rfl⟩, .refl L⟩
  | ok root =>
    by_cases hroot : root = block.stateRoot
    · subst hroot
      cases ha : applyConsensusBlockBatch W nowMs block.blockHeight block.txs c.txHashes
          c.producerId c.reward.totalRewardMicro (L.storeBlockUndo (L.prepareBlockUndo W nowMs
            block.blockId block.blockHeight block.txs c.txHashes c.producerId
            c.reward.totalRewardMicro)) with
      | error e =>
        simp only [Proc.bind_apply, Proc.check, Proc.atomic, Proc.write_apply, hp, require, if_true,
          ha] at h
        cases h
        exact Or.inl ⟨⟨_, rfl⟩, .storeBlockUndo L _⟩
      | ok p =>
        obtain ⟨actual, L₁⟩ := p
        by_cases hact : actual = block.stateRoot
        · subst hact
          obtain ⟨M, L₃, hdone, hM, happ⟩ := applyNext_done hc hheight hp ha
          rw [applyNext, h] at hdone
          cases hdone
          exact Or.inr (Or.inr ⟨_, M, rfl, hM, happ⟩)
        · simp only [Proc.bind_apply, Proc.check, Proc.atomic, Proc.write_apply, hp, require,
            if_true, ha, if_neg hact] at h
          cases h
          exact Or.inr (Or.inl ⟨_, _, rfl, hact, rfl, rfl⟩)
    · simp only [Proc.bind_apply, Proc.check, hp, require, if_neg hroot] at h
      cases h
      exact Or.inl ⟨⟨_, rfl⟩, .refl L⟩

/-- The ledger with the record of a fork, if it could be stored. -/
def forkRecorded (nowMs : Nat) (block : RemoteBlockGossip) (c : CheckedBlock)
    (parent : Option Str) (L : Ledger) : Ledger :=
  valueOr (recordBlockRecord nowMs (block.recordArgs c parent false) L) L

/-- **A block of the current height** is skipped, or recorded as a fork and tried as a reorg. -/
theorem applyFork_cases {parent : Option Str} {c : CheckedBlock}
    {r : Outcome RemoteBlockApplyError RemoteBlockSyncOutcome}
    (h : applyFork W nowMs fuel block c parent L = (r, L')) :
    (∃ out, r = .ok out) ∧ L' = L ∨
      ∃ summary r', L.blockSummaryByHeight block.blockHeight = some summary ∧
        summary.blockId ≠ block.blockId ∧
        reorgToBranch W nowMs fuel block.blockId (forkRecorded nowMs block c parent L) = (r', L') ∧
        ((∃ b out, r' = .ok b ∧ r = .ok out) ∨ (∃ e, r' = .err e ∧ r = .err (.ledger e)) ∨
          r' = .hang ∧ r = .hang) := by
  unfold applyFork at h
  rw [Proc.bind_of_ok (Proc.read_apply _ _)] at h
  cases hs : L.blockSummaryByHeight block.blockHeight with
  | none =>
    rw [hs] at h
    cases h
    exact Or.inl ⟨⟨_, rfl⟩, rfl⟩
  | some summary =>
    simp only [hs] at h
    by_cases hid : summary.blockId = block.blockId
    · left
      simp only [if_pos hid, Proc.bind_apply, Proc.pure_apply, Bool.false_eq_true, if_false] at h
      split at h <;> cases h <;> exact ⟨⟨_, rfl⟩, rfl⟩
    · right
      refine ⟨summary, ?_⟩
      simp only [if_neg hid, Proc.bind_apply, Proc.write_apply] at h
      rcases hreorg : reorgToBranch W nowMs fuel block.blockId (forkRecorded nowMs block c parent L)
        with ⟨r', L₁⟩
      rw [forkRecorded] at hreorg
      simp only [Proc.mapErr, hreorg] at h
      cases r' with
      | hang =>
        cases h
        exact ⟨_, rfl, hid, rfl, Or.inr (Or.inr ⟨rfl, rfl⟩)⟩
      | err e =>
        cases h
        exact ⟨_, rfl, hid, rfl, Or.inr (Or.inl ⟨e, rfl, rfl⟩)⟩
      | ok b =>
        simp only at h
        split at h
        · cases h
          exact ⟨_, rfl, hid, rfl, Or.inl ⟨b, _, rfl, rfl⟩⟩
        · split at h <;> cases h <;> exact ⟨_, rfl, hid, rfl, Or.inl ⟨b, _, rfl, rfl⟩⟩

end Gossip

end TetCore.Consensus

/-! ## Blocks to evaluate the model on -/

namespace TetCore.Sample

open TetCore.Lib TetCore.Consensus

/-- A block of `node` that claims the state root `root`, as a peer sends it. -/
def claimed (W : World) (height : Nat) (parent : Option Str) (txs : List SignedTxEnvelopeV1)
    (root : Str) : RemoteBlockGossip :=
  let hashes := txs.map fun env => valueOr (txHashForEnv W env) []
  let reward := valueOr (rewardForBlock W txs) ⟨0, 0, 0⟩
  ⟨height, blockIdForBlock W height (parent.getD []) root hashes node, parent, node,
    reward.baseRewardMicro, reward.computeRewardMicro, reward.totalRewardMicro, root, txs⟩

/-- A block of `node` on top of `L`, with the root a preview gives it. -/
def block (W : World) (L : Ledger) (height : Nat) (parent : Option Str)
    (txs : List SignedTxEnvelopeV1) : RemoteBlockGossip :=
  claimed W height parent txs (valueOr (Ledger.computeStateRootAfterRemoteBlock W L 0 txs node
    (valueOr (rewardForBlock W txs) ⟨0, 0, 0⟩).totalRewardMicro) [])

/-- The ledger after a gossiped block. -/
def gossiped (W : World) (b : RemoteBlockGossip) (L : Ledger) : Ledger :=
  (applyRemoteBlockFromGossipSync W 0 8 b L).2

/-- The ledger after a backfilled candidate. -/
def backfilled (W : World) (b : RemoteBlockGossip) (L : Ledger) : Ledger :=
  (validateAndRecordBackfillCandidate W 0 b L).2

theorem gossiped_run {W : World} {b : RemoteBlockGossip} {L : Ledger}
    {out : Outcome RemoteBlockApplyError RemoteBlockSyncOutcome}
    (h : (applyRemoteBlockFromGossipSync W 0 8 b L).1 = out) :
    applyRemoteBlockFromGossipSync W 0 8 b L = (out, gossiped W b L) := Prod.fst_eq_iff.mp h

theorem backfilled_run {W : World} {b : RemoteBlockGossip} {L : Ledger}
    {out : Outcome RemoteBlockApplyError BlockRecordV1}
    (h : (validateAndRecordBackfillCandidate W 0 b L).1 = out) :
    validateAndRecordBackfillCandidate W 0 b L = (out, backfilled W b L) := Prod.fst_eq_iff.mp h

end TetCore.Sample
