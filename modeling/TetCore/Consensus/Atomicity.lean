import TetCore.Consensus.Steps
import TetCore.Ledger.RootAgreement

/-!
# What a failed call leaves behind

A reorg and a gossiped block write the ledger step by step, so a call that fails half way leaves the
steps before the failure. `ReorgSafe` and `GossipSafe` say when that cannot happen: the call is
refused before it writes, or every step of it goes through.

* `Untouched`: everything but the block records and the undo records is as before.
* `reorgToBranch_untouched`, `tryReorgBackfilledBranch_untouched`: a safe reorg that does not succeed
  leaves the ledger untouched.
* `gossip_untouched`: a safe remote block that fails leaves the ledger untouched, and on the append
  path only safe ones do.
-/

namespace TetCore.Consensus

open TetCore.Lib
open TetCore.Ledger (applyConsensusBlockBatch computeStateRootAfterRemoteBlock ReadEq)

/-! ## When a reorg goes through -/

/-- The blocks from `cur` down to the ancestor, each with its record filed under its own id. -/
inductive Path (L : Ledger) (ancestor : Str) : Option Str → List Str → Prop where
  | genesis : Path L ancestor none []
  | ancestor : Path L ancestor (some ancestor) []
  | cons {id : Str} {b : BlockRecordV1} {ids : List Str} (ne : id ≠ ancestor)
      (record : L.blockRecordById id = some b) (filed : trim b.blockId = trim id)
      (lengths : b.txHashes.length = b.txs.length)
      (tail : Path L ancestor b.parentBlockId ids) : Path L ancestor (some id) (id :: ids)

/-- The ledger with the undo records of `ids` written back, one after the other. -/
def rewind (undo : Str → Option BlockUndoV1) : List Str → Ledger → Ledger
  | [], L => L
  | id :: ids, L => rewind undo ids (((undo id).map (L.restoreUndo ·)).getD L)

/-- Every block of the branch is valid on top of the ones before it. -/
def Replays (W : World) (nowMs : Nat) : List BlockRecordV1 → Ledger → Prop
  | [], _ => True
  | b :: bs, L => validateZkTaskClaims W L b.txs = .ok () ∧
      rewardForBlock W b.txs = .ok b.reward ∧ trim b.blockId ≠ [] ∧
      ∃ L₁, applyConsensusBlockBatch W nowMs b.height b.txs b.txHashes b.producerId
          b.reward.totalRewardMicro L = .ok (b.stateRoot, L₁) ∧
        Replays W nowMs bs (L₁.recorded (summaryOf nowMs b) { b with canonical := true } nowMs nowMs
          b.txHashes b.txs)

/-- The first block of a branch is refused before its batch is committed. -/
def Refused (W : World) (nowMs : Nat) (b : BlockRecordV1) (L : Ledger) : Prop :=
  validateZkTaskClaims W L b.txs ≠ .ok () ∨ rewardForBlock W b.txs ≠ .ok b.reward ∨
    ∀ r, applyConsensusBlockBatch W nowMs b.height b.txs b.txHashes b.producerId
      b.reward.totalRewardMicro L ≠ .ok r

/-- The first step of the plan is refused: the tip cannot be undone, or there is nothing to undo and
the first block of the branch is refused. -/
def FirstStepRefused (W : World) (nowMs : Nat) (plan : ReorgPlan) (L : Ledger) : Prop :=
  if plan.tip.blockId = plan.ancestor then ∃ b bs, plan.branch = b :: bs ∧ Refused W nowMs b L
  else L.blockRecordById plan.tip.blockId = none ∨ L.blockUndoById plan.tip.blockId = none

/-- The tip can be unwound to the ancestor and the branch is valid from there on. -/
def GoesThrough (W : World) (nowMs : Nat) (plan : ReorgPlan) (L : Ledger) : Prop :=
  ∃ ids, Path L plan.ancestor (some plan.tip.blockId) ids ∧
    (∀ id ∈ ids, (L.blockUndoById id).isSome = true) ∧
    Replays W nowMs plan.branch (rewind L.blockUndoById ids L)

/-- A reorg that is refused at its first step or goes through. -/
def ReorgSafe (W : World) (nowMs fuel : Nat) (newTipId : Str) (L : Ledger) : Prop :=
  ∀ plan, planReorg L fuel newTipId = .ok (some plan) →
    FirstStepRefused W nowMs plan L ∨ GoesThrough W nowMs plan L

/-! ## Unwinding along a path -/

section Unwind

variable {nowMs : Nat} {L L' : Ledger}

theorem rewind_readEq {undo : Str → Option BlockUndoV1} (ids : List Str) :
    ∀ {L L' : Ledger}, ReadEq L L' → ReadEq (rewind undo ids L) (rewind undo ids L') := by
  induction ids with
  | nil =>
    intro L L' h
    exact h
  | cons id ids ih =>
    intro L L' h
    refine ih ?_
    cases undo id with
    | none => exact h
    | some u => exact h.restoreUndo u

/-- **Unwinding along a path** ends in the rewound ledger, unless it runs out of fuel. -/
theorem unwindTo_path (nowMs : Nat) {ancestor : Str} {cur : Option Str} {ids : List Str}
    (h : Path L ancestor cur ids) :
    ∀ {M : Ledger} (fuel : Nat), SameRecords L M → M.blockUndo = L.blockUndo →
      (∀ id ∈ ids, (L.blockUndoById id).isSome = true) →
      (∃ M', unwindTo nowMs ancestor fuel cur M = (.hang, M')) ∨
        ∃ M', unwindTo nowMs ancestor fuel cur M = (.ok (), M') ∧
          ReadEq M' (rewind L.blockUndoById ids M) := by
  induction h with
  | genesis =>
    intro M fuel _ _ _
    cases fuel <;> exact Or.inr ⟨M, rfl, ReadEq.refl M⟩
  | ancestor =>
    intro M fuel _ _ _
    cases fuel with
    | zero => exact Or.inl ⟨M, rfl⟩
    | succ fuel => exact Or.inr ⟨M, by rw [unwindTo, if_pos rfl]; rfl, ReadEq.refl M⟩
  | @cons id b ids hne hrec hfiled hlen htail ih =>
    intro M fuel hsame hundo hall
    cases fuel with
    | zero => exact Or.inl ⟨M, rfl⟩
    | succ fuel =>
      obtain ⟨b', hb', heq⟩ := hsame.some hrec
      obtain ⟨u, hu⟩ := Option.isSome_iff_exists.mp (hall id List.mem_cons_self)
      have huM : M.blockUndoById id = some u := by
        unfold Ledger.blockUndoById
        rw [hundo]
        exact hu
      -- the record on the way is the stored one up to its flag
      have hparent : b'.parentBlockId = b.parentBlockId := congrArg (·.parentBlockId) heq
      have hlen' : b'.txHashes.length = b'.txs.length := by
        have h1 : b'.txHashes = b.txHashes := congrArg (·.txHashes) heq
        have h2 : b'.txs = b.txs := congrArg (·.txs) heq
        rw [h1, h2]
        exact hlen
      have hfiled' : trim b'.blockId = trim id := by
        have h1 : b'.blockId = b.blockId := congrArg (·.blockId) heq
        rw [h1]
        exact hfiled
      rw [unwindTo_succ fuel hne hb' hlen' huM, hparent]
      have hres := ih (M := unwound nowMs id b' u M) fuel
        (hsame.trans (unwound_sameRecords hb' hfiled'))
        ((unwound_blockUndo id b' u M).trans hundo)
        (fun a ha => hall a (List.mem_cons_of_mem _ ha))
      rcases hres with hhang | ⟨M', hok, hread⟩
      · exact Or.inl hhang
      · refine Or.inr ⟨M', hok, hread.trans ?_⟩
        have hrew : rewind L.blockUndoById (id :: ids) M =
            rewind L.blockUndoById ids (M.restoreUndo u) := by
          rw [rewind, hu]
          rfl
        rw [hrew]
        exact rewind_readEq ids (unwound_readEq id b' u M)

end Unwind

/-! ## Applying a branch -/

section Apply

variable {W : World} {nowMs : Nat} {L L' : Ledger}

/-- A branch valid on a ledger runs on every ledger that reads the same. -/
theorem Replays.applyRun : ∀ {bs : List BlockRecordV1} {L M : Ledger}, Replays W nowMs bs L →
    ReadEq L M → ∃ M', ApplyRun W nowMs bs M M' := by
  intro bs
  induction bs with
  | nil =>
    intro L M _ _
    exact ⟨M, .nil M⟩
  | cons b bs ih =>
    intro L M h hread
    obtain ⟨hzk, hreward, hne, L₁, ha, htail⟩ := h
    have hstored : ReadEq L (M.storeBlockUndo (undoFor W nowMs { b with canonical := true } M)) :=
      hread.trans (Untouched.storeBlockUndo M _).readEq.symm
    obtain ⟨M₁, ha', hread'⟩ := hstored.applyBlock ha
    obtain ⟨M', hrun⟩ := ih htail (hread'.recorded _ _ _ _ _ _)
    rw [validateZkTaskClaims_readEq hread] at hzk
    exact ⟨M', .cons hzk hreward ⟨hne, rfl, M₁, ha', rfl⟩ hrun⟩

/-- A refused block leaves at most its undo record behind. -/
theorem Refused.untouched {b : BlockRecordV1} (h : Refused W nowMs b L) :
    ∃ e L', applyBlockRecordForward W nowMs b L = (.err e, L') ∧ Untouched L L' := by
  have hbatch : ∀ r, validateZkTaskClaims W L b.txs = .ok () →
      rewardForBlock W b.txs = .ok b.reward →
      applyConsensusBlockBatch W nowMs b.height b.txs b.txHashes b.producerId
        b.reward.totalRewardMicro (L.storeBlockUndo (undoFor W nowMs b L)) ≠ .ok r := by
    rintro ⟨root, L₁⟩ hzk hreward ha
    obtain ⟨M, hM, -⟩ := (Untouched.storeBlockUndo L _).readEq.applyBlock ha
    rcases h with h | h | h
    · exact h hzk
    · exact h hreward
    · exact h _ hM
  unfold applyBlockRecordForward
  cases hzk : validateZkTaskClaims W L b.txs with
  | error e =>
    simp only [Proc.bind_apply, Proc.check, hzk]
    exact ⟨_, _, rfl, .refl L⟩
  | ok u =>
    cases hreward : rewardForBlock W b.txs with
    | error e =>
      simp only [Proc.bind_apply, Proc.check, hzk]
      exact ⟨_, _, rfl, .refl L⟩
    | ok reward =>
      by_cases heq : reward = b.reward
      · subst heq
        cases ha : applyConsensusBlockBatch W nowMs b.height b.txs b.txHashes b.producerId
            b.reward.totalRewardMicro (L.storeBlockUndo (undoFor W nowMs b L)) with
        | ok r => exact absurd ha (hbatch r hzk hreward)
        | error e =>
          simp only [Proc.bind_apply, Proc.check, Proc.atomic, Proc.write_apply, hzk, require,
            if_true, ha]
          exact ⟨_, _, rfl, .storeBlockUndo L _⟩
      · simp only [Proc.bind_apply, Proc.check, hzk, require, if_neg heq]
        exact ⟨_, _, rfl, .refl L⟩

end Apply

/-! ## Reorgs -/

section Reorgs

variable {W : World} {nowMs fuel : Nat} {L L' : Ledger}

/-- The outcomes of a reorg that is not done. -/
def NotDone (r : Outcome String Bool) : Prop := r = .ok false ∨ ∃ e, r = .err e

theorem FirstStepRefused.untouched {plan : ReorgPlan} {r : Outcome String Unit}
    (h : FirstStepRefused W nowMs plan L) (hrun : runReorg W nowMs fuel plan L = (r, L')) :
    r = .hang ∨ (∃ e, r = .err e) ∧ Untouched L L' := by
  cases fuel with
  | zero =>
    left
    cases hrun
    rfl
  | succ fuel =>
    unfold FirstStepRefused at h
    unfold runReorg at hrun
    rw [unwindTo] at hrun
    by_cases htip : plan.tip.blockId = plan.ancestor
    · rw [if_pos htip] at h hrun
      obtain ⟨b, bs, hbranch, hrefused⟩ := h
      obtain ⟨e, L₁, hb, hunt⟩ := hrefused.untouched
      rw [hbranch] at hrun
      have happly : applyBranch W nowMs (b :: bs) L = (.err e, L₁) := Proc.bind_of_err hb
      rw [Proc.bind_of_ok (Proc.pure_apply () L), happly] at hrun
      cases hrun
      exact Or.inr ⟨⟨e, rfl⟩, hunt⟩
    · rw [if_neg htip] at h hrun
      cases hrec : L.blockRecordById plan.tip.blockId with
      | none =>
        have hobs : (Proc.observe (blockToUnwind plan.tip.blockId) :
            Proc Ledger String BlockRecordV1) L = (.err _, L) :=
          Proc.observe_eq_err_iff.mpr ⟨by rw [blockToUnwind, hrec], rfl⟩
        rw [Proc.bind_of_err (Proc.bind_of_err hobs)] at hrun
        cases hrun
        exact Or.inr ⟨⟨_, rfl⟩, .refl L⟩
      | some b =>
        rcases h with h | h
        · rw [hrec] at h
          cases h
        · have hobs : (Proc.observe (blockToUnwind plan.tip.blockId) :
              Proc Ledger String BlockRecordV1) L = (.ok b, L) :=
            Proc.observe_eq_ok_iff.mpr ⟨blockToUnwind_eq_ok.mpr hrec, rfl⟩
          have hundo : unwindBlock nowMs plan.tip.blockId b L = (.err _, L) :=
            Proc.bind_of_err (Proc.atomic_eq_err_iff.mpr
              ⟨⟨_, by rw [Ledger.applyBlockUndo, h]; rfl, rfl⟩, rfl⟩)
          rw [Proc.bind_of_err ((Proc.bind_of_ok hobs).trans (Proc.bind_of_err hundo))] at hrun
          cases hrun
          exact Or.inr ⟨⟨_, rfl⟩, .refl L⟩

theorem GoesThrough.done {plan : ReorgPlan} {r : Outcome String Unit}
    (h : GoesThrough W nowMs plan L) (hrun : runReorg W nowMs fuel plan L = (r, L')) :
    r = .hang ∨ r = .ok () := by
  obtain ⟨ids, hpath, hundo, hreplays⟩ := h
  unfold runReorg at hrun
  rcases unwindTo_path nowMs hpath fuel (fun _ => rfl) rfl hundo with
    ⟨M, hhang⟩ | ⟨M, hok, hread⟩
  · rw [Proc.bind_of_hang hhang] at hrun
    cases hrun
    exact Or.inl rfl
  · obtain ⟨M', hM'⟩ := hreplays.applyRun hread.symm
    rw [Proc.bind_of_ok hok, hM'.applyBranch] at hrun
    cases hrun
    exact Or.inr rfl

/-- **A safe reorg that is not done** leaves the ledger untouched. -/
theorem reorgToBranch_untouched {newTipId : Str} {r : Outcome String Bool}
    (h : ReorgSafe W nowMs fuel newTipId L)
    (hrun : reorgToBranch W nowMs fuel newTipId L = (r, L')) (hr : NotDone r) :
    Untouched L L' := by
  cases hplan : planReorg L fuel newTipId with
  | hang =>
    rw [reorgToBranch, Proc.bind_apply, Proc.observe, hplan] at hrun
    cases hrun
    rcases hr with hr | ⟨e, hr⟩ <;> cases hr
  | err e =>
    rw [reorgToBranch, Proc.bind_apply, Proc.observe, hplan] at hrun
    cases hrun
    exact .refl L
  | ok plan? =>
    rw [reorgToBranch, Proc.bind_apply, Proc.observe, hplan] at hrun
    cases plan? with
    | none =>
      cases hrun
      exact .refl L
    | some plan =>
      rcases hreorg : runReorg W nowMs fuel plan L with ⟨u, L₁⟩
      simp only [Proc.bind_apply, hreorg] at hrun
      rcases h plan hplan with hfirst | hall
      · rcases hfirst.untouched hreorg with rfl | ⟨⟨e, rfl⟩, hunt⟩
        · cases hrun
          rcases hr with hr | ⟨e, hr⟩ <;> cases hr
        · cases hrun
          exact hunt
      · rcases hall.done hreorg with rfl | rfl
        · cases hrun
          rcases hr with hr | ⟨e, hr⟩ <;> cases hr
        · cases hrun
          rcases hr with hr | ⟨e, hr⟩ <;> cases hr

/-- Recording a branch again touches the block records only. -/
theorem reweighBranch_untouched (nowMs : Nat) (bs : List BlockRecordV1) :
    Proc.Keeps Untouched (reweighBranch nowMs bs) := by
  induction bs with
  | nil =>
    intro L
    exact .refl L
  | cons b bs ih =>
    refine Proc.Keeps.bind (R := Untouched) (fun h h' => h.trans h')
      (Proc.Keeps.update Untouched.refl ?_) fun _ => ih
    intro L L' h
    obtain ⟨-, rfl⟩ := Ledger.recordBlockRecord_fork h rfl
    rfl

/-- A backfilled reorg is safe when the reorg on the newly weighed branch is. -/
def TryReorgSafe (W : World) (nowMs fuel : Nat) (newTipId : Str) (L : Ledger) : Prop :=
  ∀ branch, planBackfilled L fuel newTipId = .ok (some branch) →
    ReorgSafe W nowMs fuel newTipId (reweighBranch nowMs branch L).2

theorem tryReorgBackfilledBranch_untouched {newTipId : Str} {r : Outcome String Bool}
    (h : TryReorgSafe W nowMs fuel newTipId L)
    (hrun : tryReorgBackfilledBranch W nowMs fuel newTipId L = (r, L')) (hr : NotDone r) :
    Untouched L L' := by
  rw [tryReorgBackfilledBranch, Proc.bind_apply, Proc.observe] at hrun
  cases hplan : planBackfilled L fuel newTipId with
  | hang =>
    rw [hplan] at hrun
    cases hrun
    exact .refl L
  | err e =>
    rw [hplan] at hrun
    cases hrun
    exact .refl L
  | ok branch? =>
    rw [hplan] at hrun
    cases branch? with
    | none =>
      cases hrun
      exact .refl L
    | some branch =>
      have hw := reweighBranch_untouched nowMs branch L
      have hsafe := h branch hplan
      simp only [Proc.bind_apply] at hrun
      rcases hweigh : reweighBranch nowMs branch L with ⟨u, L₁⟩
      rw [hweigh] at hw hsafe hrun
      cases u with
      | hang =>
        cases hrun
        exact hw
      | err e =>
        cases hrun
        exact hw
      | ok u => exact hw.trans (reorgToBranch_untouched hsafe hrun hr)

theorem prunedTip_evaluated :
    let W := World.sample 100000
    let b := Sample.block W Sample.ledger 1 none [Sample.transfer]
    let n₁ := Sample.claimed W 1 none [] "0xbad".toList
    let n₂ := Sample.claimed W 2 (some n₁.blockId) [] "0xbad".toList
    let L := { Sample.backfilled W n₂ (Sample.backfilled W n₁
      (Sample.gossiped W b Sample.ledger)) with blockUndo := Tree.empty }
    (planReorg L 8 n₂.blockId).all (fun found => found.all fun plan =>
        decide (plan.tip.blockId ≠ plan.ancestor)) = true ∧
      (reorgToBranch W 0 8 n₂.blockId L).1.isErr = true := by
  decide +kernel

end Reorgs

/-! ## Gossip -/

section Gossip

variable {W : World} {nowMs fuel : Nat} {L L' : Ledger} {block : RemoteBlockGossip}

/-- A block of the current height is safe when the reorg to its fork record is. -/
def ForkSafe (W : World) (nowMs fuel : Nat) (block : RemoteBlockGossip) (L : Ledger) : Prop :=
  ∀ parent c summary, gossipChecks W L block = .ok (parent, c) →
    L.blockSummaryByHeight block.blockHeight = some summary → summary.blockId ≠ block.blockId →
    ReorgSafe W nowMs fuel block.blockId (forkRecorded nowMs block c parent L)

/-- A block of the next height is safe when the transactions already settled do not count for its
root: if it passes the checks, the preview gives its root and the apply accepts it, then the preview
gives its root without them too. -/
def NextSafe (W : World) (nowMs : Nat) (block : RemoteBlockGossip) (L : Ledger) : Prop :=
  ∀ parent c, gossipChecks W L block = .ok (parent, c) →
    computeStateRootAfterRemoteBlock W L nowMs block.txs c.producerId c.reward.totalRewardMicro =
      .ok block.stateRoot →
    (∃ r, applyConsensusBlockBatch W nowMs block.blockHeight block.txs c.txHashes c.producerId
      c.reward.totalRewardMicro L = .ok r) →
    computeStateRootAfterRemoteBlock W L nowMs (L.unsettled (block.txs.zip c.txHashes)) c.producerId
      c.reward.totalRewardMicro = .ok block.stateRoot

/-- A remote block that cannot fail half way. -/
def GossipSafe (W : World) (nowMs fuel : Nat) (block : RemoteBlockGossip) (L : Ledger) : Prop :=
  if block.blockHeight = L.blockHeight then ForkSafe W nowMs fuel block L
  else L.blockHeight < block.blockHeight → block.blockHeight = satAdd L.blockHeight 1 →
    NextSafe W nowMs block L

theorem forkRecorded_untouched (nowMs : Nat) (block : RemoteBlockGossip) (c : CheckedBlock)
    (parent : Option Str) (L : Ledger) : Untouched L (forkRecorded nowMs block c parent L) := by
  unfold forkRecorded
  cases h : recordBlockRecord nowMs (block.recordArgs c parent false) L with
  | error e => exact .refl L
  | ok L' =>
    simp only [recordBlockRecord, bind_eq_ok, mapError_eq_ok] at h
    obtain ⟨parent', -, hr⟩ := h
    obtain ⟨-, rfl⟩ := Ledger.recordBlockRecord_fork hr rfl
    rfl

/-- **A safe remote block that fails** leaves the ledger untouched. -/
theorem gossip_untouched (h : GossipSafe W nowMs fuel block L) {e : RemoteBlockApplyError}
    (hrun : applyRemoteBlockFromGossipSync W nowMs fuel block L = (.err e, L')) :
    Untouched L L' := by
  rcases gossip_cases hrun with rfl | ⟨parent, c, hc, ⟨hheight, hfork⟩ | ⟨hlt, hheight, hnext⟩⟩
  · exact .refl L'
  · rw [GossipSafe, if_pos hheight] at h
    rcases applyFork_cases hfork with ⟨⟨out, hout⟩, -⟩ | ⟨summary, r', hsum, hid, hreorg, hr⟩
    · cases hout
    · have hnot : NotDone r' := by
        rcases hr with ⟨b, out, -, hr⟩ | ⟨e', hr', -⟩ | ⟨-, hr⟩
        · cases hr
        · exact Or.inr ⟨e', hr'⟩
        · cases hr
      exact (forkRecorded_untouched nowMs block c parent L).trans
        (reorgToBranch_untouched (h parent c summary hc hsum hid) hreorg hnot)
  · rw [GossipSafe, if_neg (by omega)] at h
    rcases applyNext_cases hc hheight hnext with ⟨-, hunt⟩ | ⟨_, root, -, hroot, hp, ha⟩ | ⟨_, _, hr, -⟩
    · exact hunt
    · -- the root of the apply is the preview's without the settled transactions
      have hread := (Untouched.storeBlockUndo L (L.prepareBlockUndo W nowMs block.blockId
        block.blockHeight block.txs c.txHashes c.producerId c.reward.totalRewardMicro)).readEq
      obtain ⟨M, hM, -⟩ := hread.applyBlock ha
      have hpreview := h hlt hheight parent c hc hp ⟨_, hM⟩
      rw [(Ledger.apply_root_eq_preview hM).1] at hpreview
      exact absurd (Except.ok.inj hpreview) hroot
    · cases hr

theorem Untouched.blockHeight (h : Untouched L L') : L'.blockHeight = L.blockHeight := by
  unfold Untouched at h
  rw [h]
  rfl

/-- On the append path a block that always fails without a trace is safe. -/
theorem gossipSafe_of_untouched (hne : block.blockHeight ≠ L.blockHeight)
    (h : ∀ e L', applyRemoteBlockFromGossipSync W nowMs fuel block L = (.err e, L') →
      Untouched L L') : GossipSafe W nowMs fuel block L := by
  rw [GossipSafe, if_neg hne]
  rintro hlt hheight parent c hc hp ⟨⟨root, M⟩, hM⟩
  have hroot := (Ledger.apply_root_eq_preview hM).1
  by_cases heq : root = block.stateRoot
  · rw [hroot, heq]
  -- another root: the call fails after the commit, which has moved the height
  exfalso
  have hread := (Untouched.storeBlockUndo L (L.prepareBlockUndo W nowMs block.blockId
    block.blockHeight block.txs c.txHashes c.producerId c.reward.totalRewardMicro)).readEq
  obtain ⟨M', hM', -⟩ := hread.symm.applyBlock hM
  have hrun : ∃ e, applyRemoteBlockFromGossipSync W nowMs fuel block L = (.err e, M') := by
    rw [gossip_eq (le_of_lt hlt) (le_of_eq hheight), hc]
    simp only [if_neg hne, applyNext, Proc.bind_apply, Proc.check, Proc.atomic, Proc.write_apply,
      hp, require, if_true, hM', if_neg heq]
    exact ⟨_, rfl⟩
  obtain ⟨e, hrun⟩ := hrun
  have hsame := (h e M' hrun).blockHeight
  rw [Ledger.apply_height hM'] at hsame
  exact hne hsame

theorem forgedRoot_evaluated :
    let W := World.sample 100000
    let b := Sample.claimed W 1 none [Sample.transfer] "0xbad".toList
    (match gossipChecks W Sample.ledger b with
      | .ok (_, c) => decide (computeStateRootAfterRemoteBlock W Sample.ledger 0 b.txs c.producerId
          c.reward.totalRewardMicro ≠ .ok b.stateRoot)
      | .error _ => true) = true ∧
      b.blockHeight ≠ Sample.ledger.blockHeight ∧
      (applyRemoteBlockFromGossipSync W 0 8 b Sample.ledger).1.isErr = true := by
  decide +kernel

end Gossip

end TetCore.Consensus
