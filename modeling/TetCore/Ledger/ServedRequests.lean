import TetCore.Ledger.Clocks
import TetCore.Ledger.ReadCongr
import TetCore.Ledger.VestLocks

/-!
# The state root and the requests a node serves

The state root is a hash of the balance rows. Blocks change them on every node; a grant, a stake, a
bond or a payment that one node serves changes them on that node alone, and every later block then
previews to another root there.

* `Op.Idle`: the request leaves every balance row and every worker bond as they were: it is refused,
  finds no grant due, no bond to settle.
* `Stands`: a ledger that came about by applying and undoing blocks and serving idle requests is one
  that blocks cannot tell from the ledger of the chain alone (`Stands.unique`).
* `state_root_of_chain`: so two nodes with one chain have one state root, and the next block previews
  alike on both.
-/

namespace TetCore

open TetCore.Lib

namespace Ledger

/-! ## Requests -/

/-- The requests that a node serves outside blocks. -/
def Op.isServed : Op → Bool
  | .grantGenesisGuardian _ | .withdrawTreasuryToFounder _ _ | .stake _ _ _
  | .stakeWorkerBond _ _ _ | .unstakeWorkerBond _ _ _ | .zkcourtLockChallengerBond _ _
  | .zkcourtSettleChallengerBond _ _ _ | .settleAiUtilityPayment _ _ _ => true
  | _ => false

/-- The request leaves every balance row and every worker bond as they were. -/
def Op.Idle (W : World) (nowMs : Nat) (op : Op) (L : Ledger) : Prop :=
  (op.run W nowMs L).balances = L.balances ∧ (op.run W nowMs L).workerStakes = L.workerStakes

deriving instance DecidableEq for ChainBlock

section Requests

variable {W : World} {nowMs : Nat} {L L' : Ledger}

/-- The treasury's share of an AI utility payment is a part of it. -/
theorem charge_aiUtility_treasury_lt {amount : Nat} {s : FeeSplit}
    (h : charge .aiUtility amount = .ok s) (hpos : 0 < amount) : s.treasuryMicro < amount := by
  unfold charge at h
  split at h <;> cases h
  simp only [bpsOf, networkFeeBps, burnFractionOfNetworkFeeBps, bpsDenom]
  omega

/-- A payment that is carried out takes from its payer. -/
theorem settleAiUtility_takes {payer worker : Str} {gross : Nat} {r : Nat × Nat × Nat}
    (h : settleAiUtilityPayment W payer worker gross L = .ok (r, L')) :
    L'.balanceMicro (trim payer) < L.balanceMicro (trim payer) := by
  simp only [settleAiUtilityPayment, bind_eq_ok, require_eq_ok, Except.ok.injEq,
    Prod.mk.injEq] at h
  obtain ⟨_, -, _, ⟨hpos, -⟩, _, hne, split, hsplit, treasury, -, _, hle, -, rfl⟩ := h
  have hshare := charge_aiUtility_treasury_lt (chargeLedger_eq_ok.mp hsplit)
    (Nat.pos_of_ne_zero hpos)
  have hburned : ∀ M : Ledger, (if 0 < split.burnMicro then M.burnSupply split.burnMicro
      else M).balanceMicro (trim payer) = M.balanceMicro (trim payer) := by
    intro M
    split <;> rfl
  rw [hburned]
  -- the payer is not the worker, and may be the treasury
  have hpaid : ∀ n m, ((L.putBalance (trim payer) n).addBalance (trim worker) m).balanceMicro
      (trim payer) = n := by
    intro n m
    rw [addBalance, balanceMicro_putBalance_ne _ _ (Ne.symm hne)]
    simp [balanceMicro, putBalance, amountAt_insert]
  split
  · by_cases ht : treasury = trim payer
    · subst ht
      have hadd : ∀ (M : Ledger) n, ((M.addBalance (trim payer) n).addCounter .feeTotal
          n).balanceMicro (trim payer) = satAdd (M.balanceMicro (trim payer)) n := by
        intro M n
        simp [addCounter, putRow, addBalance, putBalance, balanceMicro, amountAt_insert]
      rw [hadd, hpaid]
      unfold satAdd
      omega
    · have hadd : ∀ (M : Ledger) n, ((M.addBalance treasury n).addCounter .feeTotal
          n).balanceMicro (trim payer) = M.balanceMicro (trim payer) := fun M n =>
        balanceMicro_putBalance_ne M _ ht
      rw [hadd, hpaid]
      omega
  · rw [hpaid]
    omega

/-- Apart from the AI utility payment, the requests write rows that no block reads. -/
theorem rowKeys_ofRequest {op : Op} (hs : op.isServed = true) :
    (∀ k ∈ op.rowKeys W, k.ofRequest = true) ∨
      ∃ payer worker gross, op = .settleAiUtilityPayment payer worker gross := by
  cases op
  case settleAiUtilityPayment payer worker gross => exact Or.inr ⟨payer, worker, gross, rfl⟩
  case grantGenesisGuardian w =>
    left
    simp [Op.rowKeys, genesisGuardianGrantMetaKey, MetaKey.ofRequest]
  case withdrawTreasuryToFounder amount nonce =>
    left
    simp [Op.rowKeys, MetaKey.ofRequest]
  case stake w amount n =>
    left
    simp [Op.rowKeys, walletStakeMetaKey, walletNonceMetaKey, MetaKey.ofRequest]
  case stakeWorkerBond w amount n =>
    left
    simp [Op.rowKeys, walletNonceMetaKey, MetaKey.ofRequest]
  case unstakeWorkerBond w amount n =>
    left
    simp [Op.rowKeys, walletNonceMetaKey, MetaKey.ofRequest]
  case zkcourtLockChallengerBond inf challenger =>
    left
    simp [Op.rowKeys]
  case zkcourtSettleChallengerBond inf challenger valid =>
    left
    simp [Op.rowKeys]
  all_goals cases hs

/-- **An idle request** cannot be told by any block. -/
theorem idle_blockEq {op : Op} (hs : op.isServed = true) (hidle : op.Idle W nowMs L) :
    BlockEq (op.run W nowMs L) L := by
  obtain ⟨hbal, hbonds⟩ := hidle
  unfold Op.run at hbal hbonds ⊢
  cases hrun : op.exec W nowMs L with
  | error e => exact BlockEq.refl L
  | ok L' =>
    rw [hrun] at hbal hbonds
    simp only [valueOr] at hbal hbonds ⊢
    have hblock : op.isBlock = false := by
      cases op <;> first | rfl | cases hs
    have hlock : op.addsLock = false := by
      cases op <;> first | rfl | cases hs
    have hwithin := exec_within hblock hrun
    refine ⟨hbal, fun k hk => readMeta_congr (hwithin.rows k fun hmem => ?_),
      exec_vestLocks_eq hlock hrun, hbonds, ?_⟩
    · rcases rowKeys_ofRequest (W := W) hs with hreq | ⟨payer, worker, gross, rfl⟩
      · rw [hreq k hmem] at hk
        cases hk
      · -- a payment changes a balance
        rw [Op.exec, map_snd_eq_ok] at hrun
        obtain ⟨r, hrun⟩ := hrun
        have htakes := settleAiUtility_takes hrun
        rw [balanceMicro, balanceMicro, hbal] at htakes
        omega
    · rw [hwithin.rest]

/-! ### Idle requests -/

theorem idle_of_run {op : Op} (h : op.run W nowMs L = L) : op.Idle W nowMs L := by
  unfold Op.Idle
  rw [h]
  exact ⟨rfl, rfl⟩

theorem grant_unpaid {w : Str} (h : grantGenesisGuardianIfEligible W w L = .ok (false, L')) :
    L' = L := by
  rcases grantGenesisGuardian_ok h with ⟨-, hsame⟩ | ⟨htrue, -⟩
  · exact hsame
  · cases htrue

/-- A registration that no grant is due to. -/
theorem idle_of_noGrant {w : Str}
    (h : (grantGenesisGuardianIfEligible W w L).toOption.map Prod.fst ≠ some true) :
    (Op.grantGenesisGuardian w).Idle W nowMs L := by
  refine idle_of_run ?_
  rw [Op.run, Op.exec]
  cases hrun : grantGenesisGuardianIfEligible W w L with
  | error e => rfl
  | ok r =>
    obtain ⟨granted, L'⟩ := r
    cases granted with
    | false => exact grant_unpaid hrun
    | true =>
      rw [hrun] at h
      exact absurd rfl h

/-- A settlement without a bond. -/
theorem idle_of_noBond {inferenceId challenger : Str} {valid : Bool}
    (h : amountAt L.zkcourtBonds (zkcourtBondKey inferenceId (trimLower challenger)) = 0) :
    (Op.zkcourtSettleChallengerBond inferenceId challenger valid).Idle W nowMs L := by
  refine idle_of_run ?_
  rw [Op.run, Op.exec, zkcourtSettleChallengerBond, if_pos h]
  rfl

end Requests

/-! ## Nodes -/

/-- A block on a node's chain, with the time it was applied at and its undo record. -/
structure AppliedBlock where
  block : ChainBlock
  nowMs : Nat
  undo : BlockUndoV1

/-- A node: its ledger, and the blocks it has applied and not undone, newest first. -/
structure ServingNode where
  ledger : Ledger
  applied : List AppliedBlock

/-- The canonical chain, with the time each block was applied at. -/
def ServingNode.chain (s : ServingNode) : List (ChainBlock × Nat) :=
  s.applied.map fun b => (b.block, b.nowMs)

/-- What a node does: apply a block, undo its top block, serve a request. -/
inductive Doing where
  | block (blockId : Str) (c : ChainBlock) (nowMs : Nat)
  | undo
  | request (nowMs : Nat) (op : Op) (served : op.isServed = true)

/-- The undo record that is stored before the block is applied. -/
def ChainBlock.prepareUndo (W : World) (nowMs : Nat) (blockId : Str) (c : ChainBlock) (L : Ledger) :
    BlockUndoV1 :=
  L.prepareBlockUndo W nowMs blockId c.height c.txs c.txHashes c.producerId c.rewardMicro

/-- A block that is refused, and a request that fails, leave the node. -/
def Doing.run (W : World) : Doing → ServingNode → ServingNode
  | .block blockId c nowMs, s => match c.apply W nowMs s.ledger with
    | .ok (_, L) => ⟨L, ⟨c, nowMs, c.prepareUndo W nowMs blockId s.ledger⟩ :: s.applied⟩
    | .error _ => s
  | .undo, s => match s.applied with
    | [] => s
    | b :: bs => ⟨s.ledger.restoreUndo b.undo, bs⟩
  | .request nowMs op _, s => { s with ledger := op.run W nowMs s.ledger }

def runDoings (W : World) : List Doing → ServingNode → ServingNode
  | [], s => s
  | d :: ds, s => runDoings W ds (d.run W s)

/-- Every request of the run is idle where it is served. -/
def IdleRun (W : World) : List Doing → ServingNode → Prop
  | [], _ => True
  | d :: ds, s => (match d with
      | .request nowMs op _ => op.Idle W nowMs s.ledger
      | _ => True) ∧ IdleRun W ds (d.run W s)

/-- No block can tell the ledger from that of the chain `bs` on `G`, nor from those below it after
its undo records. -/
inductive Stands (W : World) (G : Ledger) : List AppliedBlock → Ledger → Prop where
  | genesis {L : Ledger} (eq : BlockEq L G) : Stands W G [] L
  | block {b : AppliedBlock} {bs : List AppliedBlock} {P P' Q L : Ledger} {t : Nat} {id root : Str}
      (below : Stands W G bs P) (apply : b.block.apply W b.nowMs P = .ok (root, P'))
      (captured : BlockEq Q P) (undo : b.undo = b.block.prepareUndo W t id Q) (eq : BlockEq L P') :
      Stands W G (b :: bs) L

section Nodes

variable {W : World} {G L L' : Ledger} {bs : List AppliedBlock}

theorem Stands.congr (h : Stands W G bs L) (heq : BlockEq L' L) : Stands W G bs L' := by
  cases h with
  | genesis heq' => exact .genesis (heq.trans heq')
  | block below ha hcap hu heq' => exact .block below ha hcap hu (heq.trans heq')

/-- **One chain**: no block can tell two such ledgers apart. -/
theorem Stands.unique (h : Stands W G bs L) : ∀ {bs' : List AppliedBlock} {L' : Ledger},
    Stands W G bs' L' →
    (bs.map fun b => (b.block, b.nowMs)) = (bs'.map fun b => (b.block, b.nowMs)) →
    BlockEq L L' := by
  induction h with
  | genesis heq =>
    intro bs' L' h' hchain
    cases h' with
    | genesis heq' => exact heq.trans heq'.symm
    | block => cases hchain
  | @block b bs P P' Q L t id root below ha hcap hu heq ih =>
    intro bs' L' h' hchain
    cases h' with
    | genesis => cases hchain
    | @block b' bs' R R' Q' L' t' id' root' below' ha' hcap' hu' heq' =>
      simp only [List.map_cons, List.cons.injEq, Prod.mk.injEq] at hchain
      obtain ⟨⟨hblock, htime⟩, hrest⟩ := hchain
      obtain ⟨M, hM, hPM⟩ := (ih below' hrest).applyBlock ha
      rw [← hblock, ← htime] at ha'
      have hsame : M = R' := (Prod.mk.inj (Except.ok.inj (hM.symm.trans ha'))).2
      rw [hsame] at hPM
      exact heq.trans (hPM.trans heq'.symm)

/-- Undoing the top block leads back to what was below it. -/
theorem restoreUndo_blockEq {c : ChainBlock} {P P' Q : Ledger} {t nowMs : Nat} {id root : Str}
    (ha : c.apply W nowMs P = .ok (root, P')) (hcap : BlockEq Q P) (heq : BlockEq L P') :
    BlockEq (L.restoreUndo (c.prepareUndo W t id Q)) P := by
  have hframe := apply_frame ha
  refine ⟨Tree.ext fun k => ?_, fun k hk => ?_, ?_, ?_, Tree.ext fun k => ?_⟩
  · simp only [restoreUndo, ChainBlock.prepareUndo, prepareBlockUndo, Tree.get_restore_capture]
    split
    · rw [hcap.balances]
    · rw [heq.balances, hframe.balances k ‹_›]
  · simp only [restoreUndo, ChainBlock.prepareUndo, prepareBlockUndo]
    by_cases hmem : k ∈ (blockUndoKeys W c.txs c.txHashes c.producerId c.rewardMicro).metaKeys
    · rw [← hcap.metaRows k hk]
      exact readMeta_congr (by rw [Tree.get_restore_capture, if_pos hmem])
    · rw [← hframe.readMeta k hmem, ← heq.metaRows k hk]
      exact readMeta_congr (by rw [Tree.get_restore_capture, if_neg hmem])
  · refine heq.vestLocks.trans ?_
    rw [hframe.rest]
  · refine heq.workerStakes.trans ?_
    rw [hframe.rest]
  · simp only [restoreUndo, ChainBlock.prepareUndo, prepareBlockUndo, Tree.get_restore_capture]
    split
    · rw [hcap.workersRegistry]
    · rw [heq.workersRegistry, hframe.workersRegistry k ‹_›]

theorem Doing.run_refused {s : ServingNode} {c : ChainBlock} {nowMs : Nat} {id : Str}
    {e : LedgerError} (ha : c.apply W nowMs s.ledger = .error e) :
    (Doing.block id c nowMs).run W s = s := by
  simp only [Doing.run, ha]

theorem Doing.run_applied {s : ServingNode} {c : ChainBlock} {nowMs : Nat} {id root : Str}
    (ha : c.apply W nowMs s.ledger = .ok (root, L)) : (Doing.block id c nowMs).run W s =
      ⟨L, ⟨c, nowMs, c.prepareUndo W nowMs id s.ledger⟩ :: s.applied⟩ := by
  simp only [Doing.run, ha]

theorem Doing.run_undo (L : Ledger) (b : AppliedBlock) (bs : List AppliedBlock) :
    Doing.undo.run W ⟨L, b :: bs⟩ = ⟨L.restoreUndo b.undo, bs⟩ := rfl

/-- One step of a node. -/
theorem Stands.run {s : ServingNode} (h : Stands W G s.applied s.ledger) {d : Doing}
    {ds : List Doing} (hidle : IdleRun W (d :: ds) s) :
    Stands W G (d.run W s).applied (d.run W s).ledger := by
  cases d with
  | request nowMs op served => exact h.congr (idle_blockEq served hidle.1)
  | block id c nowMs =>
    cases ha : c.apply W nowMs s.ledger with
    | error e =>
      rw [Doing.run_refused ha]
      exact h
    | ok r =>
      obtain ⟨root, L⟩ := r
      rw [Doing.run_applied ha]
      refine Stands.block (b := ⟨c, nowMs, _⟩) h ha (BlockEq.refl s.ledger) rfl (BlockEq.refl L)
  | undo =>
    obtain ⟨L, applied⟩ := s
    cases h with
    | genesis heq => exact .genesis heq
    | @block b bs P P' Q L t id root below ha hcap hu heq =>
      rw [Doing.run_undo, hu]
      exact below.congr (restoreUndo_blockEq ha hcap heq)

theorem Stands.runDoings {ds : List Doing} : ∀ {s : ServingNode},
    Stands W G s.applied s.ledger → IdleRun W ds s →
    Stands W G (runDoings W ds s).applied (runDoings W ds s).ledger := by
  induction ds with
  | nil => exact fun h _ => h
  | cons d ds ih => exact fun h hidle => ih (h.run hidle) hidle.2

end Nodes

/-- **The state root is determined by the canonical chain**, over all runs in which every request
that a node serves is idle: two nodes that start from the same ledger and have the same chain, each
block applied at the same time, have the same state root, and every next block previews to the same
root on both. -/
theorem state_root_of_chain (W : World) (G : Ledger) {ds ds' : List Doing}
    (hidle : IdleRun W ds ⟨G, []⟩) (hidle' : IdleRun W ds' ⟨G, []⟩)
    (hchain : (runDoings W ds ⟨G, []⟩).chain = (runDoings W ds' ⟨G, []⟩).chain) :
    let L := (runDoings W ds ⟨G, []⟩).ledger
    let L' := (runDoings W ds' ⟨G, []⟩).ledger
    computeStateRoot W L = computeStateRoot W L' ∧
      ∀ (nowMs : Nat) (txs : List SignedTxEnvelopeV1) (producer : Str) (reward : Nat),
        computeStateRootAfterRemoteBlock W L nowMs txs producer reward =
          computeStateRootAfterRemoteBlock W L' nowMs txs producer reward := by
  have hstart : Stands W G [] G := .genesis (BlockEq.refl G)
  have heq := (hstart.runDoings hidle).unique (hstart.runDoings hidle') hchain
  refine ⟨?_, fun nowMs txs producer reward => heq.preview txs producer reward⟩
  unfold computeStateRoot
  rw [heq.balances]

end Ledger

namespace Sample

/-- An empty block of `node`, at the height. -/
def emptyBlock (height : Nat) : Ledger.ChainBlock := ⟨height, [], [], node, 100000⟩

end Sample

namespace Ledger

/-- One node applies and undoes a payment, is asked for a grant that is not due and for a settlement
without a bond; the other only applies the two blocks. -/
theorem state_root_of_chain_undone :
    let W := World.sample 0
    let G := Sample.founded 0
    let ds : List Doing := [.block ['b'] (Sample.payBlock Sample.treasury) 5, .undo,
      .request 6 (.grantGenesisGuardian Sample.alice) rfl, .block ['c'] (Sample.emptyBlock 1) 7,
      .request 8 (.zkcourtSettleChallengerBond ['i'] Sample.bob true) rfl,
      .block ['d'] (Sample.emptyBlock 2) 9]
    let ds' : List Doing :=
      [.block ['c'] (Sample.emptyBlock 1) 7, .block ['d'] (Sample.emptyBlock 2) 9]
    (runDoings W ds ⟨G, []⟩).chain = [(Sample.emptyBlock 2, 9), (Sample.emptyBlock 1, 7)] ∧
      computeStateRoot W (runDoings W ds ⟨G, []⟩).ledger =
        computeStateRoot W (runDoings W ds' ⟨G, []⟩).ledger := by
  intro W G ds ds'
  let s₁ := runDoings W [.block ['b'] (Sample.payBlock Sample.treasury) 5, .undo] ⟨G, []⟩
  let s₂ := (Doing.block ['c'] (Sample.emptyBlock 1) 7).run W
    ((Doing.request 6 (.grantGenesisGuardian Sample.alice) rfl).run W s₁)
  have hall : (grantGenesisGuardianIfEligible W Sample.alice s₁.ledger).toOption.map Prod.fst ≠
        some true ∧
      amountAt s₂.ledger.zkcourtBonds (zkcourtBondKey ['i'] (trimLower Sample.bob)) = 0 ∧
      (runDoings W ds ⟨G, []⟩).chain = [(Sample.emptyBlock 2, 9), (Sample.emptyBlock 1, 7)] ∧
      (runDoings W ds' ⟨G, []⟩).chain = [(Sample.emptyBlock 2, 9), (Sample.emptyBlock 1, 7)] := by
    decide +kernel
  obtain ⟨hgrant, hbond, hchain, hchain'⟩ := hall
  have hidle : IdleRun W ds ⟨G, []⟩ := by
    refine ⟨trivial, trivial, ?_, trivial, ?_, trivial, trivial⟩
    · exact idle_of_noGrant (L := s₁.ledger) hgrant
    · exact idle_of_noBond (L := s₂.ledger) hbond
  have hidle' : IdleRun W ds' ⟨G, []⟩ := ⟨trivial, trivial, trivial⟩
  exact ⟨hchain, (state_root_of_chain W G hidle hidle' (hchain.trans hchain'.symm)).1⟩

/-- A node that grants `bob` his guardian share has another root than one that does not, on the same
chain. -/
theorem state_root_of_grant :
    ¬ ∀ (W : World) (G : Ledger) (ds ds' : List Doing),
      (runDoings W ds ⟨G, []⟩).chain = (runDoings W ds' ⟨G, []⟩).chain →
        computeStateRoot W (runDoings W ds ⟨G, []⟩).ledger =
          computeStateRoot W (runDoings W ds' ⟨G, []⟩).ledger := by
  intro h
  have hroot := h (World.sample 0) (Sample.founded 0)
    [.block ['c'] (Sample.emptyBlock 1) 7, .request 8 (.grantGenesisGuardian Sample.bob) rfl]
    [.block ['c'] (Sample.emptyBlock 1) 7] (by decide +kernel)
  have hall : ¬ computeStateRoot (World.sample 0) (runDoings (World.sample 0)
        [.block ['c'] (Sample.emptyBlock 1) 7, .request 8 (.grantGenesisGuardian Sample.bob) rfl]
        ⟨Sample.founded 0, []⟩).ledger =
      computeStateRoot (World.sample 0) (runDoings (World.sample 0)
        [.block ['c'] (Sample.emptyBlock 1) 7] ⟨Sample.founded 0, []⟩).ledger := by
    decide +kernel
  exact hall hroot

end Ledger

end TetCore
