import TetCore.Auth
import TetCore.Consensus.TaskClaims

/-!
# A receipt paid twice

The compute reward counts the flops of every ZK-court proof of a block. The claim check looks at the
task a proof names and never at its receipt, and the receipt's marker, which the apply leaves, is
read only to leave no second one. So one receipt is paid once for every task it is submitted for.

`receipts_paid_once`: over a chain of accepted blocks no receipt is paid twice when the paid receipts
of each block are distinct and carry no marker in the ledger before it.
-/

namespace TetCore.Consensus

open TetCore.Lib
open TetCore.Ledger (ReadEq ReceiptMarked)

/-- The receipt a transaction takes compute reward for. -/
def paidReceipt (W : World) (env : SignedTxEnvelopeV1) : Option Str :=
  match env.tx with
  | .verifyZkProof _ imageId journalB64 receiptB64 =>
    match W.verifyTxReceiptAndJournal imageId journalB64 receiptB64 with
    | .ok (.zkCourt _) => some receiptB64
    | _ => none
  | _ => none

/-- The receipts the blocks took compute reward for. -/
def receipts (W : World) (blocks : List (List SignedTxEnvelopeV1)) : List Str :=
  blocks.flatten.filterMap (paidReceipt W)

/-- A block of the transactions is accepted: mined, appended from gossip, or applied by a reorg. -/
inductive AcceptedBlock (W : World) (L : Ledger) : List SignedTxEnvelopeV1 → Ledger → Prop where
  | mined {L' : Ledger} {nowMs : Nat} {producerId : Str} {txs : List SignedTxEnvelopeV1}
      {outcome : MineOutcome}
      (run : buildAndApplyBlock W nowMs producerId txs L = (.ok outcome, L')) :
      AcceptedBlock W L txs L'
  | gossiped {L' : Ledger} {nowMs fuel : Nat} {block : RemoteBlockGossip} {height count : Nat}
      {hashes : List Str} {root : Str}
      (run : applyRemoteBlockFromGossipSync W nowMs fuel block L =
        (.ok (.appliedPendingEviction height count hashes root), L')) :
      AcceptedBlock W L block.txs L'
  | reorged {L' : Ledger} {nowMs : Nat} {block : BlockRecordV1}
      (run : applyBlockRecordForward W nowMs block L = (.ok (), L')) :
      AcceptedBlock W L block.txs L'

/-- A chain of accepted blocks as in `AcceptedChain`, each where `ok` allows it. -/
inductive ChainWhere (W : World) (ok : Ledger → List SignedTxEnvelopeV1 → Prop) :
    List (List SignedTxEnvelopeV1) → Ledger → Prop where
  | start (L : Ledger) : ChainWhere W ok [] L
  | block {blocks : List (List SignedTxEnvelopeV1)} {L L' : Ledger}
      {txs : List SignedTxEnvelopeV1} (below : ChainWhere W ok blocks L)
      (accepted : AcceptedBlock W L txs L') (allowed : ok L txs) :
      ChainWhere W ok (txs :: blocks) L'
  | op {blocks : List (List SignedTxEnvelopeV1)} {L : Ledger} (nowMs : Nat) (op : Ledger.Op)
      (below : ChainWhere W ok blocks L) : ChainWhere W ok blocks (op.run W nowMs L)
  | read {blocks : List (List SignedTxEnvelopeV1)} {L L' : Ledger}
      (below : ChainWhere W ok blocks L) (same : ReadEq L L') : ChainWhere W ok blocks L'

/-- The paid receipts of the block are distinct, and none carries a marker yet. -/
def NewReceipts (W : World) (L : Ledger) (txs : List SignedTxEnvelopeV1) : Prop :=
  (txs.filterMap (paidReceipt W)).Nodup ∧
    ∀ r ∈ txs.filterMap (paidReceipt W), ¬ ReceiptMarked W L r

/-! ## Chains -/

section Chains

variable {W : World} {L L' : Ledger} {blocks : List (List SignedTxEnvelopeV1)}
  {txs : List SignedTxEnvelopeV1} {ok : Ledger → List SignedTxEnvelopeV1 → Prop}

/-- An accepted block is applied, whichever way it came. -/
theorem AcceptedBlock.applied (h : AcceptedBlock W L txs L') :
    ∃ nowMs row, row.txs = txs ∧ Applied W nowMs row L L' := by
  cases h with
  | mined run =>
    obtain ⟨b, root, M, hplan, -, happ⟩ := buildAndApplyBlock_ok run
    obtain ⟨-, -, htxs, -, -, -⟩ := planBlock_ok hplan
    exact ⟨_, _, htxs, happ⟩
  | gossiped run =>
    obtain ⟨-, row, htxs, happ⟩ := gossip_pending run
    exact ⟨_, row, htxs, happ⟩
  | @reorged _ nowMs block run =>
    obtain ⟨-, -, happ⟩ := applyBlockRecordForward_ok run
    exact ⟨nowMs, { block with canonical := true }, rfl, happ⟩

theorem exists_of_paidReceipt {env : SignedTxEnvelopeV1} {r : Str}
    (h : paidReceipt W env = some r) :
    ∃ taskId imageId journal, env.tx = .verifyZkProof taskId imageId journal r := by
  unfold paidReceipt at h
  split at h
  · rename_i tid img j r' he
    split at h
    · cases h
      exact ⟨tid, img, j, he⟩
    · cases h
  · cases h

/-- **An accepted block** keeps the markers and leaves one for every receipt it pays. -/
theorem AcceptedBlock.marks (h : AcceptedBlock W L txs L') :
    (∀ r, ReceiptMarked W L r → ReceiptMarked W L' r) ∧
      ∀ r ∈ txs.filterMap (paidReceipt W), ReceiptMarked W L' r := by
  obtain ⟨nowMs, row, rfl, -, -, L₁, hrun, rfl⟩ := h.applied
  -- the undo record and the records after the batch are no markers
  refine ⟨fun r hm => ?_, fun r hr => ?_⟩
  · have hbefore : ReceiptMarked W (L.storeBlockUndo (undoFor W nowMs row L)) r := hm
    have hafter : ReceiptMarked W L₁ r := Ledger.apply_keeps_receipt hrun hbefore
    exact hafter
  · obtain ⟨env, henv, hpaid⟩ := List.mem_filterMap.mp hr
    have hafter : ReceiptMarked W L₁ r :=
      Ledger.apply_marks_receipt hrun ⟨env, henv, exists_of_paidReceipt hpaid⟩
    exact hafter

/-- Each receipt is paid once, and is marked by now. -/
structure PaidOnce (W : World) (blocks : List (List SignedTxEnvelopeV1)) (L : Ledger) : Prop where
  once : (receipts W blocks).Nodup
  marked : ∀ r ∈ receipts W blocks, ReceiptMarked W L r

theorem PaidOnce.keeps (h : PaidOnce W blocks L)
    (hkeep : ∀ r, ReceiptMarked W L r → ReceiptMarked W L' r) : PaidOnce W blocks L' :=
  ⟨h.once, fun r hr => hkeep r (h.marked r hr)⟩

/-- **One block** that pays new receipts. -/
theorem PaidOnce.block (h : PaidOnce W blocks L) (hb : AcceptedBlock W L txs L')
    (hnew : NewReceipts W L txs) : PaidOnce W (txs :: blocks) L' := by
  obtain ⟨hkeep, hmarks⟩ := hb.marks
  have hsplit : receipts W (txs :: blocks) = txs.filterMap (paidReceipt W) ++ receipts W blocks := by
    rw [receipts, List.flatten_cons, List.filterMap_append]
    rfl
  constructor
  · rw [hsplit, List.nodup_append]
    refine ⟨hnew.1, h.once, fun r hr r' hr' heq => ?_⟩
    subst heq
    exact hnew.2 r hr (h.marked r hr')
  · intro r hr
    rw [hsplit, List.mem_append] at hr
    rcases hr with hr | hr
    · exact hmarks r hr
    · exact hkeep r (h.marked r hr)

theorem ReceiptMarked.readEq {r : Str} (h : ReceiptMarked W L r) (hsame : ReadEq L L') :
    ReceiptMarked W L' r := by
  unfold ReceiptMarked at h ⊢
  have hrow : L.metaTree.get (Ledger.zkVerifiedMetaKey (W.sha256Hex (utf8 r))) =
      L'.metaTree.get (Ledger.zkVerifiedMetaKey (W.sha256Hex (utf8 r))) := hsame.get rfl
  rw [← hrow]
  exact h

/-- **A chain** of blocks that each pay new receipts. -/
theorem ChainWhere.paidOnce (h : ChainWhere W (NewReceipts W) blocks L) : PaidOnce W blocks L := by
  induction h with
  | start L => exact ⟨List.nodup_nil, fun r hr => absurd hr List.not_mem_nil⟩
  | block _ accepted allowed ih => exact ih.block accepted allowed
  | op nowMs op _ ih => exact ih.keeps fun r hm => Ledger.run_keeps_receipt op hm
  | read _ same ih => exact ih.keeps fun r hm => ReceiptMarked.readEq hm same

/-- **No receipt is paid twice**, in one block or in several, over a chain of accepted blocks whose
paid receipts are distinct and unmarked when the block is accepted. -/
theorem receipts_paid_once (h : ChainWhere W (NewReceipts W) blocks L) :
    (receipts W blocks).Nodup := h.paidOnce.once

end Chains

end TetCore.Consensus

namespace TetCore.Sample

open TetCore.Lib

/-- A world with the node's envelope check, where every receipt is one of the ZK court. -/
def court : World :=
  { World.sample 0 with verifyTxReceiptAndJournal := fun _ _ _ => .ok (.zkCourt 5) }.signing auth

/-- A demand of `alice`. -/
def demand (nonce : Nat) : SignedTxEnvelopeV1 :=
  signedWith (.enterpriseInference alice ['p'] ['m'] 1 nonce (court.sha256Hex (utf8 ['p'])) 1 false)
    alice "k".toList

/-- A proof of `alice` for the task of the demand. -/
def proof (nonce : Nat) (receipt : Str) : SignedTxEnvelopeV1 :=
  signedWith (.verifyZkProof (valueOr (txHashForEnv court (demand nonce)) []) court.nexusGuestId []
    receipt) alice "k".toList

end TetCore.Sample

namespace TetCore.Consensus

open TetCore.Lib

/-- Two demands in one block, and a proof for each in the next, with different receipts. -/
theorem receipts_paid_once_distinct :
    let blocks := [[Sample.proof 1 ['r'], Sample.proof 2 ['s']], [Sample.demand 1, Sample.demand 2]]
    receipts Sample.court blocks = [['r'], ['s']] ∧ (receipts Sample.court blocks).Nodup := by
  intro blocks
  let demands := [Sample.demand 1, Sample.demand 2]
  let proofs := [Sample.proof 1 ['r'], Sample.proof 2 ['s']]
  let L₁ := builtByNode Sample.court demands Sample.ledger
  have hall : (buildAndApplyBlock Sample.court 0 Sample.node demands Sample.ledger).1.isOk = true ∧
      (buildAndApplyBlock Sample.court 0 Sample.node proofs L₁).1.isOk = true ∧
      receipts Sample.court blocks = [['r'], ['s']] ∧
      demands.filterMap (paidReceipt Sample.court) = [] ∧
      proofs.filterMap (paidReceipt Sample.court) = [['r'], ['s']] ∧
      ∀ r ∈ [['r'], ['s']], (L₁.metaTree.get (Ledger.zkVerifiedMetaKey
        (Sample.court.sha256Hex (utf8 r)))).isSome = false := by
    decide +kernel
  obtain ⟨hdemands, hproofs, hreceipts, hnone, hpaid, hnew⟩ := hall
  obtain ⟨_, hdemands⟩ := Outcome.exists_ok hdemands
  obtain ⟨_, hproofs⟩ := Outcome.exists_ok hproofs
  have hfirst : ChainWhere Sample.court (NewReceipts Sample.court) [demands] L₁ := by
    refine .block (.start Sample.ledger) (.mined (builtByNode_ok hdemands)) ?_
    unfold NewReceipts
    rw [hnone]
    exact ⟨List.nodup_nil, fun r hr => absurd hr List.not_mem_nil⟩
  have hchain : ChainWhere Sample.court (NewReceipts Sample.court) blocks
      (builtByNode Sample.court proofs L₁) := by
    refine .block hfirst (.mined (builtByNode_ok hproofs)) ?_
    unfold NewReceipts
    rw [hpaid]
    refine ⟨by decide, fun r hr hmark => ?_⟩
    rw [Ledger.ReceiptMarked, hnew r hr] at hmark
    cases hmark
  exact ⟨hreceipts, receipts_paid_once hchain⟩

/-- Two demands in one block, and in the next a proof for each that carries the same receipt: the
block is accepted and pays it twice. -/
theorem receipt_paid_twice :
    let blocks := [[Sample.proof 1 ['r'], Sample.proof 2 ['r']], [Sample.demand 1, Sample.demand 2]]
    ∃ L, AcceptedChain Sample.court blocks L ∧ receipts Sample.court blocks = [['r'], ['r']] ∧
      ¬ (receipts Sample.court blocks).Nodup := by
  intro blocks
  let demands := [Sample.demand 1, Sample.demand 2]
  let proofs := [Sample.proof 1 ['r'], Sample.proof 2 ['r']]
  let L₁ := builtByNode Sample.court demands Sample.ledger
  have hall : (buildAndApplyBlock Sample.court 0 Sample.node demands Sample.ledger).1.isOk = true ∧
      (buildAndApplyBlock Sample.court 0 Sample.node proofs L₁).1.isOk = true ∧
      receipts Sample.court blocks = [['r'], ['r']] := by
    decide +kernel
  obtain ⟨hdemands, hproofs, hreceipts⟩ := hall
  obtain ⟨_, hdemands⟩ := Outcome.exists_ok hdemands
  obtain ⟨_, hproofs⟩ := Outcome.exists_ok hproofs
  refine ⟨builtByNode Sample.court proofs L₁, ?_, hreceipts, ?_⟩
  · exact .mined (.mined (.start Sample.ledger) (builtByNode_ok hdemands)) (builtByNode_ok hproofs)
  · rw [hreceipts]
    decide

end TetCore.Consensus
