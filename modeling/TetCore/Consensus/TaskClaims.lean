import TetCore.Consensus.Canonical
import TetCore.Ledger.Tasks

/-!
# One winning proof per task

The compute reward of a block comes from its ZK-court proofs, each of which names a stored AI task
(`zkClaim`). A block is accepted only when its proofs name open tasks of the ledger before it, no
task twice (`validateZkTaskClaims_ok`), and applying it marks these tasks processed, for good. So
over a chain of accepted blocks no task is claimed twice (`one_proof_per_task`), and the canonical
chain of every state that orderly calls reach claims none twice either (`Reaches.claimedOnce`).
-/

namespace TetCore.Consensus

open TetCore.Lib
open TetCore.Ledger (ReadEq ProcessedAt SameTasks)

section Claims

variable {W : World} {L L' : Ledger} {nowMs : Nat} {env : SignedTxEnvelopeV1}

/-- The stored task a transaction takes compute reward for. -/
def zkClaim (W : World) (env : SignedTxEnvelopeV1) : Option MetaKey :=
  match env.tx with
  | .verifyZkProof taskId imageId journalB64 receiptB64 =>
    match W.verifyTxReceiptAndJournal imageId journalB64 receiptB64 with
    | .ok (.zkCourt _) => some (Ledger.aiWorkloadTxMetaKey taskId)
    | _ => none
  | _ => none

theorem claimTask_ok {seen seen' : List Str} {taskId : Str}
    (h : claimTask L seen taskId = .ok seen') :
    seen' = taskId :: seen ∧ taskId ≠ [] ∧ taskId ∉ seen ∧
      ∃ t, L.aiWorkloadTask taskId = .ok (some t) ∧ t.processed = false := by
  simp only [claimTask, bind_eq_ok, require_eq_ok] at h
  obtain ⟨_, hne, _, hseen, h⟩ := h
  split at h
  · cases h
  · cases h
  · rename_i t ht
    simp only [bind_eq_ok, require_eq_ok, Except.ok.injEq] at h
    obtain ⟨_, hopen, rfl⟩ := h
    exact ⟨rfl, hne, hseen, t, ht, hopen⟩

/-- An open task is stored under the key. -/
def OpenAt (L : Ledger) (k : MetaKey) : Prop :=
  ∃ t, L.metaTree.get k = some (.task t) ∧ t.processed = false

theorem openAt_of_task {taskId : Str} {t : AiWorkloadTask}
    (h : L.aiWorkloadTask taskId = .ok (some t)) (ht : t.processed = false) :
    OpenAt L (Ledger.aiWorkloadTxMetaKey taskId) := by
  unfold Ledger.aiWorkloadTask at h
  split at h
  · cases h
  · split at h
    · cases h
    · rename_i hget
      cases h
      exact ⟨_, hget, ht⟩
    · cases h

theorem OpenAt.not_processed {k : MetaKey} (h : OpenAt L k) : ¬ ProcessedAt L k := by
  rintro ⟨t', ht', hp⟩
  obtain ⟨t, ht, ho⟩ := h
  rw [ht] at ht'
  cases ht'
  rw [ho] at hp
  cases hp

/-- The loop over the claims: distinct open tasks that are not seen yet. -/
theorem claimTasks_ok : ∀ {txs : List SignedTxEnvelopeV1} {seen : List Str},
    claimTasks W L txs seen = .ok () →
    (txs.filterMap (zkClaim W)).Nodup ∧ ∀ k ∈ txs.filterMap (zkClaim W),
      OpenAt L k ∧ ∃ id, k = .aiWorkloadTx id ∧ id ≠ [] ∧ id ∉ seen := by
  intro txs
  induction txs with
  | nil => exact fun _ => ⟨List.nodup_nil, fun k hk => absurd hk List.not_mem_nil⟩
  | cons env txs ih =>
    intro seen h
    -- a transaction without a claim is skipped
    have hskip : zkClaim W env = none → claimTasks W L txs seen = .ok () →
        ((env :: txs).filterMap (zkClaim W)).Nodup ∧ ∀ k ∈ (env :: txs).filterMap (zkClaim W),
          OpenAt L k ∧ ∃ id, k = .aiWorkloadTx id ∧ id ≠ [] ∧ id ∉ seen := by
      intro hnone hrest
      rw [List.filterMap_cons_none hnone]
      exact ih hrest
    unfold claimTasks at h
    split at h
    · rename_i tid img j r he
      split at h
      · cases h
      · rename_i flops hj
        simp only [bind_eq_ok] at h
        obtain ⟨seen', hclaim, h⟩ := h
        obtain ⟨rfl, hne, hseen, t, ht, hopen⟩ := claimTask_ok hclaim
        obtain ⟨hnd, hall⟩ := ih h
        have hz : zkClaim W env = some (.aiWorkloadTx (trim tid)) := by
          simp only [zkClaim, he, hj]
          rfl
        rw [List.filterMap_cons_some hz]
        refine ⟨List.nodup_cons.mpr ⟨fun hmem => ?_, hnd⟩, fun k hk => ?_⟩
        · obtain ⟨-, id, heq, -, hout⟩ := hall _ hmem
          cases heq
          exact hout List.mem_cons_self
        · rcases List.mem_cons.mp hk with rfl | hk
          · have hop := openAt_of_task ht hopen
            rw [Ledger.aiWorkloadTxMetaKey, trim_trim] at hop
            exact ⟨hop, _, rfl, hne, hseen⟩
          · obtain ⟨hop, id, heq, hid, hout⟩ := hall k hk
            exact ⟨hop, id, heq, hid, fun hmem => hout (List.mem_cons_of_mem _ hmem)⟩
      · rename_i hother hj
        refine hskip ?_ h
        simp only [zkClaim, he]
        split
        · rename_i flops hj'
          exact absurd hj' (by rw [hj]; simpa using hother flops)
        · rfl
    · rename_i hother
      refine hskip ?_ h
      unfold zkClaim
      split
      · rename_i he
        exact absurd he (hother _ _ _ _)
      · rfl

/-- **The claims a ledger allows**: distinct open tasks. -/
theorem validateZkTaskClaims_ok {txs : List SignedTxEnvelopeV1}
    (h : validateZkTaskClaims W L txs = .ok ()) :
    (txs.filterMap (zkClaim W)).Nodup ∧
      ∀ k ∈ txs.filterMap (zkClaim W), OpenAt L k ∧ k ≠ .aiWorkloadTx [] := by
  obtain ⟨hnd, hall⟩ := claimTasks_ok h
  refine ⟨hnd, fun k hk => ?_⟩
  obtain ⟨hopen, id, rfl, hid, -⟩ := hall k hk
  exact ⟨hopen, fun heq => hid (MetaKey.aiWorkloadTx.inj heq)⟩

theorem exists_of_zkClaim {k : MetaKey} (h : zkClaim W env = some k) :
    ∃ tid img j r, env.tx = .verifyZkProof tid img j r ∧ k = Ledger.aiWorkloadTxMetaKey tid := by
  unfold zkClaim at h
  split at h
  · rename_i tid img j r he
    split at h
    · cases h
      exact ⟨tid, img, j, r, he, rfl⟩
    · cases h
  · cases h

end Claims

/-! ## Accepted blocks -/

section Accepted

variable {W : World} {nowMs fuel : Nat} {L L' : Ledger} {block : RemoteBlockGossip}
  {height count : Nat} {hashes : List Str} {root : Str}

/-- A block of the current height is never left to be evicted. -/
theorem applyFork_ne_pending {parent : Option Str} {c : CheckedBlock} :
    applyFork W nowMs fuel block c parent L ≠
      (.ok (.appliedPendingEviction height count hashes root), L') := by
  intro h
  unfold applyFork at h
  rw [Proc.bind_of_ok (Proc.read_apply _ _)] at h
  cases hs : L.blockSummaryByHeight block.blockHeight with
  | none =>
    rw [hs] at h
    cases h
  | some summary =>
    simp only [hs] at h
    by_cases hid : summary.blockId = block.blockId
    · simp only [if_pos hid, Proc.bind_apply, Proc.pure_apply, Bool.false_eq_true, if_false] at h
      split at h <;> cases h
    · simp only [if_neg hid, Proc.bind_eq_ok_iff] at h
      obtain ⟨_, L₁, -, applied, L₂, -, h⟩ := h
      split at h
      · cases h
      · split at h <;> cases h

/-- A block that is left to be evicted is applied on top of the chain. -/
theorem gossip_pending
    (h : applyRemoteBlockFromGossipSync W nowMs fuel block L =
      (.ok (.appliedPendingEviction height count hashes root), L')) :
    validateZkTaskClaims W L block.txs = .ok () ∧
      ∃ row, row.txs = block.txs ∧ Applied W nowMs row L L' := by
  by_cases hlo : block.blockHeight < L.blockHeight
  · unfold applyRemoteBlockFromGossipSync at h
    rw [Proc.bind_of_ok (Proc.read_apply _ _), if_pos hlo] at h
    cases h
  by_cases hhi : satAdd L.blockHeight 1 < block.blockHeight
  · unfold applyRemoteBlockFromGossipSync at h
    rw [Proc.bind_of_ok (Proc.read_apply _ _), if_neg hlo, if_pos hhi] at h
    cases h
  rw [gossip_eq (by omega) (by omega)] at h
  cases hc : gossipChecks W L block with
  | error e =>
    rw [hc] at h
    cases h
  | ok p =>
    obtain ⟨parent, c⟩ := p
    obtain ⟨-, -, -, hzk, -⟩ := gossipChecks_ok hc
    simp only [hc] at h
    by_cases heq : block.blockHeight = L.blockHeight
    · rw [if_pos heq] at h
      exact absurd h applyFork_ne_pending
    · rw [if_neg heq] at h
      have hheight : block.blockHeight = satAdd L.blockHeight 1 := by
        simp only [satAdd] at hhi ⊢
        omega
      rcases applyNext_cases hc hheight h with ⟨⟨_, hr⟩, -⟩ | ⟨_, _, hr, -⟩ | ⟨_, M, -, -, happ⟩
      · cases hr
      · cases hr
      · exact ⟨hzk, _, rfl, happ⟩

end Accepted

/-! ## Chains of accepted blocks -/

section Chain

variable {W : World} {L L' : Ledger} {nowMs : Nat} {blocks : List (List SignedTxEnvelopeV1)}
  {txs : List SignedTxEnvelopeV1}

/-- A chain of accepted blocks, newest first, and a ledger it leads to. Both mining calls end in
`build_and_apply_block`; a block of a peer is appended, or its record is applied by a reorg. Between
the blocks the node runs direct operations, and whatever reads as the ledger before (block records,
pruning, an unwind back to a block of the chain). -/
inductive AcceptedChain (W : World) : List (List SignedTxEnvelopeV1) → Ledger → Prop where
  | start (L : Ledger) : AcceptedChain W [] L
  | mined {blocks : List (List SignedTxEnvelopeV1)} {L L' : Ledger} {nowMs : Nat} {producerId : Str}
      {txs : List SignedTxEnvelopeV1} {outcome : MineOutcome} (below : AcceptedChain W blocks L)
      (run : buildAndApplyBlock W nowMs producerId txs L = (.ok outcome, L')) :
      AcceptedChain W (txs :: blocks) L'
  | gossiped {blocks : List (List SignedTxEnvelopeV1)} {L L' : Ledger} {nowMs fuel : Nat}
      {block : RemoteBlockGossip} {height count : Nat} {hashes : List Str} {root : Str}
      (below : AcceptedChain W blocks L)
      (run : applyRemoteBlockFromGossipSync W nowMs fuel block L =
        (.ok (.appliedPendingEviction height count hashes root), L')) :
      AcceptedChain W (block.txs :: blocks) L'
  | reorged {blocks : List (List SignedTxEnvelopeV1)} {L L' : Ledger} {nowMs : Nat}
      {block : BlockRecordV1} (below : AcceptedChain W blocks L)
      (run : applyBlockRecordForward W nowMs block L = (.ok (), L')) :
      AcceptedChain W (block.txs :: blocks) L'
  | op {blocks : List (List SignedTxEnvelopeV1)} {L : Ledger} (nowMs : Nat) (op : Ledger.Op)
      (below : AcceptedChain W blocks L) : AcceptedChain W blocks (op.run W nowMs L)
  | read {blocks : List (List SignedTxEnvelopeV1)} {L L' : Ledger} (below : AcceptedChain W blocks L)
      (same : ReadEq L L') : AcceptedChain W blocks L'

/-- The tasks claimed by the blocks. -/
def claims (W : World) (blocks : List (List SignedTxEnvelopeV1)) : List MetaKey :=
  blocks.flatten.filterMap (zkClaim W)

/-- Each task is claimed once, and is processed by now. -/
structure ClaimedOnce (W : World) (blocks : List (List SignedTxEnvelopeV1)) (L : Ledger) : Prop where
  once : (claims W blocks).Nodup
  processed : ∀ k ∈ claims W blocks, ProcessedAt L k

theorem ClaimedOnce.keeps (h : ClaimedOnce W blocks L)
    (hkeep : ∀ x, ProcessedAt L (.aiWorkloadTx x) → ProcessedAt L' (.aiWorkloadTx x)) :
    ClaimedOnce W blocks L' := by
  refine ⟨h.once, fun k hk => ?_⟩
  have hp := h.processed k hk
  obtain ⟨env, -, henv⟩ := List.mem_filterMap.mp hk
  obtain ⟨tid, -, -, -, -, rfl⟩ := exists_of_zkClaim henv
  exact hkeep _ hp

theorem ReadEq.sameTasks (h : ReadEq L L') : SameTasks L L' :=
  fun x => (h.metaRows (.aiWorkloadTx x)).symm

/-- **A block** takes up open tasks, and leaves them processed. -/
theorem ClaimedOnce.applied (h : ClaimedOnce W blocks L)
    (hzk : validateZkTaskClaims W L txs = .ok ())
    (hkeep : ∀ x, ProcessedAt L (.aiWorkloadTx x) → ProcessedAt L' (.aiWorkloadTx x))
    (hnew : ∀ env ∈ txs, ∀ k, zkClaim W env = some k → ProcessedAt L' k) :
    ClaimedOnce W (txs :: blocks) L' := by
  obtain ⟨hnd, hopen⟩ := validateZkTaskClaims_ok hzk
  have hsplit : claims W (txs :: blocks) = txs.filterMap (zkClaim W) ++ claims W blocks := by
    rw [claims, List.flatten_cons, List.filterMap_append]
    rfl
  constructor
  · rw [hsplit, List.nodup_append]
    refine ⟨hnd, h.once, fun k hk k' hk' heq => ?_⟩
    subst heq
    exact (hopen k hk).1.not_processed (h.processed k hk')
  · intro k hk
    rw [hsplit, List.mem_append] at hk
    rcases hk with hk | hk
    · obtain ⟨env, henv, hz⟩ := List.mem_filterMap.mp hk
      exact hnew env henv k hz
    · exact (h.keeps hkeep).processed k hk

/-- The tasks after an applied block. -/
theorem Applied.processed {b : BlockRecordV1} (h : Applied W nowMs b L L')
    (hzk : validateZkTaskClaims W L b.txs = .ok ()) :
    (∀ x, ProcessedAt L (.aiWorkloadTx x) → ProcessedAt L' (.aiWorkloadTx x)) ∧
      ∀ env ∈ b.txs, ∀ k, zkClaim W env = some k → ProcessedAt L' k := by
  obtain ⟨-, -, L₁, hrun, rfl⟩ := h
  -- the undo record and the records after the batch are no tasks
  have hbefore : SameTasks L (L.storeBlockUndo (undoFor W nowMs b L)) := fun _ => rfl
  have hafter : SameTasks L₁ (L₁.recorded (summaryOf nowMs b) b nowMs nowMs b.txHashes b.txs) :=
    fun _ => rfl
  refine ⟨fun x hp => ?_, fun env henv k hz => ?_⟩
  · exact hafter.processed (Ledger.apply_keeps_processed hrun (hbefore.processed hp))
  · have hne := ((validateZkTaskClaims_ok hzk).2 k (List.mem_filterMap.mpr ⟨env, henv, hz⟩)).2
    obtain ⟨tid, img, j, r, he, rfl⟩ := exists_of_zkClaim hz
    refine hafter.processed (Ledger.apply_processes ?_ hrun ⟨env, henv, img, j, r, he⟩)
    rw [← Bool.not_eq_true, List.isEmpty_iff]
    intro hnil
    rw [Ledger.aiWorkloadTxMetaKey, hnil] at hne
    exact hne rfl

/-- **Every step** of a chain of accepted blocks. -/
theorem AcceptedChain.claimedOnce (h : AcceptedChain W blocks L) : ClaimedOnce W blocks L := by
  induction h with
  | start L => exact ⟨List.nodup_nil, fun k hk => absurd hk List.not_mem_nil⟩
  | mined _ hrun ih =>
    obtain ⟨b, root, M, hplan, -, happ⟩ := buildAndApplyBlock_ok hrun
    obtain ⟨-, -, htxs, -, hzk, -⟩ := planBlock_ok hplan
    rw [← htxs] at hzk ⊢
    obtain ⟨hkeep, hnew⟩ := happ.processed hzk
    exact ih.applied hzk hkeep hnew
  | gossiped _ hrun ih =>
    obtain ⟨hzk, row, htxs, happ⟩ := gossip_pending hrun
    rw [← htxs] at hzk ⊢
    obtain ⟨hkeep, hnew⟩ := happ.processed hzk
    exact ih.applied hzk hkeep hnew
  | reorged _ hrun ih =>
    obtain ⟨hzk, -, happ⟩ := applyBlockRecordForward_ok hrun
    obtain ⟨hkeep, hnew⟩ := happ.processed hzk
    exact ih.applied hzk hkeep hnew
  | op nowMs op _ ih => exact ih.keeps fun x hp => Ledger.run_keeps_processed op hp
  | read _ hsame ih => exact ih.keeps fun x hp => (ReadEq.sameTasks hsame).processed hp

/-- **One winning proof per task**: over a chain of accepted blocks, in one block or in several, no
task is claimed by two proofs, however they spell its id. -/
theorem one_proof_per_task (h : AcceptedChain W blocks L) : (claims W blocks).Nodup :=
  h.claimedOnce.once

/-- The ledger after `node` built a block. -/
def builtByNode (W : World) (txs : List SignedTxEnvelopeV1) (L : Ledger) : Ledger :=
  (buildAndApplyBlock W 0 Sample.node txs L).2

theorem builtByNode_ok {out : MineOutcome}
    (h : (buildAndApplyBlock W 0 Sample.node txs L).1 = .ok out) :
    buildAndApplyBlock W 0 Sample.node txs L = (.ok out, builtByNode W txs L) :=
  Prod.ext h rfl

/-- A demand of `alice` in one block, its proof, which spells the task id with a blank, in the
next. -/
theorem one_proof_per_task_spaced :
    let W : World := { World.sample 0 with verifyTxReceiptAndJournal := fun _ _ _ => .ok (.zkCourt 5) }
    let demand := Sample.signed (.enterpriseInference Sample.alice ['p'] ['m'] 1 1
      (W.sha256Hex (utf8 ['p'])) 1 false)
    let task := valueOr (txHashForEnv W demand) []
    let proof := Sample.signed (.verifyZkProof (' ' :: task) W.nexusGuestId [] [])
    ∃ L, AcceptedChain W [[proof], [demand]] L ∧
      claims W [[proof], [demand]] = [.aiWorkloadTx task] ∧ (claims W [[proof], [demand]]).Nodup := by
  intro W demand task proof
  let L₁ := builtByNode W [demand] Sample.ledger
  let L₂ := builtByNode W [proof] L₁
  have hall : (buildAndApplyBlock W 0 Sample.node [demand] Sample.ledger).1.isOk = true ∧
      (buildAndApplyBlock W 0 Sample.node [proof] L₁).1.isOk = true ∧
      claims W [[proof], [demand]] = [.aiWorkloadTx task] := by
    decide +kernel
  obtain ⟨hdemand, hproof, hclaims⟩ := hall
  obtain ⟨_, hdemand⟩ := Outcome.exists_ok hdemand
  obtain ⟨_, hproof⟩ := Outcome.exists_ok hproof
  have hchain : AcceptedChain W [[proof], [demand]] L₂ :=
    .mined (.mined (.start Sample.ledger) (builtByNode_ok hdemand)) (builtByNode_ok hproof)
  exact ⟨L₂, hchain, hclaims, one_proof_per_task hchain⟩

/-! ## Orderly runs -/

theorem claimedOnce_kept (W : World) :
    KeptByBlocks W fun cs L => ClaimedOnce W (cs.map (·.txs)) L where
  readable := by
    intro cs L L' hread h
    exact h.keeps fun x hp => (ReadEq.sameTasks hread).processed hp
  applied := by
    intro cs b nowMs L L' h _ hzk ha
    obtain ⟨hkeep, hnew⟩ := ha.processed hzk
    exact h.applied hzk hkeep hnew

/-- The canonical chain of every state that orderly calls reach claims no task twice. -/
theorem Reaches.claimedOnce {G : Ledger} (hG : Genesis G) (h : Reaches W G L) :
    ∃ cs, AtTop cs L ∧ (∀ b ∈ cs, L.blockRecordById b.blockId = some b) ∧
      ClaimedOnce W (cs.map (·.txs)) L := by
  have hstart : ClaimedOnce W [] G := ⟨List.nodup_nil, fun k hk => absurd hk List.not_mem_nil⟩
  obtain ⟨cs, hcs⟩ := h.onChain hG hstart (claimedOnce_kept W)
  exact ⟨cs, hcs.atTop, hcs.stored, hcs.good⟩

end Chain

end TetCore.Consensus
