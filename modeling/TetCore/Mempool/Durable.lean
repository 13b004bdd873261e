import TetCore.Lib.Interleave
import TetCore.Consensus.NoLoss
import TetCore.Mempool.Admission

/-!
# The durable copy of the mempool

Model of `submit_local_tx` and `broadcast_mempool_tx` (`rest/state.rs`) and of `mine_pending_block_as`
(`consensus.rs`) as programs whose steps are the storage writes, the critical sections of the mempool's
lock and the reads of the ledger, with the tree `mempool_pending_v1` (`mempool_persist`,
`mempool_forget`, `mempool_restore` in `ledger.rs`). Gossip is configured; the sends leave nothing on
the node and are left out.

* The time passes between any two steps. A preview is one read of the ledger.
* The apply writes three batches one after another; between them a block is half written.
* Every place of an attempt says which transactions it took out of the durable copy and has neither put
  back, dropped nor applied.

`minePendingBlockAs_alone`: with nothing in between, the program is `mine_pending_block_as`.
-/

namespace TetCore.Mempool.Durable

open TetCore.Lib TetCore.Consensus

/-! ## The state -/

/-- A node with its pending transactions: the lock of the mempool, the durable copy, the tracker of the
retry loop and the clock. The other fields say what happened. -/
structure PendingNode where
  node : Node
  mempoolLocked : Bool
  mempoolTree : Tree Str SignedTxEnvelopeV1
  pendingRebroadcast : Tree Str Nat
  nowMs : Nat
  /-- The hashes that were ever put in the durable copy. -/
  persisted : List Str
  /-- The transactions whose submission returned `Ok`. -/
  answered : List SignedTxEnvelopeV1
  /-- The hashes of the blocks that were applied. -/
  inBlocks : List Str
  /-- The hashes a block was refused with, or that failed alone too often. -/
  unminable : List Str
  /-- The hashes that were not put back in the durable copy, where they were gone from. -/
  skipped : List Str

/-- What the thread of a step is in the middle of: the transactions an attempt took out of the durable
copy, and whether it holds the mempool's lock. -/
structure Place where
  held : List SignedTxEnvelopeV1
  locks : Bool

/-- A thread that took nothing and locks nothing. -/
def Place.idle : Place := ⟨[], false⟩

abbrev PendingProg (α : Type) : Type := Prog PendingNode Place α

namespace PendingNode

variable (s : PendingNode)

/-- The mempool's lock is free. -/
def free : Bool := !s.mempoolLocked

def setMempool (mempool : List SignedTxEnvelopeV1) : PendingNode :=
  { s with node := { s.node with mempool := mempool } }

def setLedger (L : Ledger) : PendingNode := { s with node := { s.node with ledger := L } }

def setFailures (n : Nat) : PendingNode := { s with node := { s.node with blockFailures := n } }

def setLocked (locked : Bool) : PendingNode := { s with mempoolLocked := locked }

/-- `mempool_persist`. -/
def mempoolPersist (txHash : Str) (env : SignedTxEnvelopeV1) : PendingNode :=
  { s with
    mempoolTree := s.mempoolTree.insert txHash env
    persisted := txHash :: s.persisted }

/-- `mempool_forget` of one hash. -/
def mempoolForget (txHash : Str) : PendingNode :=
  { s with mempoolTree := s.mempoolTree.remove txHash }

/-- `pending_rebroadcast.insert(tx_hash, 0)`. -/
def track (txHash : Str) : PendingNode :=
  { s with pendingRebroadcast := s.pendingRebroadcast.insert txHash 0 }

/-- A transaction is in the mempool again, and is not put back. -/
def skip (txHash : Str) : PendingNode :=
  if (s.mempoolTree.get txHash).isSome then s else { s with skipped := txHash :: s.skipped }

/-- A block is applied. -/
def settle (txHashes : List Str) : PendingNode := { s with inBlocks := txHashes ++ s.inBlocks }

/-- A submission returns `Ok`. -/
def answer (env : SignedTxEnvelopeV1) : PendingNode := { s with answered := env :: s.answered }

end PendingNode

/-- The hashes of transactions, of those that have one. -/
def hashesOf (W : World) (txs : List SignedTxEnvelopeV1) : List Str :=
  txs.filterMap fun env => (txHashForEnv W env).toOption

/-- The transactions are dropped as unminable. -/
def PendingNode.giveUp (W : World) (txs : List SignedTxEnvelopeV1) (s : PendingNode) : PendingNode :=
  { s with unminable := hashesOf W txs ++ s.unminable }

/-! ## Submissions -/

section Programs

variable (A : Auth) (c : Caps) (W : World)

/-- `enqueue_without_broadcast`. -/
def enqueueWithoutBroadcast (env : SignedTxEnvelopeV1) : PendingProg (Outcome MempoolEnqueueError Bool) :=
  Prog.update .idle PendingNode.free fun s =>
    let r := Mempool.enqueueWithoutBroadcast A c s.node.ledger s.nowMs env s.node.mempool
    (r.1, s.setMempool r.2)

/-- `broadcast_mempool_tx`, less the sends. -/
def broadcastMempoolTx (env : SignedTxEnvelopeV1) : PendingProg Unit :=
  match txHashForEnv W env with
  | .error _ => pure ()
  | .ok txHash => do
    Prog.write .idle (·.mempoolPersist txHash env)
    Prog.write .idle (·.track txHash)

/-- `submit_local_tx`, up to the answer. -/
def submitLocalTx (env : SignedTxEnvelopeV1) : PendingProg (Outcome MempoolEnqueueError Bool) := do
  match ← enqueueWithoutBroadcast A c env with
  | .ok evicted => do
    broadcastMempoolTx W env
    Prog.write .idle (·.answer env)
    pure (.ok evicted)
  | r => pure r

/-! ## Mining -/

/-- The mempool, taken under its lock; none when the AI workload check refuses the call. -/
def takeMempool (producerId : Str) : PendingProg (Option (List SignedTxEnvelopeV1)) :=
  Prog.update .idle PendingNode.free fun s =>
    if gateRefuses W producerId s.node then (none, s) else (some s.node.mempool, s.setMempool [])

/-- The loop of `mempool_forget`. -/
def forget : List SignedTxEnvelopeV1 → List SignedTxEnvelopeV1 → PendingProg Unit
  | [], _ => pure ()
  | env :: txs, held =>
    match txHashForEnv W env with
    | .error _ => forget txs held
    | .ok txHash => do
      Prog.write ⟨held, false⟩ (·.mempoolForget txHash)
      forget txs (held ++ [env])

/-- The filter: no repetition, nothing already settled. -/
def dropSettled (held : List SignedTxEnvelopeV1) : List SignedTxEnvelopeV1 → List Str →
    List SignedTxEnvelopeV1 → PendingProg (Except MineError (List SignedTxEnvelopeV1))
  | [], _, kept => pure (.ok kept)
  | env :: txs, seen, kept =>
    match txHashForEnv W env with
    | .error e => pure (.error (.unauthorized e))
    | .ok h => do
      let drop ← Prog.read ⟨held, false⟩ fun s =>
        decide (h ∈ seen) || s.node.ledger.isTxApplied h
      dropSettled held txs (seen.insert h) (if drop then kept else kept ++ [env])

/-- The loop of `select_block_txs`. -/
def keepOneByOne (held : List SignedTxEnvelopeV1) (producerId : Str) :
    List SignedTxEnvelopeV1 → List SignedTxEnvelopeV1 → PendingProg (List SignedTxEnvelopeV1)
  | [], kept => pure kept
  | env :: txs, kept => do
    let ok ← Prog.update ⟨held, false⟩ (fun _ => true) fun s =>
      if blockTxsOk W s.node.ledger s.nowMs (kept ++ [env]) producerId then (true, s)
      else (false, s.giveUp W [env])
    keepOneByOne held producerId txs (if ok then kept ++ [env] else kept)

/-- `select_block_txs`. -/
def selectBlockTxs (producerId : Str) (txs : List SignedTxEnvelopeV1) :
    PendingProg (List SignedTxEnvelopeV1 × List SignedTxEnvelopeV1) := do
  let ok ← Prog.read ⟨txs, false⟩ fun s => blockTxsOk W s.node.ledger s.nowMs txs producerId
  if ok then pure (txs, [])
  else do
    let kept ← keepOneByOne W txs producerId (txs.take selectOneByOneMax) []
    pure (kept, txs.drop selectOneByOneMax)

/-- The loop of `requeue_txs_front`; `rest` is what the attempt holds besides. -/
def putBack (queue rest : List SignedTxEnvelopeV1) :
    List SignedTxEnvelopeV1 → List SignedTxEnvelopeV1 → PendingProg (List SignedTxEnvelopeV1)
  | [], front => pure front
  | env :: txs, front =>
    match txHashForEnv W env with
    | .error _ => putBack queue rest txs front
    | .ok h =>
      if inQueue W (queue ++ front) env then do
        Prog.write ⟨env :: txs ++ rest, true⟩ (·.skip h)
        putBack queue rest txs front
      else do
        Prog.write ⟨env :: txs ++ rest, true⟩ (·.mempoolPersist h env)
        putBack queue rest txs (front ++ [env])

/-- `requeue_txs_front`. -/
def requeueTxsFront (txs rest : List SignedTxEnvelopeV1) : PendingProg Unit := do
  let queue ← Prog.update ⟨txs ++ rest, false⟩ PendingNode.free fun s =>
    (s.node.mempool, s.setLocked true)
  let front ← putBack W queue rest txs []
  Prog.write ⟨rest, true⟩ fun s => (s.setMempool (front ++ s.node.mempool)).setLocked false

/-- The writes of the apply, batch by batch, and the records of `finish_block`. -/
def commitBlock (txs : List SignedTxEnvelopeV1) (b : PreparedBlock) (batch : Ledger.Batch) :
    PendingProg MineOutcome := do
  let stateRoot := Ledger.stateRootFromRows W batch.balances.iter
  Prog.write ⟨txs, false⟩ fun s => s.setLedger { s.node.ledger with
    balances := s.node.ledger.balances.applyBatch
      (batch.dirtyBalances.map fun k => (k, Ledger.amountAt batch.balances k)) }
  Prog.write ⟨txs, false⟩ fun s => s.setLedger { s.node.ledger with
    metaTree := s.node.ledger.metaTree.applyBatch batch.metaBatch }
  Prog.write ⟨txs, false⟩ fun s => (s.setLedger { s.node.ledger with
    workersRegistry := s.node.ledger.workersRegistry.applyBatch batch.workersRegistryBatch }).settle
      b.txHashes
  Prog.write .idle fun s => s.setLedger
    (s.node.ledger.recordBlockSummary s.nowMs b.blockHeight b.blockId stateRoot b.txs.length)
  Prog.write .idle fun s => s.setLedger
    (valueOr (recordBlockRecord s.nowMs (b.recordArgs stateRoot) s.node.ledger) s.node.ledger)
  Prog.write .idle fun s => s.setLedger
    (valueOr (Ledger.recordTxIndexesBatch s.nowMs b.blockHeight b.txHashes b.txs true
      s.node.ledger) s.node.ledger)
  pure ⟨true, b.blockHeight, b.blockId, b.producerId, stateRoot, b.txHashes, b.txs.length, b.reward⟩

/-- The undo record of `prepare_block`, and the checks of the apply. -/
def checkBlock (txs : List SignedTxEnvelopeV1) (b : PreparedBlock) :
    PendingProg (Except LedgerError Ledger.Batch) := do
  Prog.write ⟨txs, false⟩ fun s => s.setLedger (s.node.ledger.storeBlockUndo
    (s.node.ledger.prepareBlockUndo W s.nowMs b.blockId b.blockHeight b.txs b.txHashes b.producerId
      b.reward.totalRewardMicro))
  Prog.read ⟨txs, false⟩ fun s => Ledger.blockBatch .saturating W s.node.ledger s.nowMs b.blockHeight
    b.txs b.txHashes b.producerId b.reward.totalRewardMicro

/-- What is left for a later block goes back, if there is any. -/
def requeueLater (later txs : List SignedTxEnvelopeV1) : PendingProg Unit :=
  if later.isEmpty then pure () else requeueTxsFront W later txs

/-- `build_and_apply_block`. -/
def buildAndApplyBlock (producerId : Str) (txs : List SignedTxEnvelopeV1) :
    PendingProg (Except BuildError MineOutcome) := do
  match ← Prog.read ⟨txs, false⟩ fun s => planBlock W s.nowMs producerId txs s.node.ledger with
  | .error e => pure (.error (.nothingWritten e))
  | .ok b => do
    match ← checkBlock W txs b with
    | .error e => pure (.error (applyError e))
    | .ok batch => do
      let outcome ← commitBlock W txs b batch
      pure (.ok outcome)

/-- The transactions of a failed block go back, or the one that failed alone too often is dropped. -/
def requeueOrDrop (txs : List SignedTxEnvelopeV1) (failures : Nat) : PendingProg Unit :=
  if requeueAfterFailure failures txs.length then requeueTxsFront W txs []
  else Prog.write ⟨txs, false⟩ fun s => (s.setFailures 0).giveUp W txs

/-- What becomes of the transactions of a block that was not made. -/
def failBlock (txs : List SignedTxEnvelopeV1) : BuildError → PendingProg MineError
  | .nothingWritten e => do
    let n ← Prog.update ⟨txs, false⟩ (fun _ => true) fun s =>
      (s.node.blockFailures + 1, s.setFailures (s.node.blockFailures + 1))
    requeueOrDrop W txs n
    pure e
  | .maybeWritten e => do
    Prog.write ⟨txs, false⟩ (·.setFailures 0)
    pure e

/-- After a failed block, one transaction at a time. -/
def aloneAfterFailure (blockFailures : Nat)
    (block : List SignedTxEnvelopeV1 × List SignedTxEnvelopeV1) :
    List SignedTxEnvelopeV1 × List SignedTxEnvelopeV1 :=
  if decide (0 < blockFailures) && decide (1 < block.1.length) then
    (block.1.take 1, block.1.drop 1 ++ block.2)
  else block

/-- `mine_pending_block_as` from the selection on. -/
def mineSelected (producerId : Str) (block : List SignedTxEnvelopeV1 × List SignedTxEnvelopeV1) :
    PendingProg (Except MineError MineOutcome) := do
  requeueLater W block.2 block.1
  match ← buildAndApplyBlock W producerId block.1 with
  | .ok outcome => do
    Prog.write .idle (·.setFailures 0)
    pure (.ok outcome)
  | .error e => do
    let e ← failBlock W block.1 e
    pure (.error e)

/-- `mine_pending_block_as` with the mempool taken. -/
def mineTaken (producerId : Str) (txs : List SignedTxEnvelopeV1) :
    PendingProg (Except MineError MineOutcome) := do
  forget W txs []
  match ← dropSettled W txs txs [] [] with
  | .error e => pure (.error e)
  | .ok pending => do
    let block ← selectBlockTxs W producerId pending
    let failures ← Prog.read ⟨block.1 ++ block.2, false⟩ (·.node.blockFailures)
    mineSelected W producerId (aloneAfterFailure failures block)

/-- The error of the AI workload check. -/
def gateError (producerId : Str) : MineError :=
  .unauthorized ("producer_id=" ++ String.ofList (minerId W producerId) ++
    " is not POC for AI workload")

/-- `mine_pending_block_as`. -/
def minePendingBlockAs (producerId : Str) : PendingProg (Except MineError MineOutcome) := do
  match ← takeMempool W producerId with
  | none => pure (.error (gateError W producerId))
  | some txs => mineTaken W (minerId W producerId) txs

end Programs

/-! ## With nothing in between -/

/-- A result as an outcome. -/
def outcomeOf {ε α : Type} : Except ε α → Outcome ε α
  | .ok a => .ok a
  | .error e => .err e

/-- A run with nothing in between: its result and what it leaves of the node. -/
def Alone {α : Type} (p : PendingProg α) (s : PendingNode) (a : α) (node : Node) : Prop :=
  ∃ s', p.alone s = some (a, s') ∧ s'.node = node ∧ s'.nowMs = s.nowMs ∧
    s'.mempoolLocked = s.mempoolLocked

section Alone

variable {W : World} {s : PendingNode} {α β : Type} {i : Place} {node node' : Node}
  {txs : List SignedTxEnvelopeV1} {producerId : Str}

theorem Alone.pure (a : α) (s : PendingNode) : Alone (Pure.pure a) s a s.node :=
  ⟨s, rfl, rfl, rfl, rfl⟩

theorem Alone.read (f : PendingNode → α) : Alone (Prog.read i f) s (f s) s.node :=
  ⟨s, rfl, rfl, rfl, rfl⟩

theorem Alone.write {f : PendingNode → PendingNode} (hnow : (f s).nowMs = s.nowMs)
    (hlock : (f s).mempoolLocked = s.mempoolLocked) : Alone (Prog.write i f) s () (f s).node :=
  ⟨f s, rfl, rfl, hnow, hlock⟩

theorem Alone.update {ready : PendingNode → Bool} {f : PendingNode → α × PendingNode}
    (hready : ready s = true) (hnow : (f s).2.nowMs = s.nowMs)
    (hlock : (f s).2.mempoolLocked = s.mempoolLocked) :
    Alone (Prog.update i ready f) s (f s).1 (f s).2.node :=
  ⟨(f s).2, Prog.alone_update hready, rfl, hnow, hlock⟩

/-- What comes after a program starts where it ends. -/
theorem Alone.next {p : PendingProg α} {a : α} (hp : Alone p s a node) :
    ∃ s', (s'.node = node ∧ s'.nowMs = s.nowMs ∧ s'.mempoolLocked = s.mempoolLocked) ∧
      ∀ {β : Type} {f : α → PendingProg β} {b : β} {node' : Node}, Alone (f a) s' b node' →
        Alone (p >>= f) s b node' := by
  obtain ⟨s', hrun, hnode, hnow, hlock⟩ := hp
  refine ⟨s', ⟨hnode, hnow, hlock⟩, fun {β f b node'} hf => ?_⟩
  obtain ⟨s₂, hrun', hnode', hnow', hlock'⟩ := hf
  refine ⟨s₂, ?_, hnode', hnow'.trans hnow, hlock'.trans hlock⟩
  rw [Prog.alone_bind, hrun]
  exact hrun'

theorem Alone.bind {p : PendingProg α} {f : α → PendingProg β} {a : α} {b : β}
    (hp : Alone p s a node)
    (hf : ∀ s', s'.node = node → s'.nowMs = s.nowMs → s'.mempoolLocked = s.mempoolLocked →
      Alone (f a) s' b node') : Alone (p >>= f) s b node' := by
  obtain ⟨s', ⟨hnode, hnow, hlock⟩, hnext⟩ := hp.next
  exact hnext (hf s' hnode hnow hlock)

theorem forget_alone : ∀ (txs held : List SignedTxEnvelopeV1) (s : PendingNode),
    Alone (forget W txs held) s () s.node := by
  intro txs
  induction txs with
  | nil => exact fun held s => .pure () s
  | cons env txs ih =>
    intro held s
    unfold forget
    split
    · exact ih held s
    · refine (Alone.write rfl rfl).bind fun s' hnode _ _ => ?_
      have h := ih (held ++ [env]) s'
      rwa [hnode] at h

theorem dropSettled_alone (held : List SignedTxEnvelopeV1) :
    ∀ (txs : List SignedTxEnvelopeV1) (seen : List Str) (kept : List SignedTxEnvelopeV1)
      (s : PendingNode), Alone (dropSettled W held txs seen kept) s
        ((Consensus.dropSettled W s.node.ledger txs seen).map (kept ++ ·)) s.node := by
  intro txs
  induction txs with
  | nil =>
    intro seen kept s
    have h := Alone.pure (Except.ok (ε := MineError) kept) s
    unfold dropSettled Consensus.dropSettled
    rwa [Except.map, List.append_nil]
  | cons env txs ih =>
    intro seen kept s
    unfold dropSettled Consensus.dropSettled
    cases hh : txHashForEnv W env with
    | error e => exact .pure _ s
    | ok h =>
      refine (Alone.read _).bind fun s' hnode _ _ => ?_
      have hrest := ih (seen.insert h) (if (decide (h ∈ seen) || s.node.ledger.isTxApplied h)
        then kept else kept ++ [env]) s'
      rw [hnode] at hrest
      simp only [Except.mapError, ok_bind]
      by_cases hseen : h ∈ seen
      · simp only [hseen, decide_true, Bool.true_or, if_true, List.insert_of_mem] at hrest ⊢
        exact hrest
      · rw [List.insert_of_not_mem hseen] at hrest ⊢
        simp only [hseen, decide_false, Bool.false_or, if_false] at hrest ⊢
        by_cases happlied : s.node.ledger.isTxApplied h = true
        · simp only [happlied, if_true] at hrest ⊢
          exact hrest
        · simp only [happlied, if_false, Bool.false_eq_true] at hrest ⊢
          cases hdrop : Consensus.dropSettled W s.node.ledger txs (h :: seen) with
          | error e =>
            rw [hdrop] at hrest
            exact hrest
          | ok l =>
            rw [hdrop] at hrest
            simp only [Except.map, List.append_assoc, List.singleton_append] at hrest
            exact hrest

theorem keepOneByOne_alone (producerId : Str) (held : List SignedTxEnvelopeV1) :
    ∀ (txs kept : List SignedTxEnvelopeV1) (s : PendingNode),
      Alone (keepOneByOne W held producerId txs kept) s
        (txs.foldl (fun kept env =>
          if blockTxsOk W s.node.ledger s.nowMs (kept ++ [env]) producerId then kept ++ [env]
          else kept) kept) s.node := by
  intro txs
  induction txs with
  | nil => exact fun kept s => .pure kept s
  | cons env txs ih =>
    intro kept s
    unfold keepOneByOne
    rw [List.foldl_cons]
    by_cases hok : blockTxsOk W s.node.ledger s.nowMs (kept ++ [env]) producerId = true
    · rw [if_pos hok]
      have hkeep : Alone (Prog.update ⟨held, false⟩ (fun _ => true) fun s =>
          if blockTxsOk W s.node.ledger s.nowMs (kept ++ [env]) producerId then (true, s)
          else (false, s.giveUp W [env])) s true s.node := by
        refine ⟨s, ?_, rfl, rfl, rfl⟩
        rw [Prog.alone_update rfl, if_pos hok]
      refine hkeep.bind fun s' hnode hnow _ => ?_
      have h := ih (kept ++ [env]) s'
      rwa [hnode, hnow] at h
    · rw [if_neg hok]
      have hdrop : Alone (Prog.update ⟨held, false⟩ (fun _ => true) fun s =>
          if blockTxsOk W s.node.ledger s.nowMs (kept ++ [env]) producerId then (true, s)
          else (false, s.giveUp W [env])) s false s.node := by
        refine ⟨s.giveUp W [env], ?_, rfl, rfl, rfl⟩
        rw [Prog.alone_update rfl, if_neg hok]
      refine hdrop.bind fun s' hnode hnow _ => ?_
      have h := ih kept s'
      rwa [hnode, hnow] at h

theorem selectBlockTxs_alone (producerId : Str) (txs : List SignedTxEnvelopeV1)
    (s : PendingNode) :
    Alone (selectBlockTxs W producerId txs) s
      (Consensus.selectBlockTxs W s.node.ledger s.nowMs txs producerId) s.node := by
  unfold selectBlockTxs Consensus.selectBlockTxs
  refine (Alone.read _).bind fun s' hnode hnow _ => ?_
  split
  · have h := Alone.pure (txs, ([] : List SignedTxEnvelopeV1)) s'
    rwa [hnode] at h
  · have h := keepOneByOne_alone (W := W) producerId txs
      (txs.take selectOneByOneMax) [] s'
    rw [hnode, hnow] at h
    refine h.bind fun s'' hnode' _ _ => ?_
    rw [← hnode']
    exact .pure _ s''

theorem putBack_alone (queue rest : List SignedTxEnvelopeV1) :
    ∀ (txs front : List SignedTxEnvelopeV1) (s : PendingNode),
      Alone (putBack W queue rest txs front) s (txs.foldl (putFront W queue) front) s.node := by
  intro txs
  induction txs with
  | nil => exact fun front s => .pure front s
  | cons env txs ih =>
    intro front s
    unfold putBack
    rw [List.foldl_cons]
    unfold putFront
    cases hh : txHashForEnv W env with
    | error e => exact ih front s
    | ok h =>
      simp only
      split
      · have hskip : Alone (Prog.write ⟨env :: txs ++ rest, true⟩ (·.skip h)) s () s.node := by
          refine ⟨s.skip h, rfl, ?_⟩
          unfold PendingNode.skip
          split <;> exact ⟨rfl, rfl, rfl⟩
        refine hskip.bind fun s' hnode _ _ => ?_
        have h := ih front s'
        rwa [hnode] at h
      · refine (Alone.write rfl rfl).bind fun s' hnode _ _ => ?_
        have h := ih (front ++ [env]) s'
        rwa [hnode] at h

theorem requeueTxsFront_alone (txs rest : List SignedTxEnvelopeV1) {s : PendingNode}
    (hfree : s.mempoolLocked = false) :
    Alone (requeueTxsFront W txs rest) s ()
      { s.node with mempool := Consensus.requeueTxsFront W txs s.node.mempool } := by
  have hready : s.free = true := by rw [PendingNode.free, hfree, Bool.not_false]
  obtain ⟨s₁, h₁, hnode, hnow, -⟩ :=
    putBack_alone (W := W) s.node.mempool rest txs [] (s.setLocked true)
  refine ⟨(s₁.setMempool (txs.foldl (putFront W s.node.mempool) [] ++ s₁.node.mempool)).setLocked
    false, ?_, ?_, hnow, hfree.symm⟩
  · unfold requeueTxsFront
    rw [Prog.alone_bind, Prog.alone_update hready, Option.bind_some, Prog.alone_bind, h₁]
    rfl
  · rw [requeueTxsFront_foldl]
    show Node.mk s₁.node.ledger _ s₁.node.blockFailures = _
    rw [hnode]
    rfl

theorem commitBlock_alone (txs : List SignedTxEnvelopeV1) (b : PreparedBlock) (batch : Ledger.Batch)
    (s : PendingNode) :
    Alone (commitBlock W txs b batch) s
      ⟨true, b.blockHeight, b.blockId, b.producerId, Ledger.stateRootFromRows W batch.balances.iter,
        b.txHashes, b.txs.length, b.reward⟩
      (s.setLedger (finishBlock s.nowMs b (Ledger.stateRootFromRows W batch.balances.iter)
        (batch.commit s.node.ledger))).node :=
  ⟨_, rfl, rfl, rfl, rfl⟩

/-- **The block**, with nothing in between: the writes of the apply are its commit. -/
theorem buildAndApplyBlock_alone (producerId : Str) (txs : List SignedTxEnvelopeV1)
    (s : PendingNode) :
    ∃ r L, Alone (buildAndApplyBlock W producerId txs) s r (s.setLedger L).node ∧
      Consensus.buildAndApplyBlock W s.nowMs producerId txs s.node.ledger = (outcomeOf r, L) := by
  unfold buildAndApplyBlock
  cases hplan : planBlock W s.nowMs producerId txs s.node.ledger with
  | error e =>
    refine ⟨.error (.nothingWritten e), s.node.ledger, ⟨s, ?_, rfl, rfl, rfl⟩, ?_⟩
    · rw [Prog.alone_bind, Prog.alone_read, hplan]
      rfl
    · simp only [Consensus.buildAndApplyBlock, prepareBlock, Proc.bind_apply, Proc.mapErr, Proc.check,
        hplan, id]
      rfl
  | ok b =>
    obtain ⟨L₁, hL₁⟩ : ∃ L₁, L₁ = s.node.ledger.storeBlockUndo (s.node.ledger.prepareBlockUndo W
      s.nowMs b.blockId b.blockHeight b.txs b.txHashes b.producerId b.reward.totalRewardMicro) :=
      ⟨_, rfl⟩
    have hcheck : Alone (checkBlock W txs b) s (Ledger.blockBatch .saturating W L₁ s.nowMs
        b.blockHeight b.txs b.txHashes b.producerId b.reward.totalRewardMicro)
        (s.setLedger L₁).node := by
      subst hL₁
      exact ⟨_, rfl, rfl, rfl, rfl⟩
    have happly : Consensus.buildAndApplyBlock W s.nowMs producerId txs s.node.ledger =
        (Proc.atomic applyError (Ledger.applyConsensusBlockBatch W s.nowMs b.blockHeight b.txs
          b.txHashes b.producerId b.reward.totalRewardMicro) >>= fun root => do
          Proc.write (finishBlock s.nowMs b root)
          pure ⟨true, b.blockHeight, b.blockId, b.producerId, root, b.txHashes, b.txs.length,
            b.reward⟩) L₁ := by
      subst hL₁
      simp only [Consensus.buildAndApplyBlock, prepareBlock, Proc.bind_apply, Proc.mapErr, Proc.check,
        hplan, Proc.write_apply, Proc.pure_apply]
    rw [happly, Proc.bind_apply, Proc.atomic]
    unfold Ledger.applyConsensusBlockBatch Ledger.applyConsensusBlockBatchWith
    obtain ⟨s₁, hrun, hnode, hnow, hlock⟩ := hcheck
    cases hbatch : Ledger.blockBatch .saturating W L₁ s.nowMs b.blockHeight b.txs b.txHashes
      b.producerId b.reward.totalRewardMicro with
    | error e =>
      rw [hbatch] at hrun
      refine ⟨.error (applyError e), L₁, ⟨s₁, ?_, hnode, hnow, hlock⟩, rfl⟩
      rw [Prog.alone_bind, Prog.alone_read, Option.bind_some, hplan]
      show (checkBlock W txs b >>= _).alone s = _
      rw [Prog.alone_bind, hrun]
      rfl
    | ok batch =>
      rw [hbatch] at hrun
      obtain ⟨s₂, hcommit, hnode', hnow', hlock'⟩ := commitBlock_alone (W := W) txs b batch s₁
      refine ⟨.ok _, _, ⟨s₂, ?_, ?_, hnow'.trans hnow, hlock'.trans hlock⟩, rfl⟩
      · rw [Prog.alone_bind, Prog.alone_read, Option.bind_some, hplan]
        show (checkBlock W txs b >>= _).alone s = _
        rw [Prog.alone_bind, hrun, Option.bind_some]
        show (commitBlock W txs b batch >>= _).alone s₁ = _
        rw [Prog.alone_bind, hcommit]
        rfl
      · rw [hnode', hnow]
        show Node.mk (finishBlock s.nowMs b _ (batch.commit s₁.node.ledger)) s₁.node.mempool
          s₁.node.blockFailures = _
        rw [hnode]
        rfl

/-- What a failed block leaves of the node. -/
def failedNode (W : World) (txs : List SignedTxEnvelopeV1) (node : Node) : BuildError → Node
  | .nothingWritten _ =>
    if requeueAfterFailure (node.blockFailures + 1) txs.length then
      ⟨node.ledger, Consensus.requeueTxsFront W txs node.mempool, node.blockFailures + 1⟩
    else ⟨node.ledger, node.mempool, 0⟩
  | .maybeWritten _ => ⟨node.ledger, node.mempool, 0⟩

theorem failBlock_alone (txs : List SignedTxEnvelopeV1) (e : BuildError) {s : PendingNode}
    (hfree : s.mempoolLocked = false) :
    Alone (failBlock W txs e) s e.error (failedNode W txs s.node e) := by
  cases e with
  | maybeWritten e => exact ⟨_, rfl, rfl, rfl, rfl⟩
  | nothingWritten e =>
    unfold failBlock failedNode
    refine (Alone.update rfl rfl rfl).bind fun s' hnode _ hlock => ?_
    unfold requeueOrDrop
    simp only
    split
    · have h := requeueTxsFront_alone (W := W) txs [] (hlock.trans hfree)
      refine h.bind fun s'' hnode' _ _ => ?_
      have hp := Alone.pure e s''
      rw [hnode', hnode] at hp
      exact hp
    · refine (Alone.write rfl rfl).bind fun s'' hnode' _ _ => ?_
      have hp := Alone.pure e s''
      rw [hnode'] at hp
      unfold PendingNode.giveUp PendingNode.setFailures at hp
      simp only [hnode] at hp
      exact hp

theorem mineSelected_alone (producerId : Str)
    (block : List SignedTxEnvelopeV1 × List SignedTxEnvelopeV1) {s : PendingNode}
    (hfree : s.mempoolLocked = false) :
    ∃ r node, Alone (mineSelected W producerId block) s r node ∧
      (match Consensus.buildAndApplyBlock W s.nowMs producerId block.1 s.node.ledger with
        | (.ok outcome, L) =>
          (Outcome.ok outcome, ⟨L, Consensus.requeueTxsFront W block.2 s.node.mempool, 0⟩)
        | (.err e, L) => (.err e.error, failedNode W block.1 ⟨L,
            Consensus.requeueTxsFront W block.2 s.node.mempool, s.node.blockFailures⟩ e)
        | (.hang, _) => (.hang, s.node)) = (outcomeOf r, node) := by
  have hlater : Alone (requeueLater W block.2 block.1) s ()
      { s.node with mempool := Consensus.requeueTxsFront W block.2 s.node.mempool } := by
    cases hempty : block.2 with
    | nil => exact .pure () s
    | cons env later => exact requeueTxsFront_alone (W := W) (env :: later) block.1 hfree
  obtain ⟨s₁, ⟨hnode, hnow, hlock⟩, hlater⟩ := hlater.next
  obtain ⟨r, L, hbuild, hblock⟩ := buildAndApplyBlock_alone (W := W) producerId block.1 s₁
  obtain ⟨s₂, ⟨hnode', -, hlock'⟩, hbuild⟩ := hbuild.next
  rw [hnow, hnode] at hblock
  simp only [hblock]
  unfold mineSelected
  cases r with
  | ok outcome =>
    refine ⟨.ok outcome, _, hlater (hbuild ⟨s₂.setFailures 0, rfl, rfl, rfl, rfl⟩), ?_⟩
    unfold PendingNode.setFailures
    rw [hnode']
    unfold PendingNode.setLedger
    rw [hnode]
    rfl
  | error e =>
    refine ⟨.error e.error, _, hlater (hbuild ((failBlock_alone (W := W) block.1 e
      (hlock'.trans (hlock.trans hfree))).bind fun s₃ hnode₃ _ _ => ⟨s₃, rfl, hnode₃, rfl, rfl⟩)), ?_⟩
    rw [hnode']
    unfold PendingNode.setLedger
    rw [hnode]
    rfl

/-- The rest of a call whose mempool is taken. -/
theorem mineTaken_alone (producerId : Str) (txs : List SignedTxEnvelopeV1) {s : PendingNode}
    (hfree : s.mempoolLocked = false) (hempty : s.node.mempool = []) :
    ∃ r node, Alone (mineTaken W producerId txs) s r node ∧
      (match Consensus.dropSettled W s.node.ledger txs [] with
        | .error e => (Outcome.err e, s.node)
        | .ok pending =>
          let block := aloneAfterFailure s.node.blockFailures
            (Consensus.selectBlockTxs W s.node.ledger s.nowMs pending producerId)
          match Consensus.buildAndApplyBlock W s.nowMs producerId block.1 s.node.ledger with
          | (.ok outcome, L) =>
            (Outcome.ok outcome, ⟨L, Consensus.requeueTxsFront W block.2 [], 0⟩)
          | (.err e, L) => (.err e.error, failedNode W block.1 ⟨L,
              Consensus.requeueTxsFront W block.2 [], s.node.blockFailures⟩ e)
          | (.hang, _) => (.hang, s.node)) = (outcomeOf r, node) := by
  obtain ⟨s₁, ⟨hnode₁, hnow₁, hlock₁⟩, hforget⟩ := (forget_alone (W := W) txs [] s).next
  have hdrop := dropSettled_alone (W := W) txs txs [] [] s₁
  rw [hnode₁] at hdrop
  obtain ⟨s₂, ⟨hnode₂, hnow₂, hlock₂⟩, hnext₂⟩ := hdrop.next
  have hnow : s₂.nowMs = s.nowMs := hnow₂.trans hnow₁
  have hlock : s₂.mempoolLocked = s.mempoolLocked := hlock₂.trans hlock₁
  unfold mineTaken
  cases hpending : Consensus.dropSettled W s.node.ledger txs [] with
  | error e =>
    rw [hpending] at hnext₂
    exact ⟨.error e, s.node, hforget (hnext₂ ⟨s₂, rfl, hnode₂, rfl, rfl⟩), rfl⟩
  | ok pending =>
    rw [hpending] at hnext₂
    obtain ⟨s₃, ⟨hnode₃, hnow₃, hlock₃⟩, hselect⟩ :=
      (selectBlockTxs_alone (W := W) producerId pending s₂).next
    obtain ⟨r, node, hmine, hresult⟩ := mineSelected_alone (W := W)
      producerId (aloneAfterFailure s₃.node.blockFailures
        (Consensus.selectBlockTxs W s₂.node.ledger s₂.nowMs pending producerId))
      (hlock₃.trans (hlock.trans hfree))
    refine ⟨r, node, hforget (hnext₂ (hselect hmine)), ?_⟩
    rw [hnode₃, hnow₃, hnode₂, hnow, hempty] at hresult
    exact hresult

/-- The block of an attempt. -/
theorem aloneAfterFailure_select (L : Ledger) (nowMs : Nat) (pending : List SignedTxEnvelopeV1)
    (producerId : Str) (blockFailures : Nat) :
    aloneAfterFailure blockFailures (Consensus.selectBlockTxs W L nowMs pending producerId) =
      blockOf W L nowMs pending producerId blockFailures := by
  unfold aloneAfterFailure blockOf
  rcases Consensus.selectBlockTxs W L nowMs pending producerId with ⟨selected, left⟩
  rfl

/-- **With nothing in between**, the program is `mine_pending_block_as`. -/
theorem minePendingBlockAs_alone (producerId : Str) {s : PendingNode}
    (hfree : s.mempoolLocked = false) :
    ∃ r node, Alone (minePendingBlockAs W producerId) s r node ∧
      Consensus.minePendingBlockAs W s.nowMs producerId s.node = (outcomeOf r, node) := by
  have hready : s.free = true := by rw [PendingNode.free, hfree, Bool.not_false]
  have htake : (takeMempool W producerId).alone s = some (if gateRefuses W producerId s.node
      then (none, s) else (some s.node.mempool, s.setMempool [])) := by
    unfold takeMempool
    rw [Prog.alone_update hready]
  unfold minePendingBlockAs
  rw [← mineInterleaved_nil]
  unfold mineInterleaved
  by_cases hgate : gateRefuses W producerId s.node = true
  · rw [if_pos hgate] at htake
    refine ⟨.error (gateError W producerId), s.node, ⟨s, ?_, rfl, rfl, rfl⟩, ?_⟩
    · rw [Prog.alone_bind, htake]
      rfl
    · rw [if_pos hgate]
      simp only [List.append_nil]
      rfl
  · rw [if_neg hgate] at htake
    obtain ⟨r, node, ⟨s', hmine, hnode, hnow, hlock⟩, hresult⟩ := mineTaken_alone (W := W)
      (minerId W producerId) s.node.mempool (s := s.setMempool []) hfree rfl
    refine ⟨r, node, ⟨s', ?_, hnode, hnow, hlock⟩, ?_⟩
    · rw [Prog.alone_bind, htake]
      exact hmine
    · rw [if_neg hgate, ← hresult]
      simp only [aloneAfterFailure_select, PendingNode.setMempool]
      cases Consensus.dropSettled W s.node.ledger s.node.mempool [] with
      | error e => rfl
      | ok pending =>
        rcases hblock : blockOf W s.node.ledger s.nowMs pending (minerId W producerId)
          s.node.blockFailures with ⟨txs, later⟩
        simp only [hblock, List.append_nil]
        rcases buildAndApplyBlock_cases W s.nowMs (minerId W producerId) txs s.node.ledger with
          ⟨outcome, L, hmade, -⟩ | ⟨e, L, hfailed⟩
        · rw [hmade]
        · rw [hfailed]
          simp only [failedNode, BuildError.error]
          split <;> rfl

end Alone

end TetCore.Mempool.Durable
