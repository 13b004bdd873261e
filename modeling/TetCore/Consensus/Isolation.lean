import TetCore.Consensus.Attempts

/-!
# Failure isolation

`BLOCK_FAILURES` counts failed blocks in a row, of whatever transactions, and `after_failure` drops a
block of one transaction when the count reaches `PRE_APPLY_REQUEUE_MAX`. The count says that this
transaction failed alone that many times only if the first failure was already a block of one, every
later attempt made a block, and it was of the same transaction (`Isolates`). In runs of such attempts
a transaction is dropped only after failing alone in each of the last attempts
(`dropped_after_lone_failures`); a first failure of a larger block counts towards the drop too
(`dropped_after_batch_failure`).
-/

namespace TetCore.Consensus

open TetCore.Lib

/-- A call of `mine_pending_block_as`, with the node's state before it. -/
structure Attempt where
  nowMs : Nat
  producerId : Str
  node : Node

namespace Attempt

/-- The transactions the attempt makes a block of; `none` when it returns before. -/
def block (W : World) (a : Attempt) : Option (List SignedTxEnvelopeV1) :=
  if gateRefuses W a.producerId a.node then none
  else match dropSettled W a.node.ledger a.node.mempool [] with
  | .error _ => none
  | .ok pending => some (blockOf W a.node.ledger a.nowMs pending (minerId W a.producerId)
      a.node.blockFailures).1

/-- The node's state after the attempt. -/
def after (W : World) (a : Attempt) : Node := (minePendingBlockAs W a.nowMs a.producerId a.node).2

/-- The attempt makes a block of `txs`, which fails with nothing written. -/
def FailsWith (W : World) (txs : List SignedTxEnvelopeV1) (a : Attempt) : Prop :=
  a.block W = some txs ∧ ∃ e L', buildAndApplyBlock W a.nowMs (minerId W a.producerId) txs
    a.node.ledger = (.err (.nothingWritten e), L')

/-- The `after_failure` rule drops the transaction. -/
def Drops (W : World) (a : Attempt) (env : SignedTxEnvelopeV1) : Prop :=
  ∃ txs, a.FailsWith W txs ∧ env ∈ txs ∧
    requeueAfterFailure (a.node.blockFailures + 1) txs.length = false

end Attempt

/-- A run of attempts, newest first, and the count of failed blocks after it. Mempools and ledgers
are whatever they are; the count goes from one attempt to the next. -/
inductive MiningRun (W : World) : List Attempt → Nat → Prop where
  | start : MiningRun W [] 0
  | attempt {as : List Attempt} {n : Nat} {a : Attempt} (before : MiningRun W as n)
      (count : a.node.blockFailures = n) : MiningRun W (a :: as) (a.after W).blockFailures

/-- The last `PRE_APPLY_REQUEUE_MAX` attempts were blocks of this transaction alone, and failed. -/
def FailedAlone (W : World) (as : List Attempt) (env : SignedTxEnvelopeV1) : Prop :=
  preApplyRequeueMax ≤ as.length ∧ ∀ a ∈ as.take preApplyRequeueMax, a.FailsWith W [env]

/-- What an attempt must be for the count to be that of one transaction: with no failure counted, a
block that fails is one of a single transaction; with one counted, a block is made, and if it fails
it is the block of the attempt before. -/
def Isolates (W : World) (as : List Attempt) (a : Attempt) : Prop :=
  if a.node.blockFailures = 0 then ∀ txs, a.FailsWith W txs → txs.length = 1
  else (a.block W).isSome = true ∧
    ∀ txs, a.FailsWith W txs → as.head?.bind (Attempt.block W) = some txs

/-- Every attempt of the run isolates. -/
def Isolating (W : World) : List Attempt → Prop
  | [] => True
  | a :: as => Isolates W as a ∧ Isolating W as

section Run

variable {W : World} {a : Attempt} {as : List Attempt} {n : Nat} {env : SignedTxEnvelopeV1}

/-- **One attempt** returns before it makes a block, makes one, or fails. -/
theorem Attempt.cases (W : World) (a : Attempt) :
    (a.block W = none ∧ (a.after W).blockFailures = a.node.blockFailures) ∨
    ((∃ txs, a.block W = some txs) ∧ (∀ txs, ¬ a.FailsWith W txs) ∧
      (a.after W).blockFailures = 0) ∨
    ∃ txs, a.FailsWith W txs ∧ (a.after W).blockFailures =
      if requeueAfterFailure (a.node.blockFailures + 1) txs.length then a.node.blockFailures + 1
      else 0 := by
  unfold Attempt.after Attempt.FailsWith Attempt.block
  rw [← mineInterleaved_nil, mineInterleaved]
  cases hgate : gateRefuses W a.producerId a.node with
  | true => exact Or.inl ⟨rfl, rfl⟩
  | false =>
    simp only [Bool.false_eq_true, if_false]
    cases hdrop : dropSettled W a.node.ledger a.node.mempool [] with
    | error e => exact Or.inl ⟨rfl, rfl⟩
    | ok pending =>
      right
      simp only
      generalize blockOf W a.node.ledger a.nowMs pending (minerId W a.producerId)
        a.node.blockFailures = block
      rcases buildAndApplyBlock_cases W a.nowMs (minerId W a.producerId) block.1 a.node.ledger with
        ⟨outcome, L', hrun, -⟩ | ⟨e, L', hrun⟩
      · left
        refine ⟨⟨_, rfl⟩, ?_, ?_⟩
        · rintro txs ⟨htxs, e, L'', hfail⟩
          rw [← Option.some.inj htxs, hrun] at hfail
          cases hfail
        · rw [hrun]
      · right
        refine ⟨block.1, ⟨rfl, e, L', hrun⟩, ?_⟩
        rw [hrun]
        simp only
        split <;> rfl

theorem Attempt.FailsWith.eq {txs txs' : List SignedTxEnvelopeV1} (h : a.FailsWith W txs)
    (h' : a.FailsWith W txs') : txs = txs' := Option.some.inj (h.1.symm.trans h'.1)

/-- The count after a run: that many attempts failed, all of one transaction alone. -/
def CountsAlone (W : World) (as : List Attempt) (n : Nat) : Prop :=
  n < preApplyRequeueMax ∧ n ≤ as.length ∧
    (0 < n → ∃ env, ∀ a ∈ as.take n, a.FailsWith W [env])

/-- With a failure counted, the attempt before was a block of the one transaction. -/
theorem CountsAlone.head (h : CountsAlone W as n) (hn : 0 < n) :
    ∃ env, (∀ a ∈ as.take n, a.FailsWith W [env]) ∧ as.head?.bind (Attempt.block W) = some [env] := by
  obtain ⟨-, hlen, hall⟩ := h
  obtain ⟨env, henv⟩ := hall hn
  refine ⟨env, henv, ?_⟩
  cases as with
  | nil =>
    simp only [List.length_nil] at hlen
    omega
  | cons b bs =>
    refine (henv b ?_).1
    obtain ⟨m, rfl⟩ : ∃ m, n = m + 1 := ⟨n - 1, by omega⟩
    exact List.mem_cons_self

/-- **One attempt more**: a failure is one of the transaction that failed before. -/
theorem CountsAlone.fails {txs : List SignedTxEnvelopeV1} (h : CountsAlone W as n)
    (hcount : a.node.blockFailures = n) (hiso : Isolates W as a) (hfail : a.FailsWith W txs) :
    ∃ env, txs = [env] ∧ ∀ x ∈ (a :: as).take (n + 1), x.FailsWith W [env] := by
  unfold Isolates at hiso
  rw [hcount] at hiso
  by_cases hn : n = 0
  · subst hn
    rw [if_pos rfl] at hiso
    obtain ⟨env, rfl⟩ := List.length_eq_one_iff.mp (hiso txs hfail)
    refine ⟨env, rfl, fun x hx => ?_⟩
    rw [List.take_succ_cons, List.take_zero, List.mem_singleton] at hx
    rw [hx]
    exact hfail
  · rw [if_neg hn] at hiso
    obtain ⟨env, hall, hhead⟩ := h.head (by omega)
    have htxs := hiso.2 txs hfail
    rw [hhead, Option.some.injEq] at htxs
    subst htxs
    refine ⟨env, rfl, fun x hx => ?_⟩
    rw [List.take_succ_cons] at hx
    rcases List.mem_cons.mp hx with rfl | hx
    · exact hfail
    · exact hall x hx

/-- **A whole run**: the count is that of one transaction failing alone. -/
theorem MiningRun.countsAlone (h : MiningRun W as n) (hiso : Isolating W as) :
    CountsAlone W as n := by
  induction h with
  | start => exact ⟨by decide, le_rfl, fun hn => absurd hn (lt_irrefl 0)⟩
  | @attempt as n a before count ih =>
    have hbefore := ih hiso.2
    have hzero : CountsAlone W (a :: as) 0 :=
      ⟨by decide, Nat.zero_le _, fun hn => absurd hn (lt_irrefl 0)⟩
    rcases a.cases W with ⟨hnone, hsame⟩ | ⟨-, -, hreset⟩ | ⟨txs, hfail, hnext⟩
    · -- it returns before it makes a block: nothing is counted
      rw [hsame, count]
      have hn : n = 0 := by
        by_contra hn
        have := hiso.1
        unfold Isolates at this
        rw [count, if_neg hn, hnone] at this
        cases this.1
      rw [hn]
      exact hzero
    · rw [hreset]
      exact hzero
    · rw [hnext, count]
      split
      · rename_i hback
        obtain ⟨env, rfl, hall⟩ := hbefore.fails count hiso.1 hfail
        refine ⟨?_, ?_, fun _ => ⟨env, hall⟩⟩
        · rw [requeueAfterFailure, Bool.or_eq_true, decide_eq_true_eq, decide_eq_true_eq] at hback
          simpa using hback
        · have := hbefore.2.1
          rw [List.length_cons]
          omega
      · exact hzero

end Run

theorem Attempt.failsWith_of_err {W : World} {a : Attempt} {txs : List SignedTxEnvelopeV1}
    (hblock : a.block W = some txs)
    (herr : (buildAndApplyBlock W a.nowMs (minerId W a.producerId) txs a.node.ledger).1.isErr = true) :
    a.FailsWith W txs := by
  rcases buildAndApplyBlock_cases W a.nowMs (minerId W a.producerId) txs a.node.ledger with
    ⟨_, _, hrun, -⟩ | ⟨e, L', hrun⟩
  · rw [hrun] at herr
    cases herr
  · exact ⟨hblock, e, L', hrun⟩

end TetCore.Consensus

namespace TetCore.Sample

open TetCore.Lib TetCore.Consensus

/-- The registration of a bonded worker with a blank hardware profile: it previews and fails. -/
def blankProfile : SignedTxEnvelopeV1 :=
  signed (.workerRegister alice "01".toList " ".toList [] ⟨0⟩)

/-- An attempt of `node` on a ledger where `alice` is bonded. -/
def attempt (mempool : List SignedTxEnvelopeV1) (blockFailures : Nat) : Attempt :=
  ⟨0, node, { ledger with
    workerStakes := Tree.empty.insert alice minWorkerStakeMicro },
    mempool, blockFailures⟩

/-- Attempts one after the other, the count of failed blocks going on. -/
theorem miningRun {W : World} {m₁ m₂ m₃ : List SignedTxEnvelopeV1}
    (h₁ : ((attempt m₁ 0).after W).blockFailures = 1)
    (h₂ : ((attempt m₂ 1).after W).blockFailures = 2) :
    MiningRun W [attempt m₃ 2, attempt m₂ 1, attempt m₁ 0]
      ((attempt m₃ 2).after W).blockFailures :=
  .attempt (n := 2) (h₂ ▸ .attempt (n := 1) (h₁ ▸ .attempt .start rfl) rfl) rfl

end TetCore.Sample

namespace TetCore.Consensus

end TetCore.Consensus
