import TetCore.Ledger.Markers
import TetCore.Mempool.FundedBlocks

/-!
# Transfers sent to the node

Model of `post_wallet_transfer_impl` (`rest/handlers/wallet.rs`), which answers 202 when the transfer
is in the mempool, and of the runs of submissions and mining attempts on one node.

* A `PaymentNode` is a node with what an attempt under way holds, the transfers answered 202, and
  those that a block took from their senders: the unsettled ones of its transactions
  (`apply_balances_eq_preview`).
* An attempt has three steps, with submissions before, between and after them; one that fails makes no
  step. Without anything in between the steps are `mine_pending_block_as` (`attempt_eq`).
* The mempool is checked for the sender's funds, not for the transfer itself, and the miner drops what
  is in its batch twice or settled.

`accepted_payments_are_new`: as long as no transfer is answered 202 whose hash waits, is being mined or
is settled, every answer is a debit or a waiting copy. `payment_dropped` is the other case.
-/

namespace TetCore.Mempool

open TetCore.Lib TetCore.Consensus

/-! ## The request -/

/-- The text of a refused admission. -/
def MempoolEnqueueError.text : MempoolEnqueueError → String
  | .txTooLarge bytes maxBytes =>
    s!"transaction is too large for mempool: {bytes} > {maxBytes} bytes"
  | .full txs bytes =>
    s!"mempool is full and incoming tx fee is not high enough to evict: txs={txs} bytes={bytes}"
  | .invalid why => s!"a block would refuse this transaction: {why}"

/-- An answer other than 202: the status and the body. -/
structure Refusal where
  status : Nat
  body : String
  deriving DecidableEq

/-- The fields of the answer 202. -/
structure TransferPending where
  txHash : Str
  fromWalletId : Str
  toWalletId : Str
  amountMicro : Nat
  deriving DecidableEq

/-- The checks of `post_wallet_transfer_impl` before the admission. -/
def transferChecks (W : World) (L : Ledger) (nowMs : Nat) (env : SignedTxEnvelopeV1) :
    Except Refusal TransferPending := do
  require (env.v = 1) ⟨400, "unsupported envelope version"⟩
  let _ ← (W.verifyEnvelopeV1 env).mapError (Refusal.mk 401)
  match env.tx with
  | .transfer fromWallet toWallet amountMicro _ => do
    let fromK := trimLower fromWallet
    let toK := trimLower toWallet
    require (isHex64 fromK = true)
      ⟨400, "from_wallet must be 64 hex characters (Ed25519 verifying key)"⟩
    require (toK ≠ []) ⟨400, "to_wallet required"⟩
    require (fromK ≠ toK) ⟨400, "cannot transfer to self"⟩
    require (amountMicro ≠ 0 ∧ amountMicro ≤ maxSupplyMicro) ⟨400, "invalid amount"⟩
    require (amountMicro ≤ spendableMicro L nowMs fromK) ⟨400, "Insufficient funds"⟩
    let txHash ← (txHashForEnv W env).mapError (Refusal.mk 401)
    .ok ⟨txHash, fromK, toK, amountMicro⟩
  | _ => .error ⟨400, "expected transfer tx"⟩

/-- `post_wallet_transfer_impl`, less the announcement. -/
def postWalletTransfer (A : Auth) (c : Caps) (W : World) (nowMs : Nat) (env : SignedTxEnvelopeV1) :
    Proc Node Refusal TransferPending := fun s =>
  match transferChecks W s.ledger nowMs env with
  | .error e => (.err e, s)
  | .ok pending =>
    match enqueueWithoutBroadcast A c s.ledger nowMs env s.mempool with
    | (.ok _, mp) => (.ok pending, { s with mempool := mp })
    | (.err e, mp) => (.err ⟨429, e.text⟩, { s with mempool := mp })
    | (.hang, mp) => (.hang, { s with mempool := mp })

/-! ## Runs -/

/-- A mining attempt under way: the mempool it took, or the block it chose. -/
inductive Attempt where
  | taken (producerId : Str) (txs : List SignedTxEnvelopeV1)
  | chosen (producerId : Str) (txs : List SignedTxEnvelopeV1)
  deriving DecidableEq

/-- The transactions an attempt holds. -/
def Attempt.txs : Attempt → List SignedTxEnvelopeV1
  | .taken _ txs => txs
  | .chosen _ txs => txs

/-- A node, the attempt under way, the transfers answered 202, and those taken from their senders. -/
structure PaymentNode where
  node : Node
  attempt : Option Attempt
  answered : List SignedTxEnvelopeV1
  debited : List SignedTxEnvelopeV1

/-- The transactions in an attempt. -/
def PaymentNode.inHand (s : PaymentNode) : List SignedTxEnvelopeV1 :=
  (s.attempt.map Attempt.txs).getD []

/-- The transactions that are not decided. -/
def PaymentNode.pending (s : PaymentNode) : List SignedTxEnvelopeV1 := s.inHand ++ s.node.mempool

/-- What happens on the node. -/
inductive PaymentAction where
  | submit (nowMs : Nat) (env : SignedTxEnvelopeV1)
  | take (producerId : Str)
  | choose (nowMs : Nat)
  | build (nowMs : Nat)

section Runs

variable (A : Auth) (c : Caps) (W : World)

/-- The next state; none when the step cannot be made, or fails the attempt. -/
def PaymentAction.step (s : PaymentNode) : PaymentAction → Option PaymentNode
  | .submit nowMs env =>
    match postWalletTransfer A c W nowMs env s.node with
    | (.ok _, node) => some { s with node := node, answered := s.answered ++ [env] }
    | (_, node) => some { s with node := node }
  | .take producerId =>
    if s.attempt.isSome || gateRefuses W producerId s.node then none
    else some { s with
      node := { s.node with mempool := [] }
      attempt := some (.taken (minerId W producerId) s.node.mempool) }
  | .choose nowMs =>
    match s.attempt with
    | some (.taken producerId txs) =>
      match dropSettled W s.node.ledger txs [] with
      | .error _ => none
      | .ok pending =>
        let block := blockOf W s.node.ledger nowMs pending producerId s.node.blockFailures
        some { s with
          node := { s.node with mempool := requeueTxsFront W block.2 s.node.mempool }
          attempt := some (.chosen producerId block.1) }
    | _ => none
  | .build nowMs =>
    match s.attempt with
    | some (.chosen producerId txs) =>
      match buildAndApplyBlock W nowMs producerId txs s.node.ledger with
      | (.ok outcome, L) => some {
          node := ⟨L, s.node.mempool, 0⟩
          attempt := none
          answered := s.answered
          debited := s.debited ++ s.node.ledger.unsettled (txs.zip outcome.txHashes) }
      | _ => none
    | _ => none

/-- The states that steps lead to from a node with an empty mempool, each step where `ok` allows
it. -/
inductive PaymentRun (ok : PaymentNode → PaymentAction → Prop) : PaymentNode → Prop where
  | start (L : Ledger) (blockFailures : Nat) (amounts : Ledger.Bounded L.balances) :
      PaymentRun ok ⟨⟨L, [], blockFailures⟩, none, [], []⟩
  | step {s s' : PaymentNode} (a : PaymentAction) (before : PaymentRun ok s) (allowed : ok s a)
      (made : a.step A c W s = some s') : PaymentRun ok s'

/-- No eviction, and every attempt finds the senders' funds sufficient: the transfers it took fit their
balances less their locks, with the reward of the block where the worker pool itself sends. -/
def Plentiful (s : PaymentNode) : PaymentAction → Prop
  | .submit nowMs env =>
    (postWalletTransfer A c W nowMs env s.node).2.mempool =
      if (postWalletTransfer A c W nowMs env s.node).1.isOk then s.node.mempool ++ [env]
      else s.node.mempool
  | .choose nowMs =>
    Funded s.node.ledger nowMs (poolReserve W s.inHand) s.node.ledger.balances s.inHand
  | _ => True

/-- No transfer is answered 202 whose hash waits, is being mined or is settled. -/
def Fresh (s : PaymentNode) : PaymentAction → Prop
  | .submit nowMs env => (postWalletTransfer A c W nowMs env s.node).1.isOk = true →
      Unlike W env s.pending ∧
        ∀ h, txHashForEnv W env = .ok h → s.node.ledger.isTxApplied h = false
  | _ => True

end Runs

/-! ## The steps of an attempt -/

/-- **An attempt without anything in between** is `mine_pending_block_as`. -/
theorem attempt_eq {A : Auth} {c : Caps} {W : World} {nowMs : Nat} {producerId : Str}
    {s s₁ s₂ s₃ : PaymentNode} (h₁ : (PaymentAction.take producerId).step A c W s = some s₁)
    (h₂ : (PaymentAction.choose nowMs).step A c W s₁ = some s₂)
    (h₃ : (PaymentAction.build nowMs).step A c W s₂ = some s₃) :
    ∃ outcome, minePendingBlockAs W nowMs producerId s.node = (.ok outcome, s₃.node) := by
  rw [← mineInterleaved_nil]
  simp only [PaymentAction.step] at h₁
  split at h₁
  · cases h₁
  rename_i hgo
  rw [Bool.or_eq_true, not_or, Bool.not_eq_true, Bool.not_eq_true] at hgo
  cases h₁
  simp only [PaymentAction.step] at h₂
  cases hdrop : dropSettled W s.node.ledger s.node.mempool [] with
  | error e =>
    rw [hdrop] at h₂
    cases h₂
  | ok pending =>
    rw [hdrop] at h₂
    cases h₂
    simp only [PaymentAction.step] at h₃
    unfold mineInterleaved
    rw [hgo.2, hdrop]
    simp only [Bool.false_eq_true, if_false, List.append_nil]
    split at h₃
    · rename_i outcome L hbuild
      cases h₃
      rw [hbuild]
      exact ⟨outcome, rfl⟩
    · cases h₃

/-! ## The invariant -/

/-- A transaction that waits: a plain transfer whose hash is not settled. -/
structure Waits (W : World) (L : Ledger) (env : SignedTxEnvelopeV1) : Prop where
  plain : PlainTransfer env
  unsettled : ∃ h, txHashForEnv W env = .ok h ∧ L.isTxApplied h = false

/-- The attempt chose an empty block that cannot be made. -/
def PaymentNode.Stuck (W : World) (s : PaymentNode) : Prop :=
  ∃ producerId, s.attempt = some (.chosen producerId []) ∧
    ∀ t, blockTxsOk W s.node.ledger t [] producerId = false

/-- Nothing is pending twice, what is pending can be paid out, and every answer is a debit or is
pending. -/
structure PaymentInv (W : World) (s : PaymentNode) : Prop where
  amounts : Ledger.Bounded s.node.ledger.balances
  distinct : NoRepeats W s.pending
  waits : ∀ env ∈ s.pending, Waits W s.node.ledger env
  books : (∀ env, s.answered.count env = s.debited.count env + s.pending.count env) ∨ s.Stuck W

section Steps

variable {A : Auth} {c : Caps} {W : World} {s s' : PaymentNode} {L L' : Ledger} {nowMs : Nat}
  {env : SignedTxEnvelopeV1} {txs : List SignedTxEnvelopeV1} {producerId : Str}

theorem Waits.hasHash (h : Waits W L env) : HasHash W env := by
  obtain ⟨x, hx, -⟩ := h.unsettled
  exact ⟨x, hx⟩

/-- Transactions with hashes, none repeated. -/
theorem NoRepeats.distinctTxs (h : NoRepeats W txs) (hh : ∀ env ∈ txs, HasHash W env) :
    DistinctTxs W txs := by
  refine h.imp_of_mem fun ha _ hne heq => hne ?_
  obtain ⟨x, hx⟩ := hh _ ha
  exact ⟨x, hx, heq ▸ hx⟩

/-- The miner's filter drops nothing that waits. -/
theorem dropSettled_waits : ∀ {txs : List SignedTxEnvelopeV1} {seen : List Str},
    NoRepeats W txs → (∀ env ∈ txs, Waits W L env) →
    (∀ env ∈ txs, ∀ h, txHashForEnv W env = .ok h → h ∉ seen) →
    dropSettled W L txs seen = .ok txs := by
  intro txs
  induction txs with
  | nil => exact fun _ _ _ => rfl
  | cons env txs ih =>
    intro seen hd hw hseen
    obtain ⟨x, hx, hunset⟩ := (hw env List.mem_cons_self).unsettled
    obtain ⟨hne, hd'⟩ := List.pairwise_cons.mp hd
    have hrest : dropSettled W L txs (x :: seen) = .ok txs := by
      refine ih hd' (fun e he => hw e (List.mem_cons_of_mem _ he)) fun e he h hh hmem => ?_
      rcases List.mem_cons.mp hmem with rfl | hmem
      · exact hne e he ⟨h, hx, hh⟩
      · exact hseen e (List.mem_cons_of_mem _ he) h hh hmem
    rw [dropSettled_cons hx, if_neg (hseen env List.mem_cons_self x hx), if_neg (by rw [hunset]; exact
      Bool.false_ne_true), hrest]
    rfl

/-- What a 202 says: the transfer is plain, and it is at the end of the mempool. -/
theorem postWalletTransfer_ok {pending : TransferPending} {node node' : Node}
    (h : postWalletTransfer A c W nowMs env node = (.ok pending, node')) :
    PlainTransfer env ∧ HasHash W env ∧ node'.ledger = node.ledger := by
  unfold postWalletTransfer at h
  cases hchecks : transferChecks W node.ledger nowMs env with
  | error e =>
    rw [hchecks] at h
    cases h
  | ok r =>
    rw [hchecks] at h
    simp only at h
    have hform : (∃ f to' amount bps, env.tx = .transfer f to' amount bps) ∧ HasHash W env := by
      simp only [transferChecks, bind_eq_ok] at hchecks
      obtain ⟨_, -, _, -, hchecks⟩ := hchecks
      cases htx : env.tx with
      | transfer f to' amount bps =>
        simp only [htx, bind_eq_ok, mapError_eq_ok] at hchecks
        obtain ⟨_, -, _, -, _, -, _, -, _, -, x, hx, -⟩ := hchecks
        exact ⟨⟨f, to', amount, bps, rfl⟩, x, hx⟩
      | _ =>
        simp only [htx] at hchecks
        cases hchecks
    rcases enqueue_cases A c node.ledger nowMs env node.mempool with
      ⟨e, -, heq⟩ | ⟨hadm, es, rest, -, -, ⟨⟨e, heq⟩, -, -⟩ | ⟨⟨b, heq⟩, -⟩⟩
    · rw [heq] at h
      cases h
    · rw [heq] at h
      cases h
    · rw [heq] at h
      cases h
      simp only [admissionChecks, bind_eq_ok, mapError_eq_ok] at hadm
      obtain ⟨_, hplain, -⟩ := hadm
      exact ⟨⟨hplain, hform.1⟩, hform.2, rfl⟩

/-- A submission leaves the ledger alone. -/
theorem postWalletTransfer_ledger (A : Auth) (c : Caps) (W : World) (nowMs : Nat)
    (env : SignedTxEnvelopeV1) (node : Node) :
    (postWalletTransfer A c W nowMs env node).2.ledger = node.ledger := by
  unfold postWalletTransfer
  split
  · rfl
  · split <;> rfl

/-- **A made block** settles only its own transactions and takes them from their senders. -/
theorem build_ok {outcome : MineOutcome}
    (h : buildAndApplyBlock W nowMs producerId txs L = (.ok outcome, L')) :
    txs.mapM (txHashForEnv W) = .ok outcome.txHashes ∧
      (Ledger.Bounded L.balances → Ledger.Bounded L'.balances) ∧
      (∀ x, L.isTxApplied x = false → L'.isTxApplied x = true →
        ∃ y ∈ outcome.txHashes, trim y = trim x) := by
  have hhashes : txs.mapM (txHashForEnv W) = .ok outcome.txHashes := by
    rcases buildAndApplyBlock_cases W nowMs producerId txs L with
      ⟨outcome', L₁, hrun, hmade⟩ | ⟨e, L₁, hrun⟩
    · rw [hrun] at h
      cases h
      exact hmade.1
    · rw [hrun] at h
      cases h
  obtain ⟨b, root, M, hplan, -, happ⟩ := buildAndApplyBlock_ok h
  obtain ⟨-, hb, -, -⟩ := planBlock_ok hplan
  obtain ⟨L₁, ha, rfl⟩ := happ.run
  have hsame : b.txHashes = outcome.txHashes := by
    rw [hhashes, Except.ok.injEq] at hb
    exact hb.symm
  refine ⟨hhashes, fun hm => ?_, fun x hnot hset => ?_⟩
  · have hm' : Ledger.Bounded L₁.balances := Ledger.apply_bounded (L := L.storeBlockUndo _) hm ha
    exact hm'
  · obtain ⟨p, hp, htrim⟩ := Ledger.apply_marks_only ha hset hnot
    refine ⟨p.2, ?_, htrim⟩
    rw [← hsame]
    exact (List.of_mem_zip hp).2

/-- A made block passes `block_txs_ok`. -/
theorem build_blockTxsOk {outcome : MineOutcome}
    (h : buildAndApplyBlock W nowMs producerId txs L = (.ok outcome, L')) :
    blockTxsOk W L nowMs txs producerId = true := by
  obtain ⟨b, root, M, hplan, -, -⟩ := buildAndApplyBlock_ok h
  simp only [planBlock, bind_eq_ok, mapError_eq_ok] at hplan
  obtain ⟨hashes, -, parent, -, _, hclaims, reward, hreward, root', hroot, -⟩ := hplan
  unfold blockTxsOk
  rw [hclaims, hreward]
  simp only [hroot]
  rfl

/-- What a block takes out of an unsettled batch: all of it. -/
theorem unsettled_block {hashes : List Str} (hh : txs.mapM (txHashForEnv W) = .ok hashes)
    (hw : ∀ env ∈ txs, Waits W L env) : L.unsettled (txs.zip hashes) = txs := by
  refine Ledger.unsettled_of_fresh (length_of_mapM hh) fun x hx => ?_
  obtain ⟨env, henv, hhash⟩ := mem_of_mapM hh hx
  obtain ⟨y, hy, hunset⟩ := (hw env henv).unsettled
  rw [hhash] at hy
  cases hy
  exact hunset

/-! ## The steps keep it -/

/-- A step that only moves what is pending, or that loses some of it for an empty block that cannot be
made. -/
theorem PaymentInv.move (h : PaymentInv W s) (hopen : ¬ s.Stuck W)
    (hledger : s'.node.ledger = s.node.ledger) (hanswered : s'.answered = s.answered)
    (hdebited : s'.debited = s.debited) (hsub : List.Sublist s'.pending s.pending)
    (hsame : s'.pending = s.pending ∨ s'.Stuck W) : PaymentInv W s' := by
  refine ⟨?_, h.distinct.sublist hsub, fun e he => ?_, ?_⟩
  · rw [hledger]
    exact h.amounts
  · rw [hledger]
    exact h.waits e (hsub.subset he)
  · rcases hsame with hsame | hstuck
    · left
      intro e
      rw [hanswered, hdebited, hsame]
      exact h.books.resolve_right hopen e
    · exact Or.inr hstuck

theorem PaymentInv.submit (h : PaymentInv W s) (hplenty : Plentiful A c W s (.submit nowMs env))
    (hfresh : Fresh A c W s (.submit nowMs env))
    (hs : (PaymentAction.submit nowMs env).step A c W s = some s') : PaymentInv W s' := by
  have hledger := postWalletTransfer_ledger A c W nowMs env s.node
  simp only [Plentiful] at hplenty
  simp only [Fresh] at hfresh
  simp only [PaymentAction.step] at hs
  obtain ⟨⟨L, mempool, failures⟩, attempt, answered, debited⟩ := s
  rcases hrun : postWalletTransfer A c W nowMs env ⟨L, mempool, failures⟩ with
    ⟨r, L', mempool', failures'⟩
  simp only [hrun] at hplenty hfresh hs hledger
  subst hledger
  cases r with
  | ok pending =>
    obtain ⟨hplain, ⟨x, hx⟩, -⟩ := postWalletTransfer_ok hrun
    obtain ⟨hunlike, hunset⟩ := hfresh rfl
    have hmem : mempool' = mempool ++ [env] := hplenty
    subst hmem
    cases hs
    have hpending : ∀ {n : Nat} {ans : List SignedTxEnvelopeV1},
        (PaymentNode.mk ⟨L', mempool ++ [env], n⟩ attempt ans debited).pending =
          (PaymentNode.mk ⟨L', mempool, failures⟩ attempt answered debited).pending ++ [env] := by
      intro n ans
      exact (List.append_assoc _ _ _).symm
    refine ⟨h.amounts, ?_, fun e he => ?_, ?_⟩
    · rw [hpending]
      exact h.distinct.concat hunlike
    · rw [hpending] at he
      rcases List.mem_append.mp he with he | he
      · exact h.waits e he
      · rw [List.mem_singleton.mp he]
        exact ⟨hplain, x, hx, hunset x hx⟩
    · rcases h.books with hbooks | hstuck
      · left
        intro e
        have hold := hbooks e
        rw [hpending, List.count_append, List.count_append]
        simp only at hold ⊢
        omega
      · exact Or.inr hstuck
  | err e =>
    have hmem : mempool' = mempool := hplenty
    subst hmem
    cases hs
    exact ⟨h.amounts, h.distinct, h.waits, h.books⟩
  | hang =>
    have hmem : mempool' = mempool := hplenty
    subst hmem
    cases hs
    exact ⟨h.amounts, h.distinct, h.waits, h.books⟩

theorem PaymentInv.take (h : PaymentInv W s)
    (hs : (PaymentAction.take producerId).step A c W s = some s') : PaymentInv W s' := by
  simp only [PaymentAction.step] at hs
  split at hs
  · cases hs
  rename_i hgo
  obtain ⟨node, attempt, answered, debited⟩ := s
  cases attempt with
  | some a => exact absurd rfl hgo
  | none =>
    cases hs
    have hsame : node.mempool ++ [] = node.mempool := List.append_nil _
    refine h.move ?_ rfl rfl rfl ?_ (Or.inl hsame)
    · rintro ⟨p, hatt, -⟩
      cases hatt
    · show List.Sublist (node.mempool ++ []) node.mempool
      rw [hsame]

theorem PaymentInv.choose (h : PaymentInv W s) (hplenty : Plentiful A c W s (.choose nowMs))
    (hs : (PaymentAction.choose nowMs).step A c W s = some s') : PaymentInv W s' := by
  obtain ⟨⟨L, mempool, failures⟩, attempt, answered, debited⟩ := s
  simp only [PaymentAction.step] at hs
  split at hs
  on_goal 2 => cases hs
  rename_i p txs
  have hfunds : Funded L nowMs (poolReserve W txs) L.balances txs := hplenty
  have hdist : NoRepeats W (txs ++ mempool) := h.distinct
  obtain ⟨htxs, hmp, hcross⟩ := List.pairwise_append.mp hdist
  have hwtxs : ∀ env ∈ txs, Waits W L env := fun e he => h.waits e (List.mem_append_left _ he)
  rw [dropSettled_waits htxs hwtxs fun e he x hx => List.not_mem_nil] at hs
  simp only [Option.some.injEq] at hs
  subst hs
  have hopen : ¬ (PaymentNode.mk ⟨L, mempool, failures⟩ (some (.taken p txs)) answered
      debited).Stuck W := by
    rintro ⟨p', hatt, -⟩
    cases hatt
  have hall := blockOf_append W L nowMs txs p failures
  have hsub := select_sublist W L nowMs txs p
  rw [← hall] at hsub
  -- what is left for later waits nowhere else
  have hback : requeueTxsFront W (blockOf W L nowMs txs p failures).2 mempool =
      (blockOf W L nowMs txs p failures).2 ++ mempool := by
    have hlater : (blockOf W L nowMs txs p failures).2 ⊆ txs :=
      fun e he => hsub.subset (List.mem_append_right _ he)
    rw [requeueTxsFront_eq, List.filter_eq_self.mpr]
    · intro e he
      rw [Bool.not_eq_true']
      by_contra hin
      obtain ⟨e', he', hsame⟩ := inQueue_iff.mp (Bool.not_eq_false _ ▸ hin)
      exact hcross e (hlater he) e' he' hsame
    · exact NoRepeats.distinctTxs (htxs.sublist ((List.sublist_append_right _ _).trans hsub))
        fun e he => (hwtxs e (hlater he)).hasHash
    · exact fun e he => (hwtxs e (hlater he)).hasHash
  have hpending : (blockOf W L nowMs txs p failures).1 ++
      requeueTxsFront W (blockOf W L nowMs txs p failures).2 mempool =
        (selectBlockTxs W L nowMs txs p).1 ++ (selectBlockTxs W L nowMs txs p).2 ++ mempool := by
    rw [hback, ← List.append_assoc, hall]
  have hless := (hall ▸ hsub).append (List.Sublist.refl mempool)
  rw [← hpending] at hless
  refine h.move hopen rfl rfl rfl hless ?_
  rcases select_funded h.amounts (fun e he => (hwtxs e he).plain) hfunds with hsel | ⟨hnone, hstuck⟩
  · left
    show (blockOf W L nowMs txs p failures).1 ++
      requeueTxsFront W (blockOf W L nowMs txs p failures).2 mempool = txs ++ mempool
    rw [hpending, hsel, List.append_nil]
  · right
    refine ⟨p, ?_, hstuck⟩
    show some (Attempt.chosen p (blockOf W L nowMs txs p failures).1) = some (.chosen p [])
    have hempty : (blockOf W L nowMs txs p failures).1 = [] := by
      have hsel : (selectBlockTxs W L nowMs txs p).1 = [] := hnone
      unfold blockOf
      simp only [hsel, List.length_nil, Nat.not_lt_zero, decide_false, Bool.and_false,
        Bool.false_eq_true, if_false]
    rw [hempty]

theorem PaymentInv.build (h : PaymentInv W s)
    (hs : (PaymentAction.build nowMs).step A c W s = some s') : PaymentInv W s' := by
  obtain ⟨⟨L, mempool, failures⟩, attempt, answered, debited⟩ := s
  simp only [PaymentAction.step] at hs
  split at hs
  on_goal 2 => cases hs
  rename_i p txs
  split at hs
  on_goal 2 => cases hs
  rename_i outcome L' hbuild
  cases hs
  obtain ⟨hhashes, hbounded, hmarks⟩ := build_ok hbuild
  have hdist : NoRepeats W (txs ++ mempool) := h.distinct
  obtain ⟨-, hmp, hcross⟩ := List.pairwise_append.mp hdist
  have hwtxs : ∀ env ∈ txs, Waits W L env := fun e he => h.waits e (List.mem_append_left _ he)
  refine ⟨hbounded h.amounts, hmp, fun e he => ?_, Or.inl fun e => ?_⟩
  · have hw : Waits W L e := h.waits e (List.mem_append_right _ he)
    obtain ⟨x, hx, hunset⟩ := hw.unsettled
    refine ⟨hw.plain, x, hx, ?_⟩
    by_contra hset
    obtain ⟨y, hy, htrim⟩ := hmarks x hunset (Bool.not_eq_false _ ▸ hset)
    obtain ⟨e', he', hy'⟩ := mem_of_mapM hhashes hy
    rw [trim_txHashForEnv hy', trim_txHashForEnv hx] at htrim
    exact hcross e' he' e he ⟨y, hy', htrim ▸ hx⟩
  · have hopen : ¬ (PaymentNode.mk ⟨L, mempool, failures⟩ (some (.chosen p txs)) answered
        debited).Stuck W := by
      rintro ⟨p', hatt, hstuck⟩
      cases hatt
      have hok := hstuck nowMs
      rw [build_blockTxsOk hbuild] at hok
      cases hok
    have hbooks : answered.count e = debited.count e + (txs ++ mempool).count e :=
      h.books.resolve_right hopen e
    show answered.count e = (debited ++ L.unsettled (txs.zip outcome.txHashes)).count e +
      mempool.count e
    rw [unsettled_block hhashes hwtxs, List.count_append]
    rw [List.count_append] at hbooks
    omega

/-- **One step** keeps the invariant. -/
theorem PaymentInv.step {a : PaymentAction} (h : PaymentInv W s)
    (hallowed : Plentiful A c W s a ∧ Fresh A c W s a) (hs : a.step A c W s = some s') :
    PaymentInv W s' := by
  cases a with
  | submit nowMs env => exact h.submit hallowed.1 hallowed.2 hs
  | take producerId => exact h.take hs
  | choose nowMs => exact h.choose hallowed.1 hs
  | build nowMs => exact h.build hs

/-- **A run** keeps the invariant. -/
theorem PaymentRun.inv
    (h : PaymentRun A c W (fun s a => Plentiful A c W s a ∧ Fresh A c W s a) s) :
    PaymentInv W s := by
  induction h with
  | start L failures amounts =>
    exact ⟨amounts, List.Pairwise.nil, fun e he => absurd he List.not_mem_nil, Or.inl fun _ => rfl⟩
  | step a _ allowed made ih => exact ih.step allowed made

end Steps

/-- **Every accepted payment is a new payment**, in a run where no transfer is answered 202 whose hash
waits, is being mined or is settled: when no attempt is under way, it was answered 202 as often as its
amount was taken from its sender and copies of it wait. -/
theorem accepted_payments_are_new (A : Auth) (c : Caps) (W : World) {s : PaymentNode}
    (h : PaymentRun A c W (fun s a => Plentiful A c W s a ∧ Fresh A c W s a) s)
    (hidle : s.attempt = none) (env : SignedTxEnvelopeV1) :
    s.answered.count env = s.debited.count env + s.node.mempool.count env := by
  have hhand : s.pending = s.node.mempool := by
    rw [PaymentNode.pending, PaymentNode.inHand, hidle]
    rfl
  rcases h.inv.books with hbooks | ⟨p, hatt, -⟩
  · rw [← hhand]
    exact hbooks env
  · rw [hidle] at hatt
    cases hatt

/-- Only a block changes the ledger. -/
theorem step_ledger {A : Auth} {c : Caps} {W : World} {s s' : PaymentNode} {a : PaymentAction}
    (h : a.step A c W s = some s') (hbuild : ∀ nowMs, a ≠ .build nowMs) :
    s'.node.ledger = s.node.ledger := by
  cases a with
  | submit nowMs env =>
    have hledger := postWalletTransfer_ledger A c W nowMs env s.node
    simp only [PaymentAction.step] at h
    split at h
    · rename_i heq
      rw [heq] at hledger
      cases h
      exact hledger
    · rename_i heq
      rw [heq] at hledger
      cases h
      exact hledger
  | take producerId =>
    simp only [PaymentAction.step] at h
    split at h <;> cases h
    rfl
  | choose nowMs =>
    simp only [PaymentAction.step] at h
    split at h
    on_goal 2 => cases h
    split at h <;> cases h
    rfl
  | build nowMs => exact absurd rfl (hbuild nowMs)

end TetCore.Mempool

namespace TetCore.Sample

open TetCore.Lib TetCore.Mempool TetCore.Consensus

/-- A step of the sample node, which has no caps set. -/
def paymentStep (s : PaymentNode) (a : PaymentAction) : PaymentNode :=
  (a.step auth ⟨none, none⟩ (World.sample 0) s).getD s

/-- The sample node before anything is submitted. -/
def paymentStart : PaymentNode := ⟨⟨ledger, [], 0⟩, none, [], []⟩

theorem paymentStep_made {s : PaymentNode} {a : PaymentAction}
    (h : (a.step auth ⟨none, none⟩ (World.sample 0) s).isSome = true) :
    a.step auth ⟨none, none⟩ (World.sample 0) s = some (paymentStep s a) := by
  obtain ⟨s', hs⟩ := Option.isSome_iff_exists.mp h
  rw [paymentStep, hs]
  rfl

theorem paymentStep_ledger {s : PaymentNode} {a : PaymentAction}
    (h : (a.step auth ⟨none, none⟩ (World.sample 0) s).isSome = true)
    (hbuild : ∀ nowMs, a ≠ .build nowMs) : (paymentStep s a).node.ledger = s.node.ledger :=
  step_ledger (paymentStep_made h) hbuild

/-- `alice` can pay two of these transfers. -/
theorem funded_transfers {n : Nat} (hn : n ≤ 2) :
    Funded ledger 0 (poolReserve (World.sample 0) (List.replicate n transfer)) ledger.balances
      (List.replicate n transfer) := by
  intro wallet
  have hweigh : weigh (transferMicro (trimLower wallet)) (List.replicate n transfer) =
      n * if trimLower alice = trimLower wallet then 10 * stevemon else 0 := by
    unfold weigh
    rw [List.map_replicate, List.sum_replicate]
    exact congrArg (n * ·) (transferMicro_eq rfl wallet)
  have hreserve : ∀ l w, poolReserve (World.sample 0) l w = 0 := by
    intro l w
    unfold poolReserve
    split <;> rfl
  rw [hweigh, hreserve]
  by_cases hw : trimLower alice = trimLower wallet
  · rw [if_pos hw, ← hw]
    have hfunds : 2 * (10 * stevemon) ≤ Ledger.amountAt ledger.balances (trimLower alice) -
        ledger.lockedMicro (trimLower alice) 0 := by
      decide +kernel
    have hle := Nat.mul_le_mul_right (10 * stevemon) hn
    omega
  · rw [if_neg hw]
    exact Nat.zero_le _

theorem ledger_bounded : Ledger.Bounded ledger.balances := by
  intro k v hk
  have hall : ∀ row ∈ ledger.balances.iter, row.2 ≤ u64Max := by decide +kernel
  exact hall (k, v) (Lib.Tree.mem_iter.mpr hk)

/-- A first submission repeats nothing. -/
theorem fresh_transfer :
    Fresh auth ⟨none, none⟩ (World.sample 0) paymentStart (.submit 0 transfer) := by
  intro _
  refine ⟨fun e he => absurd he List.not_mem_nil, fun h hh => ?_⟩
  have hunset : (txHashForEnv (World.sample 0) transfer).toOption.map ledger.isTxApplied =
      some false := by
    decide +kernel
  rw [hh] at hunset
  exact Option.some.inj hunset

/-- The attempt finds `alice`'s transfers funded. -/
theorem plentiful_choose {s : PaymentNode} {n : Nat} (hledger : s.node.ledger = ledger)
    (hhand : s.inHand = List.replicate n transfer) (hn : n ≤ 2) :
    Plentiful auth ⟨none, none⟩ (World.sample 0) s (.choose 0) := by
  show Funded s.node.ledger 0 (poolReserve (World.sample 0) s.inHand) s.node.ledger.balances s.inHand
  rw [hledger, hhand]
  exact funded_transfers hn

/-- The transfer is submitted `n` times. -/
def submitted : Nat → PaymentNode
  | 0 => paymentStart
  | n + 1 => paymentStep (submitted n) (.submit 0 transfer)

def taken (n : Nat) : PaymentNode := paymentStep (submitted n) (.take node)

def chosen (n : Nat) : PaymentNode := paymentStep (taken n) (.choose 0)

/-- It is submitted `n` times, and mined. -/
def mined (n : Nat) : PaymentNode := paymentStep (chosen n) (.build 0)

theorem mined_made : ∀ n < 3,
    ((PaymentAction.submit 0 transfer).step auth ⟨none, none⟩ (World.sample 0)
      (submitted n)).isSome = true ∧
    ((PaymentAction.take node).step auth ⟨none, none⟩ (World.sample 0) (submitted n)).isSome = true ∧
    ((PaymentAction.choose 0).step auth ⟨none, none⟩ (World.sample 0) (taken n)).isSome = true ∧
    ((PaymentAction.build 0).step auth ⟨none, none⟩ (World.sample 0) (chosen n)).isSome = true ∧
    (taken n).inHand = List.replicate n transfer ∧
    (postWalletTransfer auth ⟨none, none⟩ (World.sample 0) 0 transfer (submitted n).node).2.mempool =
      if (postWalletTransfer auth ⟨none, none⟩ (World.sample 0) 0 transfer (submitted n).node).1.isOk
      then (submitted n).node.mempool ++ [transfer] else (submitted n).node.mempool := by
  decide +kernel

theorem submitted_ledger : ∀ n < 3, (submitted n).node.ledger = ledger := by
  intro n
  induction n with
  | zero => exact fun _ => rfl
  | succ n ih =>
    intro hn
    have hsubmit : ∀ t, PaymentAction.submit 0 transfer ≠ .build t := fun _ h => by cases h
    rw [submitted, paymentStep_ledger (mined_made n (by omega)).1 hsubmit]
    exact ih (by omega)

/-- Up to two submissions and the attempt that mines them are a run, where the submissions are
allowed. -/
theorem mined_transfers_run {ok : PaymentNode → PaymentAction → Prop} {n : Nat} (hn : n < 3)
    (hsubmit : ∀ k < n, Plentiful auth ⟨none, none⟩ (World.sample 0) (submitted k)
      (.submit 0 transfer) → ok (submitted k) (.submit 0 transfer))
    (hattempt : ∀ s a, (∀ t env, a ≠ .submit t env) →
      Plentiful auth ⟨none, none⟩ (World.sample 0) s a → ok s a) :
    PaymentRun auth ⟨none, none⟩ (World.sample 0) ok (mined n) := by
  have hruns : ∀ k ≤ n, PaymentRun auth ⟨none, none⟩ (World.sample 0) ok (submitted k) := by
    intro k
    induction k with
    | zero => exact fun _ => .start ledger 0 ledger_bounded
    | succ k ih =>
      intro hk
      obtain ⟨hmade, -, -, -, -, hplenty⟩ := mined_made k (by omega)
      exact .step _ (ih (by omega)) (hsubmit k hk hplenty) (paymentStep_made hmade)
  obtain ⟨-, htake, hchoose, hbuild, hhand, -⟩ := mined_made n hn
  have hledger : (taken n).node.ledger = ledger := by
    have hnot : ∀ t, PaymentAction.take node ≠ .build t := fun _ h => by cases h
    rw [taken, paymentStep_ledger htake hnot, submitted_ledger n hn]
  unfold mined chosen
  refine .step (.build 0) (.step (.choose 0) ?_ ?_ (paymentStep_made hchoose)) ?_
    (paymentStep_made hbuild)
  · unfold taken
    exact .step (.take node) (hruns n (Nat.le_refl n)) (hattempt _ _ (fun _ _ h => by cases h) trivial)
      (paymentStep_made htake)
  · exact hattempt _ _ (fun _ _ h => by cases h) (plentiful_choose hledger hhand (by omega))
  · exact hattempt _ _ (fun _ _ h => by cases h) trivial

end TetCore.Sample

namespace TetCore.Mempool

/-- A transfer is submitted, mined and taken from its sender. -/
theorem accepted_payments_are_new_mined :
    (Sample.mined 1).answered.count Sample.transfer = 1 ∧
      (Sample.mined 1).debited.count Sample.transfer = 1 ∧
      (Sample.mined 1).answered.count Sample.transfer =
        (Sample.mined 1).debited.count Sample.transfer +
          (Sample.mined 1).node.mempool.count Sample.transfer := by
  have hall : (Sample.mined 1).attempt = none ∧
      (Sample.mined 1).answered.count Sample.transfer = 1 ∧
      (Sample.mined 1).debited.count Sample.transfer = 1 := by
    decide +kernel
  obtain ⟨hidle, hanswered, hdebited⟩ := hall
  have hrun : PaymentRun Sample.auth ⟨none, none⟩ (World.sample 0) (fun s a =>
      Plentiful Sample.auth ⟨none, none⟩ (World.sample 0) s a ∧
        Fresh Sample.auth ⟨none, none⟩ (World.sample 0) s a) (Sample.mined 1) := by
    refine Sample.mined_transfers_run (by decide) (fun k hk hplenty => ⟨hplenty, ?_⟩)
      fun s a hnot hplenty => ⟨hplenty, ?_⟩
    · have hzero : k = 0 := by omega
      subst hzero
      exact Sample.fresh_transfer
    · cases a with
      | submit t env => exact absurd rfl (hnot t env)
      | _ => trivial
  exact ⟨hanswered, hdebited, accepted_payments_are_new Sample.auth ⟨none, none⟩ (World.sample 0)
    hrun hidle Sample.transfer⟩

/-- A transfer is submitted twice before it is mined: both are answered 202, one is dropped. -/
theorem payment_dropped :
    PaymentRun Sample.auth ⟨none, none⟩ (World.sample 0)
        (Plentiful Sample.auth ⟨none, none⟩ (World.sample 0)) (Sample.mined 2) ∧
      (Sample.mined 2).attempt = none ∧
      (Sample.mined 2).answered.count Sample.transfer = 2 ∧
      (Sample.mined 2).debited.count Sample.transfer = 1 ∧
      (Sample.mined 2).node.mempool.count Sample.transfer = 0 := by
  refine ⟨Sample.mined_transfers_run (by decide) (fun k hk hplenty => hplenty) fun s a hnot hplenty => hplenty,
    ?_⟩
  decide +kernel

end TetCore.Mempool
