import TetCore.Consensus.NoLoss
import TetCore.Mempool.Admission

/-!
# The same transaction twice in the mempool

`handle_tx_broadcast` (`p2p.rs`) looks for a duplicate under one acquisition of the mempool lock and
inserts under another, and `submit_local_tx` (`rest/state.rs`) does not look at all. A step here is
what one acquisition of the lock does: the checks of a broadcast, its insertion, a local submission,
the miner taking the mempool and putting transactions back, and the removal of settled ones. A request
between its check and its insertion is in `checked`.

`mempool_no_repeats`: no hash is in the mempool twice in any run where a broadcast is checked, and a
transaction put back, only while no checked request has its hash, and a local submission comes only
while its hash neither waits nor is checked.
-/

namespace TetCore.Mempool

open TetCore.Lib TetCore.Consensus

/-- The mempool, and the broadcasts that passed the duplicate check and are not inserted yet. -/
structure Pool where
  mempool : List SignedTxEnvelopeV1
  checked : List SignedTxEnvelopeV1
  deriving DecidableEq

/-- What is done under one acquisition of the mempool lock, with the ledger and the clock of the
moment. -/
inductive PoolAction where
  | check (L : Ledger) (env : SignedTxEnvelopeV1)
  | admitted (L : Ledger) (nowMs : Nat) (env : SignedTxEnvelopeV1)
  | submitLocal (L : Ledger) (nowMs : Nat) (env : SignedTxEnvelopeV1)
  | take
  | requeue (txs : List SignedTxEnvelopeV1)
  | settle (hashes : List Str)

/-- `handle_tx_broadcast` up to the end of its duplicate check. -/
def checkBroadcast (W : World) (L : Ledger) (env : SignedTxEnvelopeV1) (p : Pool) : Pool :=
  match txHashForEnv W env with
  | .error _ => p
  | .ok h =>
    if L.isTxApplied h then p
    else if inQueue W p.mempool env then p
    else { p with checked := env :: p.checked }

/-- The rest of `handle_tx_broadcast`, for a request that passed. -/
def admitBroadcast (A : Auth) (c : Caps) (L : Ledger) (nowMs : Nat) (env : SignedTxEnvelopeV1)
    (p : Pool) : Pool :=
  if env ∈ p.checked then
    ⟨(enqueueWithoutBroadcast A c L nowMs env p.mempool).2, p.checked.erase env⟩
  else p

/-- `submit_local_tx`, less the announcement. -/
def submitLocalTx (A : Auth) (c : Caps) (L : Ledger) (nowMs : Nat) (env : SignedTxEnvelopeV1)
    (p : Pool) : Pool :=
  { p with mempool := (enqueueWithoutBroadcast A c L nowMs env p.mempool).2 }

/-- The eviction after `apply_remote_block_from_gossip`: the transactions of the block leave. -/
def retainUnsettled (W : World) (hashes : List Str) (mp : List SignedTxEnvelopeV1) :
    List SignedTxEnvelopeV1 :=
  mp.filter fun env => match txHashForEnv W env with
    | .ok h => !hashes.contains h
    | .error _ => true

/-- One step. -/
def PoolAction.step (A : Auth) (c : Caps) (W : World) (p : Pool) : PoolAction → Pool
  | .check L env => checkBroadcast W L env p
  | .admitted L nowMs env => admitBroadcast A c L nowMs env p
  | .submitLocal L nowMs env => submitLocalTx A c L nowMs env p
  | .take => { p with mempool := [] }
  | .requeue txs => { p with mempool := requeueTxsFront W txs p.mempool }
  | .settle hashes => { p with mempool := retainUnsettled W hashes p.mempool }

/-- The pools that steps lead to from the empty one, each step where `ok` allows it. -/
inductive PoolRun (A : Auth) (c : Caps) (W : World) (ok : Pool → PoolAction → Prop) :
    Pool → Prop where
  | start : PoolRun A c W ok ⟨[], []⟩
  | step {p : Pool} (a : PoolAction) (before : PoolRun A c W ok p) (allowed : ok p a) :
      PoolRun A c W ok (a.step A c W p)

/-- None of the transactions has the hash of the envelope. -/
def Unlike (W : World) (env : SignedTxEnvelopeV1) (txs : List SignedTxEnvelopeV1) : Prop :=
  ∀ e ∈ txs, ¬ SameHash W env e

/-- No two transactions have the same hash. -/
def NoRepeats (W : World) (txs : List SignedTxEnvelopeV1) : Prop :=
  txs.Pairwise fun a b => ¬ SameHash W a b

/-- No other transaction of the hash is under way between a check and its insertion. -/
def Undisturbed (W : World) (p : Pool) : PoolAction → Prop
  | .check _ env => Unlike W env p.checked
  | .submitLocal _ _ env => Unlike W env p.mempool ∧ Unlike W env p.checked
  | .requeue txs => ∀ env ∈ txs, Unlike W env p.checked
  | _ => True

/-! ## The invariant -/

/-- No hash waits twice, none is checked twice, and none that is checked waits. -/
structure PoolInv (W : World) (p : Pool) : Prop where
  mempool : NoRepeats W p.mempool
  checked : NoRepeats W p.checked
  apart : ∀ env ∈ p.checked, Unlike W env p.mempool

section Steps

variable {A : Auth} {c : Caps} {W : World} {L : Ledger} {nowMs : Nat} {p : Pool}
  {env e : SignedTxEnvelopeV1} {txs mp : List SignedTxEnvelopeV1}

theorem sameHash_symm (h : SameHash W env e) : SameHash W e env := by
  obtain ⟨x, henv, he⟩ := h
  exact ⟨x, he, henv⟩

theorem Unlike.subset (h : Unlike W env mp) (hs : txs ⊆ mp) : Unlike W env txs :=
  fun e he => h e (hs he)

theorem Unlike.append (h : Unlike W env txs) (h' : Unlike W env mp) : Unlike W env (txs ++ mp) := by
  intro e he
  rcases List.mem_append.mp he with he | he
  · exact h e he
  · exact h' e he

theorem NoRepeats.concat (h : NoRepeats W txs) (hu : Unlike W env txs) :
    NoRepeats W (txs ++ [env]) := by
  unfold NoRepeats
  rw [List.pairwise_append]
  refine ⟨h, List.pairwise_singleton _ _, fun e he e' he' hsame => ?_⟩
  rw [List.mem_singleton.mp he'] at hsame
  exact hu e he (sameHash_symm hsame)

theorem unlike_of_not_inQueue (h : inQueue W txs env = false) : Unlike W env txs := by
  intro e he hsame
  have htrue := inQueue_iff.mpr ⟨e, he, hsame⟩
  rw [h] at htrue
  cases htrue

/-- An admission leaves some of what waited, with the incoming transaction at the end or not. -/
theorem enqueue_sublist (A : Auth) (c : Caps) (L : Ledger) (nowMs : Nat) (env : SignedTxEnvelopeV1)
    (mp : List SignedTxEnvelopeV1) :
    ∃ rest, List.Sublist rest mp ∧
      ((enqueueWithoutBroadcast A c L nowMs env mp).2 = rest ∨
        (enqueueWithoutBroadcast A c L nowMs env mp).2 = rest ++ [env]) := by
  rcases enqueue_cases A c L nowMs env mp with
    ⟨e, -, heq⟩ | ⟨-, es, rest, hev, -, ⟨⟨e, heq⟩, -, -⟩ | ⟨⟨b, heq⟩, -⟩⟩
  · exact ⟨mp, List.Sublist.refl mp, Or.inl (congrArg Prod.snd heq)⟩
  · exact ⟨rest, hev.sublist, Or.inl (congrArg Prod.snd heq)⟩
  · exact ⟨rest, hev.sublist, Or.inr (congrArg Prod.snd heq)⟩

/-- An admission of a hash that does not wait repeats none. -/
theorem NoRepeats.enqueue (h : NoRepeats W mp) (hu : Unlike W env mp) :
    NoRepeats W (enqueueWithoutBroadcast A c L nowMs env mp).2 := by
  obtain ⟨rest, hsub, heq | heq⟩ := enqueue_sublist A c L nowMs env mp
  · rw [heq]
    exact h.sublist hsub
  · rw [heq]
    exact NoRepeats.concat (h.sublist hsub) (hu.subset hsub.subset)

theorem Unlike.enqueue (h : Unlike W e mp) (hne : ¬ SameHash W e env) :
    Unlike W e (enqueueWithoutBroadcast A c L nowMs env mp).2 := by
  obtain ⟨rest, hsub, heq | heq⟩ := enqueue_sublist A c L nowMs env mp
  · rw [heq]
    exact h.subset hsub.subset
  · rw [heq]
    refine (h.subset hsub.subset).append fun x hx => ?_
    rw [List.mem_singleton.mp hx]
    exact hne

/-- What `requeue_txs_front` puts in front: some of the transactions, none of a hash that waits. -/
theorem foldl_putFront_distinct (queue : List SignedTxEnvelopeV1) :
    ∀ (txs front : List SignedTxEnvelopeV1), NoRepeats W front → (∀ e ∈ front, Unlike W e queue) →
      NoRepeats W (txs.foldl (putFront W queue) front) ∧
        ∀ e ∈ txs.foldl (putFront W queue) front, Unlike W e queue ∧ (e ∈ front ∨ e ∈ txs) := by
  intro txs
  induction txs with
  | nil => exact fun front hd hq => ⟨hd, fun e he => ⟨hq e he, Or.inl he⟩⟩
  | cons env txs ih =>
    intro front hd hq
    rw [List.foldl_cons]
    have hkeep := ih front hd hq
    unfold putFront at hkeep ⊢
    cases hhash : txHashForEnv W env with
    | error _ =>
      exact ⟨hkeep.1, fun e he => ⟨(hkeep.2 e he).1, (hkeep.2 e he).2.imp_right
        (List.mem_cons_of_mem env)⟩⟩
    | ok h =>
      simp only
      by_cases hin : inQueue W (queue ++ front) env = true
      · rw [if_pos hin]
        exact ⟨hkeep.1, fun e he => ⟨(hkeep.2 e he).1, (hkeep.2 e he).2.imp_right
          (List.mem_cons_of_mem env)⟩⟩
      · rw [if_neg hin]
        have hu := unlike_of_not_inQueue (Bool.not_eq_true _ ▸ hin)
        have hfront := hd.concat (hu.subset (List.subset_append_right queue front))
        have hqueue : ∀ e ∈ front ++ [env], Unlike W e queue := by
          intro e he
          rcases List.mem_append.mp he with he | he
          · exact hq e he
          · rw [List.mem_singleton.mp he]
            exact hu.subset (List.subset_append_left queue front)
        obtain ⟨hd', hq'⟩ := ih (front ++ [env]) hfront hqueue
        refine ⟨hd', fun e he => ⟨(hq' e he).1, ?_⟩⟩
        rcases (hq' e he).2 with hmem | hmem
        · rcases List.mem_append.mp hmem with hmem | hmem
          · exact Or.inl hmem
          · rw [List.mem_singleton.mp hmem]
            exact Or.inr List.mem_cons_self
        · exact Or.inr (List.mem_cons_of_mem env hmem)

theorem PoolInv.checkBroadcast (h : PoolInv W p) (hu : Unlike W env p.checked) :
    PoolInv W (checkBroadcast W L env p) := by
  unfold Mempool.checkBroadcast
  split
  · exact h
  · split
    · exact h
    · split
      · exact h
      · rename_i hin
        have hfree := unlike_of_not_inQueue (Bool.not_eq_true _ ▸ hin)
        refine ⟨h.mempool, List.pairwise_cons.mpr ⟨hu, h.checked⟩, fun e he => ?_⟩
        rcases List.mem_cons.mp he with rfl | he
        · exact hfree
        · exact h.apart e he

theorem PoolInv.admitBroadcast (h : PoolInv W p) :
    PoolInv W (admitBroadcast A c L nowMs env p) := by
  unfold Mempool.admitBroadcast
  by_cases hmem : env ∈ p.checked
  · rw [if_pos hmem]
    -- the request that inserts is unlike the other checked ones
    have hperm := List.perm_cons_erase hmem
    have hcons : NoRepeats W (env :: p.checked.erase env) :=
      (hperm.pairwise_iff fun hne hsame => hne (sameHash_symm hsame)).mp h.checked
    obtain ⟨hother, hrest⟩ := List.pairwise_cons.mp hcons
    refine ⟨h.mempool.enqueue (h.apart env hmem), hrest, fun e he => ?_⟩
    exact (h.apart e (List.erase_subset he)).enqueue fun hsame =>
      hother e he (sameHash_symm hsame)
  · rw [if_neg hmem]
    exact h

theorem PoolInv.submitLocalTx (h : PoolInv W p) (hu : Unlike W env p.mempool)
    (hc : Unlike W env p.checked) : PoolInv W (submitLocalTx A c L nowMs env p) :=
  ⟨h.mempool.enqueue hu, h.checked, fun e he =>
    (h.apart e he).enqueue fun hsame => hc e he (sameHash_symm hsame)⟩

theorem PoolInv.requeue (h : PoolInv W p) (hu : ∀ env ∈ txs, Unlike W env p.checked) :
    PoolInv W { p with mempool := requeueTxsFront W txs p.mempool } := by
  obtain ⟨hfront, hunlike⟩ := foldl_putFront_distinct p.mempool txs [] List.Pairwise.nil
    fun e he => absurd he List.not_mem_nil
  rw [requeueTxsFront_foldl]
  refine ⟨List.pairwise_append.mpr ⟨hfront, h.mempool, fun e he => (hunlike e he).1⟩, h.checked,
    fun e he => Unlike.append (fun x hx hsame => ?_) (h.apart e he)⟩
  rcases (hunlike x hx).2 with hnil | hmem
  · exact absurd hnil List.not_mem_nil
  · exact hu x hmem e he (sameHash_symm hsame)

theorem PoolInv.sublist (h : PoolInv W p) (hs : List.Sublist mp p.mempool) :
    PoolInv W { p with mempool := mp } :=
  ⟨h.mempool.sublist hs, h.checked, fun e he => (h.apart e he).subset hs.subset⟩

/-- **One step** keeps the invariant. -/
theorem PoolInv.step (h : PoolInv W p) (a : PoolAction) (hu : Undisturbed W p a) :
    PoolInv W (a.step A c W p) := by
  cases a with
  | check L env => exact h.checkBroadcast hu
  | admitted L nowMs env => exact h.admitBroadcast
  | submitLocal L nowMs env => exact h.submitLocalTx hu.1 hu.2
  | take => exact h.sublist (List.nil_sublist p.mempool)
  | requeue txs => exact h.requeue hu
  | settle hashes => exact h.sublist List.filter_sublist

/-- **A run** keeps the invariant. -/
theorem PoolRun.inv (h : PoolRun A c W (Undisturbed W) p) : PoolInv W p := by
  induction h with
  | start => exact ⟨List.Pairwise.nil, List.Pairwise.nil, fun e he => absurd he List.not_mem_nil⟩
  | step a _ allowed ih => exact ih.step a allowed

end Steps

/-- **No transaction waits twice** in a run where no check is disturbed before its insertion. -/
theorem mempool_no_repeats (A : Auth) (c : Caps) (W : World) {p : Pool}
    (h : PoolRun A c W (Undisturbed W) p) : NoRepeats W p.mempool := h.inv.mempool

end TetCore.Mempool

namespace TetCore.Sample

open TetCore.Mempool

/-- The sample node: the checks of the sample world, no caps set. -/
def poolStep (p : Pool) (a : PoolAction) : Pool := a.step auth ⟨none, none⟩ (World.sample 0) p

theorem poolRun : ∀ (as : List PoolAction) {p : Pool},
    PoolRun auth ⟨none, none⟩ (World.sample 0) (fun _ _ => True) p →
    PoolRun auth ⟨none, none⟩ (World.sample 0) (fun _ _ => True) (as.foldl poolStep p) := by
  intro as
  induction as with
  | nil => exact fun h => h
  | cons a as ih => exact fun h => ih (.step a h trivial)

end TetCore.Sample

namespace TetCore.Mempool

open TetCore.Lib TetCore.Consensus

/-- A broadcast is checked and inserted, and the second broadcast of it is refused. -/
theorem mempool_no_repeats_broadcastTwice :
    let checked := Sample.poolStep ⟨[], []⟩ (.check Sample.ledger Sample.transfer)
    let admitted := Sample.poolStep checked (.admitted Sample.ledger 0 Sample.transfer)
    let again := Sample.poolStep admitted (.check Sample.ledger Sample.transfer)
    again = ⟨[Sample.transfer], []⟩ ∧ NoRepeats (World.sample 0) again.mempool := by
  intro checked admitted again
  have hall : again = ⟨[Sample.transfer], []⟩ ∧ admitted.checked = [] := by
    decide +kernel
  have hchecked : PoolRun Sample.auth ⟨none, none⟩ (World.sample 0) (Undisturbed (World.sample 0))
      checked := .step _ .start fun e he => absurd he List.not_mem_nil
  have hadmitted : PoolRun Sample.auth ⟨none, none⟩ (World.sample 0)
      (Undisturbed (World.sample 0)) admitted := .step _ hchecked trivial
  have hagain : PoolRun Sample.auth ⟨none, none⟩ (World.sample 0) (Undisturbed (World.sample 0))
      again := .step _ hadmitted fun e he => absurd (hall.2 ▸ he) List.not_mem_nil
  exact ⟨hall.1, mempool_no_repeats Sample.auth ⟨none, none⟩ (World.sample 0) hagain⟩

/-- A transfer submitted twice over REST waits twice, and so does one that is submitted between the
check and the insertion of a broadcast of it. -/
theorem mempool_repeats :
    let twice := [PoolAction.submitLocal Sample.ledger 0 Sample.transfer,
      .submitLocal Sample.ledger 0 Sample.transfer]
    let between := [PoolAction.check Sample.ledger Sample.transfer,
      .submitLocal Sample.ledger 0 Sample.transfer, .admitted Sample.ledger 0 Sample.transfer]
    (twice.foldl Sample.poolStep ⟨[], []⟩).mempool = [Sample.transfer, Sample.transfer] ∧
      (between.foldl Sample.poolStep ⟨[], []⟩).mempool = [Sample.transfer, Sample.transfer] ∧
      ¬ ∀ p, PoolRun Sample.auth ⟨none, none⟩ (World.sample 0) (fun _ _ => True) p →
        NoRepeats (World.sample 0) p.mempool := by
  intro twice between
  have hall : (twice.foldl Sample.poolStep ⟨[], []⟩).mempool = [Sample.transfer, Sample.transfer] ∧
      (between.foldl Sample.poolStep ⟨[], []⟩).mempool = [Sample.transfer, Sample.transfer] ∧
      (txHashForEnv (World.sample 0) Sample.transfer).isOk = true := by
    decide +kernel
  obtain ⟨htwice, hbetween, hhash⟩ := hall
  refine ⟨htwice, hbetween, fun hall => ?_⟩
  obtain ⟨x, hx⟩ := exists_ok hhash
  have hrun := hall _ (Sample.poolRun twice .start)
  rw [htwice] at hrun
  exact (List.pairwise_cons.mp hrun).1 Sample.transfer List.mem_cons_self ⟨x, hx, hx⟩

end TetCore.Mempool
