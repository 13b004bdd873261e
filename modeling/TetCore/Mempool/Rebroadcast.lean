import TetCore.Mempool.Coverage

/-!
# The retry loop

Model of `broadcast_mempool_tx` and `rebroadcast_pending_txs` (`rest/state.rs`) beside the mining
attempts of the node. A submission takes the lock of the mempool, then that of `pending_rebroadcast`;
a sweep takes a snapshot of the mempool under the first, and prunes and counts under the second. A
step here is one acquisition of a lock, with what follows up to the next one.

A sweep re-publishes what it counts. Left out: the channels themselves, of which only their presence
is read, the counts a sweep returns, and the durable copy of the mempool.

* `sweepTracker_get`: what a sweep leaves in the tracker.
* `Lawful`: when nothing is in progress, what waits and was re-published less than `max_attempts`
  times since its last submission is tracked; and nothing is re-published more often.
* `Tidy`: a sweep prunes nothing that waits or is in the hand of an attempt, and its snapshot has no
  more copies of a transaction than it has attempts left; and there is a channel.
* `tidy_runs_lawful`: a run of tidy steps leads to lawful states only.
* `track_lawful_iff`: after the last step that is in progress, a sweep's, the state is lawful exactly
  if that step was tidy.
* `waiting_forgotten`: a sweep that falls in a mining attempt that fails.
-/

namespace TetCore.Mempool

open TetCore.Lib TetCore.Consensus

/-! ## A sweep -/

/-- The channels of the node, and `TET_TX_REBROADCAST_MAX` where it is a number. -/
structure SweepVars where
  gossipTx : Bool
  txSubmitTx : Bool
  rebroadcastMaxVar : Option Nat

/-- One of the channels is there. -/
def SweepVars.channels (V : SweepVars) : Bool := V.gossipTx || V.txSubmitTx

/-- `tx_rebroadcast_max_attempts`. -/
def SweepVars.maxAttempts (V : SweepVars) : Nat := (V.rebroadcastMaxVar.filter (0 < ·)).getD 20

/-- Transactions with their hashes. -/
abbrev Hashed := List (Str × SignedTxEnvelopeV1)

/-- The snapshot of a sweep: what waits and has a hash. -/
def snapshotOf (W : World) (mp : List SignedTxEnvelopeV1) : Hashed :=
  mp.filterMap fun env => (txHashForEnv W env).toOption.map fun h => (h, env)

/-- `tracker.retain`. -/
def retainPending (max : Nat) (pending : Hashed) (tracker : Tree Str Nat) : Tree Str Nat :=
  tracker.retain fun h attempts => pending.any (fun r => r.1 == h) && decide (attempts < max)

/-- One round of the loop: a tracked transaction is counted and sent. -/
def countAttempt (acc : Tree Str Nat × Hashed) (r : Str × SignedTxEnvelopeV1) :
    Tree Str Nat × Hashed :=
  match acc.1.get r.1 with
  | some attempts => (acc.1.insert r.1 (attempts + 1), acc.2 ++ [r])
  | none => acc

/-- What a sweep does under the lock of the tracker: the tracker after it, and what it sends. -/
def sweepTracker (max : Nat) (pending : Hashed) (tracker : Tree Str Nat) : Tree Str Nat × Hashed :=
  pending.foldl countAttempt (retainPending max pending tracker, [])

/-- How often a hash is in a list. -/
def copies (h : Str) (rs : Hashed) : Nat := (rs.map Prod.fst).count h

section Sweep

variable {W : World} {max : Nat} {pending rs : Hashed} {tracker : Tree Str Nat} {h : Str} {a : Nat}

theorem copies_cons (h : Str) (r : Str × SignedTxEnvelopeV1) (rs : Hashed) :
    copies h (r :: rs) = copies h rs + if r.1 = h then 1 else 0 := by
  unfold copies
  rw [List.map_cons, List.count_cons]
  by_cases hr : r.1 = h
  · rw [if_pos hr, if_pos (beq_iff_eq.mpr hr)]
  · rw [if_neg hr, if_neg (fun hb => hr (beq_iff_eq.mp hb))]

theorem copies_concat (h : Str) (r : Str × SignedTxEnvelopeV1) (rs : Hashed) :
    copies h (rs ++ [r]) = copies h rs + if r.1 = h then 1 else 0 := by
  have hnil : copies h [r] = if r.1 = h then 1 else 0 := by
    rw [copies_cons]
    exact Nat.zero_add _
  rw [← hnil]
  unfold copies
  rw [List.map_append, List.count_append]

/-- The loop adds the copies of what is tracked, and sends them. -/
theorem foldl_countAttempt (h : Str) : ∀ (rs : Hashed) (acc : Tree Str Nat × Hashed),
    (rs.foldl countAttempt acc).1.get h = (acc.1.get h).map (· + copies h rs) ∧
      copies h (rs.foldl countAttempt acc).2 =
        copies h acc.2 + if (acc.1.get h).isSome then copies h rs else 0 := by
  intro rs
  induction rs with
  | nil =>
    intro acc
    refine ⟨?_, ?_⟩
    · rw [List.foldl_nil]
      cases acc.1.get h <;> rfl
    · exact (ite_self 0).symm ▸ rfl
  | cons r rs ih =>
    intro acc
    rw [List.foldl_cons]
    obtain ⟨hget, hsent⟩ := ih (countAttempt acc r)
    rw [hget, hsent, copies_cons]
    cases hr : acc.1.get r.1 with
    | none =>
      have hsame : countAttempt acc r = acc := by
        unfold countAttempt
        rw [hr]
      rw [hsame]
      by_cases hh : r.1 = h
      · rw [← hh, hr]
        exact ⟨rfl, rfl⟩
      · rw [if_neg hh]
        exact ⟨rfl, rfl⟩
    | some attempts =>
      have hstep : countAttempt acc r = (acc.1.insert r.1 (attempts + 1), acc.2 ++ [r]) := by
        unfold countAttempt
        rw [hr]
      rw [hstep]
      dsimp only
      rw [copies_concat]
      by_cases hh : r.1 = h
      · rw [if_pos hh, ← hh, hr, Tree.get_insert_self]
        refine ⟨?_, ?_⟩
        · rw [Option.map_some, Option.map_some, Option.some.injEq]
          omega
        · rw [Option.isSome_some, if_pos rfl]
          exact Nat.add_right_comm _ _ _ |>.trans (Nat.add_assoc _ _ _)
      · rw [if_neg hh, Tree.get_insert_ne hh]
        exact ⟨rfl, rfl⟩

/-- A transaction is in the snapshot. -/
def InSnapshot (h : Str) (pending : Hashed) : Prop := ∃ r ∈ pending, r.1 = h

theorem copies_eq_zero (hn : ¬ InSnapshot h pending) : copies h pending = 0 := by
  refine List.count_eq_zero_of_not_mem fun hmem => ?_
  obtain ⟨r, hr, heq⟩ := List.mem_map.mp hmem
  exact hn ⟨r, hr, heq⟩

theorem get_retainPending : (retainPending max pending tracker).get h = some a ↔
    tracker.get h = some a ∧ InSnapshot h pending ∧ a < max := by
  unfold retainPending InSnapshot
  rw [Tree.get_retain, Option.filter_eq_some_iff, Bool.and_eq_true, List.any_eq_true,
    decide_eq_true_eq]
  simp only [beq_iff_eq]

/-- **A sweep** leaves what is in its snapshot and has attempts left, and counts each copy. -/
theorem sweepTracker_get : (sweepTracker max pending tracker).1.get h = some a ↔
    ∃ b, tracker.get h = some b ∧ InSnapshot h pending ∧ b < max ∧ a = b + copies h pending := by
  unfold sweepTracker
  rw [(foldl_countAttempt h pending _).1, Option.map_eq_some_iff]
  constructor
  · rintro ⟨b, hb, heq⟩
    obtain ⟨hget, hin, hlt⟩ := get_retainPending.mp hb
    exact ⟨b, hget, hin, hlt, heq.symm⟩
  · rintro ⟨b, hget, hin, hlt, heq⟩
    exact ⟨b, get_retainPending.mpr ⟨hget, hin, hlt⟩, heq.symm⟩

theorem sweepTracker_sent : copies h (sweepTracker max pending tracker).2 =
    if ((sweepTracker max pending tracker).1.get h).isSome then copies h pending else 0 := by
  unfold sweepTracker
  obtain ⟨hget, hsent⟩ := foldl_countAttempt h pending (retainPending max pending tracker, [])
  rw [hget, hsent, Option.isSome_map]
  exact Nat.zero_add _

end Sweep

/-! ## Runs -/

/-- The pool, the submissions that are admitted and not tracked yet, the sweeps between their two
locks, the tracker, and how often a hash was re-published since its last submission. -/
structure Sweeping where
  pool : MiningPool
  announcing : List SignedTxEnvelopeV1
  sweeps : List Hashed
  pendingRebroadcast : Tree Str Nat
  republished : Str → Nat

/-- A node with nothing pending. -/
def Sweeping.boot : Sweeping := ⟨⟨[], [], 0⟩, [], [], .empty, fun _ => 0⟩

/-- What is done under one acquisition of a lock, with the ledger and the clock of the moment.
Attempts and sweeps are numbered as they are in progress. -/
inductive SweepAction where
  | enqueue (L : Ledger) (nowMs : Nat) (env : SignedTxEnvelopeV1)
  | announce (env : SignedTxEnvelopeV1)
  | take (L : Ledger) (producerId : Str)
  | select (L : Ledger) (nowMs : Nat) (producerId : Str) (attempt : Nat)
  | build (L : Ledger) (nowMs : Nat) (producerId : Str) (attempt : Nat)
  | snapshot
  | track (sweep : Nat)

/-- The end of an attempt: its block is made, or fails. -/
def endBlock (W : World) (L : Ledger) (nowMs : Nat) (producerId : Str) (attempt : Nat)
    (p : MiningPool) : MiningPool :=
  match p.hands[attempt]? with
  | some ⟨txs, true⟩ =>
    match (buildAndApplyBlock W nowMs (minerId W producerId) txs L).1 with
    | .err (.nothingWritten _) => failBlock W attempt p
    | .ok _ | .err (.maybeWritten _) => ⟨p.mempool, p.hands.eraseIdx attempt, 0⟩
    | .hang => { p with hands := p.hands.eraseIdx attempt }
  | _ => p

namespace Sweeping

variable (A : Auth) (c : Caps) (W : World) (V : SweepVars) (s : Sweeping)

/-- `submit_local_tx` up to the admission. -/
def enqueue (L : Ledger) (nowMs : Nat) (env : SignedTxEnvelopeV1) : Sweeping :=
  let r := enqueueWithoutBroadcast A c L nowMs env s.pool.mempool
  { s with
    pool := { s.pool with mempool := r.2 }
    announcing := if r.1.isOk then env :: s.announcing else s.announcing }

/-- `broadcast_mempool_tx` on the tracker. -/
def track (env : SignedTxEnvelopeV1) : Sweeping :=
  if V.channels then
    match txHashForEnv W env with
    | .ok h => { s with
        pendingRebroadcast := s.pendingRebroadcast.insert h 0
        republished := Function.update s.republished h 0 }
    | .error _ => s
  else s

/-- The rest of a submission. -/
def announce (env : SignedTxEnvelopeV1) : Sweeping :=
  if env ∈ s.announcing then
    { s with announcing := s.announcing.erase env }.track W V env
  else s

/-- `rebroadcast_pending_txs` up to the snapshot. -/
def snapshot : Sweeping :=
  if V.channels then { s with sweeps := snapshotOf W s.pool.mempool :: s.sweeps } else s

/-- The rest of it. -/
def finishSweep (sweep : Nat) : Sweeping :=
  match s.sweeps[sweep]? with
  | none => s
  | some pending =>
    let r := sweepTracker V.maxAttempts pending s.pendingRebroadcast
    { s with
      sweeps := s.sweeps.eraseIdx sweep
      pendingRebroadcast := r.1
      republished := fun h => s.republished h + copies h r.2 }

end Sweeping

/-- One step. -/
def SweepAction.step (A : Auth) (c : Caps) (W : World) (V : SweepVars) (s : Sweeping) :
    SweepAction → Sweeping
  | .enqueue L nowMs env => s.enqueue A c L nowMs env
  | .announce env => s.announce W V env
  | .take L producerId => { s with pool := takeMempool W L producerId s.pool }
  | .select L nowMs producerId attempt =>
    { s with pool := selectAndRequeue W L nowMs producerId attempt s.pool }
  | .build L nowMs producerId attempt =>
    { s with pool := endBlock W L nowMs producerId attempt s.pool }
  | .snapshot => s.snapshot W V
  | .track sweep => s.finishSweep V sweep

/-- The states that steps lead to, each step where `ok` allows it. -/
inductive SweepRun (A : Auth) (c : Caps) (W : World) (V : SweepVars)
    (ok : Sweeping → SweepAction → Prop) : Sweeping → Prop where
  | boot : SweepRun A c W V ok .boot
  | step {s : Sweeping} (a : SweepAction) (before : SweepRun A c W V ok s) (allowed : ok s a) :
      SweepRun A c W V ok (a.step A c W V s)

/-- No operation is in progress. -/
def Sweeping.Quiet (s : Sweeping) : Prop :=
  s.pool.hands = [] ∧ s.announcing = [] ∧ s.sweeps = []

/-- A lawful state. -/
structure Lawful (W : World) (V : SweepVars) (s : Sweeping) : Prop where
  tracked : s.Quiet → ∀ env ∈ s.pool.mempool, ∀ h, txHashForEnv W env = .ok h →
    s.republished h < V.maxAttempts → (s.pendingRebroadcast.get h).isSome = true
  bounded : ∀ h, s.republished h ≤ V.maxAttempts

/-- A transaction waits, or an attempt holds it. -/
def MiningPool.Holds (p : MiningPool) (env : SignedTxEnvelopeV1) : Prop :=
  env ∈ p.mempool ∨ env ∈ p.inHand

/-- A submission of a hash is in progress. -/
def Sweeping.Announcing (W : World) (s : Sweeping) (h : Str) : Prop :=
  ∃ e ∈ s.announcing, txHashForEnv W e = .ok h

/-- A sweep with this snapshot prunes nothing that is held and has attempts left, unless its
submission is in progress, and counts nothing more often than that. -/
structure TidySweep (W : World) (V : SweepVars) (s : Sweeping) (pending : Hashed) : Prop where
  seen : ∀ env, s.pool.Holds env → ∀ h a, txHashForEnv W env = .ok h →
    s.pendingRebroadcast.get h = some a → a < V.maxAttempts → ¬ s.Announcing W h →
      InSnapshot h pending
  counted : ∀ h a, s.pendingRebroadcast.get h = some a → a < V.maxAttempts →
    a + copies h pending ≤ V.maxAttempts

/-- A tidy step. -/
def Tidy (W : World) (V : SweepVars) (s : Sweeping) : SweepAction → Prop
  | .announce _ => V.channels = true
  | .track sweep => ∀ pending, s.sweeps[sweep]? = some pending → TidySweep W V s pending
  | _ => True

/-! ## What an attempt holds -/

section Pool

variable {W : World} {L : Ledger} {nowMs attempt : Nat} {producerId : Str} {p : MiningPool}
  {env : SignedTxEnvelopeV1}

theorem holds_take (hold : (takeMempool W L producerId p).Holds env) : p.Holds env := by
  unfold takeMempool at hold
  split at hold
  · exact hold
  · rcases hold with hold | hold
    · exact absurd hold List.not_mem_nil
    · unfold MiningPool.inHand at hold
      rw [List.flatMap_cons] at hold
      exact List.mem_append.mp hold

/-- What is put back, and what is left in hand, was held. -/
theorem PutsBack.holds {q : MiningPool} (h : PutsBack p q) (hold : q.Holds env) : p.Holds env := by
  obtain ⟨front, heq, hfront, -, -, hhands⟩ := h
  rcases hold with hold | hold
  · rw [heq] at hold
    rcases List.mem_append.mp hold with hnew | hold
    · exact Or.inr (hfront hnew)
    · exact Or.inl hold
  · exact Or.inr (hhands hold)

theorem endBlock_putsBack : PutsBack p (endBlock W L nowMs producerId attempt p) := by
  unfold endBlock
  split
  · split
    · exact fail_putsBack
    · exact putsBack_erase
    · exact putsBack_erase
    · exact putsBack_erase
  · exact .refl p

end Pool

/-! ## What tidy steps keep -/

/-- The tracker has the counts, none too large, and what is held is tracked, out of attempts, or its
submission is in progress. -/
structure Tracked (W : World) (V : SweepVars) (s : Sweeping) : Prop where
  counts : ∀ h a, s.pendingRebroadcast.get h = some a → a = s.republished h
  bounded : ∀ h, s.republished h ≤ V.maxAttempts
  held : ∀ env, s.pool.Holds env → ∀ h, txHashForEnv W env = .ok h →
    (s.pendingRebroadcast.get h).isSome = true ∨ V.maxAttempts ≤ s.republished h ∨
      s.Announcing W h

section Steps

variable {A : Auth} {c : Caps} {W : World} {V : SweepVars} {s : Sweeping} {L : Ledger}
  {nowMs sweep : Nat} {env : SignedTxEnvelopeV1} {pending : Hashed}

theorem Tracked.boot (W : World) (V : SweepVars) : Tracked W V .boot := by
  refine ⟨fun h a hget => ?_, fun h => Nat.zero_le _, fun env hold => ?_⟩
  · cases (Tree.get_empty h).symm.trans hget
  · rcases hold with hold | hold <;> cases hold

theorem Tracked.lawful (h : Tracked W V s) : Lawful W V s := by
  refine ⟨?_, h.bounded⟩
  rintro ⟨-, hannounce, -⟩ env henv hash hhash hlt
  rcases h.held env (Or.inl henv) hash hhash with hsome | hmax | ⟨e, he, -⟩
  · exact hsome
  · exact absurd hlt (Nat.not_lt.mpr hmax)
  · rw [hannounce] at he
    exact absurd he List.not_mem_nil

/-- A step of an attempt. -/
theorem Tracked.withPool (h : Tracked W V s) {p : MiningPool}
    (hp : ∀ env, p.Holds env → s.pool.Holds env) : Tracked W V { s with pool := p } :=
  ⟨h.counts, h.bounded, fun env hold => h.held env (hp env hold)⟩

theorem Tracked.enqueue (h : Tracked W V s) : Tracked W V (s.enqueue A c L nowMs env) := by
  refine ⟨h.counts, h.bounded, fun e hold hash hhash => ?_⟩
  -- what is admitted is being announced
  have hcases : s.pool.Holds e ∨ e ∈ (s.enqueue A c L nowMs env).announcing := by
    rcases hold with hold | hold
    · unfold Sweeping.enqueue at hold ⊢
      dsimp only at hold ⊢
      rcases enqueue_cases A c L nowMs env s.pool.mempool with
        ⟨e', -, heq⟩ | ⟨-, es, rest, hev, -, ⟨⟨e', heq⟩, -, -⟩ | ⟨⟨b, heq⟩, -⟩⟩
      · rw [heq] at hold
        exact Or.inl (Or.inl hold)
      · rw [heq] at hold
        exact Or.inl (Or.inl (hev.sublist.subset hold))
      · rw [heq] at hold ⊢
        rcases List.mem_append.mp hold with hold | hold
        · exact Or.inl (Or.inl (hev.sublist.subset hold))
        · rw [List.mem_singleton] at hold
          rw [hold]
          exact Or.inr List.mem_cons_self
    · exact Or.inl (Or.inr hold)
  rcases hcases with hold | hnew
  · rcases h.held e hold hash hhash with hsome | hmax | ⟨e', he', heq⟩
    · exact Or.inl hsome
    · exact Or.inr (Or.inl hmax)
    · refine Or.inr (Or.inr ⟨e', ?_, heq⟩)
      unfold Sweeping.enqueue
      dsimp only
      split
      · exact List.mem_cons_of_mem _ he'
      · exact he'
  · exact Or.inr (Or.inr ⟨e, hnew, hhash⟩)

/-- A submission that is not the one announced stays in progress. -/
theorem announcing_erase {hash : Str} (hin : s.Announcing W hash) (hne : txHashForEnv W env ≠ .ok hash) :
    ∃ e ∈ s.announcing.erase env, txHashForEnv W e = .ok hash := by
  obtain ⟨e, he, heq⟩ := hin
  refine ⟨e, (List.mem_erase_of_ne ?_).mpr he, heq⟩
  intro hsame
  exact hne (hsame ▸ heq)

theorem Tracked.announce (h : Tracked W V s) (hV : V.channels = true) :
    Tracked W V (s.announce W V env) := by
  unfold Sweeping.announce
  by_cases hmem : env ∈ s.announcing
  · rw [if_pos hmem]
    unfold Sweeping.track
    rw [if_pos hV]
    cases hhash : txHashForEnv W env with
    | error msg =>
      refine ⟨h.counts, h.bounded, fun e hold hash heq => ?_⟩
      refine (h.held e hold hash heq).imp_right (Or.imp_right fun hin => ?_)
      refine announcing_erase hin ?_
      rw [hhash]
      intro hok
      cases hok
    | ok x =>
      refine ⟨fun hash a hget => ?_, fun hash => ?_, fun e hold hash heq => ?_⟩
      · dsimp only at hget ⊢
        rw [Tree.get_insert] at hget
        by_cases hx : x = hash
        · rw [if_pos hx, Option.some.injEq] at hget
          rw [← hx, Function.update_self, hget]
        · rw [if_neg hx] at hget
          rw [Function.update_of_ne (Ne.symm hx)]
          exact h.counts hash a hget
      · dsimp only
        rw [Function.update_apply]
        split
        · exact Nat.zero_le _
        · exact h.bounded hash
      · dsimp only
        by_cases hx : x = hash
        · rw [hx, Tree.get_insert_self]
          exact Or.inl rfl
        · rw [Tree.get_insert_ne hx, Function.update_of_ne (Ne.symm hx)]
          refine (h.held e hold hash heq).imp_right (Or.imp_right fun hin => ?_)
          refine announcing_erase hin ?_
          rw [hhash]
          intro hok
          cases hok
          exact hx rfl
  · rw [if_neg hmem]
    exact h

/-- What a sweep leaves of the count of a hash. -/
theorem republished_finishSweep (hs : s.sweeps[sweep]? = some pending) (hash : Str) :
    (s.finishSweep V sweep).republished hash = s.republished hash +
      if ((s.finishSweep V sweep).pendingRebroadcast.get hash).isSome then copies hash pending
      else 0 := by
  unfold Sweeping.finishSweep
  rw [hs]
  exact congrArg (s.republished hash + ·) sweepTracker_sent

theorem get_finishSweep (hs : s.sweeps[sweep]? = some pending) {hash : Str} {a : Nat} :
    (s.finishSweep V sweep).pendingRebroadcast.get hash = some a ↔
      ∃ b, s.pendingRebroadcast.get hash = some b ∧ InSnapshot hash pending ∧ b < V.maxAttempts ∧
        a = b + copies hash pending := by
  unfold Sweeping.finishSweep
  rw [hs]
  exact sweepTracker_get

theorem finishSweep_frame (s : Sweeping) (V : SweepVars) (sweep : Nat) :
    (s.finishSweep V sweep).pool = s.pool ∧ (s.finishSweep V sweep).announcing = s.announcing := by
  unfold Sweeping.finishSweep
  cases s.sweeps[sweep]? with
  | none => exact ⟨rfl, rfl⟩
  | some pending => exact ⟨rfl, rfl⟩

/-- The counts of a sweep that counts nothing too often. -/
theorem Tracked.counts_finishSweep (h : Tracked W V s) (hs : s.sweeps[sweep]? = some pending)
    (hash : Str) (a : Nat) (hget : (s.finishSweep V sweep).pendingRebroadcast.get hash = some a) :
    a = (s.finishSweep V sweep).republished hash := by
  rw [republished_finishSweep hs, hget, Option.isSome_some, if_pos rfl]
  obtain ⟨b, hb, -, -, heq⟩ := (get_finishSweep hs).mp hget
  rw [heq, h.counts hash b hb]

theorem Tracked.finishSweep (h : Tracked W V s) (hs : s.sweeps[sweep]? = some pending)
    (htidy : TidySweep W V s pending) : Tracked W V (s.finishSweep V sweep) := by
  obtain ⟨hpool, hannouncing⟩ := finishSweep_frame s V sweep
  have hcounts := h.counts_finishSweep hs
  refine ⟨hcounts, fun hash => ?_, fun e hold hash heq => ?_⟩
  · cases hget : (s.finishSweep V sweep).pendingRebroadcast.get hash with
    | none =>
      rw [republished_finishSweep hs, hget]
      exact h.bounded hash
    | some a =>
      rw [← hcounts hash a hget]
      obtain ⟨b, hb, -, hlt, heq⟩ := (get_finishSweep hs).mp hget
      rw [heq]
      exact htidy.counted hash b hb hlt
  · rw [hpool] at hold
    unfold Sweeping.Announcing
    rw [hannouncing]
    have hle : s.republished hash ≤ (s.finishSweep V sweep).republished hash := by
      rw [republished_finishSweep hs]
      exact Nat.le_add_right _ _
    by_cases hin : s.Announcing W hash
    · exact Or.inr (Or.inr hin)
    · rcases h.held e hold hash heq with hsome | hmax | hin'
      · obtain ⟨b, hb⟩ := Option.isSome_iff_exists.mp hsome
        by_cases hlt : b < V.maxAttempts
        · have hsnap := htidy.seen e hold hash b heq hb hlt hin
          refine Or.inl ?_
          rw [(get_finishSweep hs).mpr ⟨b, hb, hsnap, hlt, rfl⟩]
          rfl
        · refine Or.inr (Or.inl ?_)
          rw [h.counts hash b hb] at hlt
          exact (Nat.not_lt.mp hlt).trans hle
      · exact Or.inr (Or.inl (hmax.trans hle))
      · exact absurd hin' hin

theorem Tracked.snapshot (h : Tracked W V s) : Tracked W V (s.snapshot W V) := by
  unfold Sweeping.snapshot
  split
  · exact ⟨h.counts, h.bounded, h.held⟩
  · exact h

/-- **One step** that is tidy. -/
theorem Tracked.step {a : SweepAction} (h : Tracked W V s) (htidy : Tidy W V s a) :
    Tracked W V (a.step A c W V s) := by
  cases a with
  | enqueue L nowMs env => exact h.enqueue
  | announce env => exact h.announce htidy
  | take L producerId => exact h.withPool fun env => holds_take
  | select L nowMs producerId attempt => exact h.withPool fun env => select_putsBack.holds
  | build L nowMs producerId attempt => exact h.withPool fun env => endBlock_putsBack.holds
  | snapshot => exact h.snapshot
  | track sweep =>
    change Tracked W V (s.finishSweep V sweep)
    cases hs : s.sweeps[sweep]? with
    | none =>
      unfold Sweeping.finishSweep
      rw [hs]
      exact h
    | some pending => exact h.finishSweep hs (htidy pending hs)

/-- **A run** of tidy steps. -/
theorem SweepRun.tracked (h : SweepRun A c W V (Tidy W V) s) : Tracked W V s := by
  induction h with
  | boot => exact .boot W V
  | step a _ allowed ih => exact ih.step allowed

/-- **The retry loop forgets nothing** along a run of tidy steps: every state it leads to is
lawful. -/
theorem tidy_runs_lawful (h : SweepRun A c W V (Tidy W V) s) : Lawful W V s := h.tracked.lawful

/-- A sweep that nothing falls in: its snapshot is the mempool, no attempt holds anything, and no hash
waits twice. -/
theorem TidySweep.of_current (hhands : s.pool.hands = [])
    (honce : ∀ hash, copies hash (snapshotOf W s.pool.mempool) ≤ 1) :
    TidySweep W V s (snapshotOf W s.pool.mempool) := by
  refine ⟨fun env hold hash a heq _ _ _ => ?_, fun hash a _ hlt => ?_⟩
  · have hmem : env ∈ s.pool.mempool := by
      refine hold.resolve_right fun hin => ?_
      unfold MiningPool.inHand at hin
      rw [hhands] at hin
      exact absurd hin List.not_mem_nil
    refine ⟨(hash, env), List.mem_filterMap.mpr ⟨env, hmem, ?_⟩, rfl⟩
    rw [heq]
    rfl
  · have := honce hash
    omega

/-- So a sweep whose two steps follow each other is tidy. -/
theorem tidy_track_snapshot (hV : V.channels = true) (hhands : s.pool.hands = [])
    (honce : ∀ hash, copies hash (snapshotOf W s.pool.mempool) ≤ 1) :
    Tidy W V (s.snapshot W V) (.track 0) := by
  intro pending hs
  unfold Sweeping.snapshot at hs ⊢
  rw [if_pos hV] at hs ⊢
  cases hs
  have htidy : TidySweep W V s _ := .of_current hhands honce
  exact ⟨htidy.seen, htidy.counted⟩

/-- A submission that nothing falls in. -/
theorem SweepRun.submit (h : SweepRun A c W V (Tidy W V) s) (hV : V.channels = true) (L : Ledger)
    (nowMs : Nat) (env : SignedTxEnvelopeV1) :
    SweepRun A c W V (Tidy W V) ((s.enqueue A c L nowMs env).announce W V env) :=
  .step (.announce env) (.step (.enqueue L nowMs env) h trivial) hV

/-- A sweep that nothing falls in. -/
theorem SweepRun.sweepOnce (h : SweepRun A c W V (Tidy W V) s) (hV : V.channels = true)
    (hhands : s.pool.hands = []) (honce : ∀ hash, copies hash (snapshotOf W s.pool.mempool) ≤ 1) :
    SweepRun A c W V (Tidy W V) ((s.snapshot W V).finishSweep V 0) :=
  .step (.track 0) (.step .snapshot h trivial) (tidy_track_snapshot hV hhands honce)

/-- **The last step in progress**, when it is a sweep's, is lawful exactly if it is tidy. -/
theorem track_lawful_iff (h : SweepRun A c W V (Tidy W V) s) (hhands : s.pool.hands = [])
    (hannouncing : s.announcing = []) (hsweeps : s.sweeps = [pending]) :
    Lawful W V (s.finishSweep V 0) ↔ TidySweep W V s pending := by
  have hs : s.sweeps[0]? = some pending := by
    rw [hsweeps]
    rfl
  obtain ⟨hpool, hsame⟩ := finishSweep_frame s V 0
  have htracked := h.tracked
  constructor
  · intro hlaw
    refine ⟨fun env hold hash a heq hget hlt _ => ?_, fun hash a hget hlt => ?_⟩
    · by_contra hn
      have hzero := copies_eq_zero hn
      have hnone : (s.finishSweep V 0).pendingRebroadcast.get hash = none := by
        rw [Option.eq_none_iff_forall_ne_some]
        intro b hb
        obtain ⟨-, -, hin, -⟩ := (get_finishSweep hs).mp hb
        exact hn hin
      have hquiet : (s.finishSweep V 0).Quiet := by
        refine ⟨hpool ▸ hhands, hsame.trans hannouncing, ?_⟩
        unfold Sweeping.finishSweep
        rw [hs, hsweeps]
        rfl
      have hmem : env ∈ (s.finishSweep V 0).pool.mempool := by
        rw [hpool]
        refine hold.resolve_right fun hin => ?_
        unfold MiningPool.inHand at hin
        rw [hhands] at hin
        exact absurd hin List.not_mem_nil
      have hcount : (s.finishSweep V 0).republished hash < V.maxAttempts := by
        rw [republished_finishSweep hs, hnone, ← htracked.counts hash a hget]
        exact hlt
      have hsome := hlaw.tracked hquiet env hmem hash heq hcount
      rw [hnone] at hsome
      cases hsome
    · by_cases hin : InSnapshot hash pending
      · have hafter := (get_finishSweep (V := V) hs).mpr ⟨a, hget, hin, hlt, rfl⟩
        have hbound := hlaw.bounded hash
        rwa [← htracked.counts_finishSweep hs hash _ hafter] at hbound
      · rw [copies_eq_zero hin]
        exact hlt.le
  · intro htidy
    exact (htracked.finishSweep hs htidy).lawful

/-- A run as a list of steps. -/
theorem SweepRun.foldl {ok : Sweeping → SweepAction → Prop} (hok : ∀ s a, ok s a) :
    ∀ (as : List SweepAction) {s : Sweeping}, SweepRun A c W V ok s →
      SweepRun A c W V ok (as.foldl (fun s a => a.step A c W V s) s)
  | [], _, h => h
  | a :: as, _, h => SweepRun.foldl hok as (.step a h (hok _ a))

end Steps

end TetCore.Mempool

namespace TetCore.Sample

open TetCore.Lib TetCore.Mempool TetCore.Consensus

/-- A node with gossip. -/
def sweepVars : SweepVars := ⟨true, false, none⟩

/-- A transfer of `alice` and a registration that fails its block are submitted. -/
def spendSubmissions : List SweepAction :=
  [.enqueue bonded 0 (spend bob), .announce (spend bob), .enqueue bonded 0 blankProfile,
    .announce blankProfile]

/-- They are taken, a sweep sees an empty mempool, and the block fails. -/
def sweepInAttempt : List SweepAction :=
  spendSubmissions ++ [.take bonded node, .snapshot, .track 0, .select bonded 0 node 0,
    .build bonded 0 node 0]

/-- The node after some steps. -/
def sweeping (as : List SweepAction) : Sweeping :=
  as.foldl (fun s a => a.step auth ⟨none, none⟩ (World.sample 0) sweepVars s) .boot

/-- The node after the transfer was submitted. -/
def spendSubmitted : Sweeping :=
  (Sweeping.boot.enqueue auth ⟨none, none⟩ bonded 0 (spend bob)).announce (World.sample 0) sweepVars
    (spend bob)

theorem spendSubmitted_facts : spendSubmitted.pool.hands.isEmpty = true ∧
    (snapshotOf (World.sample 0) spendSubmitted.pool.mempool).length = 1 := by
  decide +kernel

theorem sweepInAttempt_facts : ((sweeping sweepInAttempt).pool.hands.isEmpty = true ∧
    (sweeping sweepInAttempt).announcing.isEmpty = true ∧
    (sweeping sweepInAttempt).sweeps.isEmpty = true) ∧
    spend bob ∈ (sweeping sweepInAttempt).pool.mempool ∧
    (txHashForEnv (World.sample 0) (spend bob)).toOption.map (fun h =>
      ((sweeping sweepInAttempt).republished h,
        (sweeping sweepInAttempt).pendingRebroadcast.get h)) = some (0, none) := by
  decide +kernel

end TetCore.Sample

namespace TetCore.Mempool

/-- A sweep that falls in an attempt forgets what the attempt puts back. -/
theorem waiting_forgotten : ¬ ∀ (A : Auth) (c : Caps) (W : World) (V : SweepVars) (s : Sweeping),
    V.channels = true → SweepRun A c W V (fun _ _ => True) s → Lawful W V s := by
  intro h
  obtain ⟨⟨hhands, hannouncing, hsweeps⟩, hmem, hread⟩ := Sample.sweepInAttempt_facts
  have hrun : SweepRun Sample.auth ⟨none, none⟩ (World.sample 0) Sample.sweepVars
      (fun _ _ => True) (Sample.sweeping Sample.sweepInAttempt) :=
    SweepRun.foldl (fun _ _ => trivial) _ .boot
  have hlaw := h _ _ _ _ _ rfl hrun
  obtain ⟨hash, hhash, heq⟩ := Option.map_eq_some_iff.mp hread
  have hcount := congrArg Prod.fst heq
  have hget := congrArg Prod.snd heq
  dsimp only at hcount hget
  have hok : txHashForEnv (World.sample 0) (Sample.spend Sample.bob) = .ok hash := by
    cases hcase : txHashForEnv (World.sample 0) (Sample.spend Sample.bob) with
    | error msg =>
      rw [hcase] at hhash
      cases hhash
    | ok x =>
      rw [hcase] at hhash
      cases hhash
      rfl
  have hsome := hlaw.tracked ⟨List.isEmpty_iff.mp hhands, List.isEmpty_iff.mp hannouncing,
    List.isEmpty_iff.mp hsweeps⟩ _ hmem hash hok (by rw [hcount]; decide)
  rw [hget] at hsome
  cases hsome

/-- The transfer is submitted, and a sweep sends it. -/
theorem tidy_runs_lawful_sent : Lawful (World.sample 0) Sample.sweepVars
    ((Sample.spendSubmitted.snapshot (World.sample 0) Sample.sweepVars).finishSweep Sample.sweepVars 0) := by
  have hsubmitted : SweepRun Sample.auth ⟨none, none⟩ (World.sample 0) Sample.sweepVars
      (Tidy (World.sample 0) Sample.sweepVars) Sample.spendSubmitted :=
    SweepRun.boot.submit rfl Sample.bonded 0 (Sample.spend Sample.bob)
  refine tidy_runs_lawful (hsubmitted.sweepOnce rfl
    (List.isEmpty_iff.mp Sample.spendSubmitted_facts.1) fun hash => ?_)
  refine List.count_le_length.trans ?_
  rw [List.length_map]
  exact Sample.spendSubmitted_facts.2.le

end TetCore.Mempool
