import TetCore.Mempool.Durable
import TetCore.Mempool.Duplicates
import TetCore.Ledger.Markers

/-!
# What a crash leaves of the mempool

The runs of submissions and mining attempts on one node, any number of them at a time, and what a crash
leaves: the storage, with the durable copy of the mempool (`mempool_restore`).

A transaction that was put in the durable copy is applied, still there, given up as unminable, or an
attempt took it out and is to decide on it: that is what the attempt owes (`contract`). Each function
of an attempt hands on what it owes or pays it (`…_obeys`).

* `acknowledged_survives`: what a submission returned `Ok` for survives a crash outside of the attempts
  that took something out, if nothing was left out when it was put back.
* `acknowledged_lost`: a crash within an attempt.
-/

namespace TetCore.Mempool.Durable

open TetCore.Lib TetCore.Consensus

/-! ## Runs -/

/-- `mempool_restore`: the rows that still verify. -/
def mempoolRestore (W : World) (t : Tree Str SignedTxEnvelopeV1) :
    List (Str × SignedTxEnvelopeV1) :=
  t.iter.filter fun row => (W.verifyEnvelopeV1 row.2).isOk

/-- The rows `mempool_restore` removes. -/
def dropUnverifiable (W : World) (t : Tree Str SignedTxEnvelopeV1) : Tree Str SignedTxEnvelopeV1 :=
  (t.iter.filter fun row => !(W.verifyEnvelopeV1 row.2).isOk).foldl (fun t row => t.remove row.1) t

/-- The node after a crash: the storage stays, the mempool and the tracker are restored from it. -/
def PendingNode.restart (W : World) (s : PendingNode) : PendingNode :=
  { s with
    node := ⟨s.node.ledger, (mempoolRestore W s.mempoolTree).map Prod.snd, 0⟩
    mempoolLocked := false
    mempoolTree := dropUnverifiable W s.mempoolTree
    pendingRebroadcast := (mempoolRestore W s.mempoolTree).foldl (fun t row => t.insert row.1 0) .empty }

/-- A node that has nothing pending. -/
def PendingNode.boot (L : Ledger) : PendingNode :=
  ⟨⟨L, [], 0⟩, false, .empty, .empty, 0, [], [], [], [], []⟩

/-- What can be started: a submission, an attempt, and a change of the clock. -/
inductive PendingOp where
  | submit (env : SignedTxEnvelopeV1)
  | mine (producerId : Str)
  | clock (nowMs : Nat)

section Runs

variable (A : Auth) (c : Caps) (W : World)

/-- The thread of an operation. -/
def PendingOp.thread : PendingOp → PendingProg Unit
  | .submit env => do
    let _ ← submitLocalTx A c W env
    pure ()
  | .mine producerId => do
    let _ ← minePendingBlockAs W producerId
    pure ()
  | .clock nowMs => Prog.write .idle fun s => { s with nowMs := nowMs }

/-- The threads of operations; a transaction that is submitted verifies, as every handler checks
first. -/
def Started (p : PendingProg Unit) : Prop :=
  ∃ op : PendingOp, (∀ env, op = .submit env → HasHash W env) ∧ p = op.thread A c W

/-- No attempt is between `mempool_forget` and the end of the apply, or of putting back. -/
def NothingInHand (pool : Lib.Pool PendingNode Place) : Prop :=
  ∀ p ∈ pool.2, ∀ i, p.place = some i → i.held = []

/-- The states of a node's life, through crashes, where `ok` allows them. -/
inductive Life (ok : PendingNode → Prop) : Lib.Pool PendingNode Place → Prop where
  | boot (L : Ledger) : Life ok (.boot L, [])
  | step {pool pool' : Lib.Pool PendingNode Place} (before : Life ok pool)
      (made : Lib.Pool.Step (Started A c W) pool pool') (allowed : ok pool'.1) : Life ok pool'
  | crash {s : PendingNode} {threads : List (PendingProg Unit)} (before : Life ok (s, threads))
      (quiet : NothingInHand (s, threads)) : Life ok (s.restart W, [])

end Runs

/-- Every transaction that was put back when its row was gone got its row back. -/
def NothingSkipped (s : PendingNode) : Prop := s.skipped = []

/-- The transaction is applied, it is in the durable copy from which the node restores, or it was
dropped as unminable. -/
def Survives (W : World) (s : PendingNode) (env : SignedTxEnvelopeV1) : Prop :=
  ∃ h, txHashForEnv W env = .ok h ∧
    (s.node.ledger.isTxApplied h = true ∨ h ∈ s.inBlocks ∨
      (∃ e, (h, e) ∈ mempoolRestore W s.mempoolTree ∧ txHashForEnv W e = .ok h) ∨ h ∈ s.unminable)

/-! ## The contract -/

/-- The hash is decided on, or it is in the durable copy. -/
def Safe (s : PendingNode) (h : Str) : Prop :=
  s.node.ledger.isTxApplied h = true ∨ h ∈ s.inBlocks ∨ (s.mempoolTree.get h).isSome = true ∨
    h ∈ s.unminable ∨ h ∈ s.skipped

/-- Some of the transactions has the hash. -/
def Among (W : World) (txs : List SignedTxEnvelopeV1) (h : Str) : Prop :=
  ∃ env ∈ txs, txHashForEnv W env = .ok h

/-- Rows are under their hashes, what waits has one, and what was answered was put in the durable
copy. -/
structure Sound (W : World) (s : PendingNode) : Prop where
  rows : ∀ h env, s.mempoolTree.get h = some env → txHashForEnv W env = .ok h
  waiting : ∀ env ∈ s.node.mempool, HasHash W env
  promised : ∀ env ∈ s.answered, ∃ h, txHashForEnv W env = .ok h ∧ h ∈ s.persisted

/-- What is applied or given up stays so. -/
structure Grows (s s' : PendingNode) : Prop where
  applied : ∀ h, s.node.ledger.isTxApplied h = true → s'.node.ledger.isTxApplied h = true
  persisted : s.persisted ⊆ s'.persisted
  inBlocks : s.inBlocks ⊆ s'.inBlocks
  unminable : s.unminable ⊆ s'.unminable
  skipped : s.skipped ⊆ s'.skipped

/-- An attempt owes the transactions it took out of the durable copy. -/
def contract (W : World) : Contract PendingNode Place Str where
  Inv := Sound W
  Guar _ _ := Grows
  Apart _ _ := True
  symm _ _ _ := trivial
  holds i := i.locks
  locked s := s.mempoolLocked
  Owes i h := Among W i.held h
  Paid h s := h ∈ s.persisted → Safe s h

/-- A place, if any, that owes the transactions, with the lock or without it. -/
structure Reaches (W : World) (locks : Bool) (j : Option Place) (held : List SignedTxEnvelopeV1) :
    Prop where
  holds : (contract W).holdsAt j = locks
  owes : ∀ h, Among W held h → (contract W).OwedAt j h

section Contract

variable {W : World} {s s' : PendingNode} {i : Place} {j : Option Place} {h : Str}
  {locks : Bool} {env : SignedTxEnvelopeV1} {txs txs' held rest : List SignedTxEnvelopeV1}

theorem Among.mono (ha : Among W txs h) (hs : txs ⊆ txs') : Among W txs' h := by
  obtain ⟨env, henv, hh⟩ := ha
  exact ⟨env, hs henv, hh⟩

theorem among_append : Among W (txs ++ txs') h ↔ Among W txs h ∨ Among W txs' h := by
  constructor
  · rintro ⟨env, henv, hh⟩
    rcases List.mem_append.mp henv with henv | henv
    · exact Or.inl ⟨env, henv, hh⟩
    · exact Or.inr ⟨env, henv, hh⟩
  · rintro (ha | ha)
    · exact ha.mono (List.subset_append_left _ _)
    · exact ha.mono (List.subset_append_right _ _)

theorem among_cons : Among W (env :: txs) h ↔ Among W [env] h ∨ Among W txs h := by
  rw [← among_append, List.singleton_append]

theorem among_nil : ¬ Among W [] h := by
  rintro ⟨env, henv, -⟩
  exact absurd henv List.not_mem_nil

theorem among_singleton {x : Str} (hx : txHashForEnv W env = .ok x) : Among W [env] h ↔ h = x := by
  constructor
  · rintro ⟨e, he, hh⟩
    rw [List.mem_singleton.mp he, hx, Except.ok.injEq] at hh
    exact hh.symm
  · rintro rfl
    exact ⟨env, List.mem_singleton_self _, hx⟩

theorem mem_hashesOf : h ∈ hashesOf W txs ↔ Among W txs h := by
  unfold hashesOf Among
  rw [List.mem_filterMap]
  constructor
  · rintro ⟨env, henv, hh⟩
    refine ⟨env, henv, ?_⟩
    cases htx : txHashForEnv W env with
    | error e =>
      rw [htx] at hh
      cases hh
    | ok x =>
      rw [htx] at hh
      cases hh
      rfl
  · rintro ⟨env, henv, hh⟩
    exact ⟨env, henv, by rw [hh]; rfl⟩

theorem reaches_some (i : Place) : Reaches W i.locks (some i) i.held :=
  ⟨rfl, fun _ ha => ⟨i, rfl, ha⟩⟩

theorem Reaches.drop (hr : Reaches W locks j (held ++ env :: txs)) :
    Reaches W locks j (held ++ txs) :=
  ⟨hr.holds, fun h ha => hr.owes h (ha.mono
    ((List.Sublist.refl held).append (List.sublist_cons_self env txs)).subset)⟩

theorem reaches_none : Reaches W false none [] := ⟨rfl, fun _ ha => absurd ha among_nil⟩

theorem Reaches.mono (hr : Reaches W locks j held) (hs : rest ⊆ held) : Reaches W locks j rest :=
  ⟨hr.holds, fun h ha => hr.owes h (ha.mono hs)⟩

theorem Grows.refl (s : PendingNode) : Grows s s :=
  ⟨fun _ h => h, List.Subset.refl _, List.Subset.refl _, List.Subset.refl _, List.Subset.refl _⟩

/-- Nothing more is decided. -/
theorem Grows.of_same (hledger : s'.node.ledger = s.node.ledger)
    (hpersisted : s.persisted ⊆ s'.persisted) (hblocks : s'.inBlocks = s.inBlocks)
    (hunminable : s'.unminable = s.unminable) (hskipped : s'.skipped = s.skipped) : Grows s s' := by
  refine ⟨fun h ha => ?_, hpersisted, ?_, ?_, ?_⟩
  · rw [hledger]
    exact ha
  · rw [hblocks]
    exact List.Subset.refl _
  · rw [hunminable]
    exact List.Subset.refl _
  · rw [hskipped]
    exact List.Subset.refl _

/-- A step that loses no row but what it owes next. -/
theorem move_of (hinv : Sound W s') (hgrows : Grows s s')
    (hlock : s'.mempoolLocked.toNat + i.locks.toNat =
      s.mempoolLocked.toNat + ((contract W).holdsAt j).toNat)
    (hrows : ∀ h, (s.mempoolTree.get h).isSome = true →
      (s'.mempoolTree.get h).isSome = true ∨ (contract W).OwedAt j h)
    (hnew : ∀ h ∈ s'.persisted, h ∈ s.persisted ∨ (s'.mempoolTree.get h).isSome = true)
    (howed : ∀ h, Among W i.held h → Safe s' h ∨ (contract W).OwedAt j h) :
    (contract W).Move i j s s' where
  inv := hinv
  guar := hgrows
  lock := hlock
  debt := by
    rintro h (hpaid | hown)
    · by_cases howe : (contract W).OwedAt j h
      · exact Or.inr howe
      · left
        intro hp
        rcases hnew h hp with hold | hrow
        · rcases hpaid hold with ha | hb | hr | hu | hk
          · exact Or.inl (hgrows.applied h ha)
          · exact Or.inr (Or.inl (hgrows.inBlocks hb))
          · exact Or.inr (Or.inr (Or.inl ((hrows h hr).resolve_right howe)))
          · exact Or.inr (Or.inr (Or.inr (Or.inl (hgrows.unminable hu))))
          · exact Or.inr (Or.inr (Or.inr (Or.inr (hgrows.skipped hk))))
        · exact Or.inr (Or.inr (Or.inl hrow))
    · rcases howed h hown with hsafe | howe
      · exact Or.inl fun _ => hsafe
      · exact Or.inr howe

/-- A step that leaves the durable copy and the lock alone. -/
theorem move_quiet (hinv : Sound W s') (hgrows : Grows s s')
    (htree : s'.mempoolTree = s.mempoolTree) (hpersisted : s'.persisted = s.persisted)
    (hlocked : s'.mempoolLocked = s.mempoolLocked) (hholds : (contract W).holdsAt j = i.locks)
    (howed : ∀ h, Among W i.held h → Safe s' h ∨ (contract W).OwedAt j h) :
    (contract W).Move i j s s' := by
  refine move_of hinv hgrows ?_ (fun h hr => Or.inl ?_) (fun h hp => Or.inl ?_) howed
  · rw [hlocked, hholds]
  · rw [htree]
    exact hr
  · rwa [hpersisted] at hp

/-- A step that changes nothing. -/
theorem move_same (hinv : Sound W s) (hr : Reaches W i.locks j txs)
    (howed : ∀ h, Among W i.held h → Safe s h ∨ Among W txs h) : (contract W).Move i j s s :=
  move_quiet hinv (.refl s) rfl rfl rfl hr.holds fun h ha =>
    (howed h ha).imp_right (hr.owes h)

/-- A row is written. -/
theorem move_persist (hinv : Sound W s) (hh : txHashForEnv W env = .ok h)
    (hr : Reaches W i.locks j txs)
    (howed : ∀ x, Among W i.held x → Among W [env] x ∨ Among W txs x) :
    (contract W).Move i j s (s.mempoolPersist h env) := by
  have hrow : ((s.mempoolPersist h env).mempoolTree.get h).isSome = true := by
    show ((s.mempoolTree.insert h env).get h).isSome = true
    rw [Tree.get_insert_self]
    rfl
  refine move_of ⟨fun k v hk => ?_, hinv.waiting, fun e he => ?_⟩
    (.of_same rfl (List.subset_cons_self _ _) rfl rfl rfl) ?_ (fun x hx => Or.inl ?_)
    (fun x hx => ?_) fun x hx => ?_
  · have hget : (s.mempoolTree.insert h env).get k = some v := hk
    rw [Tree.get_insert] at hget
    split at hget
    · rename_i hkey
      cases hget
      rw [← hkey]
      exact hh
    · exact hinv.rows k v hget
  · obtain ⟨y, hy, hp⟩ := hinv.promised e he
    exact ⟨y, hy, List.mem_cons_of_mem _ hp⟩
  · rw [hr.holds]
    rfl
  · show ((s.mempoolTree.insert h env).get x).isSome = true
    rw [Tree.get_insert]
    split
    · rfl
    · exact hx
  · rcases List.mem_cons.mp hx with rfl | hx
    · exact Or.inr hrow
    · exact Or.inl hx
  · rcases howed x hx with hone | hx
    · rw [(among_singleton hh).mp hone]
      exact Or.inl (Or.inr (Or.inr (Or.inl hrow)))
    · exact Or.inr (hr.owes x hx)

theorem stable_of_grows {P : PendingNode → Prop} (h : ∀ s s', P s → Grows s s' → P s') (i : Place) :
    (contract W).Stable i P := by
  rintro s s' hs ⟨j, j', -, -, -, -, hmove⟩
  exact h s s' hs hmove.guar

end Contract

/-! ## Mining obeys -/

section Mining

variable {W : World} {s : PendingNode} {producerId : Str} {α : Type}
  {txs held rest : List SignedTxEnvelopeV1}

theorem forget_reaches {e : Unit → Option Place} :
    ∀ (txs held : List SignedTxEnvelopeV1), Reaches W false (e ()) (held ++ txs) →
      Reaches W false ((forget W txs held).placeThen e) held := by
  intro txs
  induction txs with
  | nil =>
    intro held he
    exact he.mono (List.subset_append_left _ _)
  | cons env txs ih =>
    intro held he
    unfold forget
    split
    · exact ih held he.drop
    · exact reaches_some ⟨held, false⟩

theorem forget_obeys {e : Unit → Option Place} :
    ∀ (txs held : List SignedTxEnvelopeV1) (s : PendingNode), Reaches W false (e ()) (held ++ txs) →
      (contract W).Obeys e (fun _ _ => True) (forget W txs held) s := by
  intro txs
  induction txs with
  | nil => exact fun _ _ _ => trivial
  | cons env txs ih =>
    intro held s he
    unfold forget
    cases hh : txHashForEnv W env with
    | error e' => exact ih held s he.drop
    | ok x =>
      have he' : Reaches W false (e ()) (held ++ [env] ++ txs) := by
        rwa [List.append_assoc, List.singleton_append]
      refine Contract.Obeys.write_then (fun _ => True) trivial (Contract.stable_true _) ?_
      intro s _ hinv
      refine ⟨?_, ih (held ++ [env]) _ he'⟩
      have hnext := forget_reaches txs (held ++ [env]) he'
      refine move_of ⟨fun k v hk => ?_, hinv.waiting, hinv.promised⟩
        (.of_same rfl (List.Subset.refl _) rfl rfl rfl) ?_ (fun h hr => ?_) (fun h hp => Or.inl hp)
        fun h ha => Or.inr (hnext.owes h (ha.mono (List.subset_append_left _ _)))
      · refine hinv.rows k v ?_
        have hget : (s.mempoolTree.remove x).get k = some v := hk
        rw [Tree.get_remove] at hget
        split at hget
        · cases hget
        · exact hget
      · rw [hnext.holds]
        rfl
      · by_cases hx : x = h
        · right
          subst hx
          exact hnext.owes x ⟨env, List.mem_append_right _ (List.mem_singleton_self env), hh⟩
        · left
          show ((s.mempoolTree.remove x).get h).isSome = true
          rw [Tree.get_remove_ne hx]
          exact hr

/-- What the filter has seen so far is kept or settled. -/
structure Filtered (W : World) (held txs : List SignedTxEnvelopeV1) (seen : List Str)
    (kept : List SignedTxEnvelopeV1) (s : PendingNode) : Prop where
  all : ∀ h, Among W held h → Among W txs h ∨ h ∈ seen
  seen : ∀ h ∈ seen, Among W kept h ∨ s.node.ledger.isTxApplied h = true

theorem Filtered.grows {seen : List Str} {kept : List SignedTxEnvelopeV1} {s s' : PendingNode}
    (h : Filtered W held txs seen kept s) (hg : Grows s s') : Filtered W held txs seen kept s' :=
  ⟨h.all, fun x hx => (h.seen x hx).imp_right (hg.applied x)⟩

theorem Filtered.step {seen : List Str} {kept : List SignedTxEnvelopeV1} {s : PendingNode}
    {env : SignedTxEnvelopeV1} {x : Str} (h : Filtered W held (env :: txs) seen kept s)
    (hx : txHashForEnv W env = .ok x) :
    Filtered W held txs (seen.insert x) (if (decide (x ∈ seen) || s.node.ledger.isTxApplied x) = true
      then kept else kept ++ [env]) s := by
  refine ⟨fun k hk => ?_, fun k hk => ?_⟩
  · rcases h.all k hk with ha | hs
    · rcases among_cons.mp ha with ha | ha
      · rw [(among_singleton hx).mp ha]
        exact Or.inr List.mem_insert_self
      · exact Or.inl ha
    · exact Or.inr (List.mem_insert_of_mem hs)
  · rcases List.mem_insert_iff.mp hk with rfl | hk
    · by_cases hseen : k ∈ seen
      · rw [decide_eq_true hseen, Bool.true_or, if_pos rfl]
        exact h.seen k hseen
      · rw [decide_eq_false hseen, Bool.false_or]
        by_cases happ : s.node.ledger.isTxApplied k = true
        · exact Or.inr happ
        · rw [if_neg happ]
          exact Or.inl ⟨env, List.mem_append_right _ (List.mem_singleton_self env), hx⟩
    · rcases h.seen k hk with ha | happ
      · left
        split
        · exact ha
        · exact ha.mono (List.subset_append_left _ _)
      · exact Or.inr happ

theorem Filtered.done {seen : List Str} {kept : List SignedTxEnvelopeV1}
    (h : Filtered W held [] seen kept s) (x : Str) (hx : Among W held x) :
    Safe s x ∨ Among W kept x := by
  rcases h.all x hx with ha | hs
  · exact absurd ha among_nil
  · rcases h.seen x hs with ha | happ
    · exact Or.inr ha
    · exact Or.inl (Or.inl happ)

theorem dropSettled_obeys
    {e : Except MineError (List SignedTxEnvelopeV1) → Option Place}
    (he : ∀ kept, Reaches W false (e (.ok kept)) kept) :
    ∀ (txs : List SignedTxEnvelopeV1) (seen : List Str) (kept : List SignedTxEnvelopeV1)
      (s : PendingNode), (∀ env ∈ txs, HasHash W env) → Filtered W held txs seen kept s →
      (contract W).Obeys e (fun r _ => ∃ pending, r = .ok pending)
        (dropSettled W held txs seen kept) s := by
  intro txs
  induction txs with
  | nil => exact fun seen kept s _ _ => ⟨kept, rfl⟩
  | cons env txs ih =>
    intro seen kept s hh hf
    obtain ⟨x, hx⟩ := hh env List.mem_cons_self
    have hh' : ∀ env ∈ txs, HasHash W env := fun e' he' => hh e' (List.mem_cons_of_mem _ he')
    unfold dropSettled
    simp only [hx]
    refine Contract.Obeys.read_then (Filtered W held (env :: txs) seen kept) hf
      (stable_of_grows (fun s s' h hg => h.grows hg) _) ?_
    intro s hf hinv
    have hf' := hf.step hx
    refine ⟨?_, ih _ _ s hh' hf'⟩
    cases txs with
    | nil => exact move_same hinv (he _) hf'.done
    | cons env' txs =>
      obtain ⟨y, hy⟩ := hh' env' List.mem_cons_self
      unfold dropSettled
      simp only [hy]
      exact move_same hinv (reaches_some ⟨held, false⟩) fun h ha => Or.inr ha

/-- What the selection has looked at so far is kept or given up. -/
def Selected (W : World) (held kept rest : List SignedTxEnvelopeV1) (s : PendingNode) : Prop :=
  ∀ h, Among W held h → Among W (kept ++ rest) h ∨ h ∈ s.unminable

theorem keepOneByOne_obeys (producerId : Str) (held rest : List SignedTxEnvelopeV1)
    {e : List SignedTxEnvelopeV1 → Option Place}
    (he : ∀ kept, Reaches W false (e kept) (kept ++ rest)) :
    ∀ (txs kept : List SignedTxEnvelopeV1) (s : PendingNode), Selected W held kept (txs ++ rest) s →
      (contract W).Obeys e (fun _ _ => True) (keepOneByOne W held producerId txs kept) s := by
  intro txs
  induction txs with
  | nil => exact fun _ _ _ => trivial
  | cons env txs ih =>
    intro kept s hs
    unfold keepOneByOne
    refine Contract.Obeys.update_then (Selected W held kept (env :: txs ++ rest)) hs
      (stable_of_grows (fun s s' h hg x hx => (h x hx).imp_right fun hu => hg.unminable hu) _) ?_
    intro s hs hinv _
    have hnext : ∀ kept', Reaches W false ((keepOneByOne W held producerId txs kept').placeThen e)
        (if txs = [] then kept' ++ rest else held) := by
      intro kept'
      cases txs with
      | nil => exact he kept'
      | cons env' txs => exact reaches_some ⟨held, false⟩
    have hmove : ∀ {s' : PendingNode} {kept' : List SignedTxEnvelopeV1}, Sound W s' → Grows s s' →
        s'.mempoolTree = s.mempoolTree → s'.persisted = s.persisted →
        s'.mempoolLocked = s.mempoolLocked → Selected W held kept' (txs ++ rest) s' →
        (contract W).Move ⟨held, false⟩ ((keepOneByOne W held producerId txs kept').placeThen e)
          s s' := by
      intro s' kept' hinv' hg htree hpers hlocked hs'
      refine move_quiet hinv' hg htree hpers hlocked (hnext kept').holds fun h ha => ?_
      rcases hs' h ha with hin | hu
      · right
        refine (hnext kept').owes h ?_
        split
        · rename_i hnil
          rwa [hnil, List.nil_append] at hin
        · exact ha
      · exact Or.inl (Or.inr (Or.inr (Or.inr (Or.inl hu))))
    by_cases hok : blockTxsOk W s.node.ledger s.nowMs (kept ++ [env]) producerId = true
    · have hs' : Selected W held (kept ++ [env]) (txs ++ rest) s := by
        intro h ha
        rw [List.append_assoc, List.singleton_append, ← List.cons_append]
        exact hs h ha
      rw [if_pos hok]
      exact ⟨hmove hinv (.refl s) rfl rfl rfl hs', ih _ _ hs'⟩
    · have hs' : Selected W held kept (txs ++ rest) (s.giveUp W [env]) := by
        intro h ha
        rcases hs h ha with hin | hu
        · rcases among_append.mp hin with hk | hr
          · exact Or.inl (among_append.mpr (Or.inl hk))
          · rcases among_cons.mp hr with hone | hr
            · exact Or.inr (List.mem_append_left _ (mem_hashesOf.mpr hone))
            · exact Or.inl (among_append.mpr (Or.inr hr))
        · exact Or.inr (List.mem_append_right _ hu)
      rw [if_neg hok]
      have hg : Grows s (s.giveUp W [env]) :=
        ⟨fun _ h => h, List.Subset.refl _, List.Subset.refl _, List.subset_append_right _ _,
          List.Subset.refl _⟩
      exact ⟨hmove ⟨hinv.rows, hinv.waiting, hinv.promised⟩ hg rfl rfl rfl hs', ih _ _ hs'⟩

theorem selectBlockTxs_obeys {e : List SignedTxEnvelopeV1 × List SignedTxEnvelopeV1 → Option Place}
    (he : ∀ block, Reaches W false (e block) (block.1 ++ block.2)) (s : PendingNode) :
    (contract W).Obeys e (fun _ _ => True) (selectBlockTxs W producerId txs) s := by
  have hparts : Selected W txs [] (txs.take selectOneByOneMax ++ txs.drop selectOneByOneMax) s := by
    intro h ha
    rw [List.take_append_drop]
    exact Or.inl ha
  unfold selectBlockTxs
  refine Contract.Obeys.read_then (Selected W txs []
    (txs.take selectOneByOneMax ++ txs.drop selectOneByOneMax)) hparts
    (stable_of_grows (fun s s' h hg x hx => (h x hx).imp_right fun hu => hg.unminable hu) _) ?_
  intro s hs hinv
  by_cases hok : blockTxsOk W s.node.ledger s.nowMs txs producerId = true
  · rw [if_pos hok]
    refine ⟨move_same hinv (he (txs, [])) fun h ha => Or.inr ?_, trivial⟩
    exact ha.mono (List.subset_append_left _ _)
  · rw [if_neg hok]
    have hkeep := keepOneByOne_obeys producerId txs (txs.drop selectOneByOneMax)
      (e := fun kept => e (kept, txs.drop selectOneByOneMax)) (fun kept => he (kept, txs.drop selectOneByOneMax)) (txs.take selectOneByOneMax) [] s hs
    refine ⟨?_, Contract.Obeys.bind (hkeep.mono fun _ _ _ => trivial)⟩
    rw [Prog.placeThen_bind]
    cases htake : txs.take selectOneByOneMax with
    | nil =>
      refine move_same hinv (he ([], txs.drop selectOneByOneMax)) fun h ha => ?_
      rcases hs h ha with hin | hu
      · rw [htake] at hin
        exact Or.inr hin
      · exact Or.inl (Or.inr (Or.inr (Or.inr (Or.inl hu))))
    | cons env rest' => exact move_same hinv (reaches_some ⟨txs, false⟩) fun h ha => Or.inr ha

theorem putBack_reaches (queue rest : List SignedTxEnvelopeV1)
    {e : List SignedTxEnvelopeV1 → Option Place}
    (he : ∀ front, Reaches W true (e front) rest) : ∀ (txs front : List SignedTxEnvelopeV1),
      Reaches W true ((putBack W queue rest txs front).placeThen e) (txs ++ rest) := by
  intro txs
  induction txs with
  | nil => exact fun front => he front
  | cons env txs ih =>
    intro front
    unfold putBack
    cases hh : txHashForEnv W env with
    | error e' =>
      refine ⟨(ih front).holds, fun h ha => (ih front).owes h ?_⟩
      rcases among_cons.mp ha with ⟨e'', hmem, hx⟩ | ha
      · rw [List.mem_singleton.mp hmem, hh] at hx
        cases hx
      · exact ha
    | ok x =>
      simp only
      split
      · exact reaches_some ⟨env :: txs ++ rest, true⟩
      · exact reaches_some ⟨env :: txs ++ rest, true⟩

theorem putBack_obeys (queue rest : List SignedTxEnvelopeV1)
    {e : List SignedTxEnvelopeV1 → Option Place}
    (he : ∀ front, Reaches W true (e front) rest) :
    ∀ (txs front : List SignedTxEnvelopeV1) (s : PendingNode), (∀ env ∈ front, HasHash W env) →
      (contract W).Obeys e (fun front _ => ∀ env ∈ front, HasHash W env)
        (putBack W queue rest txs front) s := by
  intro txs
  induction txs with
  | nil => exact fun _ _ hf => hf
  | cons env txs ih =>
    intro front s hf
    unfold putBack
    cases hh : txHashForEnv W env with
    | error e' => exact ih front s hf
    | ok x =>
      simp only
      split
      · refine Contract.Obeys.write_then (fun _ => True) trivial (Contract.stable_true _) ?_
        intro s _ hinv
        refine ⟨?_, ih front _ hf⟩
        have hnext := putBack_reaches queue rest he txs front
        have hsafe : Safe (s.skip x) x := by
          unfold PendingNode.skip
          split
          · rename_i hrow
            exact Or.inr (Or.inr (Or.inl hrow))
          · exact Or.inr (Or.inr (Or.inr (Or.inr List.mem_cons_self)))
        have howed : ∀ h, Among W (env :: txs ++ rest) h → Safe (s.skip x) h ∨
            (contract W).OwedAt ((putBack W queue rest txs front).placeThen e) h := by
          intro h ha
          rcases among_cons.mp ha with hone | ha
          · rw [(among_singleton hh).mp hone]
            exact Or.inl hsafe
          · exact Or.inr (hnext.owes h ha)
        unfold PendingNode.skip at howed ⊢
        split at howed
        · rename_i hrow
          rw [if_pos hrow]
          exact move_quiet hinv (.refl s) rfl rfl rfl hnext.holds howed
        · rename_i hrow
          rw [if_neg hrow]
          refine move_quiet ⟨hinv.rows, hinv.waiting, hinv.promised⟩ ?_ rfl rfl rfl hnext.holds howed
          exact ⟨fun _ h => h, List.Subset.refl _, List.Subset.refl _, List.Subset.refl _,
            List.subset_cons_self _ _⟩
      · refine Contract.Obeys.write_then (fun _ => True) trivial (Contract.stable_true _) ?_
        intro s _ hinv
        have hf' : ∀ e ∈ front ++ [env], HasHash W e := by
          intro e' he'
          rcases List.mem_append.mp he' with he' | he'
          · exact hf e' he'
          · rw [List.mem_singleton.mp he']
            exact ⟨x, hh⟩
        exact ⟨move_persist hinv hh (putBack_reaches queue rest he txs _)
          fun h ha => among_cons.mp ha, ih _ _ hf'⟩

/-- **Putting back** leaves the attempt with the rest. -/
theorem requeueTxsFront_obeys {e : Unit → Option Place} (he : Reaches W false (e ()) rest)
    (s : PendingNode) :
    (contract W).Obeys e (fun _ _ => True) (requeueTxsFront W txs rest) s := by
  unfold requeueTxsFront
  refine Contract.Obeys.update_then (fun _ => True) trivial (Contract.stable_true _) ?_
  intro s _ hinv hfree
  have hunlocked : s.mempoolLocked = false := by
    unfold PendingNode.free at hfree
    rwa [Bool.not_eq_true'] at hfree
  have hback : ∀ s', (contract W).Obeys
      (fun _ => some ⟨rest, true⟩) (fun front _ => ∀ env ∈ front, HasHash W env)
        (putBack W s.node.mempool rest txs []) s' :=
    fun s' => putBack_obeys s.node.mempool rest (fun _ => reaches_some ⟨rest, true⟩) txs [] s'
      fun _ h => absurd h List.not_mem_nil
  have hnext := putBack_reaches (W := W) s.node.mempool rest (e := fun _ => some ⟨rest, true⟩) (fun _ => reaches_some ⟨rest, true⟩) txs []
  refine ⟨?_, Contract.Obeys.bind ((hback _).mono fun front s hfront => ?_)⟩
  · rw [Prog.placeThen_bind]
    refine move_of ⟨hinv.rows, hinv.waiting, hinv.promised⟩
      (.of_same rfl (List.Subset.refl _) rfl rfl rfl) ?_ (fun h hr => Or.inl hr)
      (fun h hp => Or.inl hp) fun h ha => Or.inr (hnext.owes h ha)
    have hholds := hnext.holds
    show (true : Bool).toNat + (false : Bool).toNat = _ + _
    rw [hunlocked]
    exact congrArg (false.toNat + Bool.toNat ·) hholds.symm
  · refine Contract.Obeys.step_of (fun _ => True) trivial (Contract.stable_true _) ?_
    intro s _ hinv hlocked _
    refine ⟨?_, trivial⟩
    refine move_of ⟨hinv.rows, fun env henv => ?_, hinv.promised⟩
      (.of_same rfl (List.Subset.refl _) rfl rfl rfl) ?_ (fun h hr => Or.inl hr)
      (fun h hp => Or.inl hp) fun h ha => Or.inr (he.owes h ha)
    · rcases List.mem_append.mp henv with henv | henv
      · exact hfront env henv
      · exact hinv.waiting env henv
    · have htaken : s.mempoolLocked = true := hlocked rfl
      rw [htaken]
      exact congrArg (true.toNat + Bool.toNat ·) he.holds.symm

/-! ### The block -/

/-- What is applied stays applied. -/
def KeepsMarks (L L' : Ledger) : Prop := ∀ h, L.isTxApplied h = true → L'.isTxApplied h = true

theorem keepsMarks_of_meta {L L' : Ledger} (h : L'.metaTree = L.metaTree) : KeepsMarks L L' := by
  intro x hx
  unfold Ledger.isTxApplied at hx ⊢
  rwa [h]

theorem record_keepsMarks (nowMs : Nat) (args : RecordBlockArgs) (L : Ledger) :
    KeepsMarks L (valueOr (recordBlockRecord nowMs args L) L) := by
  cases hr : recordBlockRecord nowMs args L with
  | error e => exact fun _ h => h
  | ok L' =>
    simp only [recordBlockRecord, bind_eq_ok, mapError_eq_ok] at hr
    obtain ⟨parent, -, hrow⟩ := hr
    cases hc : (args.row L nowMs parent).canonical with
    | true =>
      obtain ⟨-, rfl⟩ := Ledger.recordBlockRecord_canonical hrow hc
      exact keepsMarks_of_meta rfl
    | false =>
      obtain ⟨-, rfl⟩ := Ledger.recordBlockRecord_fork hrow hc
      exact keepsMarks_of_meta rfl

theorem index_keepsMarks (nowMs height : Nat) (hashes : List Str) (txs : List SignedTxEnvelopeV1)
    (L : Ledger) :
    KeepsMarks L (valueOr (Ledger.recordTxIndexesBatch nowMs height hashes txs true L) L) := by
  cases hi : Ledger.recordTxIndexesBatch nowMs height hashes txs true L with
  | error e => exact fun _ h => h
  | ok L' =>
    obtain ⟨-, rfl⟩ := Ledger.recordTxIndexesBatch_eq_ok.mp hi
    exact keepsMarks_of_meta rfl

/-- A write of the ledger. -/
theorem write_ledger (i : Place) {e : α → Option Place} {Q : α → PendingNode → Prop}
    {f : PendingNode → Ledger} {k : Unit → PendingProg α}
    (hmarks : ∀ s, KeepsMarks s.node.ledger (f s))
    (hnext : Reaches W i.locks ((k ()).placeThen e) i.held)
    (hrest : ∀ s, (contract W).Obeys e Q (k ()) s) (s : PendingNode) :
    (contract W).Obeys e Q (Prog.write i (fun s => s.setLedger (f s)) >>= k) s := by
  refine Contract.Obeys.write_then (fun _ => True) trivial (Contract.stable_true _) ?_
  intro s _ hinv
  refine ⟨?_, hrest _⟩
  exact move_quiet ⟨hinv.rows, hinv.waiting, hinv.promised⟩
    ⟨hmarks s, List.Subset.refl _, List.Subset.refl _, List.Subset.refl _, List.Subset.refl _⟩
    rfl rfl rfl hnext.holds fun h ha => Or.inr (hnext.owes h ha)

theorem commitBlock_obeys {e : MineOutcome → Option Place} {b : PreparedBlock}
    {batch : Ledger.Batch} (he : ∀ outcome, Reaches W false (e outcome) [])
    (hhashes : ∀ h, Among W txs h → h ∈ b.txHashes) (s : PendingNode) :
    (contract W).Obeys e (fun _ _ => True) (commitBlock W txs b batch) s := by
  unfold commitBlock
  refine write_ledger ⟨txs, false⟩ ?_ ?_ (fun s => ?_) s
  · exact fun s => keepsMarks_of_meta rfl
  · exact reaches_some ⟨txs, false⟩
  refine write_ledger ⟨txs, false⟩ ?_ ?_ (fun s => ?_) s
  · exact fun s x hx => Tree.isSome_get_applyBatch _ hx
  · exact reaches_some ⟨txs, false⟩
  refine Contract.Obeys.write_then (fun _ => True) trivial (Contract.stable_true _) ?_
  intro s _ hinv
  constructor
  · refine move_quiet ⟨hinv.rows, hinv.waiting, hinv.promised⟩
      ⟨fun _ h => h, List.Subset.refl _, List.subset_append_right _ _, List.Subset.refl _,
        List.Subset.refl _⟩ rfl rfl rfl rfl fun h ha => Or.inl (Or.inr (Or.inl ?_))
    exact List.mem_append_left _ (hhashes h ha)
  · refine write_ledger .idle ?_ ?_ (fun s => ?_) _
    · exact fun s => keepsMarks_of_meta rfl
    · exact reaches_some .idle
    refine write_ledger .idle ?_ ?_ (fun s => ?_) s
    · exact fun s => record_keepsMarks _ _ _
    · exact reaches_some .idle
    refine write_ledger .idle ?_ ?_ (fun s => ?_) s
    · exact fun s => index_keepsMarks _ _ _ _ _
    · exact he _
    exact trivial

theorem checkBlock_obeys {e : Except LedgerError Ledger.Batch → Option Place} {b : PreparedBlock}
    (he : ∀ r, Reaches W false (e r) txs) (s : PendingNode) :
    (contract W).Obeys e (fun r _ => NoStorageError r) (checkBlock W txs b) s := by
  unfold checkBlock
  refine write_ledger ⟨txs, false⟩ ?_ ?_ (fun s => ?_) s
  · exact fun s => keepsMarks_of_meta rfl
  · exact reaches_some ⟨txs, false⟩
  refine Contract.Obeys.step_of (fun _ => True) trivial (Contract.stable_true _) ?_
  intro s _ hinv _ _
  exact ⟨move_same hinv (he _) fun h ha => Or.inr ha, Ledger.blockBatch_noStorageError W s.node.ledger s.nowMs _ _ _ _ _⟩

/-- **A block** is made and decides on its transactions, or the attempt keeps them. -/
theorem buildAndApplyBlock_obeys {e : Except BuildError MineOutcome → Option Place}
    (hok : ∀ outcome, Reaches W false (e (.ok outcome)) [])
    (herr : ∀ err, Reaches W false (e (.error err)) txs) (s : PendingNode) :
    (contract W).Obeys e (fun r _ => ∀ err, r ≠ .error (.maybeWritten err))
      (buildAndApplyBlock W producerId txs) s := by
  unfold buildAndApplyBlock
  refine Contract.Obeys.read_then (fun _ => True) trivial (Contract.stable_true _) ?_
  intro s _ hinv
  cases hplan : planBlock W s.nowMs producerId txs s.node.ledger with
  | error err =>
    refine ⟨move_same hinv (herr _) fun h ha => Or.inr ha, ?_⟩
    intro err' heq
    cases heq
  | ok b =>
    have hhashes : ∀ h, Among W txs h → h ∈ b.txHashes := by
      rintro h ⟨env, henv, hh⟩
      exact hash_mem_of_mapM (planBlock_ok hplan).2.1 henv hh
    refine ⟨move_same hinv (reaches_some ⟨txs, false⟩) fun h ha => Or.inr ha, ?_⟩
    refine Contract.Obeys.bind ((checkBlock_obeys (fun r => ?_) s).mono fun r s hr => ?_)
    · cases r with
      | error err => exact herr _
      | ok batch => exact reaches_some ⟨txs, false⟩
    · cases r with
      | error err =>
        have hno := hr err rfl
        intro err' heq
        cases err with
        | sled msg => cases hno
        | _ => cases heq
      | ok batch =>
        refine Contract.Obeys.bind ((commitBlock_obeys hok hhashes s).mono fun outcome s _ => ?_)
        intro err heq
        cases heq

/-! ### The attempt -/

/-- A step that changes the count of failed blocks. -/
theorem move_failures {i : Place} {j : Option Place} (hinv : Sound W s) (n : Nat)
    (hr : Reaches W i.locks j i.held) : (contract W).Move i j s (s.setFailures n) :=
  move_quiet ⟨hinv.rows, hinv.waiting, hinv.promised⟩ (.of_same rfl (List.Subset.refl _) rfl rfl rfl)
    rfl rfl rfl hr.holds fun h ha => Or.inr (hr.owes h ha)

theorem requeueOrDrop_reaches (failures : Nat) {e : Unit → Option Place} :
    Reaches W false ((requeueOrDrop W txs failures).placeThen e) txs := by
  unfold requeueOrDrop
  split
  · exact (reaches_some ⟨txs ++ [], false⟩).mono (List.subset_append_left _ _)
  · exact reaches_some ⟨txs, false⟩

theorem requeueOrDrop_obeys {e : Unit → Option Place} (he : Reaches W false (e ()) [])
    (failures : Nat) (s : PendingNode) :
    (contract W).Obeys e (fun _ _ => True) (requeueOrDrop W txs failures) s := by
  unfold requeueOrDrop
  split
  · exact requeueTxsFront_obeys he s
  · refine Contract.Obeys.write_last (fun _ => True) trivial (Contract.stable_true _) ?_
    intro s _ hinv
    refine ⟨?_, trivial⟩
    refine move_quiet ⟨hinv.rows, hinv.waiting, hinv.promised⟩
      ⟨fun _ h => h, List.Subset.refl _, List.Subset.refl _, List.subset_append_right _ _,
        List.Subset.refl _⟩ rfl rfl rfl he.holds fun h ha => Or.inl ?_
    exact Or.inr (Or.inr (Or.inr (Or.inl (List.mem_append_left _ (mem_hashesOf.mpr ha)))))

theorem failBlock_reaches (err : BuildError) {e : MineError → Option Place} :
    Reaches W false ((failBlock W txs err).placeThen e) txs := by
  cases err with
  | nothingWritten err => exact reaches_some ⟨txs, false⟩
  | maybeWritten err => exact reaches_some ⟨txs, false⟩

theorem failBlock_obeys {e : MineError → Option Place} (he : ∀ err, Reaches W false (e err) [])
    {err : BuildError} (hno : ∀ err', err ≠ .maybeWritten err') (s : PendingNode) :
    (contract W).Obeys e (fun _ _ => True) (failBlock W txs err) s := by
  cases err with
  | maybeWritten err => exact absurd rfl (hno err)
  | nothingWritten err =>
    unfold failBlock
    refine Contract.Obeys.update_then (fun _ => True) trivial (Contract.stable_true _) ?_
    intro s _ hinv _
    refine ⟨move_failures hinv _ ?_, Contract.Obeys.bind
      ((requeueOrDrop_obeys (he err) _ _).mono fun _ _ _ => trivial)⟩
    rw [Prog.placeThen_bind]
    exact requeueOrDrop_reaches _

theorem requeueLater_reaches {later : List SignedTxEnvelopeV1} {e : Unit → Option Place}
    (he : Reaches W false (e ()) txs) :
    Reaches W false ((requeueLater W later txs).placeThen e) (txs ++ later) := by
  unfold requeueLater
  cases later with
  | nil =>
    rw [List.append_nil]
    exact he
  | cons env later =>
    refine (reaches_some ⟨env :: later ++ txs, false⟩).mono ?_
    exact List.append_subset.mpr ⟨List.subset_append_right _ _, List.subset_append_left _ _⟩

theorem mineSelected_obeys {e : Except MineError MineOutcome → Option Place}
    (he : ∀ r, Reaches W false (e r) [])
    (block : List SignedTxEnvelopeV1 × List SignedTxEnvelopeV1) (s : PendingNode) :
    (contract W).Obeys e (fun _ _ => True) (mineSelected W producerId block) s := by
  unfold mineSelected
  have hlater : ∀ {e' : Unit → Option Place}, Reaches W false (e' ()) block.1 → ∀ s,
      (contract W).Obeys e' (fun _ _ => True) (requeueLater W block.2 block.1) s := by
    intro e' he' s
    unfold requeueLater
    split
    · exact trivial
    · exact requeueTxsFront_obeys he' s
  refine Contract.Obeys.bind ((hlater (reaches_some ⟨block.1, false⟩) s).mono fun _ s _ => ?_)
  refine Contract.Obeys.bind ((buildAndApplyBlock_obeys (fun outcome => ?_) (fun err => ?_) s).mono
    fun r s hr => ?_)
  · exact reaches_some .idle
  · rw [Prog.placeThen_bind]
    exact failBlock_reaches err
  · cases r with
    | ok outcome =>
      refine Contract.Obeys.write_then (fun _ => True) trivial (Contract.stable_true _) ?_
      intro s _ hinv
      exact ⟨move_failures hinv 0 (he _), trivial⟩
    | error err =>
      have hno : ∀ err', err ≠ .maybeWritten err' := by
        rintro err' rfl
        exact hr err' rfl
      exact Contract.Obeys.bind ((failBlock_obeys (fun _ => he _) hno s).mono fun _ _ _ => trivial)

theorem mineSelected_reaches {e : Except MineError MineOutcome → Option Place}
    (block : List SignedTxEnvelopeV1 × List SignedTxEnvelopeV1) :
    Reaches W false ((mineSelected W producerId block).placeThen e) (block.1 ++ block.2) := by
  unfold mineSelected
  rw [Prog.placeThen_bind]
  refine requeueLater_reaches ?_
  exact reaches_some ⟨block.1, false⟩

/-- The parts of the block are those of the selection. -/
theorem aloneAfterFailure_subset (failures : Nat)
    (block : List SignedTxEnvelopeV1 × List SignedTxEnvelopeV1) :
    block.1 ++ block.2 ⊆
      (aloneAfterFailure failures block).1 ++ (aloneAfterFailure failures block).2 := by
  unfold aloneAfterFailure
  split
  · rw [← List.append_assoc, List.take_append_drop]
    exact List.Subset.refl _
  · exact List.Subset.refl _

theorem dropSettled_reaches {e : Except MineError (List SignedTxEnvelopeV1) → Option Place}
    (he : ∀ kept, Reaches W false (e (.ok kept)) kept) (hh : ∀ env ∈ txs, HasHash W env) :
    Reaches W false ((dropSettled W txs txs [] []).placeThen e) txs := by
  cases txs with
  | nil => exact he []
  | cons env txs =>
    obtain ⟨x, hx⟩ := hh env List.mem_cons_self
    unfold dropSettled
    simp only [hx]
    exact reaches_some ⟨env :: txs, false⟩

/-- **An attempt** that took the mempool owes nothing when it is done. -/
theorem mineTaken_obeys {e : Except MineError MineOutcome → Option Place}
    (he : ∀ r, Reaches W false (e r) []) (hh : ∀ env ∈ txs, HasHash W env) (s : PendingNode) :
    (contract W).Obeys e (fun _ _ => True) (mineTaken W producerId txs) s := by
  unfold mineTaken
  refine Contract.Obeys.bind ((forget_obeys txs [] s ?_).mono fun _ s _ => ?_)
  · rw [Prog.placeThen_bind]
    exact dropSettled_reaches (fun kept => reaches_some ⟨kept, false⟩) hh
  refine Contract.Obeys.bind ((dropSettled_obeys (fun kept => ?_) txs [] [] s hh ?_).mono ?_)
  · exact reaches_some ⟨kept, false⟩
  · exact ⟨fun h ha => Or.inl ha, fun h hs => absurd hs List.not_mem_nil⟩
  rintro r s ⟨pending, rfl⟩
  refine Contract.Obeys.bind ((selectBlockTxs_obeys (fun block => ?_) s).mono fun block s _ => ?_)
  · exact reaches_some ⟨block.1 ++ block.2, false⟩
  refine Contract.Obeys.read_then (fun _ => True) trivial (Contract.stable_true _) ?_
  intro s _ hinv
  refine ⟨move_same hinv (mineSelected_reaches _) fun h ha => Or.inr ?_, mineSelected_obeys he _ s⟩
  exact ha.mono (aloneAfterFailure_subset _ _)

theorem minePendingBlockAs_obeys {e : Except MineError MineOutcome → Option Place}
    (he : ∀ r, Reaches W false (e r) []) (s : PendingNode) :
    (contract W).Obeys e (fun _ _ => True) (minePendingBlockAs W producerId) s := by
  unfold minePendingBlockAs takeMempool
  refine Contract.Obeys.update_then (fun _ => True) trivial (Contract.stable_true _) ?_
  intro s _ hinv _
  by_cases hgate : gateRefuses W producerId s.node = true
  · rw [if_pos hgate]
    exact ⟨move_same hinv (he _) fun h ha => absurd ha among_nil, trivial⟩
  · rw [if_neg hgate]
    refine ⟨?_, mineTaken_obeys he hinv.waiting _⟩
    have hnext : Reaches W false
        ((mineTaken W (minerId W producerId) s.node.mempool).placeThen e) [] := by
      unfold mineTaken
      rw [Prog.placeThen_bind]
      refine forget_reaches s.node.mempool [] ?_
      rw [Prog.placeThen_bind]
      exact dropSettled_reaches (fun kept => reaches_some ⟨kept, false⟩) hinv.waiting
    exact move_quiet ⟨hinv.rows, fun env h => absurd h List.not_mem_nil, hinv.promised⟩
      (.of_same rfl (List.Subset.refl _) rfl rfl rfl) rfl rfl rfl hnext.holds
      fun h ha => absurd ha among_nil

end Mining

/-! ## Submissions obey -/

section Runs

variable {A : Auth} {c : Caps} {W : World} {s : PendingNode} {env : SignedTxEnvelopeV1}

/-- The mempool after a submission. -/
theorem enqueue_sound {x : Str} (hinv : Sound W s) (hx : txHashForEnv W env = .ok x) :
    Sound W (s.setMempool
      (Mempool.enqueueWithoutBroadcast A c s.node.ledger s.nowMs env s.node.mempool).2) := by
  have hsub : (Mempool.enqueueWithoutBroadcast A c s.node.ledger s.nowMs env s.node.mempool).2 ⊆
      s.node.mempool ++ [env] := by
    obtain ⟨left, hleft, heq | heq⟩ := enqueue_sublist A c s.node.ledger s.nowMs env s.node.mempool
    · rw [heq]
      exact List.Subset.trans hleft.subset (List.subset_append_left _ _)
    · rw [heq]
      exact (hleft.append (List.Sublist.refl [env])).subset
  refine ⟨hinv.rows, fun e' he' => ?_, hinv.promised⟩
  rcases List.mem_append.mp (hsub he') with hmem | hmem
  · exact hinv.waiting e' hmem
  · rw [List.mem_singleton.mp hmem]
    exact ⟨x, hx⟩

theorem broadcastMempoolTx_obeys {e : Unit → Option Place} {x : Str}
    (he : Reaches W false (e ()) []) (hx : txHashForEnv W env = .ok x) (s : PendingNode) :
    (contract W).Obeys e (fun _ s => x ∈ s.persisted) (broadcastMempoolTx W env) s := by
  have hstable := stable_of_grows (W := W) (P := fun s => x ∈ s.persisted)
    (fun s s' h hg => hg.persisted h) .idle
  unfold broadcastMempoolTx
  simp only [hx]
  refine Contract.Obeys.write_then (fun _ => True) trivial (Contract.stable_true _) ?_
  intro s _ hinv
  constructor
  · have hnext : Reaches W Place.idle.locks (some .idle) [] := reaches_some .idle
    exact move_persist hinv hx hnext fun h ha => absurd ha among_nil
  · refine Contract.Obeys.write_last (fun s => x ∈ s.persisted) List.mem_cons_self hstable ?_
    intro s hs hinv
    exact ⟨move_quiet ⟨hinv.rows, hinv.waiting, hinv.promised⟩
      (.of_same rfl (List.Subset.refl _) rfl rfl rfl) rfl rfl rfl he.holds
      fun h ha => absurd ha among_nil, hs⟩

/-- **A submission** owes nothing: the row is written before the answer. -/
theorem submitLocalTx_obeys {e : Outcome MempoolEnqueueError Bool → Option Place}
    (he : ∀ r, Reaches W false (e r) []) (hh : HasHash W env) (s : PendingNode) :
    (contract W).Obeys e (fun _ _ => True) (submitLocalTx A c W env) s := by
  obtain ⟨x, hx⟩ := hh
  have hstable := stable_of_grows (W := W) (P := fun s => x ∈ s.persisted)
    (fun s s' h hg => hg.persisted h) .idle
  unfold submitLocalTx enqueueWithoutBroadcast
  refine Contract.Obeys.update_then (fun _ => True) trivial (Contract.stable_true _) ?_
  intro s _ hinv _
  have hquiet : ∀ {j : Option Place}, Reaches W false j [] → (contract W).Move .idle j s
      (s.setMempool
        (Mempool.enqueueWithoutBroadcast A c s.node.ledger s.nowMs env s.node.mempool).2) :=
    fun hr => move_quiet (enqueue_sound hinv hx) (.of_same rfl (List.Subset.refl _) rfl rfl rfl) rfl
      rfl rfl hr.holds fun h ha => absurd ha among_nil
  simp only
  split
  · constructor
    · refine hquiet ?_
      rw [Prog.placeThen_bind]
      unfold broadcastMempoolTx
      simp only [hx]
      exact reaches_some .idle
    · refine Contract.Obeys.bind ((broadcastMempoolTx_obeys ?_ hx _).mono fun _ s hs => ?_)
      · exact reaches_some .idle
      refine Contract.Obeys.write_then (fun s => x ∈ s.persisted) hs hstable ?_
      intro s hs hinv
      refine ⟨?_, trivial⟩
      refine move_quiet ⟨hinv.rows, hinv.waiting, fun e' he' => ?_⟩
        (.of_same rfl (List.Subset.refl _) rfl rfl rfl) rfl rfl rfl (he _).holds
        fun h ha => absurd ha among_nil
      rcases List.mem_cons.mp he' with rfl | he'
      · exact ⟨x, hx, hs⟩
      · exact hinv.promised e' he'
  · exact ⟨hquiet (he _), trivial⟩

/-- **Every operation** obeys. -/
theorem starts (A : Auth) (c : Caps) (W : World) : (contract W).Starts (Started A c W) := by
  rintro p ⟨op, hop, rfl⟩
  cases op with
  | submit env =>
    refine ⟨rfl, fun s _ => ?_⟩
    exact Contract.Obeys.bind ((submitLocalTx_obeys (fun _ => reaches_none) (hop env rfl) s).mono
      fun _ _ _ => trivial)
  | mine producerId =>
    refine ⟨rfl, fun s _ => ?_⟩
    exact Contract.Obeys.bind ((minePendingBlockAs_obeys (fun _ => reaches_none) s).mono
      fun _ _ _ => trivial)
  | clock nowMs =>
    refine ⟨rfl, fun s _ => ?_⟩
    refine Contract.Obeys.write_last (fun _ => True) trivial (Contract.stable_true _) ?_
    intro s _ hinv
    refine ⟨?_, trivial⟩
    exact move_quiet ⟨hinv.rows, hinv.waiting, hinv.promised⟩
      (.of_same rfl (List.Subset.refl _) rfl rfl rfl) rfl rfl rfl rfl fun h ha => absurd ha among_nil

/-! ## Crashes -/

theorem mem_mempoolRestore {t : Tree Str SignedTxEnvelopeV1} {h : Str} (hget : t.get h = some env)
    (hh : txHashForEnv W env = .ok h) : (h, env) ∈ mempoolRestore W t := by
  refine List.mem_filter.mpr ⟨Tree.mem_iter.mpr hget, ?_⟩
  simp only [txHashForEnv, bind_eq_ok] at hh
  obtain ⟨bytes, hbytes, -⟩ := hh
  rw [hbytes]
  rfl

/-- Rows under their hashes verify, so none is removed. -/
theorem dropUnverifiable_eq (hinv : Sound W s) :
    dropUnverifiable W s.mempoolTree = s.mempoolTree := by
  have hnone : s.mempoolTree.iter.filter (fun row => !(W.verifyEnvelopeV1 row.2).isOk) = [] := by
    refine List.filter_eq_nil_iff.mpr fun row hrow => ?_
    obtain ⟨h, env⟩ := row
    have hget := Tree.mem_iter.mp hrow
    have hkept := List.mem_filter.mp (mem_mempoolRestore hget (hinv.rows h env hget))
    rw [hkept.2]
    exact Bool.false_ne_true
  unfold dropUnverifiable
  rw [hnone]
  rfl

/-- **A restart** keeps what is sound, and what is paid. -/
theorem restart_good {threads : List (PendingProg Unit)} (h : (contract W).Good (s, threads))
    (hquiet : NothingInHand (s, threads)) : (contract W).Good (s.restart W, []) := by
  have hinv : Sound W s := h.inv
  have htree := dropUnverifiable_eq hinv
  refine ⟨⟨fun k v hk => ?_, fun e he => ?_, hinv.promised⟩, fun p hp => absurd hp List.not_mem_nil,
    rfl, fun k => Or.inl fun hp => ?_⟩
  · have hget : (dropUnverifiable W s.mempoolTree).get k = some v := hk
    rw [htree] at hget
    exact hinv.rows k v hget
  · obtain ⟨row, hrow, rfl⟩ := List.mem_map.mp he
    have hget := Tree.mem_iter.mp (List.mem_filter.mp hrow).1
    exact ⟨row.1, hinv.rows row.1 row.2 hget⟩
  · have hsafe : Safe s k := by
      rcases h.debts k with hpaid | ⟨p, hpmem, i, hi, ha⟩
      · exact hpaid hp
      · have hheld : Among W i.held k := ha
        rw [hquiet p hpmem i hi] at hheld
        exact absurd hheld among_nil
    rcases hsafe with ha | hb | hr | hd
    · exact Or.inl ha
    · exact Or.inr (Or.inl hb)
    · refine Or.inr (Or.inr (Or.inl ?_))
      show ((dropUnverifiable W s.mempoolTree).get k).isSome = true
      rw [htree]
      exact hr
    · exact Or.inr (Or.inr (Or.inr hd))

/-- Threads of the contract are always apart. -/
theorem calm (pool : Lib.Pool PendingNode Place) : (contract W).Calm pool :=
  List.pairwise_of_forall fun _ _ _ _ _ _ => trivial

/-- **A life** is good throughout. -/
theorem Life.good {ok : PendingNode → Prop} {pool : Lib.Pool PendingNode Place}
    (h : Life A c W ok pool) : (contract W).Good pool := by
  induction h with
  | boot L =>
    refine ⟨⟨fun k v hk => ?_, fun e he => absurd he List.not_mem_nil,
      fun e he => absurd he List.not_mem_nil⟩, fun p hp => absurd hp List.not_mem_nil, rfl,
      fun k => Or.inl fun hp => absurd hp List.not_mem_nil⟩
    have hget : (Tree.empty : Tree Str SignedTxEnvelopeV1).get k = some v := hk
    rw [Tree.get_empty] at hget
    cases hget
  | step _ made _ ih => exact ih.step (starts A c W) (calm _) (calm _) made
  | crash _ quiet ih => exact restart_good ih quiet

/-- What is true after each step is true at the end. -/
theorem Life.nothingSkipped {pool : Lib.Pool PendingNode Place}
    (h : Life A c W NothingSkipped pool) : NothingSkipped pool.1 := by
  induction h with
  | boot L => rfl
  | step _ _ allowed => exact allowed
  | crash _ _ ih => exact ih

/-- A pool without threads. -/
theorem eq_of_idle {pool : Lib.Pool PendingNode Place} (h : pool.2.length = 0) :
    pool = (pool.1, []) := by
  obtain ⟨s, threads⟩ := pool
  have hnil : threads = [] := List.eq_nil_of_length_eq_zero h
  rw [hnil]

/-- A schedule of the threads that run. -/
theorem Life.moves {ok : PendingNode → Prop} : ∀ (schedule : List Nat)
    {pool : Lib.Pool PendingNode Place}, Life A c W ok pool →
      (∀ n ≤ schedule.length, ok (pool.moves (schedule.take n)).1) →
        Life A c W ok (pool.moves schedule) := by
  intro schedule
  induction schedule with
  | nil => exact fun h _ => h
  | cons n schedule ih =>
    intro pool h hok
    have hmoved : Life A c W ok (pool.move n) := by
      rcases Lib.Pool.move_step (Started A c W) pool n with hsame | hstep
      · rw [hsame]
        exact h
      · exact .step h hstep (hok 1 (Nat.succ_le_succ (Nat.zero_le _)))
    exact ih hmoved fun m hm => hok (m + 1) (Nat.succ_le_succ hm)

/-- An operation on a node where none runs, as scheduled. -/
theorem Life.operation {ok : PendingNode → Prop} {pool : Lib.Pool PendingNode Place}
    (h : Life A c W ok pool) (hidle : pool.2.length = 0) (op : PendingOp)
    (hop : ∀ env, op = .submit env → HasHash W env) (schedule : List Nat)
    (hok : ∀ n ≤ schedule.length,
      ok (Lib.Pool.moves (pool.1, [op.thread A c W]) (schedule.take n)).1) :
    Life A c W ok (Lib.Pool.moves (pool.1, [op.thread A c W]) schedule) := by
  rw [eq_of_idle hidle] at h
  have hstarted : Life A c W ok (pool.1, [op.thread A c W]) :=
    .step h (.spawn pool.1 [] _ ⟨op, hop, rfl⟩) (hok 0 (Nat.zero_le _))
  exact hstarted.moves schedule hok

end Runs

/-- **An acknowledged transaction survives a crash** outside of the attempts that took something out of
the durable copy, in a life where what was put back got its row back. -/
theorem acknowledged_survives (A : Auth) (c : Caps) (W : World) {s : PendingNode}
    {threads : List (PendingProg Unit)} (h : Life A c W NothingSkipped (s, threads))
    (hquiet : NothingInHand (s, threads)) (env : SignedTxEnvelopeV1)
    (hanswered : env ∈ s.answered) : Survives W s env := by
  have hgood := h.good
  have hinv : Sound W s := hgood.inv
  obtain ⟨x, hx, hp⟩ := hinv.promised env hanswered
  refine ⟨x, hx, ?_⟩
  have hsafe : Safe s x := by
    rcases hgood.debts x with hpaid | ⟨p, hpmem, i, hi, ha⟩
    · exact hpaid hp
    · have hheld : Among W i.held x := ha
      rw [hquiet p hpmem i hi] at hheld
      exact absurd hheld among_nil
  rcases hsafe with ha | hb | hr | hu | hk
  · exact Or.inl ha
  · exact Or.inr (Or.inl hb)
  · obtain ⟨e, he⟩ := Option.isSome_iff_exists.mp hr
    have hrow := hinv.rows x e he
    exact Or.inr (Or.inr (Or.inl ⟨e, mem_mempoolRestore he hrow, hrow⟩))
  · exact Or.inr (Or.inr (Or.inr hu))
  · have hnone : s.skipped = [] := h.nothingSkipped
    rw [hnone] at hk
    exact absurd hk List.not_mem_nil

end TetCore.Mempool.Durable

namespace TetCore.Sample

open TetCore.Lib TetCore.Consensus TetCore.Mempool.Durable

/-- A thread of the sample node, which has no caps set. -/
def pendingThread (op : PendingOp) : PendingProg Unit :=
  op.thread auth ⟨none, none⟩ (World.sample 0)

/-- The transfer is submitted, up to the answer. -/
def acknowledged : Lib.Pool PendingNode Place :=
  Lib.Pool.moves (.boot ledger, [pendingThread (.submit transfer)]) (List.replicate 5 0)

/-- An attempt of `node` after the answer, some steps of it. -/
def acknowledgedThen (steps : Nat) : Lib.Pool PendingNode Place :=
  Lib.Pool.moves (acknowledged.1, [pendingThread (.mine node)]) (List.replicate steps 0)

theorem acknowledgedThen_life {ok : PendingNode → Prop} (steps : Nat)
    (hsubmit : ∀ n ≤ 5, ok (Lib.Pool.moves (PendingNode.boot ledger, [pendingThread (.submit transfer)])
      ((List.replicate 5 0).take n)).1)
    (hmine : ∀ n ≤ steps, ok (Lib.Pool.moves (acknowledged.1, [pendingThread (.mine node)])
      ((List.replicate steps 0).take n)).1) :
    Life auth ⟨none, none⟩ (World.sample 0) ok (acknowledgedThen steps) := by
  have hall : (txHashForEnv (World.sample 0) transfer).isOk = true ∧ acknowledged.2.length = 0 := by
    decide +kernel
  have hboot : Life auth ⟨none, none⟩ (World.sample 0) ok (.boot ledger, []) := .boot ledger
  have hacked : Life auth ⟨none, none⟩ (World.sample 0) ok acknowledged := by
    unfold acknowledged
    refine hboot.operation rfl (.submit transfer) (fun env h => ?_) (List.replicate 5 0) hsubmit
    cases h
    exact exists_ok hall.1
  have hlength : (List.replicate steps 0).length = steps := List.length_replicate
  unfold acknowledgedThen
  exact hacked.operation hall.2 (.mine node) (fun env h => by cases h) (List.replicate steps 0)
    fun n hn => hmine n (hlength ▸ hn)

end TetCore.Sample

namespace TetCore.Mempool.Durable

open TetCore.Lib TetCore.Consensus

/-- A transfer is submitted, mined, and the node crashes. -/
theorem acknowledged_survives_mined :
    Sample.transfer ∈ (Sample.acknowledgedThen 16).1.answered ∧
      Survives (World.sample 0) (Sample.acknowledgedThen 16).1 Sample.transfer := by
  have hall : (∀ n ≤ 5, (Lib.Pool.moves
      (PendingNode.boot Sample.ledger, [Sample.pendingThread (.submit Sample.transfer)])
        ((List.replicate 5 0).take n)).1.skipped = []) ∧
      (∀ n ≤ 16, (Lib.Pool.moves (Sample.acknowledged.1, [Sample.pendingThread (.mine Sample.node)])
        ((List.replicate 16 0).take n)).1.skipped = []) ∧
      (Sample.acknowledgedThen 16).2.length = 0 ∧
      Sample.transfer ∈ (Sample.acknowledgedThen 16).1.answered := by
    decide +kernel
  obtain ⟨hsubmit, hmine, hidle, hanswered⟩ := hall
  refine ⟨hanswered, ?_⟩
  have hlife : Life Sample.auth ⟨none, none⟩ (World.sample 0) NothingSkipped
      (Sample.acknowledgedThen 16) := Sample.acknowledgedThen_life 16 hsubmit hmine
  rw [eq_of_idle hidle] at hlife
  exact acknowledged_survives Sample.auth ⟨none, none⟩ (World.sample 0) hlife
    (fun p hp => absurd hp List.not_mem_nil) Sample.transfer hanswered

/-- A transfer is submitted, and the node crashes after an attempt took it out of the durable copy. -/
theorem acknowledged_lost :
    Life Sample.auth ⟨none, none⟩ (World.sample 0) (fun _ => True) (Sample.acknowledgedThen 2) ∧
      Sample.transfer ∈ (Sample.acknowledgedThen 2).1.answered ∧
      ¬Survives (World.sample 0) (Sample.acknowledgedThen 2).1 Sample.transfer := by
  refine ⟨Sample.acknowledgedThen_life 2 (fun _ _ => trivial) (fun _ _ => trivial), ?_⟩
  have hall : Sample.transfer ∈ (Sample.acknowledgedThen 2).1.answered ∧
      ((txHashForEnv (World.sample 0) Sample.transfer).toOption.map fun h =>
        ((Sample.acknowledgedThen 2).1.node.ledger.isTxApplied h,
          (Sample.acknowledgedThen 2).1.mempoolTree.get h)) = some (false, none) ∧
      (Sample.acknowledgedThen 2).1.inBlocks = [] ∧
      (Sample.acknowledgedThen 2).1.unminable = [] := by
    decide +kernel
  obtain ⟨hanswered, hrow, hblocks, hunminable⟩ := hall
  refine ⟨hanswered, ?_⟩
  rintro ⟨h, hh, hsurvives⟩
  rw [hh] at hrow
  obtain ⟨hunset, hnone⟩ := Prod.mk.inj (Option.some.inj hrow)
  rcases hsurvives with ha | hb | ⟨e, he, -⟩ | hu
  · rw [hunset] at ha
    cases ha
  · rw [hblocks] at hb
    exact absurd hb List.not_mem_nil
  · have hget := Tree.mem_iter.mp (List.mem_filter.mp he).1
    rw [hnone] at hget
    cases hget
  · rw [hunminable] at hu
    exact absurd hu List.not_mem_nil

end TetCore.Mempool.Durable
