import TetCore.Consensus.Attempts

/-!
# What becomes of the mempool

`mine_pending_block_as` takes the mempool before it checks anything. Each transaction it took has a
`Fate`: it is in the block, it is back in the mempool in its old place ahead of the arrivals, or it is
dropped for a reason (`NoLoss`). The first check after the mempool is taken is the hash of every
transaction, and one that has none makes the call return with all of them lost. So nothing is lost
exactly when every transaction has a hash, or the call is refused before it takes the mempool
(`mining_loses_nothing_iff`).
-/

namespace TetCore.Consensus

open TetCore.Lib

/-! ## Fates -/

/-- What becomes of a transaction that was in the mempool. -/
inductive Fate where
  | mined
  | requeued
  /-- Its hash came earlier in the mempool. -/
  | repeated
  /-- Its hash is settled. -/
  | settled
  /-- `block_txs_ok` fails with it on the transactions kept before it. -/
  | refused
  /-- Its hash arrived again before it could be put back. -/
  | arrivedAgain
  /-- It failed alone too often. -/
  | lone
  deriving DecidableEq

/-- The transaction passed the filter and the selection. -/
def Fate.kept : Fate → Bool
  | .mined | .requeued | .arrivedAgain | .lone => true
  | _ => false

/-- The transactions with the fate, in their order. -/
def withFate (f : Fate) (fates : List (SignedTxEnvelopeV1 × Fate)) : List SignedTxEnvelopeV1 :=
  (fates.filter fun p => p.2 = f).map Prod.fst

/-- The transactions kept, in their order. -/
def keptOf (fates : List (SignedTxEnvelopeV1 × Fate)) : List SignedTxEnvelopeV1 :=
  (fates.filter fun p => p.2.kept).map Prod.fst

/-- The transaction has a hash. -/
def HasHash (W : World) (env : SignedTxEnvelopeV1) : Prop := ∃ h, txHashForEnv W env = .ok h

/-- Both transactions have the same hash. -/
def SameHash (W : World) (env e : SignedTxEnvelopeV1) : Prop :=
  ∃ h, txHashForEnv W env = .ok h ∧ txHashForEnv W e = .ok h

/-- Why a transaction is dropped, given the fates of those before it. -/
def Justified (W : World) (nowMs : Nat) (producerId : Str) (s : Node)
    (arrived : List SignedTxEnvelopeV1) (before : List (SignedTxEnvelopeV1 × Fate))
    (env : SignedTxEnvelopeV1) : Fate → Prop
  | .mined | .requeued => True
  | .repeated => ∃ p ∈ before, SameHash W env p.1
  | .settled => ∃ h, txHashForEnv W env = .ok h ∧ s.ledger.isTxApplied h = true
  | .refused => HasHash W env ∧
      blockTxsOk W s.ledger nowMs (keptOf before ++ [env]) producerId = false
  | .arrivedAgain => ∃ e ∈ arrived, SameHash W env e
  | .lone => HasHash W env ∧ preApplyRequeueMax ≤ s.blockFailures + 1 ∧
      ∃ e L', buildAndApplyBlock W nowMs producerId [env] s.ledger = (.err (.nothingWritten e), L')

/-- The transactions of the block, if one was made. -/
def MinedAs (W : World) (r : Outcome MineError MineOutcome) (L : Ledger)
    (txs : List SignedTxEnvelopeV1) : Prop :=
  match r with
  | .ok outcome => MadeOf W outcome L txs
  | _ => txs = []

/-- **No transaction is lost**: the fates of the mempool of `s` when the call leaves `r`. -/
structure NoLoss (W : World) (nowMs : Nat) (producerId : Str) (s : Node)
    (arrived : List SignedTxEnvelopeV1) (r : Outcome MineError MineOutcome × Node)
    (fates : List (SignedTxEnvelopeV1 × Fate)) : Prop where
  taken : fates.map Prod.fst = s.mempool
  mined : MinedAs W r.1 r.2.ledger (withFate .mined fates)
  mempool : r.2.mempool = withFate .requeued fates ++ arrived
  lone : (withFate .lone fates).length ≤ 1
  justified : ∀ before env f after, fates = before ++ (env, f) :: after →
    Justified W nowMs producerId s arrived before env f

/-! ## Lists -/

section Lists

variable {α : Type}

/-- What a filter keeps of a list without repetitions, when it all lies in a sublist. -/
theorem filter_of_sublist {p : α → Bool} {l m : List α} (hs : m.Sublist l) (hl : l.Nodup)
    (hp : ∀ x ∈ l, p x = true → x ∈ m) : l.filter p = m.filter p := by
  induction hs with
  | slnil => rfl
  | @cons m l a hs ih =>
    rw [List.nodup_cons] at hl
    have ha : p a ≠ true := fun h => hl.1 (hs.subset (hp a List.mem_cons_self h))
    rw [List.filter_cons_of_neg ha]
    exact ih hl.2 fun x hx hpx => hp x (List.mem_cons_of_mem _ hx) hpx
  | @cons_cons m l a hs ih =>
    rw [List.nodup_cons] at hl
    have htail : l.filter p = m.filter p := by
      refine ih hl.2 fun x hx hpx => ?_
      rcases List.mem_cons.mp (hp x (List.mem_cons_of_mem _ hx) hpx) with rfl | hmem
      · exact absurd hx hl.1
      · exact hmem
    by_cases ha : p a = true
    · rw [List.filter_cons_of_pos ha, List.filter_cons_of_pos ha, htail]
    · rw [List.filter_cons_of_neg ha, List.filter_cons_of_neg ha, htail]

/-- One by one, keep what goes with what is kept already. -/
def keepWhile (ok : List α → Bool) (kept : List α) (x : α) : List α :=
  if ok (kept ++ [x]) then kept ++ [x] else kept

/-- What is left out does not go with what was kept before it. -/
theorem foldl_keepWhile_refuses [DecidableEq α] (ok : List α → Bool) {l l' : List α} {x : α}
    (hl : (l ++ x :: l').Nodup) (hx : x ∉ (l ++ x :: l').foldl (keepWhile ok) []) :
    ok ((l.filter fun y => decide (y ∈ (l ++ x :: l').foldl (keepWhile ok) [])) ++ [x]) = false := by
  obtain ⟨ks, hks, hsub⟩ := foldl_select_sublist (fun kept y => ok (kept ++ [y])) l []
  obtain ⟨zs, hzs, hsub'⟩ := foldl_select_sublist (fun kept y => ok (kept ++ [y])) (x :: l') ks
  have hall : (l ++ x :: l').foldl (keepWhile ok) [] = ks ++ zs := by
    rw [List.foldl_append]
    change List.foldl _ (l.foldl (fun kept y => if ok (kept ++ [y]) then kept ++ [y] else kept) [])
      (x :: l') = _
    rw [hks, List.nil_append]
    exact hzs
  rw [hall] at hx ⊢
  -- what is kept of `l` is what was kept when `x` came
  have hkept : (l.filter fun y => decide (y ∈ ks ++ zs)) = ks := by
    rw [filter_of_sublist hsub (List.nodup_append.mp hl).1]
    · rw [List.filter_eq_self]
      intro y hy
      exact decide_eq_true (List.mem_append_left _ hy)
    · intro y hy hmem
      rcases List.mem_append.mp (of_decide_eq_true hmem) with hmem | hmem
      · exact hmem
      · exact absurd rfl ((List.nodup_append.mp hl).2.2 y hy y (hsub'.subset hmem))
  rw [hkept]
  by_contra hok
  rw [Bool.not_eq_false] at hok
  obtain ⟨ws, hws, -⟩ := foldl_select_sublist (fun kept y => ok (kept ++ [y])) l' (ks ++ [x])
  rw [List.foldl_cons, if_pos hok, hws] at hzs
  rw [← hzs] at hx
  exact hx (by simp)

end Lists

/-! ## The filter -/

section Filter

variable {W : World} {L : Ledger} {env : SignedTxEnvelopeV1}

theorem DistinctTxs.nodup {txs : List SignedTxEnvelopeV1} (h : DistinctTxs W txs) : txs.Nodup :=
  h.imp fun hne heq => hne (congrArg _ heq)

/-- One transaction of the filter. -/
theorem dropSettled_cons {h : Str} (he : txHashForEnv W env = .ok h)
    (txs : List SignedTxEnvelopeV1) (seen : List Str) :
    dropSettled W L (env :: txs) seen = if h ∈ seen then dropSettled W L txs seen
      else if L.isTxApplied h then dropSettled W L txs (h :: seen)
      else (env :: ·) <$> dropSettled W L txs (h :: seen) := by
  simp only [dropSettled, he, Except.mapError, ok_bind]
  split
  · rfl
  · split
    · rfl
    · cases dropSettled W L txs (h :: seen) <;> rfl

theorem dropSettled_total (L : Ledger) : ∀ {txs : List SignedTxEnvelopeV1},
    (∀ env ∈ txs, HasHash W env) → ∀ seen, ∃ pending, dropSettled W L txs seen = .ok pending := by
  intro txs
  induction txs with
  | nil => exact fun _ _ => ⟨[], rfl⟩
  | cons env txs ih =>
    intro hall seen
    obtain ⟨h, he⟩ := hall env List.mem_cons_self
    have hrest := ih fun e henv => hall e (List.mem_cons_of_mem _ henv)
    rw [dropSettled_cons he]
    split
    · exact hrest seen
    · split
      · exact hrest (h :: seen)
      · obtain ⟨pending, hp⟩ := hrest (h :: seen)
        exact ⟨env :: pending, by rw [hp]; rfl⟩

theorem dropSettled_hashes : ∀ {txs pending : List SignedTxEnvelopeV1} {seen : List Str},
    dropSettled W L txs seen = .ok pending → ∀ env ∈ txs, HasHash W env := by
  intro txs
  induction txs with
  | nil => exact fun _ env henv => absurd henv List.not_mem_nil
  | cons e txs ih =>
    intro pending seen h env henv
    cases he : txHashForEnv W e with
    | error msg =>
      simp only [dropSettled, he, Except.mapError, error_bind] at h
      cases h
    | ok x =>
      rcases List.mem_cons.mp henv with rfl | henv
      · exact ⟨x, he⟩
      · rw [dropSettled_cons he] at h
        split at h
        · exact ih h env henv
        · split at h
          · exact ih h env henv
          · cases hd : dropSettled W L txs (x :: seen) with
            | error _ =>
              rw [hd] at h
              cases h
            | ok rest => exact ih hd env henv

theorem dropSettled_sublist : ∀ {txs pending : List SignedTxEnvelopeV1} {seen : List Str},
    dropSettled W L txs seen = .ok pending → pending.Sublist txs := by
  intro txs
  induction txs with
  | nil =>
    intro pending seen h
    cases h
    exact List.Sublist.refl _
  | cons e txs ih =>
    intro pending seen h
    obtain ⟨x, he⟩ := dropSettled_hashes h e List.mem_cons_self
    rw [dropSettled_cons he] at h
    split at h
    · exact (ih h).cons e
    · split at h
      · exact (ih h).cons e
      · cases hd : dropSettled W L txs (x :: seen) with
        | error _ =>
          rw [hd] at h
          cases h
        | ok rest =>
          rw [hd] at h
          cases h
          exact (ih hd).cons_cons e

/-- The fates of a filtered mempool: those of `F` for the transactions that pass. -/
def tagTaken (W : World) (L : Ledger) (F : SignedTxEnvelopeV1 → Fate) :
    List SignedTxEnvelopeV1 → List Str → List (SignedTxEnvelopeV1 × Fate)
  | [], _ => []
  | env :: txs, seen =>
    let h := valueOr (txHashForEnv W env) []
    if h ∈ seen then (env, .repeated) :: tagTaken W L F txs seen
    else if L.isTxApplied h then (env, .settled) :: tagTaken W L F txs (h :: seen)
    else (env, F env) :: tagTaken W L F txs (h :: seen)

theorem tagTaken_fst (F : SignedTxEnvelopeV1 → Fate) : ∀ (txs : List SignedTxEnvelopeV1)
    (seen : List Str), (tagTaken W L F txs seen).map Prod.fst = txs := by
  intro txs
  induction txs with
  | nil => exact fun _ => rfl
  | cons env txs ih =>
    intro seen
    unfold tagTaken
    simp only
    split
    · rw [List.map_cons, ih]
    · split <;> rw [List.map_cons, ih]

/-- The fates that are not decided by the filter are those of the transactions that pass. -/
theorem tagTaken_filter {F : SignedTxEnvelopeV1 → Fate} {q : Fate → Bool}
    (hrep : q .repeated = false) (hset : q .settled = false) :
    ∀ {txs pending : List SignedTxEnvelopeV1} {seen : List Str},
    dropSettled W L txs seen = .ok pending →
    ((tagTaken W L F txs seen).filter fun p => q p.2).map Prod.fst =
      pending.filter fun env => q (F env) := by
  intro txs
  induction txs with
  | nil =>
    intro pending seen h
    cases h
    rfl
  | cons env txs ih =>
    intro pending seen h
    obtain ⟨x, he⟩ := dropSettled_hashes h env List.mem_cons_self
    rw [dropSettled_cons he] at h
    simp only [tagTaken, he, valueOr]
    split
    · rename_i hseen
      rw [if_pos hseen] at h
      rw [List.filter_cons_of_neg (by simp [hrep])]
      exact ih h
    · rename_i hseen
      rw [if_neg hseen] at h
      split
      · rename_i happ
        rw [if_pos happ] at h
        rw [List.filter_cons_of_neg (by simp [hset])]
        exact ih h
      · rename_i happ
        rw [if_neg happ] at h
        cases hd : dropSettled W L txs (x :: seen) with
        | error _ =>
          rw [hd] at h
          cases h
        | ok rest =>
          rw [hd] at h
          cases h
          rw [List.filter_cons, List.filter_cons]
          split
          · rw [List.map_cons, ih hd]
          · exact ih hd

/-- A transaction among the others: it repeats one before it, it is settled, or it passes the filter
and has the fate `F` gives it. -/
def FateAt (W : World) (L : Ledger) (F : SignedTxEnvelopeV1 → Fate) (seen : List Str)
    (pending : List SignedTxEnvelopeV1) (before : List (SignedTxEnvelopeV1 × Fate))
    (env : SignedTxEnvelopeV1) (f : Fate) : Prop :=
  (f = .repeated ∧ ∃ h, txHashForEnv W env = .ok h ∧
    (h ∈ seen ∨ ∃ p ∈ before, txHashForEnv W p.1 = .ok h)) ∨
  (f = .settled ∧ ∃ h, txHashForEnv W env = .ok h ∧ L.isTxApplied h = true) ∨
  (f = F env ∧ ∃ l l', pending = l ++ env :: l' ∧ ∀ q : Fate → Bool, q .repeated = false →
    q .settled = false → ((before.filter fun p => q p.2).map Prod.fst) = l.filter fun e => q (F e))

section FateAt

variable {F : SignedTxEnvelopeV1 → Fate} {f g : Fate} {seen seen' : List Str} {e : SignedTxEnvelopeV1}
  {pending : List SignedTxEnvelopeV1} {before : List (SignedTxEnvelopeV1 × Fate)}

/-- One more transaction before it. -/
theorem FateAt.cons {pending' : List SignedTxEnvelopeV1} (h : FateAt W L F seen' pending' before env f)
    (hseen : ∀ x ∈ seen', x ∈ seen ∨ txHashForEnv W e = .ok x)
    (hpass : (pending = pending' ∧ (g = .repeated ∨ g = .settled)) ∨
      (pending = e :: pending' ∧ g = F e)) :
    FateAt W L F seen pending ((e, g) :: before) env f := by
  rcases h with ⟨hf, x, hx, hin⟩ | hset | ⟨hf, l, l', hp, hq⟩
  · refine Or.inl ⟨hf, x, hx, ?_⟩
    rcases hin with hin | ⟨p, hp, hpx⟩
    · rcases hseen x hin with hin | he
      · exact Or.inl hin
      · exact Or.inr ⟨(e, g), List.mem_cons_self, he⟩
    · exact Or.inr ⟨p, List.mem_cons_of_mem _ hp, hpx⟩
  · exact Or.inr (Or.inl hset)
  · right
    right
    rcases hpass with ⟨rfl, hg⟩ | ⟨rfl, rfl⟩
    · refine ⟨hf, l, l', hp, fun q hrep hset => ?_⟩
      rw [List.filter_cons_of_neg]
      · exact hq q hrep hset
      · rcases hg with rfl | rfl
        · simp [hrep]
        · simp [hset]
    · refine ⟨hf, e :: l, l', by rw [hp]; rfl, fun q hrep hset => ?_⟩
      rw [List.filter_cons, List.filter_cons]
      split
      · rw [List.map_cons, hq q hrep hset]
      · exact hq q hrep hset

end FateAt

theorem tagTaken_at {F : SignedTxEnvelopeV1 → Fate} {f : Fate} :
    ∀ {txs pending : List SignedTxEnvelopeV1} {seen : List Str}
      {before after : List (SignedTxEnvelopeV1 × Fate)},
    dropSettled W L txs seen = .ok pending →
    tagTaken W L F txs seen = before ++ (env, f) :: after →
    FateAt W L F seen pending before env f := by
  intro txs
  induction txs with
  | nil =>
    intro pending seen before after _ htag
    exact absurd htag.symm (List.append_ne_nil_of_right_ne_nil _ (List.cons_ne_nil _ _))
  | cons e txs ih =>
    intro pending seen before after h htag
    obtain ⟨x, he⟩ := dropSettled_hashes h e List.mem_cons_self
    have hnew : ∀ y ∈ x :: seen, y ∈ seen ∨ txHashForEnv W e = .ok y := by
      intro y hy
      rcases List.mem_cons.mp hy with rfl | hy
      · exact Or.inr he
      · exact Or.inl hy
    rw [dropSettled_cons he] at h
    simp only [tagTaken, he, valueOr] at htag
    by_cases hseen : x ∈ seen
    · rw [if_pos hseen] at h htag
      rcases List.cons_eq_append_iff.mp htag with ⟨rfl, hhead⟩ | ⟨before', rfl, hrest⟩
      · cases hhead
        exact Or.inl ⟨rfl, x, he, Or.inl hseen⟩
      · exact (ih h hrest).cons (fun y hy => Or.inl hy) (Or.inl ⟨rfl, Or.inl rfl⟩)
    rw [if_neg hseen] at h htag
    by_cases happ : L.isTxApplied x = true
    · rw [if_pos happ] at h htag
      rcases List.cons_eq_append_iff.mp htag with ⟨rfl, hhead⟩ | ⟨before', rfl, hrest⟩
      · cases hhead
        exact Or.inr (Or.inl ⟨rfl, x, he, happ⟩)
      · exact (ih h hrest).cons hnew (Or.inl ⟨rfl, Or.inr rfl⟩)
    · rw [if_neg happ] at h htag
      cases hd : dropSettled W L txs (x :: seen) with
      | error _ =>
        rw [hd] at h
        cases h
      | ok rest =>
        rw [hd] at h
        cases h
        rcases List.cons_eq_append_iff.mp htag with ⟨rfl, hhead⟩ | ⟨before', rfl, hrest⟩
        · cases hhead
          exact Or.inr (Or.inr ⟨rfl, [], rest, rfl, fun q _ _ => rfl⟩)
        · exact (ih hd hrest).cons hnew (Or.inr ⟨rfl, rfl⟩)

end Filter

/-! ## Putting back -/

section Requeue

variable {W : World} {env : SignedTxEnvelopeV1}

/-- The test of `requeue_txs_front`. -/
def inQueue (W : World) (queue : List SignedTxEnvelopeV1) (env : SignedTxEnvelopeV1) : Bool :=
  queue.any fun e => match txHashForEnv W env, txHashForEnv W e with
    | .ok h, .ok x => x == h
    | _, _ => false

theorem inQueue_iff {queue : List SignedTxEnvelopeV1} :
    inQueue W queue env = true ↔ ∃ e ∈ queue, SameHash W env e := by
  unfold inQueue SameHash
  rw [List.any_eq_true]
  constructor
  · rintro ⟨e, he, hsame⟩
    refine ⟨e, he, ?_⟩
    split at hsame
    · rename_i h x henv hx
      exact ⟨h, henv, by rw [hx, beq_iff_eq.mp hsame]⟩
    · cases hsame
  · rintro ⟨e, he, h, henv, hx⟩
    refine ⟨e, he, ?_⟩
    simp only [henv, hx, beq_self_eq_true]

/-- One transaction of `requeue_txs_front`. -/
def putFront (W : World) (queue front : List SignedTxEnvelopeV1) (env : SignedTxEnvelopeV1) :
    List SignedTxEnvelopeV1 :=
  match txHashForEnv W env with
  | .error _ => front
  | .ok _ => if inQueue W (queue ++ front) env then front else front ++ [env]

theorem requeueTxsFront_foldl (txs queue : List SignedTxEnvelopeV1) :
    requeueTxsFront W txs queue = txs.foldl (putFront W queue) [] ++ queue := by
  unfold requeueTxsFront
  simp only
  congr 2
  funext front env
  unfold putFront inQueue
  cases txHashForEnv W env with
  | error _ => rfl
  | ok h =>
    simp only
    congr 3
    funext e
    cases txHashForEnv W e <;> rfl

/-- The front so far shares no hash with the transactions to come. -/
theorem foldl_putFront {queue : List SignedTxEnvelopeV1} : ∀ (txs front : List SignedTxEnvelopeV1),
    DistinctTxs W txs → (∀ env ∈ txs, HasHash W env) →
    (∀ e ∈ front, ∀ env ∈ txs, txHashForEnv W e ≠ txHashForEnv W env) →
    txs.foldl (putFront W queue) front = front ++ txs.filter fun env => !inQueue W queue env := by
  intro txs
  induction txs with
  | nil => exact fun front _ _ _ => (List.append_nil front).symm
  | cons env txs ih =>
    intro front hd hh hfront
    obtain ⟨h, he⟩ := hh env List.mem_cons_self
    rw [DistinctTxs, List.pairwise_cons] at hd
    have hh' := fun e henv => hh e (List.mem_cons_of_mem env henv)
    have htest : inQueue W (queue ++ front) env = inQueue W queue env := by
      rw [Bool.eq_iff_iff, inQueue_iff, inQueue_iff]
      constructor
      · rintro ⟨e, hmem, x, henv, hex⟩
        rcases List.mem_append.mp hmem with hmem | hmem
        · exact ⟨e, hmem, x, henv, hex⟩
        · exact absurd (hex.trans henv.symm) (hfront e hmem env List.mem_cons_self)
      · rintro ⟨e, hmem, hsame⟩
        exact ⟨e, List.mem_append_left _ hmem, hsame⟩
    rw [List.foldl_cons]
    have hstep : putFront W queue front env =
        if inQueue W queue env then front else front ++ [env] := by
      unfold putFront
      rw [he, htest]
    rw [hstep]
    by_cases hq : inQueue W queue env = true
    · rw [if_pos hq, List.filter_cons_of_neg (by simp [hq])]
      exact ih front hd.2 hh' fun e hef e' he' => hfront e hef e' (List.mem_cons_of_mem _ he')
    · rw [if_neg hq, List.filter_cons_of_pos (by simp [hq]), ih (front ++ [env]) hd.2 hh',
        List.append_assoc]
      · rfl
      · intro e hef e' he'
        rcases List.mem_append.mp hef with hef | hef
        · exact hfront e hef e' (List.mem_cons_of_mem _ he')
        · rw [List.mem_singleton.mp hef]
          exact hd.1 e' he'

/-- **What goes back to the front**: the transactions whose hash is not waiting already. -/
theorem requeueTxsFront_eq {txs queue : List SignedTxEnvelopeV1} (hd : DistinctTxs W txs)
    (hh : ∀ env ∈ txs, HasHash W env) :
    requeueTxsFront W txs queue = (txs.filter fun env => !inQueue W queue env) ++ queue := by
  rw [requeueTxsFront_foldl, foldl_putFront txs [] hd hh fun e he => absurd he List.not_mem_nil,
    List.nil_append]

end Requeue

/-! ## The selection -/

section Selection

variable {W : World} {L : Ledger} {nowMs blockFailures : Nat} {producerId : Str}
  {pending : List SignedTxEnvelopeV1} {env : SignedTxEnvelopeV1}

/-- An attempt makes a block of, or leaves for later, what is selected or left. -/
theorem blockOf_append (W : World) (L : Ledger) (nowMs : Nat) (pending : List SignedTxEnvelopeV1)
    (producerId : Str) (blockFailures : Nat) :
    (blockOf W L nowMs pending producerId blockFailures).1 ++
        (blockOf W L nowMs pending producerId blockFailures).2 =
      (selectBlockTxs W L nowMs pending producerId).1 ++
        (selectBlockTxs W L nowMs pending producerId).2 := by
  unfold blockOf
  simp only
  split
  · simp only
    rw [← List.append_assoc, List.take_append_drop]
  · rfl

theorem select_sublist (W : World) (L : Ledger) (nowMs : Nat) (pending : List SignedTxEnvelopeV1)
    (producerId : Str) :
    ((selectBlockTxs W L nowMs pending producerId).1 ++
      (selectBlockTxs W L nowMs pending producerId).2).Sublist pending := by
  unfold selectBlockTxs
  by_cases h : blockTxsOk W L nowMs pending producerId = true
  · rw [if_pos h, List.append_nil]
  · rw [if_neg h]
    obtain ⟨ys, heq, hsub⟩ := foldl_select_sublist
      (fun kept env => blockTxsOk W L nowMs (kept ++ [env]) producerId)
      (pending.take selectOneByOneMax) []
    simp only
    rw [heq, List.nil_append]
    have happ := hsub.append (List.Sublist.refl (pending.drop selectOneByOneMax))
    rwa [List.take_append_drop] at happ

/-- **What the selection drops** breaks the block of the transactions kept before it. -/
theorem select_refuses {l l' : List SignedTxEnvelopeV1} (hnd : pending.Nodup)
    (hp : pending = l ++ env :: l')
    (hout : env ∉ (selectBlockTxs W L nowMs pending producerId).1 ++
      (selectBlockTxs W L nowMs pending producerId).2) :
    blockTxsOk W L nowMs ((l.filter fun e => decide (e ∈
      (selectBlockTxs W L nowMs pending producerId).1 ++
        (selectBlockTxs W L nowMs pending producerId).2)) ++ [env]) producerId = false := by
  have hmem : env ∈ pending := by
    rw [hp]
    exact List.mem_append_right _ List.mem_cons_self
  unfold selectBlockTxs at hout ⊢
  by_cases h : blockTxsOk W L nowMs pending producerId = true
  · rw [if_pos h, List.append_nil] at hout
    exact absurd hmem hout
  rw [if_neg h] at hout ⊢
  simp only at hout ⊢
  rw [List.mem_append, not_or] at hout
  -- it is among those examined one by one, with all the transactions before it
  have hlen : l.length < selectOneByOneMax := by
    by_contra hge
    refine hout.2 ?_
    rw [hp, List.drop_append_of_le_length (by omega)]
    exact List.mem_append_right _ List.mem_cons_self
  have htake : pending.take selectOneByOneMax =
      l ++ env :: l'.take (selectOneByOneMax - l.length - 1) := by
    rw [hp, List.take_append, List.take_of_length_le (by omega)]
    obtain ⟨n, hn⟩ : ∃ n, selectOneByOneMax - l.length = n + 1 := ⟨selectOneByOneMax - l.length - 1, by omega⟩
    rw [hn, List.take_succ_cons, Nat.add_sub_cancel]
  have hnd' : (pending.take selectOneByOneMax).Nodup := hnd.sublist (List.take_sublist _ _)
  have hdisj := hnd
  rw [← List.take_append_drop selectOneByOneMax pending, List.nodup_append] at hdisj
  -- nothing of these is left for a later block
  have hfilter : ∀ kept : List SignedTxEnvelopeV1,
      (l.filter fun e => decide (e ∈ kept ++ pending.drop selectOneByOneMax)) =
        l.filter fun e => decide (e ∈ kept) := by
    intro kept
    refine List.filter_congr fun e he => ?_
    have hne : e ∉ pending.drop selectOneByOneMax := by
      intro hdrop
      refine hdisj.2.2 e ?_ e hdrop rfl
      rw [htake]
      exact List.mem_append_left _ he
    rw [decide_eq_decide, List.mem_append, or_iff_left hne]
  rw [hfilter]
  rw [htake] at hnd' hout ⊢
  exact foldl_keepWhile_refuses (fun txs => blockTxsOk W L nowMs txs producerId) hnd' hout.1

end Selection

/-! ## One call -/

section Call

variable {W : World} {nowMs : Nat} {producerId : Str} {s : Node}
  {pending txs later arrived : List SignedTxEnvelopeV1} {r : Outcome MineError MineOutcome × Node}

/-- The fate of a transaction that passed the filter. -/
def survivorFate (txs later : List SignedTxEnvelopeV1) (ofBlock ofLater : SignedTxEnvelopeV1 → Fate)
    (env : SignedTxEnvelopeV1) : Fate :=
  if env ∈ txs then ofBlock env else if env ∈ later then ofLater env else .refused

theorem survivorFate_kept (txs later : List SignedTxEnvelopeV1)
    {ofBlock ofLater : SignedTxEnvelopeV1 → Fate} (hb : ∀ e, (ofBlock e).kept = true) (hl : ∀ e, (ofLater e).kept = true)
    (env : SignedTxEnvelopeV1) :
    (survivorFate txs later ofBlock ofLater env).kept = decide (env ∈ txs ++ later) := by
  unfold survivorFate
  split
  · rename_i h
    rw [hb, decide_eq_true (List.mem_append_left _ h)]
  · rename_i h
    split
    · rename_i h'
      rw [hl, decide_eq_true (List.mem_append_right _ h')]
    · rename_i h'
      rw [decide_eq_false]
      · rfl
      · rw [List.mem_append]
        exact not_or.mpr ⟨h, h'⟩

/-- **The fates of a call** that filtered and selected, from those of its block and of what it leaves
for later. -/
theorem noLoss_of_survivors (ofBlock ofLater : SignedTxEnvelopeV1 → Fate)
    (hdrop : dropSettled W s.ledger s.mempool [] = .ok pending)
    (hsel : txs ++ later = (selectBlockTxs W s.ledger nowMs pending producerId).1 ++
      (selectBlockTxs W s.ledger nowMs pending producerId).2)
    (hb : ∀ e, (ofBlock e).kept = true) (hl : ∀ e, (ofLater e).kept = true)
    (hmined : MinedAs W r.1 r.2.ledger
      ((txs.filter fun e => ofBlock e = .mined) ++ later.filter fun e => ofLater e = .mined))
    (hmem : r.2.mempool = (txs.filter fun e => ofBlock e = .requeued) ++
      (later.filter fun e => ofLater e = .requeued) ++ arrived)
    (hlone : ((txs.filter fun e => ofBlock e = .lone) ++
      later.filter fun e => ofLater e = .lone).length ≤ 1)
    (hjb : ∀ before, ∀ e ∈ txs, Justified W nowMs producerId s arrived before e (ofBlock e))
    (hjl : ∀ before, ∀ e ∈ later, Justified W nowMs producerId s arrived before e (ofLater e)) :
    ∃ fates, NoLoss W nowMs producerId s arrived r fates := by
  have hnd : pending.Nodup := (dropSettled_distinct hdrop).1.nodup
  have hsub : (txs ++ later).Sublist pending := hsel ▸ select_sublist W s.ledger nowMs pending producerId
  have hnd' := hnd.sublist hsub
  have hkept := survivorFate_kept txs later hb hl
  -- the fates other than the filter's are found in the block and in what is left
  have hfate : ∀ f : Fate, f.kept = true →
      withFate f (tagTaken W s.ledger (survivorFate txs later ofBlock ofLater) s.mempool []) =
        (txs.filter fun e => ofBlock e = f) ++ later.filter fun e => ofLater e = f := by
    intro f hf
    unfold withFate
    rw [tagTaken_filter (q := fun g => decide (g = f)) _ _ hdrop, filter_of_sublist hsub hnd,
      List.filter_append]
    · congr 1
      · refine List.filter_congr fun e he => ?_
        rw [survivorFate, if_pos he]
      · refine List.filter_congr fun e he => ?_
        have hne : e ∉ txs := fun h => (List.nodup_append.mp hnd').2.2 e h e he rfl
        rw [survivorFate, if_neg hne, if_pos he]
    · intro e _ he
      have := hkept e
      rw [of_decide_eq_true he, hf] at this
      exact of_decide_eq_true this.symm
    · exact decide_eq_false fun h => by rw [← h] at hf; cases hf
    · exact decide_eq_false fun h => by rw [← h] at hf; cases hf
  refine ⟨tagTaken W s.ledger (survivorFate txs later ofBlock ofLater) s.mempool [],
    tagTaken_fst _ _ _, ?_, ?_, ?_, ?_⟩
  · rw [hfate .mined rfl]
    exact hmined
  · rw [hfate .requeued rfl]
    exact hmem
  · rw [hfate .lone rfl]
    exact hlone
  · intro before env f after htag
    rcases tagTaken_at hdrop htag with ⟨rfl, h, henv, hin⟩ | ⟨rfl, h, henv, happ⟩ |
      ⟨rfl, l, l', hp, hq⟩
    · rcases hin with hin | ⟨p, hp, hph⟩
      · cases hin
      · exact ⟨p, hp, h, henv, hph⟩
    · exact ⟨h, henv, happ⟩
    · by_cases htxs : env ∈ txs
      · rw [survivorFate, if_pos htxs]
        exact hjb before env htxs
      · by_cases hlater : env ∈ later
        · rw [survivorFate, if_neg htxs, if_pos hlater]
          exact hjl before env hlater
        · have hout : env ∉ txs ++ later := by
            rw [List.mem_append]
            exact not_or.mpr ⟨htxs, hlater⟩
          rw [survivorFate, if_neg htxs, if_neg hlater]
          refine ⟨?_, ?_⟩
          · refine dropSettled_hashes hdrop env ?_
            rw [← tagTaken_fst (W := W) (L := s.ledger) (survivorFate txs later ofBlock ofLater)
              s.mempool [], htag]
            simp
          · have hkeptOf : keptOf before = l.filter fun e => decide (e ∈ txs ++ later) := by
              unfold keptOf
              rw [hq Fate.kept rfl rfl]
              exact List.filter_congr fun e _ => hkept e
            rw [hkeptOf, hsel]
            rw [hsel] at hout
            exact select_refuses hnd hp hout

/-- A transaction goes back unless its hash is waiting already. -/
def backFate (W : World) (queue : List SignedTxEnvelopeV1) (env : SignedTxEnvelopeV1) : Fate :=
  if inQueue W queue env then .arrivedAgain else .requeued

theorem backFate_kept (queue : List SignedTxEnvelopeV1) (e : SignedTxEnvelopeV1) :
    (backFate W queue e).kept = true := by
  unfold backFate
  split <;> rfl

theorem filter_backFate (queue l : List SignedTxEnvelopeV1) :
    (l.filter fun e => backFate W queue e = .requeued) = l.filter fun e => !inQueue W queue e := by
  refine List.filter_congr fun e _ => ?_
  unfold backFate
  cases inQueue W queue e <;> rfl

theorem filter_backFate_ne (queue l : List SignedTxEnvelopeV1) {f : Fate}
    (hf : f = .mined ∨ f = .lone) : (l.filter fun e => backFate W queue e = f) = [] := by
  rw [List.filter_eq_nil_iff]
  intro e _
  unfold backFate
  rcases hf with rfl | rfl <;> split <;> simp

theorem backFate_justified {queue : List SignedTxEnvelopeV1} (hq : ∀ e ∈ queue, e ∈ arrived)
    (before : List (SignedTxEnvelopeV1 × Fate)) (e : SignedTxEnvelopeV1) :
    Justified W nowMs producerId s arrived before e (backFate W queue e) := by
  unfold backFate
  split
  · rename_i h
    obtain ⟨e', he', hsame⟩ := inQueue_iff.mp h
    exact ⟨e', hq e' he', hsame⟩
  · trivial

theorem filter_const (l : List SignedTxEnvelopeV1) (f g : Fate) :
    (l.filter fun _ => f = g) = if f = g then l else [] := by
  split
  · rename_i h
    simp [h]
  · rename_i h
    simp [h]

/-- **Nothing is lost** when every transaction has a hash. -/
theorem noLoss_of_hashes (a₁ a₂ a₃ : List SignedTxEnvelopeV1)
    (hgate : gateRefuses W producerId s = false) (hh : ∀ env ∈ s.mempool, HasHash W env) :
    ∃ fates, NoLoss W nowMs (minerId W producerId) s (a₁ ++ a₂ ++ a₃)
      (mineInterleaved W nowMs producerId a₁ a₂ a₃ s) fates := by
  obtain ⟨pending, hdrop⟩ := dropSettled_total s.ledger hh []
  have hdist := (dropSettled_distinct hdrop).1
  have happ := blockOf_append W s.ledger nowMs pending (minerId W producerId) s.blockFailures
  have hsub := select_sublist W s.ledger nowMs pending (minerId W producerId)
  rw [← happ] at hsub
  unfold mineInterleaved
  rw [if_neg (by rw [hgate]; exact Bool.false_ne_true), hdrop]
  simp only
  generalize blockOf W s.ledger nowMs pending (minerId W producerId) s.blockFailures = block
    at happ hsub
  obtain ⟨txs, later⟩ := block
  simp only at happ hsub ⊢
  have hd := List.pairwise_append.mp (List.Pairwise.sublist hsub hdist)
  have hhash : ∀ env ∈ txs ++ later, HasHash W env := fun env henv =>
    hh env ((dropSettled_sublist hdrop).subset (hsub.subset henv))
  have hhash₁ := fun env henv => hhash env (List.mem_append_left _ henv)
  have hhash₂ := fun env henv => hhash env (List.mem_append_right _ henv)
  have harr : ∀ e ∈ a₁, e ∈ a₁ ++ a₂ ++ a₃ := fun e he =>
    List.mem_append_left _ (List.mem_append_left _ he)
  rw [requeueTxsFront_eq hd.2.1 hhash₂]
  rcases buildAndApplyBlock_cases W nowMs (minerId W producerId) txs s.ledger with
    ⟨outcome, L', hrun, hmade⟩ | ⟨e, L', hrun⟩
  · -- the block is made
    rw [hrun]
    refine noLoss_of_survivors (fun _ => .mined) (backFate W a₁) hdrop happ
      (fun _ => rfl) (backFate_kept a₁) ?_ ?_ ?_ (fun _ _ _ => trivial)
      fun before e _ => backFate_justified harr before e
    · rw [filter_const, if_pos rfl, filter_backFate_ne _ _ (Or.inl rfl), List.append_nil]
      exact hmade
    · rw [filter_const, if_neg nofun, filter_backFate, List.nil_append]
      simp only [List.append_assoc]
    · rw [filter_const, if_neg nofun, filter_backFate_ne _ _ (Or.inr rfl)]
      exact Nat.zero_le 1
  · rw [hrun]
    simp only
    split
    · -- it failed and its transactions go back
      rename_i hback
      have hin : ∀ env ∈ txs, inQueue W ((later.filter fun e => !inQueue W a₁ e) ++ a₁ ++ a₂) env =
          inQueue W (a₁ ++ a₂) env := by
        intro env henv
        rw [Bool.eq_iff_iff, inQueue_iff, inQueue_iff]
        constructor
        · rintro ⟨e, hmem, x, hx, hex⟩
          rw [List.append_assoc] at hmem
          rcases List.mem_append.mp hmem with hmem | hmem
          · exact absurd (hx.trans hex.symm) (hd.2.2 env henv e (List.mem_of_mem_filter hmem))
          · exact ⟨e, hmem, x, hx, hex⟩
        · rintro ⟨e, hmem, hsame⟩
          rw [List.append_assoc]
          exact ⟨e, List.mem_append_right _ hmem, hsame⟩
      refine noLoss_of_survivors (backFate W (a₁ ++ a₂)) (backFate W a₁)
        hdrop happ (backFate_kept _) (backFate_kept _) ?_ ?_ ?_
        (fun before e _ => backFate_justified (fun e he => List.mem_append_left _ he) before e)
        fun before e _ => backFate_justified harr before e
      · rw [filter_backFate_ne _ _ (Or.inl rfl), filter_backFate_ne _ _ (Or.inl rfl)]
        rfl
      · rw [filter_backFate, filter_backFate, requeueTxsFront_eq hd.1 hhash₁,
          List.filter_congr fun env henv => congrArg (!·) (hin env henv)]
        simp only [List.append_assoc]
      · rw [filter_backFate_ne _ _ (Or.inr rfl), filter_backFate_ne _ _ (Or.inr rfl)]
        exact Nat.zero_le 1
    · -- it failed alone too often
      rename_i hdropped
      rw [requeueAfterFailure, Bool.or_eq_true, decide_eq_true_eq, decide_eq_true_eq, not_or] at hdropped
      refine noLoss_of_survivors (fun _ => .lone) (backFate W a₁) hdrop happ
        (fun _ => rfl) (backFate_kept a₁) ?_ ?_ ?_ (fun before env henv => ?_)
        fun before e _ => backFate_justified harr before e
      · rw [filter_const, if_neg nofun, filter_backFate_ne _ _ (Or.inl rfl)]
        rfl
      · rw [filter_const, if_neg nofun, filter_backFate, List.nil_append]
        simp only [List.append_assoc]
      · rw [filter_const, if_pos rfl, filter_backFate_ne _ _ (Or.inr rfl), List.append_nil]
        omega
      · have hone : txs = [env] := by
          obtain ⟨e', rfl⟩ := List.length_eq_one_iff.mp
            (show txs.length = 1 by have := List.length_pos_of_mem henv; omega)
          rw [List.mem_singleton.mp henv]
        rw [hone] at hrun
        exact ⟨hhash₁ env henv, by omega, e, L', hrun⟩

/-- A call that is refused before it takes the mempool leaves it as it is. -/
theorem noLoss_of_gate (a₁ a₂ a₃ : List SignedTxEnvelopeV1)
    (hgate : gateRefuses W producerId s = true) :
    ∃ fates, NoLoss W nowMs (minerId W producerId) s (a₁ ++ a₂ ++ a₃)
      (mineInterleaved W nowMs producerId a₁ a₂ a₃ s) fates := by
  have hwith : ∀ f : Fate, withFate f (s.mempool.map fun env => (env, .requeued)) =
      if .requeued = f then s.mempool else [] := by
    intro f
    unfold withFate
    rw [List.filter_map, List.map_map]
    split
    · rename_i h
      subst h
      simp [Function.comp_def]
    · rename_i h
      simp [Function.comp_def, h]
  unfold mineInterleaved
  rw [if_pos hgate]
  refine ⟨s.mempool.map fun env => (env, .requeued), ?_, ?_, ?_, ?_, ?_⟩
  · rw [List.map_map]
    exact List.map_id _
  · rw [hwith, if_neg nofun]
    rfl
  · rw [hwith, if_pos rfl]
  · rw [hwith, if_neg nofun]
    exact Nat.zero_le 1
  · intro before env f after heq
    have hmem : (env, f) ∈ s.mempool.map fun env => (env, Fate.requeued) := by
      rw [heq]
      exact List.mem_append_right _ List.mem_cons_self
    obtain ⟨_, -, he⟩ := List.mem_map.mp hmem
    cases he
    trivial

/-- A transaction without a hash has none of the fates. -/
theorem hashes_of_noLoss (a₁ a₂ a₃ : List SignedTxEnvelopeV1)
    {fates : List (SignedTxEnvelopeV1 × Fate)} (hgate : gateRefuses W producerId s = false)
    (h : NoLoss W nowMs (minerId W producerId) s (a₁ ++ a₂ ++ a₃)
      (mineInterleaved W nowMs producerId a₁ a₂ a₃ s) fates) :
    ∀ env ∈ s.mempool, HasHash W env := by
  cases hdrop : dropSettled W s.ledger s.mempool [] with
  | ok pending => exact dropSettled_hashes hdrop
  | error e =>
    -- the mempool is gone
    unfold mineInterleaved at h
    rw [if_neg (by rw [hgate]; exact Bool.false_ne_true), hdrop] at h
    have hmined : withFate .mined fates = [] := h.mined
    have hback : withFate .requeued fates = [] := by
      have := h.mempool
      simp only at this
      exact List.append_left_eq_self.mp this.symm
    intro env henv
    rw [← h.taken, List.mem_map] at henv
    obtain ⟨⟨env', f⟩, hmem, rfl⟩ := henv
    have hout : ∀ g, withFate g fates = [] → f ≠ g := by
      rintro g hnil rfl
      have hin : env' ∈ withFate f fates :=
        List.mem_map.mpr ⟨(env', f), List.mem_filter.mpr ⟨hmem, decide_eq_true rfl⟩, rfl⟩
      rw [hnil] at hin
      cases hin
    obtain ⟨before, after, heq⟩ := List.append_of_mem hmem
    have hj := h.justified before env' f after heq
    cases f with
    | mined => exact absurd rfl (hout _ hmined)
    | requeued => exact absurd rfl (hout _ hback)
    | repeated =>
      obtain ⟨p, -, x, hx, -⟩ := hj
      exact ⟨x, hx⟩
    | settled =>
      obtain ⟨x, hx, -⟩ := hj
      exact ⟨x, hx⟩
    | refused => exact hj.1
    | arrivedAgain =>
      obtain ⟨e, -, x, hx, -⟩ := hj
      exact ⟨x, hx⟩
    | lone => exact hj.1

end Call

end TetCore.Consensus
