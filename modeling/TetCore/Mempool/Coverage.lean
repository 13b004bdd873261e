import TetCore.Consensus.Isolation
import TetCore.Lib.InHand
import TetCore.Mempool.Duplicates

/-!
# Pending transfers and the balance

`tx_affordable` (`consensus.rs`) counts the transfers in the mempool of the moment. A mining attempt
takes the mempool out, and what it took is put back unchecked by `requeue_txs_front`: those left for
later at once, those of its block when the block fails. A step here is one acquisition of the mempool
lock, and what an attempt took is in its `Hand` between its steps.

`pending_transfers_covered`: as long as every transfer admitted while others of its sender are in hand
fits the balance together with them, the transfers of no wallet in the mempool exceed its balance less
its locks. `pending_transfers_exceed` admits one that does not.
-/

namespace TetCore.Mempool

open TetCore.Lib TetCore.Consensus

/-- What a transaction transfers out of a wallet. -/
def transferMicro (wallet : Str) (env : SignedTxEnvelopeV1) : Nat :=
  match env.tx with
  | .transfer f _ a _ => if eqIgnoreAsciiCase (trim f) wallet then a else 0
  | _ => 0

/-- A mining attempt under way: what it took, or, once `selected`, its block. -/
structure Hand where
  txs : List SignedTxEnvelopeV1
  selected : Bool
  deriving DecidableEq

/-- The mempool, the attempts under way and `BLOCK_FAILURES`. -/
structure MiningPool where
  mempool : List SignedTxEnvelopeV1
  hands : List Hand
  blockFailures : Nat
  deriving DecidableEq

/-- What the attempts hold. -/
def MiningPool.inHand (p : MiningPool) : List SignedTxEnvelopeV1 := p.hands.flatMap Hand.txs

/-- What is done under one acquisition of the mempool lock, with the ledger and the clock of the
moment. Attempts are numbered as they are in `hands`. -/
inductive MiningAction where
  | enqueue (L : Ledger) (nowMs : Nat) (env : SignedTxEnvelopeV1)
  | take (L : Ledger) (nowMs : Nat) (producerId : Str)
  | select (L : Ledger) (nowMs : Nat) (producerId : Str) (attempt : Nat)
  | fail (L : Ledger) (nowMs : Nat) (producerId : Str) (attempt : Nat)

/-- `mine_pending_block_as` up to `std::mem::take`. -/
def takeMempool (W : World) (L : Ledger) (producerId : Str) (p : MiningPool) : MiningPool :=
  if gateRefuses W producerId ⟨L, p.mempool, p.blockFailures⟩ then p
  else { p with mempool := [], hands := ⟨p.mempool, false⟩ :: p.hands }

/-- `mine_pending_block_as` from there up to the block: the filter, the selection, and those left for
later put back. A transaction without a hash ends the attempt. -/
def selectAndRequeue (W : World) (L : Ledger) (nowMs : Nat) (producerId : Str) (attempt : Nat)
    (p : MiningPool) : MiningPool :=
  match p.hands[attempt]? with
  | some ⟨taken, false⟩ =>
    match dropSettled W L taken [] with
    | .error _ => { p with hands := p.hands.eraseIdx attempt }
    | .ok pending =>
      let (txs, later) := blockOf W L nowMs pending (minerId W producerId) p.blockFailures
      { p with mempool := requeueTxsFront W later p.mempool, hands := p.hands.set attempt ⟨txs, true⟩ }
  | _ => p

/-- The end of an attempt whose block failed with nothing written. -/
def failBlock (W : World) (attempt : Nat) (p : MiningPool) : MiningPool :=
  match p.hands[attempt]? with
  | some ⟨txs, true⟩ =>
    let n := p.blockFailures + 1
    if requeueAfterFailure n txs.length then
      ⟨requeueTxsFront W txs p.mempool, p.hands.eraseIdx attempt, n⟩
    else ⟨p.mempool, p.hands.eraseIdx attempt, 0⟩
  | _ => p

/-- One step. -/
def MiningAction.step (A : Auth) (c : Caps) (W : World) (p : MiningPool) : MiningAction → MiningPool
  | .enqueue L nowMs env =>
    { p with mempool := (enqueueWithoutBroadcast A c L nowMs env p.mempool).2 }
  | .take L _ producerId => takeMempool W L producerId p
  | .select L nowMs producerId attempt => selectAndRequeue W L nowMs producerId attempt p
  | .fail _ _ _ attempt => failBlock W attempt p

/-- The ledger and the clock of a step. -/
def MiningAction.ledger : MiningAction → Ledger × Nat
  | .enqueue L nowMs _ => (L, nowMs)
  | .take L nowMs _ => (L, nowMs)
  | .select L nowMs _ _ => (L, nowMs)
  | .fail L nowMs _ _ => (L, nowMs)

/-- The balance less the locks, of the wallet of a key. -/
def spendableMicro (L : Ledger) (nowMs : Nat) (wallet : Str) : Nat :=
  match L.lockedBalanceMicro .saturating wallet nowMs with
  | .ok locked => Ledger.amountAt L.balances wallet - locked
  | .error _ => 0

/-- The balances and the locks are those of the start, and a block that fails is one that the code
fails to make, with nothing written. -/
def Quiet (W : World) (L₀ : Ledger) (t₀ : Nat) (p : MiningPool) (a : MiningAction) : Prop :=
  (∀ wallet, Ledger.amountAt a.ledger.1.balances wallet = Ledger.amountAt L₀.balances wallet ∧
    a.ledger.1.lockedBalanceMicro .saturating wallet a.ledger.2 =
      L₀.lockedBalanceMicro .saturating wallet t₀) ∧
  match a with
  | .fail L nowMs producerId attempt => ∀ txs, p.hands[attempt]? = some ⟨txs, true⟩ →
      ∃ e L', buildAndApplyBlock W nowMs (minerId W producerId) txs L = (.err (.nothingWritten e), L')
  | _ => True

/-- A transfer that the check lets pass while others of its sender are in hand and do not wait: it
fits together with them. -/
def FitsWithHands (L₀ : Ledger) (t₀ : Nat) (p : MiningPool) : MiningAction → Prop
  | .enqueue L nowMs env => ∀ f to' amount bps, env.tx = .transfer f to' amount bps →
      (txAffordable L nowMs env p.mempool).isOk = true →
      let wallet := trimLower f
      let held := weighHand (transferMicro wallet) (p.mempool ++ [env]) p.inHand
      0 < held → held + weigh (transferMicro wallet) p.mempool + amount ≤
        spendableMicro L₀ t₀ wallet
  | _ => True

/-- The pools that steps lead to from the empty one, each step where `ok` allows it. -/
inductive PendingRun (A : Auth) (c : Caps) (W : World) (ok : MiningPool → MiningAction → Prop) :
    MiningPool → Prop where
  | start : PendingRun A c W ok ⟨[], [], 0⟩
  | step {p : MiningPool} (a : MiningAction) (before : PendingRun A c W ok p) (allowed : ok p a) :
      PendingRun A c W ok (a.step A c W p)

/-- The transfers of every wallet in the mempool fit its balance less its locks. -/
def Covered (L₀ : Ledger) (t₀ : Nat) (p : MiningPool) : Prop :=
  ∀ wallet, weigh (transferMicro (trimLower wallet)) p.mempool ≤
    spendableMicro L₀ t₀ (trimLower wallet)

section Steps

variable {A : Auth} {c : Caps} {W : World} {L L₀ : Ledger} {nowMs t₀ attempt : Nat}
  {producerId : Str} {p : MiningPool} {env : SignedTxEnvelopeV1}
  {txs queue mp : List SignedTxEnvelopeV1} {wallet : Str}

/-- What `tx_affordable` adds up. -/
theorem waitingMicro_eq (wallet : Str) (pending : List SignedTxEnvelopeV1) :
    waitingMicro wallet pending = min (weigh (transferMicro wallet) pending) u64Max := by
  have hacc : ∀ (pending : List SignedTxEnvelopeV1) (acc : Nat), acc ≤ u64Max →
      pending.foldl (fun acc e => match e.tx with
        | .transfer f _ a _ => if eqIgnoreAsciiCase (trim f) wallet then satAdd acc a else acc
        | _ => acc) acc = min (acc + weigh (transferMicro wallet) pending) u64Max := by
    intro pending
    induction pending with
    | nil =>
      intro acc hacc
      exact (Nat.min_eq_left hacc).symm
    | cons e pending ih =>
      intro acc hacc
      have hone : (match e.tx with
          | .transfer f _ a _ => if eqIgnoreAsciiCase (trim f) wallet then satAdd acc a else acc
          | _ => acc) = min (acc + transferMicro wallet e) u64Max := by
        unfold transferMicro
        split
        · split
          · rfl
          · exact (Nat.min_eq_left hacc).symm
        · exact (Nat.min_eq_left hacc).symm
      rw [List.foldl_cons, hone, ih _ (Nat.min_le_right _ _)]
      have hcons : weigh (transferMicro wallet) (e :: pending) =
          transferMicro wallet e + weigh (transferMicro wallet) pending := List.sum_cons
      rw [hcons]
      omega
  have h := hacc pending 0 (Nat.zero_le _)
  rw [Nat.zero_add] at h
  exact h

/-- A transfer takes its amount from its sender and nothing from others. -/
theorem transferMicro_eq {f to' : Str} {amount bps : Nat} (h : env.tx = .transfer f to' amount bps)
    (wallet : Str) : transferMicro (trimLower wallet) env =
      if trimLower f = trimLower wallet then amount else 0 := by
  have hlower : toAsciiLowercase (trimLower wallet) = trimLower wallet := by
    unfold trimLower toAsciiLowercase
    rw [List.map_map]
    exact List.map_congr_left fun c _ => asciiLower_asciiLower c
  unfold transferMicro
  rw [h]
  unfold eqIgnoreAsciiCase
  rw [hlower]
  by_cases hw : trimLower f = trimLower wallet
  · exact (if_pos (beq_iff_eq.mpr hw)).trans (if_pos hw).symm
  · exact (if_neg fun heq => hw (beq_iff_eq.mp heq)).trans (if_neg hw).symm

/-- What is put back: some of what was in hand, each once, none that waits. -/
theorem requeueTxsFront_new (W : World) (txs queue : List SignedTxEnvelopeV1) :
    ∃ front, requeueTxsFront W txs queue = front ++ queue ∧ front ⊆ txs ∧ front.Nodup ∧
      ∀ e ∈ front, e ∉ queue := by
  have hfold : ∀ (txs front : List SignedTxEnvelopeV1), front.Nodup →
      (∀ e ∈ front, e ∉ queue) → (txs.foldl (putFront W queue) front).Nodup ∧
        ∀ e ∈ txs.foldl (putFront W queue) front, e ∉ queue ∧ (e ∈ front ∨ e ∈ txs) := by
    intro txs
    induction txs with
    | nil => exact fun front hnodup hnew => ⟨hnodup, fun e he => ⟨hnew e he, Or.inl he⟩⟩
    | cons env txs ih =>
      intro front hnodup hnew
      have hskip := ih front hnodup hnew
      have hleft : ∀ e ∈ txs.foldl (putFront W queue) front,
          e ∉ queue ∧ (e ∈ front ∨ e ∈ env :: txs) := fun e he =>
        ⟨(hskip.2 e he).1, (hskip.2 e he).2.imp_right (List.mem_cons_of_mem env)⟩
      rw [List.foldl_cons]
      cases hhash : txHashForEnv W env with
      | error _ =>
        have hsame : putFront W queue front env = front := by
          unfold putFront
          rw [hhash]
        rw [hsame]
        exact ⟨hskip.1, hleft⟩
      | ok h =>
        have hput : putFront W queue front env =
            if inQueue W (queue ++ front) env then front else front ++ [env] := by
          unfold putFront
          rw [hhash]
        rw [hput]
        by_cases hin : inQueue W (queue ++ front) env = true
        · rw [if_pos hin]
          exact ⟨hskip.1, hleft⟩
        · rw [if_neg hin]
          have hnot : env ∉ queue ++ front := fun hmem =>
            hin (inQueue_iff.mpr ⟨env, hmem, h, hhash, hhash⟩)
          have hmem : ∀ e, e ∈ front ++ [env] ↔ e ∈ front ∨ e = env := fun e => by
            rw [List.mem_append, List.mem_singleton]
          have hnew' : ∀ e ∈ front ++ [env], e ∉ queue := by
            intro e he
            rcases (hmem e).mp he with he | rfl
            · exact hnew e he
            · exact fun hq => hnot (List.mem_append_left _ hq)
          have hnodup' : (front ++ [env]).Nodup :=
            List.nodup_append_comm.mp (List.nodup_cons.mpr
              ⟨fun hf => hnot (List.mem_append_right _ hf), hnodup⟩)
          obtain ⟨hd, hall⟩ := ih _ hnodup' hnew'
          refine ⟨hd, fun e he => ⟨(hall e he).1, ?_⟩⟩
          rcases (hall e he).2 with hf | ht
          · rcases (hmem e).mp hf with hf | rfl
            · exact Or.inl hf
            · exact Or.inr List.mem_cons_self
          · exact Or.inr (List.mem_cons_of_mem env ht)
  obtain ⟨hnodup, hall⟩ := hfold txs [] List.nodup_nil fun e he => absurd he List.not_mem_nil
  refine ⟨_, requeueTxsFront_foldl txs queue, fun e he => ?_, hnodup, fun e he => (hall e he).1⟩
  exact (hall e he).2.resolve_left List.not_mem_nil

/-- What may wait, once everything in hand is put back. -/
def MiningPool.total (p : MiningPool) (wallet : Str) : Nat :=
  weighAll (transferMicro wallet) p.mempool p.inHand

theorem mem_inHand {h : Hand} {e : SignedTxEnvelopeV1} (hh : p.hands[attempt]? = some h)
    (he : e ∈ h.txs) : e ∈ p.inHand :=
  List.mem_flatMap.mpr ⟨h, List.mem_of_getElem? hh, he⟩

/-- An attempt that ends puts nothing in hand. -/
theorem inHand_erase (p : MiningPool) (attempt : Nat) :
    (p.hands.eraseIdx attempt).flatMap Hand.txs ⊆ p.inHand := by
  intro e he
  obtain ⟨h, hh, he⟩ := List.mem_flatMap.mp he
  exact List.mem_flatMap.mpr ⟨h, List.mem_of_mem_eraseIdx hh, he⟩

/-- Nor does one that keeps some of what it holds. -/
theorem inHand_set {h h' : Hand} (hh : p.hands[attempt]? = some h) (hsub : h'.txs ⊆ h.txs) :
    (p.hands.set attempt h').flatMap Hand.txs ⊆ p.inHand := by
  intro e he
  obtain ⟨g, hg, heg⟩ := List.mem_flatMap.mp he
  rcases List.mem_or_eq_of_mem_set hg with hg | hg
  · exact List.mem_flatMap.mpr ⟨g, hg, heg⟩
  · exact mem_inHand hh (hsub (hg ▸ heg))

/-- Some of what is in hand goes back in front of what waits, once each, and nothing new is taken. -/
def PutsBack (p q : MiningPool) : Prop :=
  ∃ front, q.mempool = front ++ p.mempool ∧ front ⊆ p.inHand ∧ front.Nodup ∧
    (∀ e ∈ front, e ∉ p.mempool) ∧ q.inHand ⊆ p.inHand

theorem PutsBack.refl (p : MiningPool) : PutsBack p p :=
  ⟨[], rfl, List.nil_subset _, List.nodup_nil, fun _ he => absurd he List.not_mem_nil,
    List.Subset.refl _⟩

/-- An attempt ends. -/
theorem putsBack_erase {n : Nat} : PutsBack p ⟨p.mempool, p.hands.eraseIdx attempt, n⟩ :=
  ⟨[], rfl, List.nil_subset _, List.nodup_nil, fun _ he => absurd he List.not_mem_nil,
    inHand_erase p attempt⟩

/-- An attempt requeues some of its transactions. -/
theorem putsBack_requeue {h : Hand} {txs : List SignedTxEnvelopeV1} {hands : List Hand} {n : Nat}
    (hh : p.hands[attempt]? = some h) (htxs : txs ⊆ h.txs)
    (hhands : hands.flatMap Hand.txs ⊆ p.inHand) :
    PutsBack p ⟨requeueTxsFront W txs p.mempool, hands, n⟩ := by
  obtain ⟨front, heq, hfront, hnodup, hnew⟩ := requeueTxsFront_new W txs p.mempool
  exact ⟨front, heq, fun e he => mem_inHand hh (htxs (hfront he)), hnodup, hnew, hhands⟩

theorem select_putsBack : PutsBack p (selectAndRequeue W L nowMs producerId attempt p) := by
  unfold selectAndRequeue
  split
  · rename_i taken hh
    cases hd : dropSettled W L taken [] with
    | error e => exact putsBack_erase
    | ok pending =>
      -- the block and those left for later are among those taken
      have hsub : (blockOf W L nowMs pending (minerId W producerId) p.blockFailures).1 ++
          (blockOf W L nowMs pending (minerId W producerId) p.blockFailures).2 ⊆ taken := by
        rw [blockOf_append]
        exact fun e he =>
          (dropSettled_sublist hd).subset ((select_sublist W L nowMs pending _).subset he)
      exact putsBack_requeue hh (fun e he => hsub (List.mem_append_right _ he))
        (inHand_set hh fun e he => hsub (List.mem_append_left _ he))
  · exact .refl p

theorem fail_putsBack : PutsBack p (failBlock W attempt p) := by
  unfold failBlock
  split
  · rename_i taken hh
    simp only
    split
    · exact putsBack_requeue hh (List.Subset.refl _) (inHand_erase p attempt)
    · exact putsBack_erase
  · exact .refl p

theorem PutsBack.total_le {q : MiningPool} (h : PutsBack p q) : q.total wallet ≤ p.total wallet := by
  obtain ⟨front, heq, hfront, hnodup, hnew, hhands⟩ := h
  unfold MiningPool.total
  rw [heq]
  exact weighAll_putBack hfront hnodup hnew hhands

theorem total_take : (takeMempool W L producerId p).total wallet ≤ p.total wallet := by
  unfold takeMempool
  split
  · exact Nat.le_refl _
  · exact weighAll_take _ _ _

theorem spendableMicro_le (L : Ledger) (nowMs : Nat) (wallet : Str) :
    spendableMicro L nowMs wallet ≤ Ledger.amountAt L.balances wallet := by
  unfold spendableMicro
  cases L.lockedBalanceMicro .saturating wallet nowMs with
  | ok locked => exact Nat.sub_le _ _
  | error e => exact Nat.zero_le _

/-- `tx_affordable` of a transfer. -/
theorem le_of_txAffordable {f to' : Str} {amount bps : Nat}
    (htx : env.tx = .transfer f to' amount bps) (h : (txAffordable L nowMs env mp).isOk = true) :
    satAdd (waitingMicro (trimLower f) mp) amount ≤ spendableMicro L nowMs (trimLower f) := by
  unfold txAffordable at h
  rw [htx] at h
  unfold spendableMicro
  cases hlocked : L.lockedBalanceMicro .saturating (trimLower f) nowMs with
  | error e =>
    simp only [hlocked] at h
    cases h
  | ok locked =>
    simp only [hlocked, Except.mapError] at h
    obtain ⟨u, hu⟩ := exists_ok h
    exact require_eq_ok.mp hu

/-- An admission leaves what waits and is in hand within the balance of every wallet. -/
theorem total_enqueue (hsteady : ∀ w, spendableMicro L nowMs w = spendableMicro L₀ t₀ w)
    (hbelow : ∀ w, spendableMicro L₀ t₀ w < u64Max)
    (hfits : FitsWithHands L₀ t₀ p (.enqueue L nowMs env))
    (h : p.total (trimLower wallet) ≤ spendableMicro L₀ t₀ (trimLower wallet)) :
    weighAll (transferMicro (trimLower wallet))
      (enqueueWithoutBroadcast A c L nowMs env p.mempool).2 p.inHand ≤
        spendableMicro L₀ t₀ (trimLower wallet) := by
  rcases enqueue_cases A c L nowMs env p.mempool with
    ⟨e, -, heq⟩ | ⟨hchecks, es, rest, hev, -, ⟨⟨e, heq⟩, -, -⟩ | ⟨⟨b, heq⟩, -⟩⟩
  · rw [heq]
    exact h
  · rw [heq]
    exact (weighAll_drop hev.sublist (List.Subset.refl _)).trans h
  · rw [heq]
    have hdrop : weighAll (transferMicro (trimLower wallet)) (rest ++ [env]) p.inHand ≤
        weighAll (transferMicro (trimLower wallet)) (p.mempool ++ [env]) p.inHand :=
      weighAll_drop (hev.sublist.append (List.Sublist.refl _)) (List.Subset.refl _)
    refine hdrop.trans ?_
    unfold weighAll
    rw [weigh_append, weigh_singleton]
    have hhand := weighHand_concat_le (transferMicro (trimLower wallet)) p.mempool p.inHand env
    unfold MiningPool.total weighAll at h
    by_cases hzero : transferMicro (trimLower wallet) env = 0
    · omega
    · -- the transfer is the wallet's
      have htx : ∃ f to' amount bps, env.tx = .transfer f to' amount bps := by
        unfold transferMicro at hzero
        split at hzero
        · exact ⟨_, _, _, _, by assumption⟩
        · exact absurd rfl hzero
      obtain ⟨f, to', amount, bps, htx⟩ := htx
      have hamount := transferMicro_eq htx wallet
      by_cases hf : trimLower f = trimLower wallet
      · rw [if_pos hf] at hamount
        have haff : (txAffordable L nowMs env p.mempool).isOk = true := by
          simp only [admissionChecks, bind_eq_ok] at hchecks
          obtain ⟨-, -, -, -, hlast⟩ := hchecks
          cases hcase : txAffordable L nowMs env p.mempool with
          | error e =>
            rw [hcase] at hlast
            cases hlast
          | ok u => rfl
        have hfit := hfits f to' amount bps htx haff
        have hcheck := le_of_txAffordable htx haff
        rw [hf] at hfit hcheck
        rw [hsteady, waitingMicro_eq] at hcheck
        simp only at hfit
        have hlt := hbelow (trimLower wallet)
        unfold satAdd at hcheck
        by_cases hheld : 0 < weighHand (transferMicro (trimLower wallet)) (p.mempool ++ [env])
            p.inHand
        · have := hfit hheld
          omega
        · omega
      · rw [if_neg hf] at hamount
        exact absurd hamount hzero

/-- **One step** keeps what waits and is in hand within the balances. -/
theorem total_step {a : MiningAction} (hbelow : ∀ w, spendableMicro L₀ t₀ w < u64Max)
    (hquiet : Quiet W L₀ t₀ p a) (hfits : FitsWithHands L₀ t₀ p a)
    (h : p.total (trimLower wallet) ≤ spendableMicro L₀ t₀ (trimLower wallet)) :
    (a.step A c W p).total (trimLower wallet) ≤ spendableMicro L₀ t₀ (trimLower wallet) := by
  cases a with
  | enqueue L nowMs env =>
    refine total_enqueue (fun w => ?_) hbelow hfits h
    unfold spendableMicro
    have hw := hquiet.1 w
    simp only [MiningAction.ledger] at hw
    rw [hw.1, hw.2]
  | take L nowMs producerId => exact total_take.trans h
  | select L nowMs producerId attempt => exact select_putsBack.total_le.trans h
  | fail L nowMs producerId attempt => exact fail_putsBack.total_le.trans h

/-- A step on the ledger of the start. -/
theorem quiet_enqueue (p : MiningPool) (env : SignedTxEnvelopeV1) :
    Quiet W L₀ t₀ p (.enqueue L₀ t₀ env) := ⟨fun _ => ⟨rfl, rfl⟩, trivial⟩

theorem quiet_take (p : MiningPool) (producerId : Str) :
    Quiet W L₀ t₀ p (.take L₀ t₀ producerId) := ⟨fun _ => ⟨rfl, rfl⟩, trivial⟩

theorem quiet_select (p : MiningPool) (producerId : Str) (attempt : Nat) :
    Quiet W L₀ t₀ p (.select L₀ t₀ producerId attempt) := ⟨fun _ => ⟨rfl, rfl⟩, trivial⟩

/-- **A run** keeps them so. -/
theorem PendingRun.total_le (hbelow : ∀ w, spendableMicro L₀ t₀ w < u64Max)
    (h : PendingRun A c W (fun p a => Quiet W L₀ t₀ p a ∧ FitsWithHands L₀ t₀ p a) p)
    (wallet : Str) : p.total (trimLower wallet) ≤ spendableMicro L₀ t₀ (trimLower wallet) := by
  induction h with
  | start => exact Nat.zero_le _
  | step a _ allowed ih => exact total_step hbelow allowed.1 allowed.2 ih

end Steps

end TetCore.Mempool

namespace TetCore.Sample

open TetCore.Lib TetCore.Mempool TetCore.Consensus

/-- `alice` sends 30 of her 50 TET. -/
def spend (receiver : Str) : SignedTxEnvelopeV1 :=
  signed (.transfer alice receiver (30 * stevemon) 100)

/-- The ledger of `attempt`. -/
def bonded : Ledger := (attempt [] 0).node.ledger

theorem bonded_balance_le (w : Str) : Ledger.amountAt bonded.balances w ≤ 1000 * stevemon := by
  show (((Tree.empty.insert walletWorkerPool (1000 * stevemon)).insert alice
    (50 * stevemon)).get w).getD 0 ≤ _
  rw [Tree.get_insert, Tree.get_insert]
  split
  · decide
  · split
    · decide
    · rw [Tree.get_empty]
      decide

/-- A step of the node with `bonded`. -/
def miningStep (p : MiningPool) (a : MiningAction) : MiningPool :=
  a.step auth ⟨none, none⟩ (World.sample 0) p

/-- A transfer and a registration that fails its block wait. -/
def spendWaits : MiningPool :=
  miningStep (miningStep ⟨[], [], 0⟩ (.enqueue bonded 0 (spend bob))) (.enqueue bonded 0 blankProfile)

/-- They are taken, and a block of them is being made. -/
def spendInHand : MiningPool :=
  miningStep (miningStep spendWaits (.take bonded 0 node)) (.select bonded 0 node 0)

/-- The steps up to there: nothing was in hand when they came. -/
theorem spendInHand_run {ok : MiningPool → MiningAction → Prop}
    (hok : ∀ p a, Quiet (World.sample 0) bonded 0 p a → FitsWithHands bonded 0 p a → ok p a) :
    PendingRun auth ⟨none, none⟩ (World.sample 0) ok spendInHand := by
  have hnone : ∀ (p : MiningPool) env, p.hands = [] →
      FitsWithHands bonded 0 p (.enqueue bonded 0 env) := by
    intro p env hp f to' amount bps _ _ wallet held hpos
    have hzero : held = 0 := by
      show weighHand (transferMicro wallet) (p.mempool ++ [env]) p.inHand = 0
      unfold MiningPool.inHand
      rw [hp]
      rfl
    omega
  have hstart : PendingRun auth ⟨none, none⟩ (World.sample 0) ok ⟨[], [], 0⟩ := .start
  have hspend := PendingRun.step _ hstart (hok _ _ (quiet_enqueue _ _) (hnone _ (spend bob) rfl))
  have hprofile := PendingRun.step _ hspend
    (hok _ _ (quiet_enqueue _ _) (hnone _ blankProfile rfl))
  have htake := PendingRun.step (.take bonded 0 node) hprofile (hok _ _ (quiet_take _ _) trivial)
  unfold spendInHand spendWaits miningStep
  exact PendingRun.step (.select bonded 0 node 0) htake (hok _ _ (quiet_select _ _ _) trivial)

end TetCore.Sample

namespace TetCore.Mempool

open TetCore.Lib TetCore.Consensus

/-- **Pending transfers are covered** in every run on a ledger whose balances and locks stay as they
are, with blocks that fail with nothing written, in which each transfer admitted while others of its
sender are in hand fits the balance together with them: the transfers of a wallet in the mempool add
up to at most its balance less its locks. -/
theorem pending_transfers_covered {A : Auth} {c : Caps} {W : World} {L₀ : Ledger} {t₀ : Nat}
    {p : MiningPool} (hbelow : ∀ w, spendableMicro L₀ t₀ w < u64Max)
    (h : PendingRun A c W (fun p a => Quiet W L₀ t₀ p a ∧ FitsWithHands L₀ t₀ p a) p) :
    Covered L₀ t₀ p :=
  fun wallet => (Nat.le_add_right _ _).trans (h.total_le hbelow wallet)

/-- While a block with 30 of her 50 TET is made, `alice` sends 10 more. -/
theorem pending_transfers_covered_inHand :
    Covered Sample.bonded 0
      (Sample.miningStep Sample.spendInHand (.enqueue Sample.bonded 0 Sample.transfer)) := by
  refine pending_transfers_covered (fun w => ?_) (.step _
    (Sample.spendInHand_run fun _ _ hquiet hfits => ⟨hquiet, hfits⟩) ⟨?_, ?_⟩)
  · exact ((spendableMicro_le _ _ w).trans (Sample.bonded_balance_le w)).trans_lt (by decide)
  · exact quiet_enqueue _ _
  · intro f to' amount bps htx _
    cases htx
    have hfits : weighHand (transferMicro (trimLower Sample.alice))
        (Sample.spendInHand.mempool ++ [Sample.transfer]) Sample.spendInHand.inHand +
          weigh (transferMicro (trimLower Sample.alice)) Sample.spendInHand.mempool +
          10 * stevemon ≤ spendableMicro Sample.bonded 0 (trimLower Sample.alice) := by
      decide +kernel
    exact fun _ => hfits

/-- While a block with 30 of her 50 TET is made, `alice` sends 30 again; the block fails, and 60 TET
wait. -/
theorem pending_transfers_exceed :
    ¬ ∀ (A : Auth) (c : Caps) (W : World) (L₀ : Ledger) (t₀ : Nat) (p : MiningPool),
      (∀ w, spendableMicro L₀ t₀ w < u64Max) → PendingRun A c W (Quiet W L₀ t₀) p →
        Covered L₀ t₀ p := by
  intro h
  let again := Sample.miningStep Sample.spendInHand
    (.enqueue Sample.bonded 0 (Sample.spend Sample.carol))
  let after := Sample.miningStep again (.fail Sample.bonded 0 Sample.node 0)
  have hall : again.hands = [⟨[Sample.spend Sample.bob, Sample.blankProfile], true⟩] ∧
      (buildAndApplyBlock (World.sample 0) 0 (minerId (World.sample 0) Sample.node)
        [Sample.spend Sample.bob, Sample.blankProfile] Sample.bonded).1.isErr = true ∧
      spendableMicro Sample.bonded 0 (trimLower Sample.alice) <
        weigh (transferMicro (trimLower Sample.alice)) after.mempool := by
    decide +kernel
  obtain ⟨hhands, herr, hlt⟩ := hall
  have hagain : PendingRun Sample.auth ⟨none, none⟩ (World.sample 0)
      (Quiet (World.sample 0) Sample.bonded 0) again :=
    .step _ (Sample.spendInHand_run fun _ _ hquiet _ => hquiet)
      (quiet_enqueue _ _)
  have hfail : Quiet (World.sample 0) Sample.bonded 0 again
      (.fail Sample.bonded 0 Sample.node 0) := by
    refine ⟨fun _ => ⟨rfl, rfl⟩, fun txs htxs => ?_⟩
    rw [hhands] at htxs
    cases htxs
    rcases buildAndApplyBlock_cases (World.sample 0) 0 (minerId (World.sample 0) Sample.node)
      [Sample.spend Sample.bob, Sample.blankProfile] Sample.bonded with ⟨o, L', hrun, -⟩ | hrun
    · rw [hrun] at herr
      cases herr
    · exact hrun
  have hcovered := h Sample.auth ⟨none, none⟩ (World.sample 0) Sample.bonded 0 after
    (fun w => ((spendableMicro_le _ _ w).trans (Sample.bonded_balance_le w)).trans_lt (by decide))
    (.step _ hagain hfail) Sample.alice
  exact absurd hcovered (Nat.not_le.mpr hlt)

end TetCore.Mempool
