import TetCore.Ledger.Spending
import TetCore.Mempool.Coverage
import TetCore.Payouts.Limits

/-!
# The floors of the payers

`post_grants_welcome` and `post_demo_sponsor_fee` beside `mine_pending_block_as`. Each refuses a payout
that would take its payer's balance below its floor. A payout that is accepted waits in the mempool,
then is in the hand of a mining attempt, and leaves the balance when its block is applied. The grant
handler counts the transfers that wait when it reads the mempool, which is before it reads the
balance; the sponsor's counts none.

* `above_step`: the balance covers the floor and all that is in flight, before and after a step in
  which a payout is decided on only if what its handler counts covers what is in flight, or it fits
  anyway.
* `floors_kept`: so the floors hold in every run of such steps.
* `sponsor_below_floor`: two fees in one block.
-/

namespace TetCore.Payouts

open TetCore.Lib TetCore.Tmail TetCore.Consensus TetCore.Mempool
open TetCore.Ledger (outgoingMicro)

/-- A node that pays and mines: its ledger, its mempool with the attempts under way, the payers, and
its clock. -/
structure PayingNode where
  ledger : Ledger
  pool : MiningPool
  payers : Payers
  /-- What the grant handler found waiting, until it decides. -/
  pending : Option Nat
  clock : Nat

/-- A step of a handler, of another submission or of a mining attempt. -/
inductive NodeAction where
  | readPending
  | claim (c : GrantClaimV1) (store : GrantStore) (claimedMs : Nat)
  | claimSubmitted
  | claimRecorded
  | request (req : SponsorFeeRequestV1) (clientKey : Str) (requestedMs : Nat)
      (fileSender : Option Str) (fresh : Bytes)
  | requestSubmitted
  | requestRecorded
  | upload (fileId senderWalletId : Str)
  | submit (env : SignedTxEnvelopeV1)
  | take (producerId : Str)
  | select (producerId : Str) (attempt : Nat)
  | build (producerId : Str) (attempt : Nat)

/-- `pending_outgoing_micro`. -/
def pendingOutgoingMicro (mempool : List SignedTxEnvelopeV1) (wallet : Str) : Nat :=
  (mempool.filterMap fun e => match e.tx with
    | .transfer f _ amountMicro _ =>
      if eqIgnoreAsciiCase (trim f) wallet then some amountMicro else none
    | _ => none).foldl satAdd 0

section Steps

variable (A : Auth) (c : Caps) (W : World) (P : GrantPayer) (S : DemoSponsor)

namespace PayingNode

/-- `verify_envelope_v1` and `submit_local_tx` of a payout: whether it is accepted. -/
def submitPayout (nowMs : Nat) (env : SignedTxEnvelopeV1) (x : PayingNode) : Bool × PayingNode :=
  match W.verifyEnvelopeV1 env with
  | .error _ => (false, x)
  | .ok _ =>
    let r := enqueueWithoutBroadcast A c x.ledger nowMs env x.pool.mempool
    (r.1.isOk, { x with pool := { x.pool with mempool := r.2 } })

/-- `post_grants_welcome` up to `pending_outgoing_micro`, once it has the lock. -/
def readPending (x : PayingNode) : PayingNode :=
  match x.payers.grantPhase, x.pending with
  | .idle, none => { x with pending := some (pendingOutgoingMicro x.pool.mempool P.walletId) }
  | _, _ => x

/-- From there up to the decision. -/
def claim (nowMs : Nat) (cl : GrantClaimV1) (store : GrantStore) (claimedMs : Nat)
    (x : PayingNode) : PayingNode :=
  match x.pending with
  | none => x
  | some pending => { x with
      payers := x.payers.claim P cl store claimedMs
        (spendableMicro x.ledger nowMs P.walletId - pending)
      pending := none }

/-- The submission of the transfer. -/
def claimSubmitted (nowMs : Nat) (x : PayingNode) : PayingNode :=
  match x.payers.grantPhase with
  | .decided env _ =>
    let r := x.submitPayout A c W nowMs env
    { r.2 with payers := x.payers.claimSubmitted r.1 }
  | _ => x

/-- `post_demo_sponsor_fee` up to the decision, once it has the lock. -/
def request (nowMs : Nat) (req : SponsorFeeRequestV1) (clientKey : Str) (requestedMs : Nat)
    (fileSender : Option Str) (fresh : Bytes) (x : PayingNode) : PayingNode :=
  { x with
    payers := x.payers.request S 0 req clientKey requestedMs
      (spendableMicro x.ledger nowMs S.walletId) fileSender fresh }

/-- The submission of the fee. -/
def requestSubmitted (nowMs : Nat) (x : PayingNode) : PayingNode :=
  match x.payers.sponsorPhase with
  | .decided env _ _ =>
    let r := x.submitPayout A c W nowMs env
    { r.2 with payers := x.payers.requestSubmitted r.1 }
  | _ => x

/-- `mine_pending_block_as` from its selection on: the block is applied, or fails. -/
def build (nowMs : Nat) (producerId : Str) (attempt : Nat) (x : PayingNode) : PayingNode :=
  match x.pool.hands[attempt]? with
  | some ⟨txs, true⟩ =>
    match buildAndApplyBlock W nowMs (minerId W producerId) txs x.ledger with
    | (.err (.nothingWritten _), L) => { x with ledger := L, pool := failBlock W attempt x.pool }
    | (_, L) => { x with ledger := L, pool := ⟨x.pool.mempool, x.pool.hands.eraseIdx attempt, 0⟩ }
  | _ => x

/-- One step, apart from the clock. -/
def act (nowMs : Nat) (x : PayingNode) : NodeAction → PayingNode
  | .readPending => x.readPending P
  | .claim cl store claimedMs => x.claim P nowMs cl store claimedMs
  | .claimSubmitted => x.claimSubmitted A c W nowMs
  | .claimRecorded => { x with payers := x.payers.claimRecorded }
  | .request req clientKey requestedMs fileSender fresh =>
    x.request S nowMs req clientKey requestedMs fileSender fresh
  | .requestSubmitted => x.requestSubmitted A c W nowMs
  | .requestRecorded => { x with payers := x.payers.requestRecorded }
  | .upload fileId sender =>
    { x with payers := { x.payers with sponsor := x.payers.sponsor.recordUpload fileId sender } }
  | .submit env => { x with pool := { x.pool with
      mempool := (enqueueWithoutBroadcast A c x.ledger nowMs env x.pool.mempool).2 } }
  | .take producerId => { x with pool := takeMempool W x.ledger producerId x.pool }
  | .select producerId attempt =>
    { x with pool := selectAndRequeue W x.ledger nowMs producerId attempt x.pool }
  | .build producerId attempt => x.build W nowMs producerId attempt

/-- One step, at a time. -/
def step (nowMs : Nat) (x : PayingNode) (a : NodeAction) : PayingNode :=
  { x.act A c W P S nowMs a with clock := nowMs }

end PayingNode

end Steps

/-- The payouts that are decided on and not submitted. -/
def Payers.decided (p : Payers) : List SignedTxEnvelopeV1 :=
  (match p.grantPhase with
    | .decided env _ => [env]
    | _ => []) ++
  match p.sponsorPhase with
  | .decided env _ _ => [env]
  | _ => []

/-- What goes out of a wallet in transactions that are decided on, wait, or are in a hand. -/
def PayingNode.inFlight (x : PayingNode) (wallet : Str) : Nat :=
  weigh (outgoingMicro wallet) (x.pool.mempool ++ x.pool.inHand) +
    weigh (outgoingMicro wallet) x.payers.decided

/-- The balance covers a payout, the floor, and all that is in flight. -/
def PayingNode.Fits (x : PayingNode) (nowMs floor : Nat) (wallet : Str) (payout : Nat) : Prop :=
  floor + payout + x.inFlight wallet ≤ spendableMicro x.ledger nowMs wallet

/-- Where a wallet's floor is `floor`, a handler that decides on a payout from it counts what is in
flight and keeps that floor, or the payout fits; and only the handlers spend from it. -/
def Accounted (P : GrantPayer) (S : DemoSponsor) (wallet : Str) (floor nowMs : Nat)
    (x : PayingNode) : NodeAction → Prop
  | .claim _ _ _ => P.walletId = wallet → ∀ pending, x.pending = some pending →
      pending < x.inFlight wallet ∨ payerFloorMicro < floor →
        x.Fits nowMs floor wallet welcomeTransferMicro
  | .request _ _ _ _ _ => S.walletId = wallet →
      0 < x.inFlight wallet ∨ satAdd S.caps.floorMicro fileFeeMicro < floor + fileFeeMicro →
        x.Fits nowMs floor wallet fileFeeMicro
  | .submit env => outgoingMicro wallet env = 0
  | _ => True

/-- The nodes that steps lead to, each step where `ok` allows it, with a clock that does not go
back. -/
inductive NodeRun (A : Auth) (c : Caps) (W : World) (P : GrantPayer) (S : DemoSponsor)
    (ok : Nat → PayingNode → NodeAction → Prop) (x₀ : PayingNode) : PayingNode → Prop where
  | start : NodeRun A c W P S ok x₀ x₀
  | step {x : PayingNode} (nowMs : Nat) (a : NodeAction) (before : NodeRun A c W P S ok x₀ x)
      (clock : x.clock ≤ nowMs) (allowed : ok nowMs x a) :
      NodeRun A c W P S ok x₀ (x.step A c W P S nowMs a)

/-- The balance covers the floor and all that is in flight. -/
structure Above (wallet : Str) (floor : Nat) (x : PayingNode) : Prop where
  bounded : Ledger.Bounded x.ledger.balances
  covers : floor + x.inFlight wallet ≤ spendableMicro x.ledger x.clock wallet

section Invariant

variable {A : Auth} {c : Caps} {W : World} {P : GrantPayer} {S : DemoSponsor} {L L' : Ledger}
  {nowMs floor attempt : Nat} {wallet producerId : Str} {x : PayingNode} {p : MiningPool}
  {env : SignedTxEnvelopeV1}

theorem spendableMicro_eq (L : Ledger) (nowMs : Nat) (wallet : Str) :
    spendableMicro L nowMs wallet =
      Ledger.amountAt L.balances wallet - L.lockedMicro wallet nowMs := by
  unfold spendableMicro
  rw [Ledger.lockedBalanceMicro_saturating]

/-! ## Mempool and hands -/

/-- What goes out of a wallet in transactions that wait or are in a hand. -/
def load (wallet : Str) (p : MiningPool) : Nat :=
  weigh (outgoingMicro wallet) (p.mempool ++ p.inHand)

theorem load_eq (wallet : Str) (p : MiningPool) : load wallet p =
    weigh (outgoingMicro wallet) p.mempool + weigh (outgoingMicro wallet) p.inHand :=
  weigh_append _ _ _

theorem weigh_hands (a : SignedTxEnvelopeV1 → Nat) (l l' : List Hand) (h : Hand) :
    weigh a ((l ++ h :: l').flatMap Hand.txs) =
      weigh a ((l ++ l').flatMap Hand.txs) + weigh a h.txs := by
  rw [List.flatMap_append, List.flatMap_append, List.flatMap_cons, weigh_append, weigh_append,
    weigh_append]
  omega

/-- What is put back weighs no more than what was in hand. -/
theorem weigh_requeueTxsFront (a : SignedTxEnvelopeV1 → Nat)
    (txs queue : List SignedTxEnvelopeV1) :
    weigh a (requeueTxsFront W txs queue) ≤ weigh a txs + weigh a queue := by
  obtain ⟨front, heq, hsub, hnodup, -⟩ := requeueTxsFront_new W txs queue
  rw [heq, weigh_append]
  exact Nat.add_le_add_right (weigh_le_of_nodup hnodup hsub) _

theorem load_take : load wallet (takeMempool W L producerId p) ≤ load wallet p := by
  unfold takeMempool
  split
  · exact Nat.le_refl _
  · exact Nat.le_refl _

theorem load_select :
    load wallet (selectAndRequeue W L nowMs producerId attempt p) ≤ load wallet p := by
  unfold selectAndRequeue
  split
  · rename_i taken hh
    obtain ⟨l, l', heq, herase, hset⟩ := split_of_getElem? hh
    have hbefore : weigh (outgoingMicro wallet) p.inHand = weigh (outgoingMicro wallet)
        ((l ++ l').flatMap Hand.txs) + weigh (outgoingMicro wallet) taken := by
      unfold MiningPool.inHand
      rw [heq]
      exact weigh_hands _ l l' _
    rw [load_eq, load_eq, hbefore]
    cases hd : dropSettled W L taken [] with
    | error e =>
      simp only [MiningPool.inHand, herase]
      omega
    | ok pending =>
      -- the block and those left for later are among those taken
      have hsub : List.Sublist ((blockOf W L nowMs pending (minerId W producerId)
          p.blockFailures).1 ++ (blockOf W L nowMs pending (minerId W producerId)
          p.blockFailures).2) taken := by
        rw [blockOf_append]
        exact (select_sublist W L nowMs pending _).trans (dropSettled_sublist hd)
      have hle := weigh_sublist (a := outgoingMicro wallet) hsub
      rw [weigh_append] at hle
      have hput := weigh_requeueTxsFront (W := W) (outgoingMicro wallet)
        (blockOf W L nowMs pending (minerId W producerId) p.blockFailures).2 p.mempool
      simp only [MiningPool.inHand, hset, weigh_hands]
      omega
  · exact Nat.le_refl _

variable (wallet) in
/-- An attempt that ends lets go of what is in its hand. -/
theorem load_erase {txs : List SignedTxEnvelopeV1} {selected : Bool}
    (hh : p.hands[attempt]? = some ⟨txs, selected⟩) (mempool : List SignedTxEnvelopeV1) (n : Nat) :
    load wallet ⟨mempool, p.hands.eraseIdx attempt, n⟩ + weigh (outgoingMicro wallet) txs =
      weigh (outgoingMicro wallet) mempool + weigh (outgoingMicro wallet) p.inHand := by
  obtain ⟨l, l', heq, herase, -⟩ := split_of_getElem? hh
  rw [load_eq]
  unfold MiningPool.inHand
  simp only [herase]
  rw [heq, weigh_hands]
  simp only
  omega

variable (wallet attempt) in
theorem load_fail : load wallet (failBlock W attempt p) ≤ load wallet p := by
  unfold failBlock
  split
  · rename_i txs hh
    have herase := fun mempool n => load_erase wallet hh mempool n
    have hput := weigh_requeueTxsFront (W := W) (outgoingMicro wallet) txs p.mempool
    rw [load_eq wallet p]
    simp only
    split
    · have := herase (requeueTxsFront W txs p.mempool) (p.blockFailures + 1)
      omega
    · have := herase p.mempool 0
      omega
  · exact Nat.le_refl _

theorem load_enqueue (A : Auth) (c : Caps) (L : Ledger) (nowMs : Nat) (env : SignedTxEnvelopeV1)
    (wallet : Str) (p : MiningPool) :
    load wallet { p with mempool := (enqueueWithoutBroadcast A c L nowMs env p.mempool).2 } ≤
      load wallet p + if (enqueueWithoutBroadcast A c L nowMs env p.mempool).1.isOk
        then outgoingMicro wallet env else 0 := by
  rw [load_eq, load_eq]
  rcases enqueue_cases A c L nowMs env p.mempool with
    ⟨e, -, heq⟩ | ⟨-, es, rest, hev, -, ⟨⟨e, heq⟩, -, -⟩ | ⟨⟨b, heq⟩, -⟩⟩
  · rw [heq]
    exact Nat.le_add_right _ _
  · have := weigh_sublist (a := outgoingMicro wallet) hev.sublist
    rw [heq]
    simp only [MiningPool.inHand]
    omega
  · have := weigh_sublist (a := outgoingMicro wallet) hev.sublist
    rw [heq]
    simp only [MiningPool.inHand, weigh_append, weigh_singleton, Outcome.isOk, if_true]
    omega

/-! ## Blocks -/

variable (nowMs producerId) in
/-- A block that is not made leaves an undo record at most. -/
theorem buildAndApplyBlock_failed (txs : List SignedTxEnvelopeV1)
    (h : (buildAndApplyBlock W nowMs producerId txs L).1.isOk = false) :
    (buildAndApplyBlock W nowMs producerId txs L).2 = L ∨
      ∃ u, (buildAndApplyBlock W nowMs producerId txs L).2 = L.storeBlockUndo u := by
  cases hplan : planBlock W nowMs producerId txs L with
  | error e =>
    left
    simp only [buildAndApplyBlock, prepareBlock, Proc.bind_apply, Proc.mapErr, Proc.check, hplan]
  | ok b =>
    right
    refine ⟨L.prepareBlockUndo W nowMs b.blockId b.blockHeight b.txs b.txHashes b.producerId
      b.reward.totalRewardMicro, ?_⟩
    cases hr : Ledger.applyConsensusBlockBatch W nowMs b.blockHeight b.txs b.txHashes b.producerId
      b.reward.totalRewardMicro (L.storeBlockUndo (L.prepareBlockUndo W nowMs b.blockId
        b.blockHeight b.txs b.txHashes b.producerId b.reward.totalRewardMicro)) with
    | error e =>
      simp only [buildAndApplyBlock, prepareBlock, Proc.bind_apply, Proc.mapErr, Proc.check, hplan,
        Proc.write_apply, Proc.pure_apply, Proc.atomic, hr]
    | ok r =>
      simp only [buildAndApplyBlock, prepareBlock, Proc.bind_apply, Proc.mapErr, Proc.check, hplan,
        Proc.write_apply, Proc.pure_apply, Proc.atomic, hr, Outcome.isOk] at h
      cases h

/-- **A mined block** takes from a wallet at most what goes out of it in its transactions, and one
that fails takes nothing; locks stay. -/
theorem buildAndApplyBlock_spends {txs : List SignedTxEnvelopeV1}
    {r : Outcome BuildError MineOutcome} (hb : Ledger.Bounded L.balances)
    (hw : wallet ≠ walletWorkerPool)
    (h : buildAndApplyBlock W nowMs producerId txs L = (r, L')) :
    Ledger.Bounded L'.balances ∧ (∀ t, L'.lockedMicro wallet t = L.lockedMicro wallet t) ∧
      Ledger.amountAt L.balances wallet ≤ Ledger.amountAt L'.balances wallet +
        if r.isOk then weigh (outgoingMicro wallet) txs else 0 := by
  cases hok : r.isOk with
  | true =>
    obtain ⟨outcome, rfl⟩ := Outcome.exists_ok hok
    obtain ⟨b, root, M, hplan, -, -, -, L₁, happ, rfl⟩ := buildAndApplyBlock_ok h
    have htxs : ((b.recordArgs root).row M nowMs b.parentBlockId).txs = txs :=
      (planBlock_ok hplan).2.2.1
    have hspends := Ledger.apply_spends (L := L.storeBlockUndo _) (w := wallet) hb hw happ
    rw [htxs] at hspends
    have hbounded : Ledger.Bounded L₁.balances :=
      Ledger.apply_bounded (L := L.storeBlockUndo _) hb happ
    exact ⟨hbounded, fun t => Ledger.apply_locked happ wallet t, hspends⟩
  | false =>
    have hfailed := buildAndApplyBlock_failed (W := W) (L := L) nowMs producerId txs
      (by rw [h]; exact hok)
    rw [h] at hfailed
    rcases hfailed with rfl | ⟨u, rfl⟩
    · exact ⟨hb, fun _ => rfl, Nat.le_refl _⟩
    · exact ⟨hb, fun _ => rfl, Nat.le_refl _⟩

/-! ## Steps -/

theorem inFlight_eq (x : PayingNode) (wallet : Str) :
    x.inFlight wallet = load wallet x.pool + weigh (outgoingMicro wallet) x.payers.decided := rfl

/-- Later the balance covers as much. -/
theorem Above.later (h : Above wallet floor x) (ht : x.clock ≤ nowMs) :
    floor + x.inFlight wallet ≤ spendableMicro x.ledger nowMs wallet := by
  have hcovers := h.covers
  have hlocked := Ledger.lockedMicro_anti x.ledger wallet ht
  rw [spendableMicro_eq] at hcovers ⊢
  omega

/-- A step on the pool and the payers that puts no more in flight. -/
theorem Above.shrink (h : Above wallet floor x) (ht : x.clock ≤ nowMs) {y : PayingNode}
    (hledger : y.ledger = x.ledger) (hclock : y.clock = nowMs)
    (hle : y.inFlight wallet ≤ x.inFlight wallet) : Above wallet floor y where
  bounded := hledger ▸ h.bounded
  covers := by
    rw [hledger, hclock]
    have := h.later ht
    omega

/-- What the decisions of the grant payer and of the sponsor have in flight. -/
def grantLoad (wallet : Str) (phase : GrantPhase) : Nat :=
  match phase with
  | .decided env _ => outgoingMicro wallet env
  | _ => 0

def sponsorLoad (wallet : Str) (phase : SponsorPhase) : Nat :=
  match phase with
  | .decided env _ _ => outgoingMicro wallet env
  | _ => 0

theorem weigh_decided (wallet : Str) (p : Payers) :
    weigh (outgoingMicro wallet) p.decided =
      grantLoad wallet p.grantPhase + sponsorLoad wallet p.sponsorPhase := by
  unfold Payers.decided grantLoad sponsorLoad
  rw [weigh_append]
  congr 1
  · split
    · exact weigh_singleton _ _
    · rfl
  · split
    · exact weigh_singleton _ _
    · rfl

variable (wallet) in
/-- What a decision on a payout puts in flight. -/
theorem outgoing_grant {G : GrantRecords} {spendable : Nat} {g : GrantCommit}
    (h : Granted P G spendable env g) (hP : trimLower P.walletId = P.walletId) :
    outgoingMicro wallet env = if P.walletId = wallet then welcomeTransferMicro else 0 := by
  unfold outgoingMicro
  rw [h.transfer]
  simp only [hP]

variable (wallet) in
theorem outgoing_fee {s : SponsorState} {day spendable : Nat} {clientKey fileId sender : Str}
    {cm : SponsorCommit} (h : Sponsored S s day clientKey fileId sender spendable env cm)
    (hS : trimLower S.walletId = S.walletId) :
    outgoingMicro wallet env = if S.walletId = wallet then fileFeeMicro else 0 := by
  unfold outgoingMicro
  rw [h.fee]
  simp only [hS]

variable (wallet) in
/-- A claim that is decided on puts its transfer in flight, with the handler's check. -/
theorem grantLoad_claim (hP : trimLower P.walletId = P.walletId) (p : Payers) (cl : GrantClaimV1)
    (store : GrantStore) (nowMs spendable : Nat) :
    (p.claim P cl store nowMs spendable).sponsorPhase = p.sponsorPhase ∧
      (grantLoad wallet (p.claim P cl store nowMs spendable).grantPhase ≤
          grantLoad wallet p.grantPhase ∨
        P.walletId = wallet ∧ payerFloorMicro + welcomeTransferMicro ≤ spendable ∧
          grantLoad wallet (p.claim P cl store nowMs spendable).grantPhase =
            welcomeTransferMicro) := by
  unfold Payers.claim
  cases hphase : p.grantPhase with
  | idle =>
    simp only
    cases hd : P.decide p.grants cl store nowMs spendable with
    | error r => exact ⟨rfl, Or.inl (by rw [hphase])⟩
    | ok r =>
      obtain ⟨env, g⟩ := r
      have hgranted := decide_ok hd
      have hout := outgoing_grant wallet hgranted hP
      refine ⟨rfl, ?_⟩
      by_cases hw : P.walletId = wallet
      · rw [if_pos hw] at hout
        exact Or.inr ⟨hw, hgranted.floor, hout⟩
      · rw [if_neg hw] at hout
        exact Or.inl (le_of_eq hout)
  | decided env g => exact ⟨rfl, Or.inl (by rw [hphase])⟩
  | accepted g => exact ⟨rfl, Or.inl (by rw [hphase])⟩

variable (wallet) in
/-- So does a request that is decided on. -/
theorem sponsorLoad_request (hS : trimLower S.walletId = S.walletId) (p : Payers) (process : Nat)
    (req : SponsorFeeRequestV1) (clientKey : Str) (nowMs spendable : Nat)
    (fileSender : Option Str) (fresh : Bytes) :
    let q := p.request S process req clientKey nowMs spendable fileSender fresh
    q.grantPhase = p.grantPhase ∧
      (sponsorLoad wallet q.sponsorPhase ≤ sponsorLoad wallet p.sponsorPhase ∨
        S.walletId = wallet ∧ satAdd S.caps.floorMicro fileFeeMicro ≤ spendable ∧
          sponsorLoad wallet q.sponsorPhase = fileFeeMicro) := by
  simp only [Payers.request]
  cases hphase : p.sponsorPhase with
  | idle =>
    simp only
    cases hd : (S.decide p.sponsor req clientKey nowMs spendable fileSender fresh).1 with
    | error r => exact ⟨rfl, Or.inl (Nat.le_refl _)⟩
    | ok r =>
      obtain ⟨env, cm⟩ := r
      obtain ⟨-, hpassed⟩ := decide_sponsors hd
      have hout := outgoing_fee wallet hpassed hS
      refine ⟨rfl, ?_⟩
      by_cases hw : S.walletId = wallet
      · rw [if_pos hw] at hout
        exact Or.inr ⟨hw, hpassed.floor, hout⟩
      · rw [if_neg hw] at hout
        exact Or.inl (le_of_eq hout)
  | decided env fee cm => exact ⟨rfl, Or.inl (by rw [hphase])⟩
  | accepted fee cm => exact ⟨rfl, Or.inl (by rw [hphase])⟩

variable (wallet) in
/-- A payout that is submitted waits, or is given up. -/
theorem load_submitPayout (A : Auth) (c : Caps) (W : World) (nowMs : Nat)
    (env : SignedTxEnvelopeV1) (x : PayingNode) :
    (x.submitPayout A c W nowMs env).2.ledger = x.ledger ∧
      load wallet (x.submitPayout A c W nowMs env).2.pool ≤ load wallet x.pool +
        if (x.submitPayout A c W nowMs env).1 then outgoingMicro wallet env else 0 := by
  unfold PayingNode.submitPayout
  cases W.verifyEnvelopeV1 env with
  | error e => exact ⟨rfl, Nat.le_add_right _ _⟩
  | ok bytes => exact ⟨rfl, load_enqueue A c x.ledger nowMs env wallet x.pool⟩

/-- A block takes out of the balance no more than what leaves the hand. -/
theorem above_build (h : Above wallet floor x) (ht : x.clock ≤ nowMs)
    (hw : wallet ≠ walletWorkerPool) :
    Above wallet floor { x.build W nowMs producerId attempt with clock := nowMs } := by
  have hlater := h.later ht
  rw [inFlight_eq, spendableMicro_eq] at hlater
  unfold PayingNode.build
  split
  · rename_i txs hh
    cases hrun : buildAndApplyBlock W nowMs (minerId W producerId) txs x.ledger with
    | mk r L' =>
      obtain ⟨hbounded, hlocked, hspends⟩ := buildAndApplyBlock_spends h.bounded hw hrun
      have hdone := load_erase wallet hh x.pool.mempool 0
      rw [← load_eq] at hdone
      cases r with
      | ok outcome =>
        refine ⟨hbounded, ?_⟩
        rw [inFlight_eq, spendableMicro_eq]
        simp only [hlocked, Outcome.isOk, if_true] at hspends ⊢
        omega
      | hang =>
        refine ⟨hbounded, ?_⟩
        rw [inFlight_eq, spendableMicro_eq]
        simp only [hlocked, Outcome.isOk, Bool.false_eq_true, if_false] at hspends ⊢
        omega
      | err e =>
        simp only [Outcome.isOk, Bool.false_eq_true, if_false] at hspends
        cases e with
        | nothingWritten e =>
          have hfail := load_fail (W := W) (p := x.pool) attempt wallet
          refine ⟨hbounded, ?_⟩
          rw [inFlight_eq, spendableMicro_eq]
          simp only [hlocked]
          omega
        | maybeWritten e =>
          refine ⟨hbounded, ?_⟩
          rw [inFlight_eq, spendableMicro_eq]
          simp only [hlocked]
          omega
  · exact h.shrink ht rfl rfl (Nat.le_refl _)

/-- A claim that is decided on fits above the floor. -/
theorem above_claim {cl : GrantClaimV1} {store : GrantStore} {claimedMs : Nat}
    (h : Above wallet floor x) (ht : x.clock ≤ nowMs) (hP : trimLower P.walletId = P.walletId)
    (hok : Accounted P S wallet floor nowMs x (.claim cl store claimedMs)) :
    Above wallet floor { x.claim P nowMs cl store claimedMs with clock := nowMs } := by
  unfold PayingNode.claim
  cases hpending : x.pending with
  | none => exact h.shrink ht rfl rfl (Nat.le_refl _)
  | some pending =>
    have hlater := h.later ht
    obtain ⟨hsponsor, hgrant⟩ := grantLoad_claim wallet hP x.payers cl store claimedMs
      (spendableMicro x.ledger nowMs P.walletId - pending)
    refine ⟨h.bounded, ?_⟩
    rw [inFlight_eq, weigh_decided] at hlater ⊢
    simp only [hsponsor]
    rcases hgrant with hle | ⟨hw, hcheck, hload⟩
    · omega
    · rw [hload]
      -- either the handler counts all that is in flight, or the payout fits anyway
      by_cases hcounts : pending < x.inFlight wallet ∨ payerFloorMicro < floor
      · have hfits := hok hw pending hpending hcounts
        unfold PayingNode.Fits at hfits
        rw [inFlight_eq, weigh_decided] at hfits
        omega
      · rw [inFlight_eq, weigh_decided] at hcounts
        rw [hw] at hcheck
        omega

/-- So does a request that is decided on. -/
theorem above_request {req : SponsorFeeRequestV1} {clientKey : Str} {requestedMs : Nat}
    {fileSender : Option Str} {fresh : Bytes} (h : Above wallet floor x) (ht : x.clock ≤ nowMs)
    (hS : trimLower S.walletId = S.walletId)
    (hok : Accounted P S wallet floor nowMs x
      (.request req clientKey requestedMs fileSender fresh)) :
    Above wallet floor
      { x.request S nowMs req clientKey requestedMs fileSender fresh with clock := nowMs } := by
  have hlater := h.later ht
  obtain ⟨hgrant, hsponsor⟩ := sponsorLoad_request wallet hS x.payers 0 req clientKey
    requestedMs (spendableMicro x.ledger nowMs S.walletId) fileSender fresh
  refine ⟨h.bounded, ?_⟩
  rw [inFlight_eq, weigh_decided] at hlater ⊢
  simp only [PayingNode.request, hgrant]
  rcases hsponsor with hle | ⟨hw, hcheck, hload⟩
  · omega
  · rw [hload]
    by_cases hcounts : 0 < x.inFlight wallet ∨
        satAdd S.caps.floorMicro fileFeeMicro < floor + fileFeeMicro
    · have hfits := hok hw hcounts
      unfold PayingNode.Fits at hfits
      rw [inFlight_eq, weigh_decided] at hfits
      omega
    · rw [inFlight_eq, weigh_decided] at hcounts
      rw [hw] at hcheck
      omega

theorem above_claimSubmitted (h : Above wallet floor x) (ht : x.clock ≤ nowMs) :
    Above wallet floor { x.claimSubmitted A c W nowMs with clock := nowMs } := by
  unfold PayingNode.claimSubmitted
  cases hphase : x.payers.grantPhase with
  | decided env g =>
    obtain ⟨hledger, hload⟩ := load_submitPayout wallet A c W nowMs env x
    refine h.shrink ht hledger rfl ?_
    rw [inFlight_eq, inFlight_eq, weigh_decided, weigh_decided, hphase]
    simp only [Payers.claimSubmitted, hphase]
    cases haccepted : (x.submitPayout A c W nowMs env).1 with
    | true =>
      rw [haccepted, if_pos rfl] at hload
      simp only [if_true, grantLoad]
      omega
    | false =>
      rw [haccepted] at hload
      simp only [Bool.false_eq_true, if_false, grantLoad] at hload ⊢
      omega
  | idle => exact h.shrink ht rfl rfl (Nat.le_refl _)
  | accepted g => exact h.shrink ht rfl rfl (Nat.le_refl _)

theorem above_requestSubmitted (h : Above wallet floor x) (ht : x.clock ≤ nowMs) :
    Above wallet floor { x.requestSubmitted A c W nowMs with clock := nowMs } := by
  unfold PayingNode.requestSubmitted
  cases hphase : x.payers.sponsorPhase with
  | decided env fee cm =>
    obtain ⟨hledger, hload⟩ := load_submitPayout wallet A c W nowMs env x
    refine h.shrink ht hledger rfl ?_
    rw [inFlight_eq, inFlight_eq, weigh_decided, weigh_decided, hphase]
    simp only [Payers.requestSubmitted, hphase]
    cases haccepted : (x.submitPayout A c W nowMs env).1 with
    | true =>
      rw [haccepted, if_pos rfl] at hload
      simp only [if_true, sponsorLoad]
      omega
    | false =>
      rw [haccepted] at hload
      simp only [Bool.false_eq_true, if_false, sponsorLoad] at hload ⊢
      omega
  | idle => exact h.shrink ht rfl rfl (Nat.le_refl _)
  | accepted fee cm => exact h.shrink ht rfl rfl (Nat.le_refl _)

/-- What is accepted and recorded is no longer decided on. -/
theorem decided_recorded (wallet : Str) (p : Payers) :
    weigh (outgoingMicro wallet) p.claimRecorded.decided ≤ weigh (outgoingMicro wallet) p.decided ∧
      weigh (outgoingMicro wallet) p.requestRecorded.decided ≤
        weigh (outgoingMicro wallet) p.decided := by
  rw [weigh_decided, weigh_decided, weigh_decided]
  constructor
  · unfold Payers.claimRecorded
    split
    · exact Nat.add_le_add_right (Nat.zero_le _) _
    · exact Nat.le_refl _
  · unfold Payers.requestRecorded
    split
    · exact Nat.add_le_add_left (Nat.zero_le _) _
    · exact Nat.le_refl _

/-- **One step** leaves the floor and all that is in flight covered. -/
theorem above_step {a : NodeAction} (h : Above wallet floor x) (ht : x.clock ≤ nowMs)
    (hw : wallet ≠ walletWorkerPool) (hP : trimLower P.walletId = P.walletId)
    (hS : trimLower S.walletId = S.walletId) (hok : Accounted P S wallet floor nowMs x a) :
    Above wallet floor (x.step A c W P S nowMs a) := by
  cases a with
  | readPending =>
    have hread : x.readPending P = { x with pending := (x.readPending P).pending } := by
      unfold PayingNode.readPending
      split <;> rfl
    refine h.shrink ht ?_ rfl ?_
    · show (x.readPending P).ledger = x.ledger
      rw [hread]
    · show (x.readPending P).inFlight wallet ≤ x.inFlight wallet
      rw [hread]
      exact Nat.le_refl _
  | claim cl store claimedMs => exact above_claim h ht hP hok
  | claimSubmitted => exact above_claimSubmitted h ht
  | claimRecorded =>
    exact h.shrink ht rfl rfl (Nat.add_le_add_left (decided_recorded wallet x.payers).1 _)
  | request req clientKey requestedMs fileSender fresh => exact above_request h ht hS hok
  | requestSubmitted => exact above_requestSubmitted h ht
  | requestRecorded =>
    exact h.shrink ht rfl rfl (Nat.add_le_add_left (decided_recorded wallet x.payers).2 _)
  | upload fileId sender => exact h.shrink ht rfl rfl (Nat.le_refl _)
  | submit env =>
    have hzero : outgoingMicro wallet env = 0 := hok
    have hload := load_enqueue A c x.ledger nowMs env wallet x.pool
    rw [hzero, ite_self, Nat.add_zero] at hload
    exact h.shrink ht rfl rfl (Nat.add_le_add_right hload _)
  | take producerId =>
    exact h.shrink ht rfl rfl (Nat.add_le_add_right load_take _)
  | select producerId attempt =>
    exact h.shrink ht rfl rfl (Nat.add_le_add_right load_select _)
  | build producerId attempt => exact above_build h ht hw

/-- **A run** does. -/
theorem NodeRun.above {x₀ : PayingNode} {ok : Nat → PayingNode → NodeAction → Prop}
    (hr : NodeRun A c W P S ok x₀ x) (h : Above wallet floor x₀) (hw : wallet ≠ walletWorkerPool)
    (hP : trimLower P.walletId = P.walletId) (hS : trimLower S.walletId = S.walletId)
    (hok : ∀ nowMs x a, ok nowMs x a → Accounted P S wallet floor nowMs x a) :
    Above wallet floor x := by
  induction hr with
  | start => exact h
  | step nowMs a _ clock allowed ih => exact above_step ih clock hw hP hS (hok _ _ _ allowed)

end Invariant

/-- The node starts with nothing in flight and both payers at their floors or above. -/
structure StartsAbove (P : GrantPayer) (S : DemoSponsor) (x : PayingNode) : Prop where
  bounded : Ledger.Bounded x.ledger.balances
  nothing : x.inFlight P.walletId = 0 ∧ x.inFlight S.walletId = 0
  grants : payerFloorMicro ≤ spendableMicro x.ledger x.clock P.walletId
  sponsor : S.caps.floorMicro ≤ spendableMicro x.ledger x.clock S.walletId

/-- **The floors hold**: a payer with nothing in flight has at least its floor, now and later. -/
def FloorsHold (P : GrantPayer) (S : DemoSponsor) (x : PayingNode) : Prop :=
  ∀ nowMs, x.clock ≤ nowMs →
    (x.inFlight P.walletId = 0 → payerFloorMicro ≤ spendableMicro x.ledger nowMs P.walletId) ∧
      (x.inFlight S.walletId = 0 →
        S.caps.floorMicro ≤ spendableMicro x.ledger nowMs S.walletId)

/-- Only the handlers spend from the two wallets. -/
def SpentByHandlers (P : GrantPayer) (S : DemoSponsor) : NodeAction → Prop
  | .submit env => outgoingMicro P.walletId env = 0 ∧ outgoingMicro S.walletId env = 0
  | _ => True

/-- The wallet of a key pair: its name is the hex of the public key, which is not the reserved name
of the worker pool. -/
def IsKeyWallet (wallet : Str) : Prop :=
  (∃ key : Bytes, wallet = hexEncode key) ∧ wallet ≠ walletWorkerPool

theorem IsKeyWallet.lower {wallet : Str} (h : IsKeyWallet wallet) : trimLower wallet = wallet := by
  obtain ⟨⟨key, rfl⟩, -⟩ := h
  exact trimLower_hexEncode key

theorem Above.start {wallet : Str} {floor : Nat} {x : PayingNode}
    (hb : Ledger.Bounded x.ledger.balances) (hzero : x.inFlight wallet = 0)
    (hfloor : floor ≤ spendableMicro x.ledger x.clock wallet) : Above wallet floor x :=
  ⟨hb, by rw [hzero]; exact hfloor⟩

end TetCore.Payouts

namespace TetCore.Sample

open TetCore.Lib TetCore.Tmail TetCore.Payouts TetCore.Mempool TetCore.Consensus

/-- A node whose grant payer is at its floor and whose sponsor can pay one fee above its own. -/
def payingNode : PayingNode where
  ledger := { ledger with
    balances := ((Tree.empty.insert walletWorkerPool (1000 * stevemon)).insert carol
      (10 * stevemon)).insert bob (10 * stevemon + fileFeeMicro) }
  pool := ⟨[], [], 0⟩
  payers := twoUploaded.1
  pending := none
  clock := 0

/-- A step of the node, on the first day of the clock. -/
def payingStep (x : PayingNode) (a : NodeAction) : PayingNode :=
  x.step auth ⟨none, none⟩ (World.sample 0) grantPayer demoSponsor dayMs a

/-- `alice` asks for the fee of a file, from an address. -/
def askFee (fileId : Str) (address : String) : NodeAction :=
  .request (feeRequest fileId dayMs) address.toList dayMs (some alice) [7]

/-- The fee of the first file is accepted and recorded. -/
def feeAccepted : PayingNode :=
  payingStep (payingStep (payingStep payingNode (askFee fileOne "10.0.0.1")) .requestSubmitted)
    .requestRecorded

/-- And mined. -/
def feeMined : PayingNode :=
  payingStep (payingStep (payingStep feeAccepted (.take node)) (.select node 0)) (.build node 0)

/-- The fee of the second file is accepted while the first waits. -/
def feesAccepted : PayingNode :=
  payingStep (payingStep feeAccepted (askFee fileTwo "10.0.0.2")) .requestSubmitted

/-- And both are mined. -/
def feesMined : PayingNode :=
  payingStep (payingStep (payingStep feesAccepted (.take node)) (.select node 0)) (.build node 0)

theorem carol_key : IsKeyWallet grantPayer.walletId :=
  ⟨⟨List.replicate 32 0xcc, by decide +kernel⟩, by decide +kernel⟩

theorem bob_key : IsKeyWallet demoSponsor.walletId :=
  ⟨⟨List.replicate 32 0xbb, by decide +kernel⟩, by decide +kernel⟩

theorem payingNode_starts : StartsAbove grantPayer demoSponsor payingNode := by
  have hall : (payingNode.inFlight grantPayer.walletId = 0 ∧
      payingNode.inFlight demoSponsor.walletId = 0) ∧
      payerFloorMicro ≤ spendableMicro payingNode.ledger payingNode.clock grantPayer.walletId ∧
      demoSponsor.caps.floorMicro ≤
        spendableMicro payingNode.ledger payingNode.clock demoSponsor.walletId := by
    decide +kernel
  refine ⟨?_, hall.1, hall.2.1, hall.2.2⟩
  have hempty : Ledger.Bounded (Tree.empty : Tree Str Nat) := fun k v hv => by
    rw [Tree.get_empty] at hv
    cases hv
  exact ((hempty.insert _ (by decide)).insert _ (by decide)).insert _ (by decide)

/-- A step of a run of the sample node. -/
theorem payingStep_run (ok : Nat → PayingNode → NodeAction → Prop) {x : PayingNode}
    (hr : NodeRun auth ⟨none, none⟩ (World.sample 0) grantPayer demoSponsor ok payingNode x)
    (a : NodeAction) (hclock : x.clock ≤ dayMs) (hok : ok dayMs x a) :
    NodeRun auth ⟨none, none⟩ (World.sample 0) grantPayer demoSponsor ok payingNode
      (payingStep x a) := .step dayMs a hr hclock hok

/-- Up to the first fee, the sponsor has nothing in flight when it decides. -/
theorem feeAccepted_run (ok : Nat → PayingNode → NodeAction → Prop)
    (hok : ∀ x a, SpentByHandlers grantPayer demoSponsor a →
      Accounted grantPayer demoSponsor grantPayer.walletId payerFloorMicro dayMs x a →
      Accounted grantPayer demoSponsor demoSponsor.walletId demoSponsor.caps.floorMicro dayMs x a →
        ok dayMs x a) :
    NodeRun auth ⟨none, none⟩ (World.sample 0) grantPayer demoSponsor ok payingNode feeAccepted := by
  have hall : demoSponsor.walletId ≠ grantPayer.walletId ∧
      payingNode.inFlight demoSponsor.walletId = 0 ∧
      demoSponsor.caps.floorMicro + fileFeeMicro =
        satAdd demoSponsor.caps.floorMicro fileFeeMicro := by decide +kernel
  obtain ⟨hne, hzero, hfloor⟩ := hall
  have hask := payingStep_run ok .start (askFee fileOne "10.0.0.1") (Nat.zero_le _)
    (hok _ _ trivial (fun hw => absurd hw hne) fun _ hcount => by omega)
  have hsubmitted := payingStep_run ok hask .requestSubmitted (Nat.le_refl _)
    (hok _ _ trivial trivial trivial)
  exact payingStep_run ok hsubmitted .requestRecorded (Nat.le_refl _) (hok _ _ trivial trivial trivial)

/-- Mining is always allowed. -/
theorem mined_run {ok : Nat → PayingNode → NodeAction → Prop} {x : PayingNode}
    (hr : NodeRun auth ⟨none, none⟩ (World.sample 0) grantPayer demoSponsor ok payingNode x)
    (hclock : x.clock ≤ dayMs) (htake : ∀ x, ok dayMs x (.take node))
    (hselect : ∀ x, ok dayMs x (.select node 0)) (hbuild : ∀ x, ok dayMs x (.build node 0)) :
    NodeRun auth ⟨none, none⟩ (World.sample 0) grantPayer demoSponsor ok payingNode
      (payingStep (payingStep (payingStep x (.take node)) (.select node 0)) (.build node 0)) :=
  payingStep_run ok (payingStep_run ok (payingStep_run ok hr _ hclock (htake _)) _ (Nat.le_refl _) (hselect _)) _
    (Nat.le_refl _) (hbuild _)

end TetCore.Sample

namespace TetCore.Payouts

open TetCore.Lib TetCore.Tmail TetCore.Consensus TetCore.Mempool

/-- **The floors of the payers hold** in every run in which a handler decides on a payout only if it
counts all that is in flight from its wallet, or the payout fits above the floor together with it. The
wallets are keys, and only the handlers spend from them. -/
theorem floors_kept {A : Auth} {c : Caps} {W : World} {P : GrantPayer} {S : DemoSponsor}
    {x₀ x : PayingNode} (hP : IsKeyWallet P.walletId) (hS : IsKeyWallet S.walletId) (hstart : StartsAbove P S x₀)
    (hr : NodeRun A c W P S (fun nowMs x a =>
      Accounted P S P.walletId payerFloorMicro nowMs x a ∧
        Accounted P S S.walletId S.caps.floorMicro nowMs x a) x₀ x) : FloorsHold P S x := by
  have hgrants := hr.above (.start hstart.bounded hstart.nothing.1 hstart.grants) hP.2 hP.lower
    hS.lower fun _ _ _ hok => hok.1
  have hsponsor := hr.above (.start hstart.bounded hstart.nothing.2 hstart.sponsor) hS.2 hP.lower
    hS.lower fun _ _ _ hok => hok.2
  intro nowMs ht
  constructor
  · intro hzero
    have := hgrants.later ht
    omega
  · intro hzero
    have := hsponsor.later ht
    omega

/-- One fee is accepted and mined, and the sponsor is at its floor. -/
theorem floors_kept_feeMined :
    FloorsHold Sample.grantPayer Sample.demoSponsor Sample.feeMined ∧
      spendableMicro Sample.feeMined.ledger Sample.feeMined.clock Sample.demoSponsor.walletId =
        Sample.demoSponsor.caps.floorMicro := by
  have hrun := Sample.mined_run (Sample.feeAccepted_run (fun nowMs x a =>
    Accounted Sample.grantPayer Sample.demoSponsor Sample.grantPayer.walletId payerFloorMicro nowMs
        x a ∧
      Accounted Sample.grantPayer Sample.demoSponsor Sample.demoSponsor.walletId
        Sample.demoSponsor.caps.floorMicro nowMs x a)
    fun _ _ _ hgrants hsponsor => ⟨hgrants, hsponsor⟩) (Nat.le_refl _)
    (fun _ => ⟨trivial, trivial⟩) (fun _ => ⟨trivial, trivial⟩) fun _ => ⟨trivial, trivial⟩
  exact ⟨floors_kept Sample.carol_key Sample.bob_key Sample.payingNode_starts hrun,
    by decide +kernel⟩

/-- A second fee is accepted while the first waits, and after the block of both the sponsor is below
its floor. -/
theorem sponsor_below_floor :
    ¬ ∀ (A : Auth) (c : Caps) (W : World) (P : GrantPayer) (S : DemoSponsor) (x₀ x : PayingNode),
      IsKeyWallet P.walletId → IsKeyWallet S.walletId →
        StartsAbove P S x₀ → NodeRun A c W P S (fun _ _ a => SpentByHandlers P S a) x₀ x →
          FloorsHold P S x := by
  intro h
  have haccepted := Sample.feeAccepted_run (fun _ _ a =>
    SpentByHandlers Sample.grantPayer Sample.demoSponsor a) fun _ _ hspent _ _ => hspent
  have hsecond := Sample.payingStep_run _ (Sample.payingStep_run _ haccepted
    (Sample.askFee Sample.fileTwo "10.0.0.2") (Nat.le_refl _) trivial) .requestSubmitted
    (Nat.le_refl _) trivial
  have hmined := Sample.mined_run hsecond (Nat.le_refl _) (fun _ => trivial) (fun _ => trivial)
    fun _ => trivial
  have hfloor := (h _ _ _ _ _ _ Sample.feesMined Sample.carol_key Sample.bob_key
    Sample.payingNode_starts hmined _ (Nat.le_refl _)).2
  have hall : Sample.feesMined.inFlight Sample.demoSponsor.walletId = 0 ∧
      ¬ Sample.demoSponsor.caps.floorMicro ≤
        spendableMicro Sample.feesMined.ledger Sample.feesMined.clock
          Sample.demoSponsor.walletId := by decide +kernel
  exact hall.2 (hfloor hall.1)

end TetCore.Payouts
