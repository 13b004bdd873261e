import TetCore.Consensus.WalletRows
import TetCore.Ledger.Nonces

/-!
# Signed nonces over the life of a node

A node serves requests and makes calls, in any order; a call may fail and leave the ledger half way.
Neither the blocks nor their undo touch a wallet's nonce (`WalletRows`), and a signed request moves it
up or leaves it (`Ledger.exec_nonce`). So the nonces of the requests of a wallet that are carried out
strictly increase, over every run (`signed_nonces_once`). The transfers that
`settle_transfer_internal` answers before it looks at the nonce succeed with any nonce and do nothing
(`signed_nonce_repeats`).
-/

namespace TetCore.Consensus

open TetCore.Lib
open TetCore.Ledger (Op)

/-- What a node does: a request to the ledger, or a call of consensus. -/
inductive Event where
  | request (nowMs : Nat) (op : Op)
  | call (nowMs fuel : Nat) (c : Call)

/-- The ledger after an event, however it ends. -/
def Event.run (W : World) : Event → Ledger → Ledger
  | .request nowMs op, L => op.run W nowMs L
  | .call nowMs fuel c, L => c.run W nowMs fuel L

def runEvents (W : World) : List Event → Ledger → Ledger
  | [], L => L
  | e :: es, L => runEvents W es (e.run W L)

/-- The nonce of an event that is a signed request of `w`, is counted and succeeds. -/
def Event.accepted (W : World) (counts : Op → Bool) (w : Str) (L : Ledger) : Event → List Nat
  | .request nowMs op => match op.signedBy with
    | some (v, n) => if v = w ∧ counts op = true ∧ (op.exec W nowMs L).isOk = true then [n] else []
    | none => []
  | .call _ _ _ => []

/-- The nonces of the counted requests of `w` that succeed in a run, in their order. -/
def acceptedNonces (W : World) (counts : Op → Bool) (w : Str) : List Event → Ledger → List Nat
  | [], _ => []
  | e :: es, L => e.accepted W counts w L ++ acceptedNonces W counts w es (e.run W L)

section Events

variable {W : World} {L L' : Ledger} {w : Str}

/-- A request leaves the undo records. -/
theorem exec_blockUndo {op : Op} {nowMs : Nat} (h : op.exec W nowMs L = .ok L') :
    L'.blockUndo = L.blockUndo := by
  cases hop : op.isBlock with
  | false => rw [(Ledger.exec_within hop h).rest]
  | true =>
    cases op
    case applyConsensusBlockBatch =>
      rw [Op.exec, map_snd_eq_ok] at h
      obtain ⟨r, h⟩ := h
      rw [(Ledger.apply_frame h).rest]
    all_goals cases hop

theorem Event.accepted_signed {counts : Op → Bool} {op : Op} {nowMs n : Nat}
    (hs : op.signedBy = some (w, n)) (hc : counts op = true)
    (hrun : (op.exec W nowMs L).isOk = true) :
    Event.accepted W counts w L (.request nowMs op) = [n] := by
  simp only [Event.accepted, hs]
  exact if_pos ⟨trivial, hc, hrun⟩

theorem Event.accepted_nil {counts : Op → Bool} {op : Op} {nowMs : Nat}
    (h : ∀ n, op.signedBy = some (w, n) → counts op = true → (op.exec W nowMs L).isOk = false) :
    Event.accepted W counts w L (.request nowMs op) = [] := by
  cases hs : op.signedBy with
  | none => simp only [Event.accepted, hs]
  | some p =>
    obtain ⟨v, n⟩ := p
    simp only [Event.accepted, hs]
    refine if_neg ?_
    rintro ⟨rfl, hc, hrun⟩
    rw [h n hs hc] at hrun
    cases hrun

/-- One event: the undo records still spare the wallets, and the nonce is the last accepted one, or
unchanged if there is none. -/
theorem Event.run_nonce (e : Event) (hL : UndoSparesWallets L) (w : Str) :
    UndoSparesWallets (e.run W L) ∧
      ((∃ n, e.accepted W (fun op => !op.isNoop) w L = [n] ∧ L.walletNonce w < n ∧
          (e.run W L).walletNonce w = n) ∨
        (e.accepted W (fun op => !op.isNoop) w L = [] ∧
          (e.run W L).walletNonce w = L.walletNonce w)) := by
  cases e with
  | call nowMs fuel c =>
    obtain ⟨hL', hrows⟩ := c.run_keeps W nowMs fuel L hL
    refine ⟨hL', Or.inr ⟨rfl, ?_⟩⟩
    have hrow := hrows (.walletNonce w) rfl
    simp only [Ledger.readMeta, MetaKey.isCounter, if_true, Option.some.injEq,
      MetaVal.u64.injEq] at hrow
    exact hrow
  | request nowMs op =>
    cases hrun : op.exec W nowMs L with
    | error e =>
      rw [Event.run, Ledger.Op.run_of_error hrun]
      refine ⟨hL, Or.inr ⟨Event.accepted_nil fun n _ _ => ?_, rfl⟩⟩
      rw [hrun]
      rfl
    | ok L' =>
      rw [Event.run, Ledger.Op.run_of_ok hrun]
      constructor
      · unfold UndoSparesWallets
        rw [exec_blockUndo hrun]
        exact hL
      rcases Ledger.exec_nonce hrun w with ⟨n, hs, hnoop, hlt, hL'⟩ | ⟨hnoop, hL'⟩
      · refine Or.inl ⟨n, Event.accepted_signed hs ?_ ?_, hlt, hL'⟩
        · rw [hnoop]
          rfl
        · rw [hrun]
          rfl
      · refine Or.inr ⟨Event.accepted_nil fun n hs hcount => ?_, hL'⟩
        rw [hnoop n hs] at hcount
        cases hcount

theorem runEvents_spares (hL : UndoSparesWallets L) (es : List Event) :
    UndoSparesWallets (runEvents W es L) := by
  induction es generalizing L with
  | nil => exact hL
  | cons e es ih => exact ih (e.run_nonce hL []).1

/-- **Every run**: the accepted nonces increase from the nonce of the wallet on. -/
theorem acceptedNonces_increase (hL : UndoSparesWallets L) (es : List Event) :
    (acceptedNonces W (fun op => !op.isNoop) w es L).Pairwise (· < ·) ∧
      ∀ n ∈ acceptedNonces W (fun op => !op.isNoop) w es L, L.walletNonce w < n := by
  induction es generalizing L with
  | nil => exact ⟨List.Pairwise.nil, fun n hn => absurd hn List.not_mem_nil⟩
  | cons e es ih =>
    obtain ⟨hL', hone⟩ := e.run_nonce (W := W) hL w
    obtain ⟨hpair, habove⟩ := ih hL'
    unfold acceptedNonces
    rcases hone with ⟨n, hn, hlt, hnonce⟩ | ⟨hn, hnonce⟩
    · rw [hnonce] at habove
      rw [hn, List.singleton_append]
      refine ⟨List.pairwise_cons.mpr ⟨habove, hpair⟩, fun m hm => ?_⟩
      rcases List.mem_cons.mp hm with rfl | hm
      · exact hlt
      · exact hlt.trans (habove m hm)
    · rw [hnonce] at habove
      rw [hn, List.nil_append]
      exact ⟨hpair, habove⟩

end Events

/-- **Signed nonces are used once.** In every state that a node reaches from a ledger without undo
records, and over every run from there: the signed requests of a wallet that are carried out, transfers
to oneself or of nothing apart, have strictly increasing nonces above the wallet's; a signed request
that does not exceed the nonce changes nothing; and neither does one that fails, or a transfer to
oneself or of nothing. -/
theorem signed_nonces_once (W : World) {G : Ledger} (hG : ∀ id, G.blockUndo.get id = none)
    (before es : List Event) (w : Str) :
    let L := runEvents W before G
    (acceptedNonces W (fun op => !op.isNoop) w es L).Pairwise (· < ·) ∧
      (∀ n ∈ acceptedNonces W (fun op => !op.isNoop) w es L, L.walletNonce w < n) ∧
      (∀ (nowMs : Nat) (op : Op) (n : Nat), op.signedBy = some (w, n) → n ≤ L.walletNonce w →
        op.run W nowMs L = L) ∧
      ∀ (nowMs : Nat) (op : Op), (op.exec W nowMs L).isOk = false ∨ op.isNoop = true →
        op.run W nowMs L = L := by
  intro L
  have hspares : UndoSparesWallets G := by
    intro id u hu
    rw [hG id] at hu
    cases hu
  obtain ⟨hpair, habove⟩ := acceptedNonces_increase (w := w) (runEvents_spares hspares before) es
  refine ⟨hpair, habove, fun nowMs op n hs hn => Ledger.Op.run_of_stale hs hn, fun nowMs op h => ?_⟩
  rcases h with herr | hnoop
  · cases hrun : op.exec W nowMs L with
    | error e => exact Ledger.Op.run_of_error hrun
    | ok L' =>
      rw [hrun] at herr
      cases herr
  · exact Ledger.Op.run_of_noop hnoop

namespace Sample

/-- A block with the transfer of `alice` gives way to a longer branch without it. -/
def reorgEvents : List Event :=
  let W := World.sample 100000
  let n₁ := Sample.block W Sample.ledger 1 none []
  let n₂ := Sample.block W (Sample.gossiped W n₁ Sample.ledger) 2 (some n₁.blockId) []
  [.call 0 8 (.gossip (Sample.block W Sample.ledger 1 none [Sample.transfer])),
    .call 0 8 (.backfill n₁), .call 0 8 (.backfill n₂), .call 0 8 (.tryReorg n₂.blockId)]

/-- `alice` stakes with the nonce 5, bonds with 5 again and with 6, and sends herself a transfer with
the nonce 5. -/
def signedRequests : List Event :=
  [.request 0 (.stake (' ' :: Sample.alice) 1000 (some 5)),
    .request 1 (.stakeWorkerBond Sample.alice 1000 (some 5)),
    .request 2 (.stakeWorkerBond Sample.alice 1000 (some 6)),
    .request 3 (.settleTransferInternal Sample.alice Sample.alice 1 none false (some 5))]

end Sample

/-- After a reorg, the requests with the nonces 5 and 6 are carried out. -/
theorem signed_nonces_reorg :
    let W := World.sample 100000
    let L := runEvents W Sample.reorgEvents Sample.ledger
    acceptedNonces W (fun op => !op.isNoop) Sample.alice Sample.signedRequests L = [5, 6] ∧
      L.blockHeight = 2 ∧
      (acceptedNonces W (fun op => !op.isNoop) Sample.alice Sample.signedRequests L).Pairwise
        (· < ·) := by
  intro W L
  have hall : acceptedNonces W (fun op => !op.isNoop) Sample.alice Sample.signedRequests L = [5, 6] ∧
      L.blockHeight = 2 := by decide +kernel
  exact ⟨hall.1, hall.2, (signed_nonces_once W (fun id => Tree.get_empty id) Sample.reorgEvents
    Sample.signedRequests Sample.alice).1⟩

/-- A transfer to oneself succeeds with a nonce that was used before. -/
theorem signed_nonce_repeats :
    ¬ ∀ (W : World) (G : Ledger) (before es : List Event) (w : Str),
      (∀ id, G.blockUndo.get id = none) →
        (acceptedNonces W (fun _ => true) w es (runEvents W before G)).Pairwise (· < ·) := by
  intro h
  have hpair := h (World.sample 100000) Sample.ledger [] Sample.signedRequests Sample.alice
    fun id => Tree.get_empty id
  have hall : ¬ (acceptedNonces (World.sample 100000) (fun _ => true) Sample.alice
    Sample.signedRequests Sample.ledger).Pairwise (· < ·) := by decide +kernel
  exact hall hpair

end TetCore.Consensus
