import TetCore.Consensus.Calls
import TetCore.Ledger.Footprint

/-!
# The wallets' rows over the calls of a node

The nonce, the stake and the pre-sale lock of a wallet are rows of the `meta` tree, like the counters
and markers that blocks write. No block writes a wallet's row, so no undo record captures one and no
reorg restores one: however a call of the node ends, and whatever it left half done, these rows are as
before (`Call.run_keeps`).
-/

namespace TetCore

open TetCore.Lib

/-- The rows of a wallet: its nonce, its stake and its pre-sale lock. No block writes them. -/
def MetaKey.ofWallet : MetaKey → Bool
  | .walletNonce _ | .walletStake _ | .walletPresaleLockUntil _ => true
  | _ => false

namespace Consensus

open TetCore.Ledger (applyConsensusBlockBatch recordTxIndexesBatch readMeta)

/-! ## What blocks and reorgs leave -/

/-- The undo record captured no row of a wallet. -/
def SparesWallets (u : BlockUndoV1) : Prop :=
  ∃ (t : Tree MetaKey MetaVal) (keys : List MetaKey), u.metaKvs = t.capture keys ∧
    ∀ k ∈ keys, k.ofWallet = false

/-- No stored undo record captured a row of a wallet. -/
def UndoSparesWallets (L : Ledger) : Prop :=
  ∀ id u, L.blockUndo.get id = some u → SparesWallets u

/-- If the stored undo records of `L` spare the rows of the wallets, those of `L'` do, and the rows
read the same. -/
def KeepsWallets (L L' : Ledger) : Prop :=
  UndoSparesWallets L → UndoSparesWallets L' ∧
    ∀ k : MetaKey, k.ofWallet = true → readMeta L'.metaTree k = readMeta L.metaTree k

section Wallets

variable {W : World} {nowMs fuel : Nat} {L L' : Ledger}

theorem KeepsWallets.refl (L : Ledger) : KeepsWallets L L := fun h => ⟨h, fun _ _ => rfl⟩

theorem KeepsWallets.trans {L'' : Ledger} (h : KeepsWallets L L') (h' : KeepsWallets L' L'') :
    KeepsWallets L L'' := by
  intro hL
  obtain ⟨hL', hrows⟩ := h hL
  obtain ⟨hL'', hrows'⟩ := h' hL'
  exact ⟨hL'', fun k hk => (hrows' k hk).trans (hrows k hk)⟩

theorem KeepsWallets.of_eq (hm : L'.metaTree = L.metaTree) (hu : L'.blockUndo = L.blockUndo) :
    KeepsWallets L L' := by
  unfold KeepsWallets UndoSparesWallets
  rw [hm, hu]
  exact fun h => ⟨h, fun _ _ => rfl⟩

theorem ofWallet_of_captured {txs : List SignedTxEnvelopeV1} {hashes : List Str} {producer : Str}
    {reward : Nat} : ∀ k ∈ (Ledger.blockUndoKeys W txs hashes producer reward).metaKeys,
      k.ofWallet = false := by
  intro k hk
  have hno := Ledger.block_noWalletRow W txs hashes producer reward
  cases k
  case walletNonce w => exact absurd hk (hno w).1
  case walletStake w => exact absurd hk (hno w).2.1
  case walletPresaleLockUntil w => exact absurd hk (hno w).2.2
  all_goals rfl

/-- Storing the undo record of a block. -/
theorem storeBlockUndo_keepsWallets (blockId : Str) (height : Nat) (txs : List SignedTxEnvelopeV1)
    (hashes : List Str) (producer : Str) (reward : Nat) (M : Ledger) :
    KeepsWallets L (L.storeBlockUndo
      (M.prepareBlockUndo W nowMs blockId height txs hashes producer reward)) := by
  intro h
  refine ⟨fun id u hu => ?_, fun _ _ => rfl⟩
  rw [Ledger.storeBlockUndo, Tree.get_insert] at hu
  split at hu
  · cases hu
    exact ⟨M.metaTree, _, rfl, ofWallet_of_captured⟩
  · exact h id u hu

/-- Applying a block. -/
theorem apply_keepsWallets {height reward : Nat} {txs : List SignedTxEnvelopeV1}
    {hashes : List Str} {producer root : Str}
    (h : applyConsensusBlockBatch W nowMs height txs hashes producer reward L = .ok (root, L')) :
    KeepsWallets L L' := by
  have hframe := Ledger.apply_frame h
  intro hL
  constructor
  · rw [hframe.rest]
    exact hL
  · intro k hk
    refine hframe.readMeta k fun hmem => ?_
    rw [ofWallet_of_captured k hmem] at hk
    cases hk

/-- Undoing a block. -/
theorem applyBlockUndo_keepsWallets {id : Str} {u : BlockUndoV1}
    (h : Ledger.applyBlockUndo id L = .ok (u, L')) : KeepsWallets L L' := by
  intro hL
  unfold Ledger.applyBlockUndo at h
  cases hu : L.blockUndoById id with
  | none =>
    rw [hu] at h
    cases h
  | some u₁ =>
    simp only [hu, Except.ok.injEq, Prod.mk.injEq] at h
    obtain ⟨rfl, rfl⟩ := h
    obtain ⟨t, keys, hcap, hkeys⟩ := hL _ _ hu
    refine ⟨hL, fun k hk => Ledger.readMeta_congr ?_⟩
    rw [Ledger.restoreUndo, hcap, Tree.get_restore_capture, if_neg]
    intro hmem
    rw [hkeys k hmem] at hk
    cases hk

theorem ledgerRecord_keepsWallets {row : BlockRecordV1}
    (h : Ledger.recordBlockRecord nowMs row L = .ok L') : KeepsWallets L L' := by
  cases hc : row.canonical with
  | true =>
    obtain ⟨-, rfl⟩ := Ledger.recordBlockRecord_canonical h hc
    exact .of_eq rfl rfl
  | false =>
    obtain ⟨-, rfl⟩ := Ledger.recordBlockRecord_fork h hc
    exact .of_eq rfl rfl

theorem record_keepsWallets {args : RecordBlockArgs} (h : recordBlockRecord nowMs args L = .ok L') :
    KeepsWallets L L' := by
  simp only [recordBlockRecord, bind_eq_ok, mapError_eq_ok] at h
  obtain ⟨parent, -, h⟩ := h
  exact ledgerRecord_keepsWallets h

theorem index_keepsWallets {height : Nat} {hashes : List Str} {txs : List SignedTxEnvelopeV1}
    {c : Bool} (h : recordTxIndexesBatch nowMs height hashes txs c L = .ok L') :
    KeepsWallets L L' := by
  obtain ⟨-, rfl⟩ := Ledger.recordTxIndexesBatch_eq_ok.mp h
  exact .of_eq rfl rfl

theorem flag_keepsWallets (id : Str) (c : Bool) (L : Ledger) :
    KeepsWallets L (L.setBlockRecordCanonical id c) := by
  unfold Ledger.setBlockRecordCanonical
  split
  · exact .refl L
  · exact .of_eq rfl rfl

/-! ## The parts of a call -/

theorem forward_keepsWallets (b : BlockRecordV1) :
    Proc.Keeps KeepsWallets (applyBlockRecordForward W nowMs b) := by
  unfold applyBlockRecordForward
  refine .bind .trans (.check .refl) fun _ => ?_
  refine .bind .trans (.check .refl) fun _ => ?_
  refine .bind .trans (.check .refl) fun _ => ?_
  refine .bind .trans (.write fun L => storeBlockUndo_keepsWallets _ _ _ _ _ _ L) fun _ => ?_
  refine .bind .trans (.atomic .refl apply_keepsWallets) fun _ => ?_
  refine .bind .trans (.check .refl) fun _ => ?_
  refine .bind .trans (.write fun L => .of_eq rfl rfl) fun _ => ?_
  refine .bind .trans (.update .refl ledgerRecord_keepsWallets) fun _ => ?_
  exact .update .refl index_keepsWallets

theorem applyBranch_keepsWallets (bs : List BlockRecordV1) :
    Proc.Keeps KeepsWallets (applyBranch W nowMs bs) := by
  induction bs with
  | nil => exact .pure .refl ()
  | cons b bs ih => exact .bind .trans (forward_keepsWallets b) fun _ => ih

theorem unwindBlock_keepsWallets (id : Str) (b : BlockRecordV1) :
    Proc.Keeps KeepsWallets (unwindBlock nowMs id b) := by
  unfold unwindBlock
  refine .bind .trans (.atomic .refl applyBlockUndo_keepsWallets) fun _ => ?_
  refine .bind .trans (.write fun L => flag_keepsWallets id false L) fun _ => ?_
  exact .update .refl index_keepsWallets

theorem unwindTo_keepsWallets (ancestor : Str) (fuel : Nat) : ∀ cur : Option Str,
    Proc.Keeps KeepsWallets (unwindTo nowMs ancestor fuel cur) := by
  induction fuel with
  | zero =>
    intro cur
    cases cur with
    | none => exact .pure .refl ()
    | some id => exact .hang .refl
  | succ fuel ih =>
    intro cur
    cases cur with
    | none => exact .pure .refl ()
    | some id =>
      unfold unwindTo
      split
      · exact .pure .refl ()
      · refine .bind .trans (.observe .refl) fun b => ?_
        exact .bind .trans (unwindBlock_keepsWallets id b) fun _ => ih _

theorem reorg_keepsWallets (newTipId : Str) :
    Proc.Keeps KeepsWallets (reorgToBranch W nowMs fuel newTipId) := by
  unfold reorgToBranch
  refine .bind .trans (.observe .refl) fun plan => ?_
  cases plan with
  | none => exact .pure .refl false
  | some plan =>
    refine .bind .trans (.bind .trans (unwindTo_keepsWallets _ _ _) fun _ =>
      applyBranch_keepsWallets _) fun _ => ?_
    exact .pure .refl true

theorem reweigh_keepsWallets (bs : List BlockRecordV1) :
    Proc.Keeps KeepsWallets (reweighBranch nowMs bs) := by
  induction bs with
  | nil => exact .pure .refl ()
  | cons b bs ih => exact .bind .trans (.update .refl ledgerRecord_keepsWallets) fun _ => ih

theorem build_keepsWallets (producerId : Str) (txs : List SignedTxEnvelopeV1) :
    Proc.Keeps KeepsWallets (buildAndApplyBlock W nowMs producerId txs) := by
  unfold buildAndApplyBlock prepareBlock
  refine .bind .trans (.mapErr (.bind .trans (.check .refl) fun b => .bind .trans
    (.write fun L => storeBlockUndo_keepsWallets _ _ _ _ _ _ L) fun _ => .pure .refl b))
    fun b => ?_
  refine .bind .trans (.atomic .refl apply_keepsWallets) fun root => ?_
  refine .bind .trans (.write fun L => ?_) fun _ => .pure .refl _
  -- the records of a finished block are best effort
  have hbest : ∀ {e : Type} {x : Except e Ledger} {M : Ledger},
      (∀ M', x = .ok M' → KeepsWallets M M') → KeepsWallets M (valueOr x M) := by
    intro e x M hx
    cases hres : x with
    | error e => exact .refl M
    | ok M' => exact hx M' hres
  unfold finishBlock
  refine .trans (.trans ?_ (hbest fun M' hM' => record_keepsWallets hM'))
    (hbest fun M' hM' => index_keepsWallets hM')
  exact .of_eq rfl rfl

theorem mine_keepsWallets (producerId : Str) (s : Node) :
    KeepsWallets s.ledger (minePendingBlockAs W nowMs producerId s).2.ledger := by
  unfold minePendingBlockAs
  dsimp only
  split
  · exact .refl _
  · cases dropSettled W s.ledger s.mempool [] with
    | error e => exact .refl _
    | ok pending =>
      dsimp only
      generalize (if (decide (0 < s.blockFailures) && decide (1 < _)) = true then _ else _ :
        List SignedTxEnvelopeV1) = txs
      have hkeeps : KeepsWallets s.ledger
          (buildAndApplyBlock W nowMs (minerId W producerId) txs s.ledger).2 :=
        build_keepsWallets _ _ _
      generalize buildAndApplyBlock W nowMs (minerId W producerId) txs s.ledger = run at hkeeps ⊢
      obtain ⟨r, M⟩ := run
      cases r with
      | ok outcome => exact hkeeps
      | hang => exact hkeeps
      | err e =>
        cases e with
        | maybeWritten e => exact hkeeps
        | nothingWritten e =>
          dsimp only
          split <;> exact hkeeps

theorem fork_keepsWallets (block : RemoteBlockGossip) (c : CheckedBlock) (parent : Option Str) :
    Proc.Keeps KeepsWallets (applyFork W nowMs fuel block c parent) := by
  unfold applyFork
  refine .bind .trans (.read .refl) fun summary => ?_
  cases summary with
  | none => exact .pure .refl _
  | some summary =>
    dsimp only
    split
    · refine .bind .trans (.pure .refl false) fun applied => ?_
      split
      · exact .pure .refl _
      · split <;> exact .pure .refl _
    · refine .bind .trans (.write fun L => ?_) fun _ =>
        .bind .trans (.mapErr (reorg_keepsWallets block.blockId)) fun applied => ?_
      · cases hr : recordBlockRecord nowMs (block.recordArgs c parent false) L with
        | error e => exact .refl L
        | ok L' => exact record_keepsWallets hr
      · split
        · exact .pure .refl _
        · split <;> exact .pure .refl _

theorem next_keepsWallets (block : RemoteBlockGossip) (c : CheckedBlock) (parent : Option Str) :
    Proc.Keeps KeepsWallets (applyNext W nowMs block c parent) := by
  unfold applyNext
  refine .bind .trans (.check .refl) fun _ => ?_
  refine .bind .trans (.check .refl) fun _ => ?_
  refine .bind .trans (.write fun L => storeBlockUndo_keepsWallets _ _ _ _ _ _ L) fun _ => ?_
  refine .bind .trans (.atomic .refl apply_keepsWallets) fun _ => ?_
  refine .bind .trans (.check .refl) fun _ => ?_
  refine .bind .trans (.write fun L => .of_eq rfl rfl) fun _ => ?_
  refine .bind .trans (.update .refl record_keepsWallets) fun _ => ?_
  exact .bind .trans (.update .refl index_keepsWallets) fun _ => .pure .refl _

theorem gossip_keepsWallets (block : RemoteBlockGossip) :
    Proc.Keeps KeepsWallets (applyRemoteBlockFromGossipSync W nowMs fuel block) := by
  unfold applyRemoteBlockFromGossipSync
  refine .bind .trans (.read .refl) fun localHeight => ?_
  split
  · exact .pure .refl _
  split
  · exact .pure .refl _
  refine .bind .trans (.check .refl) fun _ => ?_
  refine .bind .trans (.check .refl) fun _ => ?_
  refine .bind .trans (.check .refl) fun _ => ?_
  split
  · exact fork_keepsWallets _ _ _
  · exact next_keepsWallets _ _ _

/-- The ledger a call leaves, however it ends. -/
def Call.run (W : World) (nowMs fuel : Nat) (c : Call) (L : Ledger) : Ledger :=
  match c with
  | .mine producerId mempool blockFailures =>
    (minePendingBlockAs W nowMs producerId ⟨L, mempool, blockFailures⟩).2.ledger
  | .mineCoinbaseOnly producerId => (mineCoinbaseOnlyBlockAs W nowMs producerId L).2
  | .gossip block => (applyRemoteBlockFromGossipSync W nowMs fuel block L).2
  | .backfill block => (validateAndRecordBackfillCandidate W nowMs block L).2
  | .tryReorg newTipId => (tryReorgBackfilledBranch W nowMs fuel newTipId L).2
  | .prune currentHeight => L.pruneHistoryAfterBlock W currentHeight

/-- **A call** leaves the rows of the wallets, however it ends. -/
theorem Call.run_keeps (W : World) (nowMs fuel : Nat) (c : Call) (L : Ledger) :
    KeepsWallets L (c.run W nowMs fuel L) := by
  cases c with
  | mine producerId mempool blockFailures => exact mine_keepsWallets producerId ⟨L, _, _⟩
  | mineCoinbaseOnly producerId => exact Proc.Keeps.mapErr (build_keepsWallets _ []) L
  | gossip block => exact gossip_keepsWallets block L
  | backfill block =>
    have hparts : Proc.Keeps KeepsWallets (validateAndRecordBackfillCandidate W nowMs block) := by
      unfold validateAndRecordBackfillCandidate
      refine .bind .trans (.check .refl) fun _ => ?_
      refine .bind .trans (.check .refl) fun _ => ?_
      exact .bind .trans (.update .refl record_keepsWallets) fun _ => .observe .refl
    exact hparts L
  | tryReorg newTipId =>
    have hparts : Proc.Keeps KeepsWallets (tryReorgBackfilledBranch W nowMs fuel newTipId) := by
      unfold tryReorgBackfilledBranch
      refine .bind .trans (.observe .refl) fun plan => ?_
      cases plan with
      | none => exact .pure .refl false
      | some branch =>
        exact .bind .trans (reweigh_keepsWallets branch) fun _ => reorg_keepsWallets newTipId
    exact hparts L
  | prune currentHeight =>
    exact fun h => ⟨fun id u hu => h id u (Tree.get_of_foldl_remove _ hu), fun _ _ => rfl⟩

end Wallets

end Consensus

end TetCore
