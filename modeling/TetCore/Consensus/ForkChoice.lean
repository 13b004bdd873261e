import TetCore.Consensus.Weights

/-!
# Fork choice over whole runs

Records arrive in any order, so a weight may be computed before the parent is stored; a call of
`try_reorg_backfilled_branch` recomputes the weights of its branch first, a gossiped block of the
current height is compared with whatever is stored. `Call.Weighs` says what a call needs for the tip
to keep its right weight: a block is appended to the tip, a stored block is recorded again as it is,
and a fork of the current height that outweighs the tip stands on a branch that is up to date.

* `Settled.call`: such a call keeps the weight of the tip right, and never lowers it.
* `fork_choice`: then, once every leaf was tried, the tip is the heaviest leaf.
-/

namespace TetCore.Consensus

open TetCore.Lib TetCore.Lib.ForkTree

/-! ## The condition -/

/-- Producers weigh `wt`. -/
def FixedWeights (wt : Str → Nat) (L : Ledger) : Prop := ∀ p, caacBlockWeight L p = wt p

/-- A block that is stored is recorded again with the parent and the producer it has. -/
def Rerecords (L : Ledger) (id : Str) (parent : Option Str) (producerId : Str) : Prop :=
  ∀ r, L.blockRecordById id = some r →
    explicitParent r.parentBlockId = explicitParent parent ∧ r.producerId = producerId

/-- The block is recorded on top of the tip. -/
def OnTip (L : Ledger) (parent : Option Str) : Prop :=
  explicitParent parent = L.getChainTip.map (·.blockId)

/-- A block on this parent does not outweigh the tip as it is recorded, or the branch of the parent
is up to date. -/
def ForkWeighed (wt : Str → Nat) (L : Ledger) (parent : Option Str) (producerId : Str) : Prop :=
  storedAt (forkTree wt L) (explicitParent parent) + max (wt producerId) 1 ≤ tipWeight L ∨
    ∀ p, explicitParent parent = some p → ∃ n, Weighed u128Max (forkTree wt L) p n

/-- What a call needs for the tip to have the weight of its branch. -/
def Call.Weighs (W : World) (wt : Str → Nat) (nowMs : Nat) (L : Ledger) : Call → Prop
  | .mine producerId _ _ => ∀ txs b, planBlock W nowMs (minerId W producerId) txs L = .ok b →
      OnTip L b.parentBlockId ∧ Rerecords L b.blockId b.parentBlockId b.producerId
  | .mineCoinbaseOnly producerId => ∀ b, planBlock W nowMs (minerId W producerId) [] L = .ok b →
      OnTip L b.parentBlockId ∧ Rerecords L b.blockId b.parentBlockId b.producerId
  | .gossip block => ∀ parent c, gossipChecks W L block = .ok (parent, c) →
      if block.blockHeight = L.blockHeight then
        ∃ p, recordedParent L block.blockHeight parent = .ok p ∧
          Rerecords L block.blockId p c.producerId ∧ ForkWeighed wt L p c.producerId
      else OnTip L parent ∧ Rerecords L block.blockId parent c.producerId
  | .backfill block => ∀ p producerId,
      recordedParent L block.blockHeight block.parentBlockId = .ok p →
      checkProducer W L block.blockHeight block.producerId = .ok producerId →
      Rerecords L block.blockId p producerId
  | .tryReorg _ => True
  | .prune _ => True

/-- Records are keyed, producers weigh `wt`, and the tip has the weight of its branch. -/
structure Settled (wt : Str → Nat) (L : Ledger) : Prop where
  keyed : Keyed L
  fixed : FixedWeights wt L
  tip : TipWeighed wt L

/-! ## Storing a record -/

section Store

variable {W : World} {wt : Str → Nat} {nowMs fuel : Nat} {L L' : Ledger}

/-- A record with the weight of its parent, and the weighed branches it leaves as they are. -/
theorem Keyed.store (hK : Keyed L) {id : Str} {row : BlockRecordV1} (hid : KeyedAt id row)
    (hblocks : L'.blocksById = L.blocksById.insert id row)
    (hw : row.cumulativeWeight = min (storedAt (forkTree wt L) (explicitParent row.parentBlockId) +
      max (wt row.producerId) 1) u128Max)
    (hre : Rerecords L id row.parentBlockId row.producerId) :
    Keyed L' ∧ ∀ {k n}, Weighed u128Max (forkTree wt L) k n → Weighed u128Max (forkTree wt L') k n := by
  obtain ⟨hself, hne⟩ := forkTree_insert wt hblocks
  refine ⟨hK.insert hid hblocks, fun hk => hk.insert hself hne hw fun _ e he => ?_⟩
  obtain ⟨r, hr, rfl⟩ := Option.map_eq_some_iff.mp he
  have hrec : L.blockRecordById id = some r := by
    rw [Ledger.blockRecordById, hid.trimmed]
    exact hr
  obtain ⟨hp, hprod⟩ := hre r hrec
  exact ⟨hp.symm, by rw [nodeOf, nodeOf, hprod]⟩

/-- The stored record is weighed when its parent is. -/
theorem Keyed.store_weighed (hK : Keyed L) {id : Str} {row : BlockRecordV1} (hid : KeyedAt id row)
    (hblocks : L'.blocksById = L.blocksById.insert id row)
    (hw : row.cumulativeWeight = min (storedAt (forkTree wt L) (explicitParent row.parentBlockId) +
      max (wt row.producerId) 1) u128Max)
    (hre : Rerecords L id row.parentBlockId row.producerId)
    (hp : ∀ p, explicitParent row.parentBlockId = some p →
      ∃ n, Weighed u128Max (forkTree wt L) p n) :
    ∃ n, Weighed u128Max (forkTree wt L') id n := by
  obtain ⟨hself, -⟩ := forkTree_insert wt hblocks
  obtain ⟨-, hkept⟩ := hK.store hid hblocks hw hre
  refine weighed_of_stored hself (fun p hpar => ?_) hw
  obtain ⟨n, hn⟩ := hp p hpar
  exact ⟨n, hn, hkept hn⟩

/-- **A block on top of the tip.** -/
theorem Settled.applied (h : Settled wt L) (hfixed : FixedWeights wt L') {M : Ledger}
    (hM : RecordedIn M L L') (args : RecordBlockArgs) {parent : Option Str}
    (hid : trim args.blockId = args.blockId) (hne : args.blockId ≠ []) (htop : OnTip L parent)
    (hre : Rerecords L args.blockId parent args.producerId)
    (happ : Applied W nowMs (args.row M nowMs parent) L L') :
    Settled wt L' ∧ tipWeight L ≤ tipWeight L' := by
  obtain ⟨-, hblocks, -⟩ := happ.hidden
  have hblocks' : L'.blocksById = L.blocksById.insert args.blockId (args.row M nowMs parent) := by
    rw [hblocks]
    exact congrArg (fun k => L.blocksById.insert k _) hid
  have hKM : Keyed M := by
    intro k r hk
    rw [hM.records] at hk
    exact h.keyed k r hk
  have hforkM : forkTree wt M = forkTree wt L := by
    funext k
    rw [forkTree, hM.records, forkTree]
  have hwM : ∀ p, caacBlockWeight M p = wt p := by
    intro p
    rw [← hfixed p]
    unfold caacBlockWeight Ledger.caacGetWorkerRecord
    rw [hM.weights]
  have hw := hKM.cumulativeWeight hwM parent args.producerId
  rw [hforkM] at hw
  have hkey : KeyedAt args.blockId (args.row M nowMs parent) := ⟨rfl, hid, hne⟩
  have hparent : ∀ p, explicitParent parent = some p →
      ∃ t n, L.getChainTip = some t ∧ t.blockId = p ∧ Weighed u128Max (forkTree wt L) p n ∧
        t.cumulativeWeight = min n u128Max := by
    intro p hp
    rw [htop] at hp
    obtain ⟨t, ht, rfl⟩ := Option.map_eq_some_iff.mp hp
    obtain ⟨n, hn, hnw⟩ := h.tip t ht
    exact ⟨t, n, ht, rfl, hn, hnw⟩
  obtain ⟨n, hn⟩ := h.keyed.store_weighed hkey hblocks' hw hre fun p hp => by
    obtain ⟨_, n, -, -, hn, -⟩ := hparent p hp
    exact ⟨n, hn⟩
  have htip : L'.getChainTip = some ⟨1, args.blockHeight, args.blockId,
      (args.row M nowMs parent).cumulativeWeight, args.stateRoot, nowMs⟩ := by
    obtain ⟨-, -, L₁, -, rfl⟩ := happ
    rw [Ledger.getChainTip, Ledger.recorded, Tree.get_insert_self]
    exact congrArg (fun k => some (⟨1, args.blockHeight, k, _, args.stateRoot, nowMs⟩ : ChainTipV1))
      hid
  have hself := (forkTree_insert wt hblocks').1
  refine ⟨⟨(h.keyed.store hkey hblocks' hw hre).1, hfixed, .of_tip htip hn (hn.stored_eq hself)⟩, ?_⟩
  rw [tipWeight_of_tip htip]
  change tipWeight L ≤ cumulativeWeightForBlock M parent (caacBlockWeight M args.producerId)
  rw [hw]
  cases htop' : L.getChainTip with
  | none =>
    rw [tipWeight, htop']
    exact Nat.zero_le _
  | some t =>
    have hp : explicitParent parent = some t.blockId := by
      rw [htop, htop']
      rfl
    obtain ⟨t', m, ht', -, hm, hmw⟩ := hparent _ hp
    rw [htop', Option.some.injEq] at ht'
    rw [tipWeight_of_tip htop', hp, hm.storedAt, ht', hmw]
    omega

/-- **A record off the chain.** -/
theorem Settled.recorded (h : Settled wt L) (args : RecordBlockArgs) {parent : Option Str}
    (hid : trim args.blockId = args.blockId) (hne : args.blockId ≠ [])
    (hc : args.canonical = false)
    (hpar : recordedParent L args.blockHeight args.parentBlockId = .ok parent)
    (hre : Rerecords L args.blockId parent args.producerId)
    (hrun : recordBlockRecord nowMs args L = .ok L') :
    Settled wt L' ∧ L'.getChainTip = L.getChainTip ∧
      (∃ r, L'.blockRecordById args.blockId = some r ∧ r.cumulativeWeight =
        min (storedAt (forkTree wt L) (explicitParent parent) + max (wt args.producerId) 1)
          u128Max) ∧
      ((∀ p, explicitParent parent = some p → ∃ n, Weighed u128Max (forkTree wt L) p n) →
        ∃ n, Weighed u128Max (forkTree wt L') args.blockId n) := by
  simp only [recordBlockRecord, bind_eq_ok, mapError_eq_ok] at hrun
  obtain ⟨parent', hpar', hrun⟩ := hrun
  rw [hpar, Except.ok.injEq] at hpar'
  subst hpar'
  obtain ⟨-, hL'⟩ := Ledger.recordBlockRecord_fork hrun hc
  have hid' : trim (args.row L nowMs parent).blockId = args.blockId := hid
  rw [hid'] at hL'
  have hblocks : L'.blocksById = L.blocksById.insert args.blockId (args.row L nowMs parent) := by
    rw [hL']
  have htip : L'.getChainTip = L.getChainTip := by rw [hL']; rfl
  have hw := h.keyed.cumulativeWeight h.fixed parent args.producerId
  have hkey : KeyedAt args.blockId (args.row L nowMs parent) := ⟨rfl, hid, hne⟩
  obtain ⟨hK', hkept⟩ := h.keyed.store hkey hblocks hw hre
  refine ⟨⟨hK', fun p => ?_, h.tip.mono htip fun _ _ _ hn => hkept hn⟩, htip,
    ⟨args.row L nowMs parent, ?_, hw⟩, h.keyed.store_weighed hkey hblocks hw hre⟩
  · rw [← h.fixed p, hL']
    rfl
  · rw [Ledger.blockRecordById, hid, hblocks, Tree.get_insert_self]

/-! ## The calls -/

theorem Settled.mined (h : Settled wt L) (hfixed : FixedWeights wt L') {producerId : Str}
    {txs : List SignedTxEnvelopeV1} {outcome : MineOutcome}
    (hok : ∀ b, planBlock W nowMs producerId txs L = .ok b →
      OnTip L b.parentBlockId ∧ Rerecords L b.blockId b.parentBlockId b.producerId)
    (hrun : buildAndApplyBlock W nowMs producerId txs L = (.ok outcome, L')) :
    Settled wt L' ∧ tipWeight L ≤ tipWeight L' := by
  obtain ⟨b, root, M, hplan, hM, happ⟩ := buildAndApplyBlock_ok hrun
  obtain ⟨-, -, -, -, -, root', hid⟩ := planBlock_ok hplan
  obtain ⟨htop, hre⟩ := hok b hplan
  refine h.applied hfixed hM (b.recordArgs root) ?_ ?_ htop hre happ
  · change trim b.blockId = b.blockId
    rw [hid]
    exact trim_blockIdForBlock _ _ _ _ _ _
  · change b.blockId ≠ []
    rw [hid]
    exact blockIdForBlock_ne_nil _ _ _ _ _ _

theorem Settled.gossip (h : Settled wt L) (hfixed : FixedWeights wt L') {block : RemoteBlockGossip}
    {outcome : RemoteBlockSyncOutcome} (hok : (Call.gossip block).Weighs W wt nowMs L)
    (hrun : applyRemoteBlockFromGossipSync W nowMs fuel block L = (.ok outcome, L')) :
    Settled wt L' ∧ tipWeight L ≤ tipWeight L' := by
  rcases gossip_cases hrun with rfl | ⟨parent, c, hc, hcase⟩
  · exact ⟨h, Nat.le_refl _⟩
  obtain ⟨-, -, hid, -, -⟩ := gossipChecks_ok hc
  have htrim : trim block.blockId = block.blockId := by
    rw [hid]
    exact trim_blockIdForBlock _ _ _ _ _ _
  have hne : block.blockId ≠ [] := by
    rw [hid]
    exact blockIdForBlock_ne_nil _ _ _ _ _ _
  have hok := hok parent c hc
  rcases hcase with ⟨heq, hfork⟩ | ⟨hlt, hheight, hnext⟩
  · rw [if_pos heq] at hok
    obtain ⟨p, hp, hre, hweighed⟩ := hok
    rcases applyFork_cases hfork with ⟨-, rfl⟩ | ⟨_, r, -, -, hreorg, hr⟩
    · exact ⟨h, Nat.le_refl _⟩
    -- the fork is recorded, then tried as a reorg
    obtain ⟨L₁, hrec, -⟩ := exists_recordBlockRecord nowMs (block.recordArgs c parent false) L hp
      (by rw [← htrim] at hne; exact hne)
    obtain ⟨h₁, htip, ⟨row, hrow, hw⟩, htop⟩ := h.recorded (block.recordArgs c parent false) htrim hne
      rfl hp hre hrec
    rw [forkRecorded, hrec, valueOr] at hreorg
    rcases hr with ⟨done, _, rfl, -⟩ | ⟨_, -, hr⟩ | ⟨-, hr⟩
    · rw [← tipWeight_congr htip]
      rcases hweighed with hlight | hup
      · cases done with
        | false =>
          rw [reorgToBranch_ok_false hreorg]
          exact ⟨h₁, Nat.le_refl _⟩
        | true =>
          -- no reorg to a block that is no heavier than the tip
          obtain ⟨plan, _, _, hplan, -, -⟩ := reorgToBranch_ok_true hreorg
          obtain ⟨ht, newTip, hnew, hgt, -, -⟩ := planReorg_ok hplan
          have hsame : row = newTip := Option.some.inj (hrow.symm.trans hnew)
          rw [← hsame, hw, ← tipWeight_of_tip ht, tipWeight_congr htip] at hgt
          exact absurd (Nat.lt_of_lt_of_le hgt (Nat.min_le_left _ _)) (Nat.not_lt.mpr hlight)
      · obtain ⟨n, hn⟩ := htop hup
        have hn' : Weighed u128Max (forkTree wt L₁) (trim block.blockId) n := by
          rw [htrim]
          exact hn
        obtain ⟨hsame, hT, hle, -⟩ := reorg_weighed h₁.keyed h₁.tip hn' hreorg
        exact ⟨⟨hsame.keyed, hfixed, hT⟩, hle⟩
    · cases hr
    · cases hr
  · rw [if_neg (by omega)] at hok
    rcases applyNext_cases hc hheight hnext with ⟨⟨_, hr⟩, -⟩ | ⟨_, _, hr, -⟩ | ⟨_, M, -, hM, happ⟩
    · cases hr
    · cases hr
    · exact h.applied hfixed hM (block.recordArgs c parent true) htrim hne hok.1 hok.2 happ

theorem Settled.backfill (h : Settled wt L) {block : RemoteBlockGossip} {row : BlockRecordV1}
    (hok : (Call.backfill block).Weighs W wt nowMs L)
    (hrun : validateAndRecordBackfillCandidate W nowMs block L = (.ok row, L')) :
    Settled wt L' ∧ tipWeight L ≤ tipWeight L' := by
  simp only [validateAndRecordBackfillCandidate, Proc.bind_eq_ok_iff, Proc.check_eq_ok_iff,
    Proc.update_eq_ok_iff, Proc.observe_eq_ok_iff] at hrun
  obtain ⟨producer, _, ⟨hprod, rfl⟩, c, _, ⟨hc, rfl⟩, _, L₁, hr, -, rfl⟩ := hrun
  simp only [checkBlock, bind_eq_ok, require_eq_ok, mapError_eq_ok, Except.ok.injEq] at hc
  obtain ⟨hashes, hhash, _, hid, _, -, _, -, reward, -, _, -, rfl⟩ := hc
  have hr' := hr
  simp only [recordBlockRecord, bind_eq_ok] at hr'
  obtain ⟨p, hp, -⟩ := hr'
  obtain ⟨hset, htip, -, -⟩ := h.recorded _ (by
    change trim block.blockId = block.blockId
    rw [← hid]
    exact trim_blockIdForBlock _ _ _ _ _ _) (by
    change block.blockId ≠ []
    rw [← hid]
    exact blockIdForBlock_ne_nil _ _ _ _ _ _) rfl hp (hok p producer hp hprod) hr
  exact ⟨hset, (tipWeight_congr htip).symm.le⟩

/-- **A call that weighs** keeps the tip's weight right, and never lowers it. -/
theorem Settled.call (h : Settled wt L) {c : Call} (hok : c.Weighs W wt nowMs L)
    (hrun : c.Succeeds W nowMs fuel L L') (hfixed : FixedWeights wt L') :
    Settled wt L' ∧ tipWeight L ≤ tipWeight L' := by
  cases c with
  | mine producerId mempool blockFailures =>
    obtain ⟨outcome, node, hmine, rfl⟩ := hrun
    obtain ⟨txs, -, hbuild⟩ := minePendingBlockAs_ok hmine
    exact h.mined hfixed (hok txs) hbuild
  | mineCoinbaseOnly producerId =>
    obtain ⟨outcome, hmine⟩ := hrun
    rw [mineCoinbaseOnlyBlockAs, Proc.mapErr_eq_ok_iff] at hmine
    exact h.mined hfixed hok hmine
  | gossip block =>
    obtain ⟨outcome, hgossip⟩ := hrun
    exact h.gossip hfixed hok hgossip
  | backfill block =>
    obtain ⟨row, hback⟩ := hrun
    exact h.backfill hok hback
  | tryReorg newTipId =>
    obtain ⟨done, htry⟩ := hrun
    obtain ⟨hK, hT, -, hle, -⟩ := tryReorg_weighed h.keyed h.tip h.fixed htry
    exact ⟨⟨hK, hfixed, hT⟩, hle⟩
  | prune currentHeight =>
    have hL' : L' = L.pruneHistoryAfterBlock W currentHeight := hrun
    subst hL'
    exact ⟨⟨h.keyed, hfixed, h.tip⟩, Nat.le_refl _⟩

end Store

/-! ## Runs -/

/-- The ledgers reached by calls that weigh and return without an error, and by whatever leaves the
records and the tip alone, while producers weigh `wt`. -/
inductive Weighs (W : World) (wt : Str → Nat) : Ledger → Ledger → Prop where
  | refl (L : Ledger) : Weighs W wt L L
  | call (nowMs fuel : Nat) {L L₁ L' : Ledger} {c : Call} (before : Weighs W wt L L₁)
      (weighs : c.Weighs W wt nowMs L₁) (succeeds : c.Succeeds W nowMs fuel L₁ L')
      (fixed : FixedWeights wt L') : Weighs W wt L L'
  | other {L L₁ L' : Ledger} (before : Weighs W wt L L₁) (records : L'.blocksById = L₁.blocksById)
      (tip : L'.chainTip = L₁.chainTip) (fixed : FixedWeights wt L') : Weighs W wt L L'

/-- `try_reorg_backfilled_branch` on each of the ids, in their order, every call returning. -/
inductive TriesAll (W : World) (wt : Str → Nat) : List Str → Ledger → Ledger → Prop where
  | nil (L : Ledger) : TriesAll W wt [] L L
  | cons (nowMs fuel : Nat) {id : Str} {ids : List Str} {L L₁ L' : Ledger}
      (head : (Call.tryReorg id).Succeeds W nowMs fuel L L₁) (fixed : FixedWeights wt L₁)
      (tail : TriesAll W wt ids L₁ L') : TriesAll W wt (id :: ids) L L'

section Runs

variable {W : World} {wt : Str → Nat} {G L L' : Ledger} {ids : List Str}

theorem Genesis.settled (hG : Genesis G) (hfixed : FixedWeights wt G) : Settled wt G where
  keyed k r hk := by
    rw [hG.records k] at hk
    cases hk
  fixed := hfixed
  tip t ht := by
    rw [hG.tip] at ht
    cases ht

/-- **A run** keeps the tip's weight right, and never lowers it. -/
theorem Settled.run (h : Settled wt L) (hrun : Weighs W wt L L') :
    Settled wt L' ∧ tipWeight L ≤ tipWeight L' := by
  induction hrun with
  | refl L => exact ⟨h, Nat.le_refl _⟩
  | call nowMs fuel _ weighs succeeds fixed ih =>
    obtain ⟨h₁, hle₁⟩ := ih h
    obtain ⟨h₂, hle₂⟩ := h₁.call weighs succeeds fixed
    exact ⟨h₂, Nat.le_trans hle₁ hle₂⟩
  | @other L L₁ L' _ records tip fixed ih =>
    obtain ⟨h₁, hle⟩ := ih h
    have htip : L'.getChainTip = L₁.getChainTip := by rw [Ledger.getChainTip, tip, Ledger.getChainTip]
    have hfork : forkTree wt L' = forkTree wt L₁ := by
      funext k
      rw [forkTree, records, forkTree]
    refine ⟨⟨?_, fixed, h₁.tip.mono htip fun _ _ _ hn => ?_⟩, ?_⟩
    · intro k r hk
      rw [records] at hk
      exact h₁.keyed k r hk
    · rw [hfork]
      exact hn
    · rw [tipWeight_congr htip]
      exact hle

/-- The calls keep the shape of the fork tree, and each leaves a tip no lighter than the branch it
was called on. -/
theorem Settled.triesAll (h : Settled wt L) (htip : L.getChainTip ≠ none)
    (hall : TriesAll W wt ids L L') :
    Settled wt L' ∧ L'.getChainTip ≠ none ∧ SameShape (forkTree wt L) (forkTree wt L') ∧
      tipWeight L ≤ tipWeight L' ∧
      ∀ k ∈ ids, trim k = k → forkTree wt L k ≠ none →
        ∃ n, HasTotal (forkTree wt L) k n ∧ min n u128Max ≤ tipWeight L' := by
  induction hall with
  | nil L =>
    exact ⟨h, htip, .refl _, Nat.le_refl _, fun k hk => absurd hk List.not_mem_nil⟩
  | @cons nowMs fuel id ids L L₁ L' head fixed _ ih =>
    obtain ⟨done, htry⟩ := head
    obtain ⟨hK, hT, hshape₁, hle₁, hreach⟩ := tryReorg_weighed h.keyed h.tip h.fixed htry
    obtain ⟨htip₁, hid⟩ := hreach htip
    obtain ⟨h', htip', hshape, hle, hmem⟩ := ih ⟨hK, fixed, hT⟩ htip₁
    refine ⟨h', htip', hshape₁.trans hshape, Nat.le_trans hle₁ hle, fun k hk htrim hst => ?_⟩
    rcases List.mem_cons.mp hk with rfl | hk
    · rw [htrim] at hid
      obtain ⟨n, hn, hmin⟩ := hid hst
      exact ⟨n, hn, Nat.le_trans hmin hle⟩
    · have hst₁ : forkTree wt L₁ k ≠ none := by
        obtain ⟨e, he⟩ := Option.ne_none_iff_exists'.mp hst
        obtain ⟨e', he', -⟩ := hshape₁.node he
        rw [he']
        exact Option.some_ne_none _
      obtain ⟨n, hn, hmin⟩ := hmem k hk htrim hst₁
      exact ⟨n, hn.sameShape hshape₁.symm, hmin⟩

/-- The tip of a settled ledger, once every leaf was tried. -/
theorem Settled.heaviest (h : Settled wt L) (htip : L.getChainTip ≠ none)
    (hdec : Decided u128Max (forkTree wt L)) (hids : ∀ k, IsLeaf (forkTree wt L) k → k ∈ ids)
    (hall : TriesAll W wt ids L L') :
    ∃ t, L'.getChainTip = some t ∧ Heaviest (forkTree wt L) t.blockId := by
  obtain ⟨h', htip', hshape, -, hreach⟩ := h.triesAll htip hall
  obtain ⟨t, ht⟩ := Option.ne_none_iff_exists'.mp htip'
  obtain ⟨n, hn, hw⟩ := h'.tip t ht
  have htotal := hn.total.sameShape hshape.symm
  have hle : ∀ j, IsLeaf (forkTree wt L) j → ∃ m, HasTotal (forkTree wt L) j m ∧ m ≤ n := by
    intro j hj
    obtain ⟨e, he⟩ := Option.isSome_iff_exists.mp hj.1
    obtain ⟨r, hr, -⟩ := Option.map_eq_some_iff.mp he
    obtain ⟨m, hm, hmin⟩ := hreach j (hids j hj) (h.keyed j r hr).trimmed
      (by rw [he]; exact Option.some_ne_none e)
    have hmax := hdec.bounded j m hj hm
    rw [tipWeight_of_tip ht, hw] at hmin
    exact ⟨m, hm, by omega⟩
  refine ⟨t, ht, heaviest_of_le (L.blocksById.iter.map (·.1)).toFinset ?_ ?_ hdec htotal hle⟩
  · intro j e he
    obtain ⟨r, hr, -⟩ := Option.map_eq_some_iff.mp he
    rw [List.mem_toFinset]
    exact List.mem_map_of_mem (Tree.mem_iter.mpr hr)
  · intro j e he
    obtain ⟨r, -, rfl⟩ := Option.map_eq_some_iff.mp he
    exact Nat.lt_of_lt_of_le Nat.zero_lt_one (Nat.le_max_right _ _)

/-- **Fork choice converges** in runs whose calls weigh: once every leaf was tried, the tip is the
leaf with the greatest total, whatever the order; two nodes with the same records have the same tip;
and along the way the weight of the tip never goes down. -/
theorem fork_choice (hG : Genesis G) (hfixed : FixedWeights wt G) (hrun : Weighs W wt G L)
    (htip : L.getChainTip ≠ none) (hdec : Decided u128Max (forkTree wt L))
    (hids : ∀ k, IsLeaf (forkTree wt L) k → k ∈ ids) (hall : TriesAll W wt ids L L') :
    (∃ t, L'.getChainTip = some t ∧ Heaviest (forkTree wt L) t.blockId) ∧
      (∀ (W₂ : World) (G₂ L₂ L₂' : Ledger) (ids₂ : List Str), Genesis G₂ → FixedWeights wt G₂ →
        Weighs W₂ wt G₂ L₂ → L₂.getChainTip ≠ none →
        SameShape (forkTree wt L) (forkTree wt L₂) →
        (∀ k, IsLeaf (forkTree wt L₂) k → k ∈ ids₂) → TriesAll W₂ wt ids₂ L₂ L₂' →
        L₂'.getChainTip.map (·.blockId) = L'.getChainTip.map (·.blockId)) ∧
      ∀ L₁ L₂, Weighs W wt G L₁ → Weighs W wt L₁ L₂ → tipWeight L₁ ≤ tipWeight L₂ := by
  have hsettled := (hG.settled hfixed).run hrun
  obtain ⟨t, ht, hheavy⟩ := hsettled.1.heaviest htip hdec hids hall
  refine ⟨⟨t, ht, hheavy⟩, ?_, ?_⟩
  · intro W₂ G₂ L₂ L₂' ids₂ hG₂ hfixed₂ hrun₂ htip₂ hshape hids₂ hall₂
    have hsettled₂ := (hG₂.settled hfixed₂).run hrun₂
    obtain ⟨t₂, ht₂, hheavy₂⟩ := hsettled₂.1.heaviest htip₂ (hdec.sameShape hshape) hids₂ hall₂
    rw [ht, ht₂, Option.map_some, Option.map_some,
      (hheavy₂.sameShape hshape.symm).unique hheavy]
  · intro L₁ L₂ h₁ h₂
    exact (((hG.settled hfixed).run h₁).1.run h₂).2

end Runs

/-! ## Runs to evaluate -/

section Evaluate

variable {W : World} {wt : Str → Nat} {L L' : Ledger}

/-- The calls in their order, every one returning, while producers weigh `wt`. -/
inductive Performs (W : World) (wt : Str → Nat) : List Call → Ledger → Ledger → Prop where
  | nil (L : Ledger) : Performs W wt [] L L
  | cons (nowMs fuel : Nat) {c : Call} {cs : List Call} {L L₁ L' : Ledger}
      (head : c.Succeeds W nowMs fuel L L₁) (fixed : FixedWeights wt L₁)
      (tail : Performs W wt cs L₁ L') : Performs W wt (c :: cs) L L'

/-- The ids that no stored block has as its parent. -/
def leafIds (L : Ledger) : List Str :=
  (L.blocksById.iter.map (·.1)).filter fun k =>
    L.blocksById.iter.all fun r => explicitParent r.2.parentBlockId ≠ some k

theorem isLeaf_iff {k : Str} : IsLeaf (forkTree wt L) k ↔ k ∈ leafIds L := by
  simp only [leafIds, List.mem_filter, List.mem_map, List.all_eq_true, decide_eq_true_eq]
  constructor
  · rintro ⟨hsome, hparent⟩
    obtain ⟨e, he⟩ := Option.isSome_iff_exists.mp hsome
    obtain ⟨r, hr, -⟩ := Option.map_eq_some_iff.mp he
    refine ⟨⟨(k, r), Tree.mem_iter.mpr hr, rfl⟩, fun x hx hp => ?_⟩
    refine hparent x.1 (nodeOf wt x.2) ?_ hp
    rw [forkTree, Tree.mem_iter.mp hx, Option.map_some]
  · rintro ⟨⟨x, hx, rfl⟩, hall⟩
    refine ⟨?_, fun j e he hp => ?_⟩
    · rw [forkTree, Tree.mem_iter.mp hx]
      rfl
    · obtain ⟨r, hr, rfl⟩ := Option.map_eq_some_iff.mp he
      exact hall (j, r) (Tree.mem_iter.mpr hr) hp

/-- The total of a complete branch of at most `fuel` blocks. -/
def branchTotal (wt : Str → Nat) (L : Ledger) : Nat → Str → Option Nat
  | 0, _ => none
  | fuel + 1, k =>
    match L.blocksById.get k with
    | none => none
    | some r =>
      match explicitParent r.parentBlockId with
      | none => some (max (wt r.producerId) 1)
      | some p => (branchTotal wt L fuel p).map (· + max (wt r.producerId) 1)

theorem hasTotal_of_branchTotal : ∀ {fuel : Nat} {k : Str} {n : Nat},
    branchTotal wt L fuel k = some n → HasTotal (forkTree wt L) k n := by
  intro fuel
  induction fuel with
  | zero =>
    intro k n h
    cases h
  | succ fuel ih =>
    intro k n h
    unfold branchTotal at h
    cases hr : L.blocksById.get k with
    | none =>
      rw [hr] at h
      cases h
    | some r =>
      have hnode : forkTree wt L k = some (nodeOf wt r) := by
        rw [forkTree, hr]
        rfl
      simp only [hr] at h
      cases hp : explicitParent r.parentBlockId with
      | none =>
        rw [hp] at h
        cases h
        exact .root hnode hp
      | some p =>
        simp only [hp] at h
        obtain ⟨m, hm, rfl⟩ := Option.map_eq_some_iff.mp h
        exact .child hnode hp (ih hm)

/-- The leaves are decided when their totals are computed, different and in range. -/
theorem decided_of_totals {fuel cap : Nat}
    (hall : ∀ k ∈ leafIds L, ∃ n, branchTotal wt L fuel k = some n ∧ n ≤ cap)
    (hnodup : ((leafIds L).map (branchTotal wt L fuel)).Nodup) : Decided cap (forkTree wt L) := by
  have htotal : ∀ {k n}, IsLeaf (forkTree wt L) k → HasTotal (forkTree wt L) k n →
      branchTotal wt L fuel k = some n ∧ n ≤ cap := by
    intro k n hk hn
    obtain ⟨m, hm, hle⟩ := hall k (isLeaf_iff.mp hk)
    rw [hn.unique (hasTotal_of_branchTotal hm)]
    exact ⟨hm, hle⟩
  refine ⟨fun k n hk hn => (htotal hk hn).2, fun j k n hj hk hjn hkn => ?_⟩
  refine List.inj_on_of_nodup_map hnodup (isLeaf_iff.mp hj) (isLeaf_iff.mp hk) ?_
  rw [(htotal hj hjn).1, (htotal hk hkn).1]

/-- No producer is registered. -/
def unregistered (L : Ledger) : Bool := L.metaTree.iter.all fun r => match r.1 with
  | .caacWallet _ => false
  | _ => true

theorem fixedWeights_of_unregistered (h : unregistered L = true) :
    FixedWeights (fun _ => caacUnregisteredWeight) L := by
  intro p
  unfold caacBlockWeight Ledger.caacGetWorkerRecord
  cases hget : L.metaTree.get (.caacWallet (trimLower p)) with
  | none => rfl
  | some v =>
    have := List.all_eq_true.mp h _ (Tree.mem_iter.mpr hget)
    cases this

end Evaluate

end TetCore.Consensus

namespace TetCore.Sample

open TetCore.Lib TetCore.Consensus TetCore.Lib.ForkTree

/-- The ledger after a call that returns, if the producers are still unregistered. -/
def perform (W : World) (c : Call) (L : Ledger) : Option Ledger :=
  let kept := fun (ok : Bool) (L' : Ledger) => if ok && unregistered L' then some L' else none
  match c with
  | .gossip block =>
    let p := applyRemoteBlockFromGossipSync W 0 16 block L
    kept p.1.isOk p.2
  | .backfill block =>
    let p := validateAndRecordBackfillCandidate W 0 block L
    kept p.1.isOk p.2
  | .tryReorg id =>
    let p := tryReorgBackfilledBranch W 0 16 id L
    kept p.1.isOk p.2
  | _ => none

theorem perform_succeeds {W : World} {c : Call} {L L' : Ledger} (h : perform W c L = some L') :
    c.Succeeds W 0 16 L L' ∧ FixedWeights (fun _ => caacUnregisteredWeight) L' := by
  have hkept : ∀ {ok : Bool} {M : Ledger}, (if ok && unregistered M then some M else none) = some L' →
      ok = true ∧ M = L' ∧ FixedWeights (fun _ => caacUnregisteredWeight) L' := by
    intro ok M hM
    split at hM
    · rename_i hb
      rw [Bool.and_eq_true] at hb
      cases hM
      exact ⟨hb.1, rfl, fixedWeights_of_unregistered hb.2⟩
    · cases hM
  cases c with
  | gossip block =>
    obtain ⟨hok, rfl, hfixed⟩ := hkept h
    obtain ⟨out, hout⟩ := Outcome.exists_ok hok
    exact ⟨⟨out, Prod.ext hout rfl⟩, hfixed⟩
  | backfill block =>
    obtain ⟨hok, rfl, hfixed⟩ := hkept h
    obtain ⟨out, hout⟩ := Outcome.exists_ok hok
    exact ⟨⟨out, Prod.ext hout rfl⟩, hfixed⟩
  | tryReorg id =>
    obtain ⟨hok, rfl, hfixed⟩ := hkept h
    obtain ⟨out, hout⟩ := Outcome.exists_ok hok
    exact ⟨⟨out, Prod.ext hout rfl⟩, hfixed⟩
  | mine _ _ _ => cases h
  | mineCoinbaseOnly _ => cases h
  | prune _ => cases h

/-- The ledger after the calls. -/
def performAll (W : World) : List Call → Ledger → Option Ledger
  | [], L => some L
  | c :: cs, L => (perform W c L).bind (performAll W cs)

theorem performAll_performs {W : World} : ∀ {cs : List Call} {L L' : Ledger},
    performAll W cs L = some L' →
      Performs W (fun _ => caacUnregisteredWeight) cs L L' := by
  intro cs
  induction cs with
  | nil =>
    intro L L' h
    cases h
    exact .nil L
  | cons c cs ih =>
    intro L L' h
    obtain ⟨L₁, hc, hcs⟩ := Option.bind_eq_some_iff.mp h
    obtain ⟨hs, hf⟩ := perform_succeeds hc
    exact .cons 0 16 hs hf (ih hcs)

theorem performAll_triesAll {W : World} : ∀ {ids : List Str} {L L' : Ledger},
    performAll W (ids.map .tryReorg) L = some L' →
      TriesAll W (fun _ => caacUnregisteredWeight) ids L L' := by
  intro ids
  induction ids with
  | nil =>
    intro L L' h
    cases h
    exact .nil L
  | cons id ids ih =>
    intro L L' h
    obtain ⟨L₁, hc, hcs⟩ := Option.bind_eq_some_iff.mp h
    obtain ⟨hs, hf⟩ := perform_succeeds hc
    exact .cons 0 16 hs hf (ih hcs)

theorem some_getD {o : Option Ledger} (d : Ledger) (h : o.isSome = true) : o = some (o.getD d) := by
  obtain ⟨L, rfl⟩ := Option.isSome_iff_exists.mp h
  rfl

/-- The leaves are among the ids and have small totals. -/
theorem leaves_checked {wt : Str → Nat} {L : Ledger} {ids : List Str} {fuel : Nat}
    (h : (leafIds L).all (fun k => decide (k ∈ ids) &&
      (branchTotal wt L fuel k).any fun n => decide (n ≤ 40)) = true) :
    ∀ k ∈ leafIds L, k ∈ ids ∧ ∃ n, branchTotal wt L fuel k = some n ∧ n ≤ u128Max := by
  intro k hk
  have hk := List.all_eq_true.mp h k hk
  rw [Bool.and_eq_true, Option.any_eq_true] at hk
  obtain ⟨hmem, n, hn, hle⟩ := hk
  exact ⟨of_decide_eq_true hmem, n, hn, le_trans (of_decide_eq_true hle) (by decide)⟩

end TetCore.Sample

namespace TetCore.Consensus

open TetCore.Lib TetCore.Lib.ForkTree

/-- A leaf that outweighs `k`. -/
theorem not_heaviest {f : ForkTree Str} {j k : Str} {m n : Nat} (hj : IsLeaf f j)
    (hjm : HasTotal f j m) (hkn : HasTotal f k n) (hlt : n < m) : ¬ Heaviest f k := by
  rintro ⟨-, n', hn', hall⟩
  obtain ⟨m', hm', hle, -⟩ := hall j hj
  rw [hkn.unique hn', hjm.unique hm'] at hlt
  omega

/-- A branch of three blocks arrives children first, so that the third has the weight of one. A
block of the current height on top of it is recorded as if its branch had two blocks and becomes the
tip; a branch of three then outweighs it. -/
theorem fork_choice_staleWeights :
    let W := World.sample 0
    let wt := fun _ : Str => caacUnregisteredWeight
    let c₁ := Sample.block W Sample.ledger 1 none [Sample.transfer]
    let x₁ := Sample.block W Sample.ledger 1 none []
    let x₂ := Sample.claimed W 2 (some x₁.blockId) [] x₁.stateRoot
    let x₃ := Sample.claimed W 3 (some x₂.blockId) [] x₁.stateRoot
    let g := Sample.claimed W 1 (some x₃.blockId) [] x₁.stateRoot
    let y₁ := Sample.block W Sample.ledger 1 none
      [Sample.signed (.transfer Sample.alice Sample.bob (5 * stevemon) 100)]
    let y₂ := Sample.claimed W 2 (some y₁.blockId) [] y₁.stateRoot
    let y₃ := Sample.claimed W 3 (some y₂.blockId) [] y₁.stateRoot
    let arrivals : List Call := [.gossip c₁, .backfill x₃, .backfill x₂, .backfill x₁, .gossip g,
      .backfill y₁, .backfill y₂, .backfill y₃]
    let ids := [g.blockId, y₃.blockId, c₁.blockId]
    ∃ L L', Genesis Sample.ledger ∧ FixedWeights wt Sample.ledger ∧
      Performs W wt arrivals Sample.ledger L ∧ L.getChainTip ≠ none ∧
      Decided u128Max (forkTree wt L) ∧ (∀ k, IsLeaf (forkTree wt L) k → k ∈ ids) ∧
      TriesAll W wt ids L L' ∧
      ¬ ∃ t, L'.getChainTip = some t ∧ Heaviest (forkTree wt L) t.blockId := by
  intro W wt c₁ x₁ x₂ x₃ g y₁ y₂ y₃ arrivals ids
  let L := (Sample.performAll W arrivals Sample.ledger).getD Sample.ledger
  let L' := (Sample.performAll W (ids.map .tryReorg) L).getD L
  have hall : ((Sample.performAll W arrivals Sample.ledger).isSome = true ∧
        (Sample.performAll W (ids.map .tryReorg) L).isSome = true ∧
        unregistered Sample.ledger = true ∧ L.getChainTip.isSome = true) ∧
      ((leafIds L).all (fun k => decide (k ∈ ids) &&
          (branchTotal wt L 8 k).any fun n => decide (n ≤ 40)) = true ∧
        ((leafIds L).map (branchTotal wt L 8)).Nodup) ∧
      g.blockId ∈ leafIds L ∧ branchTotal wt L 8 g.blockId = some 40 ∧
      (L'.getChainTip.map (·.blockId)) = some y₃.blockId ∧
      branchTotal wt L 8 y₃.blockId = some 30 := by decide +kernel
  obtain ⟨⟨hrun, htry, hun, htip⟩, ⟨hleaves, hnodup⟩, hg, hgt, htip', hy⟩ := hall
  have hleaf := Sample.leaves_checked hleaves
  refine ⟨L, L', genesis_sample, fixedWeights_of_unregistered hun,
    Sample.performAll_performs (Sample.some_getD Sample.ledger hrun), Option.isSome_iff_ne_none.mp htip,
    decided_of_totals (fun k hk => (hleaf k hk).2) hnodup, fun k hk => (hleaf k (isLeaf_iff.mp hk)).1,
    Sample.performAll_triesAll (Sample.some_getD L htry), ?_⟩
  rintro ⟨t, ht, hheavy⟩
  rw [ht, Option.map_some, Option.some.injEq] at htip'
  rw [htip'] at hheavy
  exact not_heaviest (isLeaf_iff.mpr hg) (hasTotal_of_branchTotal hgt) (hasTotal_of_branchTotal hy)
    (by decide) hheavy

/-- A branch that arrives children first, and is heavier once its weights are recomputed. -/
theorem fork_choice_childrenFirst :
    let W := World.sample 0
    let wt := fun _ : Str => caacUnregisteredWeight
    let c₁ := Sample.block W Sample.ledger 1 none [Sample.transfer]
    let x₁ := Sample.block W Sample.ledger 1 none []
    let x₂ := Sample.claimed W 2 (some x₁.blockId) [] x₁.stateRoot
    let ids := [c₁.blockId, x₂.blockId]
    ∃ L L', Weighs W wt Sample.ledger L ∧ TriesAll W wt ids L L' ∧
      (∃ t, L'.getChainTip = some t ∧ Heaviest (forkTree wt L) t.blockId) ∧
      L'.getChainTip.map (·.blockId) = some x₂.blockId := by
  intro W wt c₁ x₁ x₂ ids
  let L₁ := (Sample.perform W (.gossip c₁) Sample.ledger).getD Sample.ledger
  let L₂ := (Sample.perform W (.backfill x₂) L₁).getD L₁
  let L := (Sample.perform W (.backfill x₁) L₂).getD L₂
  let L' := (Sample.performAll W (ids.map .tryReorg) L).getD L
  have hall : ((Sample.perform W (.gossip c₁) Sample.ledger).isSome = true ∧
        (Sample.perform W (.backfill x₂) L₁).isSome = true ∧
        (Sample.perform W (.backfill x₁) L₂).isSome = true ∧
        (Sample.performAll W (ids.map .tryReorg) L).isSome = true ∧
        unregistered Sample.ledger = true ∧ L.getChainTip.isSome = true) ∧
      (c₁.blockHeight ≠ Sample.ledger.blockHeight ∧
        (match gossipChecks W Sample.ledger c₁ with
          | .ok p => decide (p.1 = none)
          | .error _ => true) = true ∧
        L₁.blockRecordById x₂.blockId = none ∧ L₂.blockRecordById x₁.blockId = none) ∧
      ((leafIds L).all (fun k => decide (k ∈ ids) &&
          (branchTotal wt L 8 k).any fun n => decide (n ≤ 40)) = true ∧
        ((leafIds L).map (branchTotal wt L 8)).Nodup) ∧
      L'.getChainTip.map (·.blockId) = some x₂.blockId := by decide +kernel
  obtain ⟨⟨h₁, h₂, h₃, htry, hun, htip⟩, ⟨hnext, hparent, hnew₂, hnew₁⟩, ⟨hleaves, hnodup⟩, htip'⟩ :=
    hall
  have hnone : ∀ {L : Ledger} {id : Str} {parent : Option Str} {producerId : Str},
      L.blockRecordById id = none → Rerecords L id parent producerId := by
    intro L id parent producerId h r hr
    rw [h] at hr
    cases hr
  have hrun₁ : Weighs W wt Sample.ledger L₁ := by
    obtain ⟨hs, hf⟩ := Sample.perform_succeeds (Sample.some_getD Sample.ledger h₁)
    refine .call 0 16 (.refl _) ?_ hs hf
    intro parent c hc
    rw [hc] at hparent
    rw [if_neg hnext]
    refine ⟨?_, hnone (Tree.get_empty _)⟩
    have hroot : parent = none := of_decide_eq_true hparent
    rw [OnTip, hroot]
    exact congrArg (Option.map _) (Tree.get_empty ()).symm
  have hrun₂ : Weighs W wt Sample.ledger L₂ := by
    obtain ⟨hs, hf⟩ := Sample.perform_succeeds (Sample.some_getD L₁ h₂)
    exact .call 0 16 (c := .backfill x₂) hrun₁ (fun _ _ _ _ => hnone hnew₂) hs hf
  have hrun : Weighs W wt Sample.ledger L := by
    obtain ⟨hs, hf⟩ := Sample.perform_succeeds (Sample.some_getD L₂ h₃)
    exact .call 0 16 (c := .backfill x₁) hrun₂ (fun _ _ _ _ => hnone hnew₁) hs hf
  have hleaf := Sample.leaves_checked hleaves
  have htries := Sample.performAll_triesAll (Sample.some_getD L htry)
  exact ⟨L, L', hrun, htries, (fork_choice genesis_sample (fixedWeights_of_unregistered hun) hrun
    (Option.isSome_iff_ne_none.mp htip) (decided_of_totals (fun k hk => (hleaf k hk).2) hnodup)
    (fun k hk => (hleaf k (isLeaf_iff.mp hk)).1) htries).1, htip'⟩

end TetCore.Consensus
