import TetCore.Consensus.Calls

/-!
# The canonical chain over whole runs

Blocks enter a ledger by four paths that check parents and heights differently. `Call.Orderly` says
of each call what no path checks: a record is not written over the record of a canonical block, a
reorg's branch takes up the heights where the common ancestor leaves off, the first block names no
parent, and heights stay below `u64::MAX`. Under it every call leads from a canonical chain to a
canonical chain (`OnChain.call`), so in every state of a run of orderly calls the tip, the height
map, the records and their parents agree (`canonical_chain`).
-/

namespace TetCore.Consensus

open TetCore.Lib

/-! ## Orderly calls -/

/-- No canonical record is stored under the id. -/
def Fresh (L : Ledger) (id : Str) : Prop := ∀ r, L.blockRecordById id = some r → r.canonical = false

/-- No block above the tip has the id of a canonical block. -/
def NoCollision (W : World) (L : Ledger) : Prop :=
  ∀ height parent root hashes producer, L.blockHeight < height →
    Fresh L (blockIdForBlock W height parent root hashes producer)

/-- The explicit parent of a remote block, trimmed, unless it is blank. -/
def explicitParent (explicit : Option Str) : Option Str :=
  (explicit.map trim).filter fun p => !p.isEmpty

/-- What the paths of a block into the ledger leave unchecked. -/
def Call.Orderly (W : World) (nowMs fuel : Nat) (L : Ledger) : Call → Prop
  | .mine _ _ _ => L.blockHeight < u64Max ∧ NoCollision W L
  | .mineCoinbaseOnly _ => L.blockHeight < u64Max ∧ NoCollision W L
  | .gossip block => Fresh L block.blockId ∧
      if block.blockHeight = L.blockHeight then
        ∀ parent c, gossipChecks W L block = .ok (parent, c) →
          ReorgContinues fuel block.blockId (forkRecorded nowMs block c parent L)
      else L.blockHeight = 0 → explicitParent block.parentBlockId = none
  | .backfill block => Fresh L block.blockId ∧
      ∀ p, block.parentBlockId = some p → trim p = p ∧ p ≠ []
  | .tryReorg newTipId => ∀ branch, planBackfilled L fuel newTipId = .ok (some branch) →
      ReorgContinues fuel newTipId (reweighBranch nowMs branch L).2
  | .prune _ => True

namespace OnChain

variable {W : World} {Good : List BlockRecordV1 → Ledger → Prop} {nowMs fuel : Nat}
  {cs : List BlockRecordV1} {L L' : Ledger}

/-! ## Parents -/

theorem parentForHeight (h : OnChain W Good cs L) {n : Nat} {p : Str}
    (hp : parentBlockIdForHeight L n = .ok (some p)) : trim p = p ∧ p ≠ [] := by
  obtain ⟨c, hc, rfl⟩ := h.atTop.parent_mem hp
  exact ⟨h.chain.linked.trimmed c hc, h.chain.linked.id_ne c hc⟩

theorem explicitParent_trimmed {explicit : Option Str} {p : Str}
    (h : explicitParent explicit = some p) : trim p = p ∧ p ≠ [] := by
  unfold explicitParent at h
  obtain ⟨hmap, hne⟩ := Option.filter_eq_some_iff.mp h
  obtain ⟨q, -, rfl⟩ := Option.map_eq_some_iff.mp hmap
  refine ⟨trim_trim q, ?_⟩
  intro hnil
  rw [hnil] at hne
  cases hne

theorem gossipParent_trimmed (h : OnChain W Good cs L) {n : Nat} {explicit : Option Str} {p : Str}
    (hp : gossipParent L n explicit = .ok (some p)) : trim p = p ∧ p ≠ [] := by
  by_cases hn : n = satAdd L.blockHeight 1
  · obtain ⟨expected, hexp, heq | ⟨-, heq⟩⟩ := gossipParent_next hn hp
    · rw [← heq] at hexp
      exact h.parentForHeight hexp
    · exact explicitParent_trimmed heq.symm
  · rw [gossipParent, if_neg hn, Except.ok.injEq] at hp
    change (explicitParent explicit).or _ = some p at hp
    cases he : explicitParent explicit with
    | some q =>
      rw [he] at hp
      cases hp
      exact explicitParent_trimmed he
    | none =>
      rw [he, Option.none_or] at hp
      cases hpar : parentBlockIdForHeight L n with
      | error e =>
        rw [hpar] at hp
        cases hp
      | ok q =>
        rw [hpar, valueOr] at hp
        rw [hp] at hpar
        exact h.parentForHeight hpar

/-! ## Records off the chain -/

/-- Recording a block that is not canonical. -/
theorem recordFork (hG : Readable Good) (h : OnChain W Good cs L) (args : RecordBlockArgs)
    (hc : args.canonical = false) (hid : trim args.blockId = args.blockId) (hne : args.blockId ≠ [])
    (hfresh : Fresh L args.blockId)
    (hpar : ∀ p, args.parentBlockId = some p → trim p = p ∧ p ≠ [])
    (hhash : Hashed W args.txs args.txHashes)
    (hr : recordBlockRecord nowMs args L = .ok L') : OnChain W Good cs L' := by
  simp only [recordBlockRecord, bind_eq_ok, mapError_eq_ok] at hr
  obtain ⟨parent, hp, hr⟩ := hr
  obtain ⟨-, rfl⟩ := Ledger.recordBlockRecord_fork hr hc
  refine h.record hG ⟨hid.symm, trim_trim _, ?_, fun p hrow => ?_, hhash⟩ (h.ne_of_fork hfresh)
  · have htrim : trim (args.row L nowMs parent).blockId = args.blockId := hid
    rw [htrim]
    exact hne
  · have hrow' : parent = some p := hrow
    cases hargs : args.parentBlockId with
    | some q =>
      rw [hargs, recordedParent, Except.ok.injEq] at hp
      rw [← hp, Option.some.injEq] at hrow'
      subst hrow'
      exact hpar q hargs
    | none =>
      rw [hargs, recordedParent, hrow'] at hp
      exact h.parentForHeight hp

theorem forkRecorded (nowMs : Nat) (hG : Readable Good) (h : OnChain W Good cs L) {block : RemoteBlockGossip}
    {parent : Option Str} {c : CheckedBlock} (hc : gossipChecks W L block = .ok (parent, c))
    (hfresh : Fresh L block.blockId) :
    OnChain W Good cs (forkRecorded nowMs block c parent L) := by
  obtain ⟨hpar, hhash, hid, -, -⟩ := gossipChecks_ok hc
  unfold Consensus.forkRecorded
  cases hr : recordBlockRecord nowMs (block.recordArgs c parent false) L with
  | error e => exact h
  | ok L₁ =>
    refine h.recordFork hG (block.recordArgs c parent false) rfl ?_ ?_ hfresh ?_
      (hashed_of_hashTxs hhash) hr
    · change trim block.blockId = block.blockId
      rw [hid]
      exact trim_blockIdForBlock _ _ _ _ _ _
    · change block.blockId ≠ []
      rw [hid]
      exact blockIdForBlock_ne_nil _ _ _ _ _ _
    · intro p hp
      rw [show parent = some p from hp] at hpar
      exact h.gossipParent_trimmed hpar

/-! ## Blocks on top -/

/-- A mined block. -/
theorem mined (hG : KeptByBlocks W Good) (h : OnChain W Good cs L) (hmax : L.blockHeight < u64Max)
    (hcol : NoCollision W L) {producerId : Str} {txs : List SignedTxEnvelopeV1}
    {outcome : MineOutcome} (hd : DistinctTxs W txs)
    (hrun : buildAndApplyBlock W nowMs producerId txs L = (.ok outcome, L')) :
    ∃ cs', OnChain W Good cs' L' := by
  obtain ⟨b, root, M, hplan, -, happ⟩ := buildAndApplyBlock_ok hrun
  obtain ⟨hheight, hhash, htxs, hpar, hzk, root', hid⟩ := planBlock_ok hplan
  rw [← htxs] at hzk
  have hlen : b.blockHeight = cs.length + 1 := by
    have htop := h.atTop.height
    simp only [satAdd] at hheight
    omega
  have htrim : trim b.blockId = b.blockId := by
    rw [hid]
    exact trim_blockIdForBlock _ _ _ _ _ _
  have hparent : b.parentBlockId = headId none cs := by
    rw [hlen, h.atTop.parent h.chain] at hpar
    exact (Except.ok.inj hpar).symm
  have hfresh : Fresh L b.blockId := by
    rw [hid]
    refine hcol _ _ _ _ _ ?_
    rw [hlen, h.atTop.height]
    omega
  refine ⟨_, h.applied hG happ hzk ⟨rfl, htrim, ?_, fun p hp => ?_, ?_⟩ hparent hlen fun c hc => ?_⟩
  · change b.blockId ≠ []
    rw [hid]
    exact blockIdForBlock_ne_nil _ _ _ _ _ _
  · rw [show b.parentBlockId = some p from hp] at hpar
    exact h.parentForHeight hpar
  · rw [← htxs] at hd hhash
    exact hd.hashed hhash
  · have := h.ne_of_fork hfresh c hc
    rwa [htrim] at this

/-- A block from a peer on top of the chain. -/
theorem next (hG : KeptByBlocks W Good) (h : OnChain W Good cs L) {block : RemoteBlockGossip}
    {parent : Option Str} {c : CheckedBlock} {M : Ledger}
    (hc : gossipChecks W L block = .ok (parent, c)) (hlt : L.blockHeight < block.blockHeight)
    (hheight : block.blockHeight = satAdd L.blockHeight 1) (hfresh : Fresh L block.blockId)
    (hfirst : L.blockHeight = 0 → explicitParent block.parentBlockId = none)
    (happ : Applied W nowMs ((block.recordArgs c parent true).row M nowMs parent) L L') :
    ∃ cs', OnChain W Good cs' L' := by
  obtain ⟨hpar, hhash, hid, hzk, -⟩ := gossipChecks_ok hc
  have hlen : block.blockHeight = cs.length + 1 := by
    have htop := h.atTop.height
    simp only [satAdd] at hheight
    omega
  have htrim : trim block.blockId = block.blockId := by
    rw [hid]
    exact trim_blockIdForBlock _ _ _ _ _ _
  have hparent : parent = headId none cs := by
    obtain ⟨expected, hexp, heq | ⟨hnone, heq⟩⟩ := gossipParent_next hheight hpar
    · rw [hlen, h.atTop.parent h.chain] at hexp
      rw [heq, ← Except.ok.inj hexp]
    · rw [hlen, h.atTop.parent h.chain, hnone] at hexp
      cases cs with
      | nil =>
        rw [heq]
        exact hfirst h.atTop.height
      | cons d cs => cases hexp
  refine ⟨_, h.applied hG happ hzk ⟨rfl, htrim, ?_, fun p hp => ?_, hashed_of_hashTxs hhash⟩ hparent
    hlen fun d hd => ?_⟩
  · change block.blockId ≠ []
    rw [hid]
    exact blockIdForBlock_ne_nil _ _ _ _ _ _
  · rw [show parent = some p from hp] at hpar
    exact h.gossipParent_trimmed hpar
  · have := h.ne_of_fork hfresh d hd
    rwa [htrim] at this

/-! ## The calls -/

theorem backfill (hG : Readable Good) (h : OnChain W Good cs L) {block : RemoteBlockGossip}
    {row : BlockRecordV1} (hfresh : Fresh L block.blockId)
    (hpar : ∀ p, block.parentBlockId = some p → trim p = p ∧ p ≠ [])
    (hrun : validateAndRecordBackfillCandidate W nowMs block L = (.ok row, L')) :
    OnChain W Good cs L' := by
  simp only [validateAndRecordBackfillCandidate, Proc.bind_eq_ok_iff, Proc.check_eq_ok_iff,
    Proc.update_eq_ok_iff, Proc.observe_eq_ok_iff] at hrun
  obtain ⟨producer, _, ⟨-, rfl⟩, c, _, ⟨hc, rfl⟩, _, L₁, hr, -, rfl⟩ := hrun
  simp only [checkBlock, bind_eq_ok, require_eq_ok, mapError_eq_ok, Except.ok.injEq] at hc
  obtain ⟨hashes, hhash, _, hid, _, -, _, -, reward, -, _, -, rfl⟩ := hc
  refine h.recordFork hG _ rfl ?_ ?_ hfresh hpar (hashed_of_hashTxs hhash) hr
  · change trim block.blockId = block.blockId
    rw [← hid]
    exact trim_blockIdForBlock _ _ _ _ _ _
  · change block.blockId ≠ []
    rw [← hid]
    exact blockIdForBlock_ne_nil _ _ _ _ _ _

theorem nodup (h : OnChain W Good cs L) : (cs.map (·.blockId)).Nodup := by
  have hchain := h.chain
  have hstored := h.stored
  clear h
  induction hchain with
  | nil => exact List.nodup_nil
  | @cons b bs htrim hne hpar hheight hcan htail ih =>
    rw [List.map_cons, List.nodup_cons]
    refine ⟨fun hmem => ?_, ih fun c hc => hstored c (List.mem_cons_of_mem _ hc)⟩
    obtain ⟨c, hc, heq⟩ := List.mem_map.mp hmem
    have hb := hstored b List.mem_cons_self
    have hst := hstored c (List.mem_cons_of_mem _ hc)
    rw [heq, hb, Option.some.injEq] at hst
    have hle := htail.height_le c hc
    rw [← hst, hheight] at hle
    omega

/-- Recording blocks off the chain again, with other weights. -/
theorem reweighBranch (hG : Readable Good) : ∀ {bs : List BlockRecordV1} {L L' : Ledger} {u : Unit},
    OnChain W Good cs L →
    (∀ b ∈ bs, FiledUnder W b.blockId b ∧ ∀ c ∈ cs, c.blockId ≠ b.blockId) →
    reweighBranch nowMs bs L = (.ok u, L') → OnChain W Good cs L' := by
  intro bs
  induction bs with
  | nil =>
    intro L L' u h _ hrun
    cases hrun
    exact h
  | cons b bs ih =>
    intro L L' u h hbs hrun
    simp only [Consensus.reweighBranch, Proc.bind_eq_ok_iff, Proc.update_eq_ok_iff] at hrun
    obtain ⟨_, L₁, hr, hrun⟩ := hrun
    obtain ⟨hb, hne⟩ := hbs b List.mem_cons_self
    obtain ⟨-, rfl⟩ := Ledger.recordBlockRecord_fork hr rfl
    refine ih (h.record hG ?_ ?_) (fun c hc => hbs c (List.mem_cons_of_mem _ hc)) hrun
    · change FiledUnder W (trim b.blockId) _
      rw [hb.trimmed]
      exact ⟨rfl, hb.trimmed, hb.ne, hb.parent, hb.hashed⟩
    · change ∀ c ∈ cs, c.blockId ≠ trim b.blockId
      rw [hb.trimmed]
      exact hne

theorem planBackfilled_ok {newTipId : Str} {branch : List BlockRecordV1}
    (h : planBackfilled L fuel newTipId = .ok (some branch)) :
    ∃ r x, L.blockRecordById newTipId = some r ∧
      findCommonAncestor L fuel newTipId = .ok (some x) ∧
      branchFromAncestorToTip L fuel x newTipId = .ok branch := by
  unfold planBackfilled at h
  cases hrec : L.blockRecordById newTipId with
  | none =>
    rw [hrec] at h
    cases h
  | some r =>
    simp only [hrec] at h
    cases htip : L.getChainTip with
    | none =>
      rw [htip] at h
      cases h
    | some tip =>
      simp only [htip] at h
      split at h <;> try cases h
      rename_i x hx
      split at h <;> cases h
      rename_i hbranch
      exact ⟨r, x, rfl, hx, hbranch⟩

/-- The branch of a backfilled reorg is off the chain. -/
theorem backfilled_branch (h : OnChain W Good cs L) {newTipId : Str} {branch : List BlockRecordV1}
    (hplan : planBackfilled L fuel newTipId = .ok (some branch)) :
    ∀ b ∈ branch, FiledUnder W b.blockId b ∧ ∀ c ∈ cs, c.blockId ≠ b.blockId := by
  obtain ⟨r, x, hr, hanc, hbranch⟩ := planBackfilled_ok hplan
  obtain ⟨tip, anc, htip, hids, hwalk⟩ := findCommonAncestor_ok hanc
  obtain ⟨hhead, htrim⟩ := h.headId_tip htip
  rw [htrim, ← hhead] at hids
  have hrF := h.filed _ r hr
  obtain ⟨ns, hout, -, -, hst⟩ := branch_of_walks
    (fun k r hk => ⟨(h.filed k r hk).id, (h.filed k r hk).parent⟩)
    (fun id hid => by
      rw [← Option.some.inj hid]
      exact ⟨trim_trim _, hrF.ne⟩) hwalk hbranch
  rw [List.append_nil] at hout
  have hall := (ancestorIdsFrom_branch h.chain.linked
    (fun b hb => .of_stored (h.stored b hb)) h.nodup (fun _ _ => List.not_mem_nil) hids).1
  intro b hb
  rw [hout, List.mem_reverse] at hb
  obtain ⟨hrec, hoff⟩ := hst b hb
  have hbF := h.filed _ b hrec
  rw [← hbF.id] at hbF
  exact ⟨hbF, fun c hc heq => hoff (heq ▸ hall c hc)⟩

/-- **An orderly call** leads from a canonical chain to a canonical chain. -/
theorem call (hG : KeptByBlocks W Good) (h : OnChain W Good cs L) {c : Call}
    (hok : c.Orderly W nowMs fuel L) (hrun : c.Succeeds W nowMs fuel L L') :
    ∃ cs', OnChain W Good cs' L' := by
  cases c with
  | mine producerId mempool blockFailures =>
    obtain ⟨outcome, node, hmine, rfl⟩ := hrun
    obtain ⟨txs, hd, hbuild⟩ := minePendingBlockAs_ok hmine
    exact h.mined hG hok.1 hok.2 hd hbuild
  | mineCoinbaseOnly producerId =>
    obtain ⟨outcome, hmine⟩ := hrun
    rw [mineCoinbaseOnlyBlockAs, Proc.mapErr_eq_ok_iff] at hmine
    exact h.mined hG hok.1 hok.2 List.Pairwise.nil hmine
  | gossip block =>
    obtain ⟨outcome, hgossip⟩ := hrun
    obtain ⟨hfresh, hok⟩ := hok
    rcases gossip_cases hgossip with rfl | ⟨parent, c, hc, ⟨heq, hfork⟩ | ⟨hlt, hheight, hnext⟩⟩
    · exact ⟨cs, h⟩
    · rw [if_pos heq] at hok
      rcases applyFork_cases hfork with ⟨-, rfl⟩ | ⟨_, r, -, -, hreorg, hr⟩
      · exact ⟨cs, h⟩
      · have hchain := h.forkRecorded nowMs hG.readable hc hfresh
        rcases hr with ⟨done, _, rfl, -⟩ | ⟨_, -, hr⟩ | ⟨-, hr⟩
        · cases done with
          | true => exact hchain.reorg hG (hok parent c hc) hreorg
          | false =>
            rw [reorgToBranch_ok_false hreorg]
            exact ⟨cs, hchain⟩
        · cases hr
        · cases hr
    · rw [if_neg (by omega)] at hok
      rcases applyNext_cases hc hheight hnext with ⟨⟨_, hr⟩, -⟩ | ⟨_, _, hr, -⟩ | ⟨_, M, -, -, happ⟩
      · cases hr
      · cases hr
      · exact h.next hG hc hlt hheight hfresh hok happ
  | backfill block =>
    obtain ⟨row, hback⟩ := hrun
    exact ⟨cs, h.backfill hG.readable hok.1 hok.2 hback⟩
  | tryReorg newTipId =>
    obtain ⟨done, htry⟩ := hrun
    simp only [tryReorgBackfilledBranch, Proc.bind_eq_ok_iff, Proc.observe_eq_ok_iff] at htry
    obtain ⟨branch?, _, ⟨hplan, rfl⟩, htry⟩ := htry
    cases branch? with
    | none =>
      cases htry
      exact ⟨cs, h⟩
    | some branch =>
      simp only [Proc.bind_eq_ok_iff] at htry
      obtain ⟨_, L₁, hweigh, hreorg⟩ := htry
      have hchain := h.reweighBranch hG.readable (h.backfilled_branch hplan) hweigh
      have hcont := hok branch hplan
      rw [hweigh] at hcont
      cases done with
      | true => exact hchain.reorg hG hcont hreorg
      | false =>
        rw [reorgToBranch_ok_false hreorg]
        exact ⟨cs, hchain⟩
  | prune currentHeight =>
    have hL' : L' = L.pruneHistoryAfterBlock W currentHeight := hrun
    subst hL'
    exact ⟨cs, h.prune hG.readable W currentHeight⟩

end OnChain

/-! ## Runs -/

/-- A ledger before the first block. -/
structure Genesis (L : Ledger) : Prop where
  tip : L.getChainTip = none
  height : L.blockHeight = 0
  byHeight : ∀ n, L.canonicalBlockIdAtHeight n = none
  records : ∀ id, L.blocksById.get id = none

/-- The ledgers a node reaches from `G` by orderly calls that return without an error. -/
inductive Reaches (W : World) (G : Ledger) : Ledger → Prop where
  | genesis : Reaches W G G
  | call (nowMs fuel : Nat) {L L' : Ledger} {c : Call} (before : Reaches W G L)
      (orderly : c.Orderly W nowMs fuel L) (succeeds : c.Succeeds W nowMs fuel L L') :
      Reaches W G L'

section Runs

variable {W : World} {Good : List BlockRecordV1 → Ledger → Prop} {G L : Ledger}

theorem Genesis.onChain (hG : Genesis G) (hgood : Good [] G) : OnChain W Good [] G where
  filed k r hk := by
    rw [hG.records k] at hk
    cases hk
  chain := .nil
  stored b hb := absurd hb List.not_mem_nil
  stack := ⟨⟨by rw [hG.tip]; rfl, hG.height, hG.byHeight⟩, hgood⟩

/-- **Every state of a run** of orderly calls is on its canonical chain. -/
theorem Reaches.onChain (hG : Genesis G) (hgood : Good [] G) (hkept : KeptByBlocks W Good)
    (h : Reaches W G L) : ∃ cs, OnChain W Good cs L := by
  induction h with
  | genesis => exact ⟨[], hG.onChain hgood⟩
  | call _ _ _ horderly hsucceeds ih =>
    obtain ⟨cs, hcs⟩ := ih
    exact hcs.call hkept horderly hsucceeds

/-- The tip is at the height of the ledger; every height up to it has a canonical block, stored as
such at that height, whose parent is the canonical block below; no height above is canonical. -/
structure ChainConsistent (L : Ledger) : Prop where
  tip : (L.getChainTip.map (·.height)).getD 0 = L.blockHeight
  canonical : ∀ n, 1 ≤ n → n ≤ L.blockHeight → ∃ id r,
    L.canonicalBlockIdAtHeight n = some id ∧ L.blockRecordById id = some r ∧ r.height = n ∧
    r.canonical = true ∧ (1 < n → r.parentBlockId = L.canonicalBlockIdAtHeight (n - 1))
  above : ∀ n, L.blockHeight < n → L.canonicalBlockIdAtHeight n = none

theorem OnChain.consistent {cs : List BlockRecordV1} (h : OnChain W Good cs L) :
    ChainConsistent L := by
  obtain ⟨htip, hheight, hby⟩ := h.atTop
  refine ⟨?_, fun n hlo hhi => ?_, fun n hn => ?_⟩
  · have htip' := congrArg (Option.map Prod.fst) htip
    rw [Option.map_map, Option.map_map] at htip'
    change L.getChainTip.map (·.height) = _ at htip'
    rw [htip', hheight]
    have hchain := h.chain
    cases hchain with
    | nil => rfl
    | cons _ _ _ hb _ _ => exact hb
  · rw [hheight] at hhi
    obtain ⟨b, hb, hfind, hbn, hcan, hpar⟩ := h.chain.at_height hlo hhi
    refine ⟨b.blockId, b, ?_, h.stored b hb, hbn, hcan, fun hgt => ?_⟩
    · rw [hby, hfind]
      rfl
    · rw [hby, hpar hgt]
  · rw [hheight] at hn
    rw [hby, h.chain.find?_above hn]
    rfl

end Runs

theorem genesis_sample : Genesis Sample.ledger where
  tip := Tree.get_empty ()
  height := rfl
  byHeight n := Tree.get_empty n
  records id := Tree.get_empty id

theorem backfilledAgain_evaluated :
    let W := World.sample 100000
    let b := Sample.block W Sample.ledger 1 none [Sample.transfer]
    let L₁ := Sample.gossiped W b Sample.ledger
    let L₂ := Sample.backfilled W b L₁
    (applyRemoteBlockFromGossipSync W 0 8 b Sample.ledger).1.isOk = true ∧
      (validateAndRecordBackfillCandidate W 0 b L₁).1.isOk = true ∧ L₂.blockHeight = 1 ∧
      (L₂.canonicalBlockIdAtHeight 1).bind (fun id => (L₂.blockRecordById id).map (·.canonical)) =
        some false := by
  decide +kernel

/-- The first of two blocks that are backfilled beside a block with a transfer. -/
def Sample.firstOfBranch : RemoteBlockGossip :=
  Sample.block (World.sample 100000) Sample.ledger 1 none []

/-- The second one. -/
def Sample.secondOfBranch : RemoteBlockGossip :=
  Sample.block (World.sample 100000)
    (Sample.gossiped (World.sample 100000) Sample.firstOfBranch Sample.ledger) 2
    (some Sample.firstOfBranch.blockId) []

/-- A block with a transfer was gossiped, and two others backfilled. -/
def Sample.forkedLedger : Ledger :=
  Sample.backfilled (World.sample 100000) Sample.secondOfBranch
    (Sample.backfilled (World.sample 100000) Sample.firstOfBranch
      (Sample.gossiped (World.sample 100000)
        (Sample.block (World.sample 100000) Sample.ledger 1 none [Sample.transfer]) Sample.ledger))

/-- The block has given way to the two others. -/
def Sample.reorgedLedger : Ledger :=
  (tryReorgBackfilledBranch (World.sample 100000) 0 8 Sample.secondOfBranch.blockId
    Sample.forkedLedger).2

theorem reorgedLedger_evaluated :
    let W := World.sample 100000
    let b := Sample.block W Sample.ledger 1 none [Sample.transfer]
    let n₁ := Sample.firstOfBranch
    let n₂ := Sample.secondOfBranch
    let L₁ := Sample.gossiped W b Sample.ledger
    let L₂ := Sample.backfilled W n₁ L₁
    let L₃ := Sample.backfilled W n₂ L₂
    ((applyRemoteBlockFromGossipSync W 0 8 b Sample.ledger).1.isOk = true ∧
        (validateAndRecordBackfillCandidate W 0 n₁ L₁).1.isOk = true ∧
        (validateAndRecordBackfillCandidate W 0 n₂ L₂).1.isOk = true ∧
        (tryReorgBackfilledBranch W 0 8 n₂.blockId L₃).1.isOk = true) ∧
      (L₁.blockRecordById n₁.blockId = none ∧ L₂.blockRecordById n₂.blockId = none ∧
        b.blockHeight ≠ Sample.ledger.blockHeight ∧ explicitParent b.parentBlockId = none ∧
        trim n₁.blockId = n₁.blockId) ∧
      (planBackfilled L₃ 8 n₂.blockId).all (fun found => found.all fun branch =>
        (planReorg (reweighBranch 0 branch L₃).2 8 n₂.blockId).all fun found => found.all fun plan =>
          decide (Continues (reweighBranch 0 branch L₃).2 plan)) = true ∧
      Sample.reorgedLedger.canonicalBlockIdAtHeight 2 = some n₂.blockId := by
  decide +kernel

/-- A block gives way to a longer branch that was backfilled. -/
theorem reaches_reorged : Reaches (World.sample 100000) Sample.ledger Sample.reorgedLedger ∧
    Sample.reorgedLedger.canonicalBlockIdAtHeight 2 = some Sample.secondOfBranch.blockId := by
  obtain ⟨⟨hgossip, hback₁, hback₂, htry⟩, ⟨hfresh₁, hfresh₂, hnext, hpar, htrim⟩, hcont, htop⟩ :=
    reorgedLedger_evaluated
  obtain ⟨_, hgossip⟩ := Outcome.exists_ok hgossip
  obtain ⟨_, hback₁⟩ := Outcome.exists_ok hback₁
  obtain ⟨_, hback₂⟩ := Outcome.exists_ok hback₂
  obtain ⟨_, htry⟩ := Outcome.exists_ok htry
  have hfresh : ∀ {L : Ledger} {id : Str}, L.blockRecordById id = none → Fresh L id := by
    intro L id hnone r hr
    rw [hnone] at hr
    cases hr
  have h₁ : Reaches (World.sample 100000) Sample.ledger (Sample.gossiped (World.sample 100000)
      (Sample.block (World.sample 100000) Sample.ledger 1 none [Sample.transfer]) Sample.ledger) :=
    .call 0 8 (c := .gossip _) .genesis
      ⟨hfresh (Tree.get_empty _), by rw [if_neg hnext]; exact fun _ => hpar⟩
      ⟨_, Sample.gossiped_run hgossip⟩
  have h₂ := Reaches.call 0 8 (c := .backfill _) h₁
    ⟨hfresh hfresh₁, fun p hp => by cases hp⟩ ⟨_, Sample.backfilled_run hback₁⟩
  have h₃ := Reaches.call 0 8 (c := .backfill _) h₂
    ⟨hfresh hfresh₂, fun p hp => by
      rw [← Option.some.inj hp]
      exact ⟨htrim, blockIdForBlock_ne_nil _ _ _ _ _ _⟩⟩ ⟨_, Sample.backfilled_run hback₂⟩
  have h₄ := Reaches.call 0 8 (c := .tryReorg _) h₃ (fun branch hbranch plan hplan => by
    simp only [hbranch, hplan, Outcome.all_ok, Option.all_some] at hcont
    exact of_decide_eq_true hcont) ⟨_, Prod.fst_eq_iff.mp htry⟩
  refine ⟨?_, htop⟩
  unfold Sample.reorgedLedger Sample.forkedLedger
  exact h₄

end TetCore.Consensus
