import TetCore.Consensus.Canonical
import TetCore.Lib.ForkTree

/-!
# The weights of the stored branches

The block records of a ledger are a fork tree (`forkTree`): a record names its parent, weighs as much
as its producer and at least 1, and carries the weight of its branch as it was computed when the
record was written. `reweighBranch` brings a branch up to date and leaves every other branch as it
was (`Reweighed`); a reorg flips canonical flags and leaves the fork tree alone (`reorg_forkTree`).
-/

namespace TetCore.Consensus

open TetCore.Lib TetCore.Lib.ForkTree

/-! ## The fork tree of a ledger -/

/-- The node of a record, where producers weigh `wt`. -/
def nodeOf (wt : Str → Nat) (r : BlockRecordV1) : ForkNode Str :=
  ⟨explicitParent r.parentBlockId, max (wt r.producerId) 1, r.cumulativeWeight⟩

/-- The fork tree of the stored records. -/
def forkTree (wt : Str → Nat) (L : Ledger) : ForkTree Str :=
  fun k => (L.blocksById.get k).map (nodeOf wt)

/-- The record is filed under its own id, which has no blanks around it. -/
structure KeyedAt (k : Str) (r : BlockRecordV1) : Prop where
  id : r.blockId = k
  trimmed : trim k = k
  ne : k ≠ []

def Keyed (L : Ledger) : Prop := ∀ k r, L.blocksById.get k = some r → KeyedAt k r

section View

variable {wt : Str → Nat} {L L' : Ledger}

theorem forkTree_record (wt : Str → Nat) {id : Str} {r : BlockRecordV1}
    (h : L.blockRecordById id = some r) :
    forkTree wt L (trim id) = some (nodeOf wt r) := by
  have hget : L.blocksById.get (trim id) = some r := h
  rw [forkTree, hget]
  rfl

theorem forkTree_insert (wt : Str → Nat) {k : Str} {r : BlockRecordV1}
    (h : L'.blocksById = L.blocksById.insert k r) :
    forkTree wt L' k = some (nodeOf wt r) ∧ ∀ j, j ≠ k → forkTree wt L' j = forkTree wt L j := by
  constructor
  · rw [forkTree, h, Tree.get_insert_self]
    rfl
  · intro j hj
    rw [forkTree, forkTree, h, Tree.get_insert_ne (Ne.symm hj)]

theorem Keyed.insert (hK : Keyed L) {k : Str} {r : BlockRecordV1} (hr : KeyedAt k r)
    (h : L'.blocksById = L.blocksById.insert k r) : Keyed L' := by
  intro j r' hj
  rw [h, Tree.get_insert] at hj
  by_cases heq : k = j
  · rw [if_pos heq, Option.some.injEq] at hj
    rw [← hj, ← heq]
    exact hr
  · rw [if_neg heq] at hj
    exact hK j r' hj

theorem Keyed.forkTree_nil (hK : Keyed L) (wt : Str → Nat) : forkTree wt L [] = none := by
  rw [forkTree]
  cases h : L.blocksById.get [] with
  | none => rfl
  | some r => exact absurd rfl (hK [] r h).ne

theorem Keyed.key {id : Str} {r : BlockRecordV1} (hK : Keyed L)
    (h : L.blockRecordById id = some r) : r.blockId = trim id := (hK _ r h).id

theorem explicitParent_some (p : Str) :
    explicitParent (some p) = if trim p = [] then none else some (trim p) := by
  unfold explicitParent
  rw [Option.map_some, Option.filter_some]
  by_cases h : trim p = []
  · rw [if_pos h, h]
    rfl
  · rw [if_neg h, if_pos]
    simpa using h

/-- The weight of a block is the weight stored for its parent and its own. -/
theorem Keyed.cumulativeWeight (hK : Keyed L) (hwt : ∀ p, caacBlockWeight L p = wt p)
    (parent : Option Str) (producer : Str) :
    cumulativeWeightForBlock L parent (caacBlockWeight L producer) =
      min (storedAt (forkTree wt L) (explicitParent parent) + max (wt producer) 1) u128Max := by
  unfold cumulativeWeightForBlock
  rw [hwt, satAdd128]
  congr 2
  cases parent with
  | none => rfl
  | some p =>
    rw [explicitParent_some]
    simp only [Ledger.blockRecordById]
    by_cases hp : trim p = []
    · have hnil := hK.forkTree_nil wt
      rw [forkTree, Option.map_eq_none_iff] at hnil
      rw [if_pos hp, hp, hnil]
      rfl
    · rw [if_neg hp]
      simp only [storedAt, Option.bind_some, forkTree]
      cases L.blocksById.get (trim p) <;> rfl

/-- The ancestors of a block, as the walks find them, are on its branch. -/
theorem Ancestor.onBranch (wt : Str → Nat) (hK : Keyed L) {cur : Option Str} {x : Str} (h : Ancestor L cur x) :
    ∀ id, cur = some id → trim x = [] ∨ OnBranch (forkTree wt L) (trim id) (trim x) := by
  induction h with
  | self id =>
    intro id' hid
    cases hid
    exact Or.inr (.self _)
  | @parent id x _ ih =>
    intro id' hid
    cases hid
    cases hpar : parentOf L id with
    | none =>
      rename_i h
      rw [hpar] at h
      cases h
    | some p =>
      obtain ⟨r, hr, hp⟩ := Option.bind_eq_some_iff.mp hpar
      rcases ih p hpar with hx | hx
      · exact Or.inl hx
      by_cases hblank : trim p = []
      · rw [hblank] at hx
        exact Or.inl (hx.eq_of_none (hK.forkTree_nil wt))
      · right
        refine .parent (forkTree_record wt hr) ?_ hx
        change explicitParent r.parentBlockId = _
        rw [hp, explicitParent_some, if_neg hblank]

end View

/-! ## Branches -/

section Branches

variable {wt : Str → Nat} {nowMs fuel : Nat} {L L' : Ledger}

/-- The records from above `x`, or from genesis, up to a block, oldest first. -/
inductive Stacked (L : Ledger) (x : Str) : List BlockRecordV1 → Option Str → Prop where
  | genesis : Stacked L x [] none
  | ancestor : Stacked L x [] (some x)
  | snoc {bs : List BlockRecordV1} {b : BlockRecordV1} {id : Str} (ne : id ≠ x)
      (record : L.blockRecordById id = some b) (below : Stacked L x bs b.parentBlockId) :
      Stacked L x (bs ++ [b]) (some id)

theorem branchFrom_ok {x : Str} : ∀ {fuel : Nat} {cur : Option Str} {acc out : List BlockRecordV1},
    branchFrom L x fuel cur acc = .ok out → ∃ bs, Stacked L x bs cur ∧ out = bs ++ acc := by
  intro fuel
  induction fuel with
  | zero =>
    intro cur acc out h
    cases cur with
    | none =>
      cases h
      exact ⟨[], .genesis, rfl⟩
    | some id => cases h
  | succ fuel ih =>
    intro cur acc out h
    cases cur with
    | none =>
      cases h
      exact ⟨[], .genesis, rfl⟩
    | some id =>
      rw [branchFrom] at h
      by_cases hid : id = x
      · subst hid
        rw [if_pos rfl] at h
        cases h
        exact ⟨[], .ancestor, rfl⟩
      · rw [if_neg hid] at h
        cases hb : L.blockRecordById id with
        | none =>
          rw [hb] at h
          cases h
        | some b =>
          rw [hb] at h
          obtain ⟨bs, hbs, rfl⟩ := ih h
          exact ⟨bs ++ [b], .snoc hid hb hbs, List.append_cons bs b acc⟩

theorem branchFromAncestorToTip_ok {x newTipId : Str} {branch : List BlockRecordV1}
    (h : branchFromAncestorToTip L fuel x newTipId = .ok branch) :
    Stacked L x branch (some (trim newTipId)) := by
  obtain ⟨bs, hbs, rfl⟩ := branchFrom_ok h
  rw [List.append_nil]
  exact hbs

theorem Stacked.stored {x : Str} {bs : List BlockRecordV1} {cur : Option Str}
    (h : Stacked L x bs cur) : ∀ b ∈ bs, ∃ id, L.blockRecordById id = some b := by
  induction h with
  | genesis => exact fun b hb => absurd hb List.not_mem_nil
  | ancestor => exact fun b hb => absurd hb List.not_mem_nil
  | snoc _ record _ ih =>
    intro c hc
    rcases List.mem_append.mp hc with hc | hc
    · exact ih c hc
    · rw [List.mem_singleton] at hc
      subst hc
      exact ⟨_, record⟩

/-! ## Recording a branch again -/

/-- Only records changed, none its parent or producer, and every weighed branch is still weighed. -/
structure Reweighed (wt : Str → Nat) (L L' : Ledger) : Prop where
  untouched : Untouched L L'
  keyed : Keyed L'
  shape : SameShape (forkTree wt L) (forkTree wt L')
  weighed : ∀ {k : Str} {n : Nat}, Weighed u128Max (forkTree wt L) k n →
    Weighed u128Max (forkTree wt L') k n

theorem Reweighed.refl (hK : Keyed L) : Reweighed wt L L := ⟨.refl L, hK, .refl _, id⟩

theorem Reweighed.trans {L'' : Ledger} (h : Reweighed wt L L') (h' : Reweighed wt L' L'') :
    Reweighed wt L L'' :=
  ⟨h.untouched.trans h'.untouched, h'.keyed, h.shape.trans h'.shape, fun hk => h'.weighed (h.weighed hk)⟩

theorem Untouched.caacBlockWeight (h : Untouched L L') (p : Str) :
    caacBlockWeight L' p = caacBlockWeight L p := by
  unfold Untouched at h
  rw [h]
  rfl

theorem Untouched.chainTip (h : Untouched L L') : L'.getChainTip = L.getChainTip := by
  unfold Untouched at h
  rw [h]
  rfl

/-- The record of a block with the weights of the ledger, not canonical. -/
def reweighed (L : Ledger) (b : BlockRecordV1) : BlockRecordV1 :=
  { b with
    caacWeight := caacBlockWeight L b.producerId
    cumulativeWeight := cumulativeWeightForBlock L b.parentBlockId (caacBlockWeight L b.producerId)
    canonical := false }

/-- Recording a stored block again. -/
theorem Reweighed.record (hK : Keyed L) (hwt : ∀ p, caacBlockWeight L p = wt p) {id : Str}
    {b r : BlockRecordV1} (hr : L.blockRecordById id = some r) (hid : b.blockId = trim id)
    (hparent : explicitParent b.parentBlockId = explicitParent r.parentBlockId)
    (hown : max (wt b.producerId) 1 = max (wt r.producerId) 1)
    (hL' : L' = { L with blocksById := L.blocksById.insert (trim b.blockId) (reweighed L b) }) :
    Reweighed wt L L' ∧
      ∃ e, forkTree wt L' (trim id) = some e ∧ e.parent = explicitParent b.parentBlockId ∧
        e.stored = min (storedAt (forkTree wt L) e.parent + e.own) u128Max := by
  have hkey := hK _ r hr
  have hid' : trim b.blockId = trim id := by rw [hid, trim_trim]
  rw [hid'] at hL'
  have hblocks : L'.blocksById = L.blocksById.insert (trim id) (reweighed L b) := by rw [hL']
  obtain ⟨hself, hne⟩ := forkTree_insert wt hblocks
  have hold := forkTree_record wt hr
  have hstored := hK.cumulativeWeight hwt b.parentBlockId b.producerId
  refine ⟨⟨?_, ?_, ?_, ?_⟩, _, hself, rfl, hstored⟩
  · rw [hL']
    rfl
  · exact hK.insert (show KeyedAt _ (reweighed L b) from ⟨hid, hkey.trimmed, hkey.ne⟩) hblocks
  · intro k
    by_cases hk : k = trim id
    · rw [hk, hself, hold]
      change some (explicitParent r.parentBlockId, max (wt r.producerId) 1) =
        some (explicitParent b.parentBlockId, max (wt b.producerId) 1)
      rw [hparent, hown]
    · rw [hne k hk]
  · intro k n hk
    refine hk.insert hself hne hstored fun _ e he => ?_
    rw [hold] at he
    cases he
    exact ⟨hparent, hown⟩

theorem reweighBranch_snoc_ok {b : BlockRecordV1} : ∀ {bs : List BlockRecordV1} {L L' : Ledger}
    {u : Unit}, reweighBranch nowMs (bs ++ [b]) L = (.ok u, L') →
      ∃ L₁, reweighBranch nowMs bs L = (.ok (), L₁) ∧
        L' = { L₁ with blocksById := L₁.blocksById.insert (trim b.blockId) (reweighed L₁ b) } := by
  intro bs
  induction bs with
  | nil =>
    intro L L' u h
    simp only [List.nil_append, reweighBranch, Proc.bind_eq_ok_iff, Proc.update_eq_ok_iff] at h
    obtain ⟨_, L₁, hr, h⟩ := h
    cases h
    exact ⟨L, rfl, (Ledger.recordBlockRecord_fork hr rfl).2⟩
  | cons c bs ih =>
    intro L L' u h
    simp only [List.cons_append, reweighBranch, Proc.bind_eq_ok_iff] at h
    obtain ⟨_, L₁, hc, h⟩ := h
    obtain ⟨L₂, hbs, hL'⟩ := ih h
    refine ⟨L₂, ?_, hL'⟩
    simp only [reweighBranch, Proc.bind_eq_ok_iff]
    exact ⟨_, L₁, hc, hbs⟩

/-- **Recording a branch again** brings it up to date when it stands on a branch that is. -/
theorem Stacked.reweigh (hK : Keyed L) (hwt : ∀ p, caacBlockWeight L p = wt p) {x : Str}
    {bs : List BlockRecordV1} {cur : Option Str} (h : Stacked L x bs cur)
    (hx : ∀ p, explicitParent (some x) = some p → ∃ n, Weighed u128Max (forkTree wt L) p n) :
    ∀ {L' : Ledger} {u : Unit}, reweighBranch nowMs bs L = (.ok u, L') → Reweighed wt L L' ∧
      ∀ p, explicitParent cur = some p → ∃ n, Weighed u128Max (forkTree wt L') p n := by
  induction h with
  | genesis =>
    intro L' u hrun
    cases hrun
    exact ⟨.refl hK, fun p hp => by cases hp⟩
  | ancestor =>
    intro L' u hrun
    cases hrun
    exact ⟨.refl hK, hx⟩
  | @snoc bs b id _ record _ ih =>
    intro L' u hrun
    obtain ⟨L₁, hbs, hL'⟩ := reweighBranch_snoc_ok hrun
    obtain ⟨h₁, hbelow⟩ := ih hbs
    have hkey := hK _ b record
    -- the blocks below are recorded again by now, with the parents they had
    obtain ⟨e, he, hp, ho⟩ := h₁.shape.node (forkTree_record wt record)
    obtain ⟨r, hr, rfl⟩ := Option.map_eq_some_iff.mp he
    obtain ⟨h₂, e', he', hpar, hstored⟩ := Reweighed.record h₁.keyed
      (fun p => (h₁.untouched.caacBlockWeight p).trans (hwt p)) hr hkey.id hp.symm ho.symm hL'
    refine ⟨h₁.trans h₂, fun p hcur => ?_⟩
    rw [explicitParent_some, if_neg hkey.ne, Option.some.injEq] at hcur
    rw [← hcur]
    refine weighed_of_stored he' (fun q hq => ?_) hstored
    obtain ⟨n, hn⟩ := hbelow q (hpar.symm.trans hq)
    exact ⟨n, hn, h₂.weighed hn⟩

end Branches

/-! ## Reorgs -/

section Reorgs

variable {W : World} {wt : Str → Nat} {nowMs fuel : Nat} {L L' : Ledger}

/-- The records are keyed, with the same parents, producers and weights. -/
structure SameForks (wt : Str → Nat) (L L' : Ledger) : Prop where
  keyed : Keyed L'
  forkTree : forkTree wt L' = forkTree wt L

/-- Storing a record again with another canonical flag. -/
theorem SameForks.flag (hK : Keyed L) {k : Str} {r : BlockRecordV1} {c : Bool}
    (hr : L.blocksById.get k = some r)
    (h : L'.blocksById = L.blocksById.insert k { r with canonical := c }) : SameForks wt L L' := by
  obtain ⟨hself, hne⟩ := forkTree_insert wt h
  have hkey : KeyedAt k { r with canonical := c } :=
    ⟨(hK k r hr).id, (hK k r hr).trimmed, (hK k r hr).ne⟩
  refine ⟨hK.insert hkey h, ?_⟩
  funext j
  by_cases hj : j = k
  · rw [hj, hself, Consensus.forkTree, hr]
    rfl
  · exact hne j hj

theorem Unwound.sameForks (hK : Keyed L) {id : Str} {b : BlockRecordV1}
    (h : Unwound nowMs id b L L') : SameForks wt L L' := by
  obtain ⟨hrec, -, u, -, rfl⟩ := h
  refine SameForks.flag (c := false) hK hrec ?_
  rw [unwound_blocksById, Ledger.setBlockRecordCanonical]
  simp only [hrec, hK.key hrec]

theorem UnwindRun.sameForks {x : Str} {cur : Option Str} {bs : List BlockRecordV1}
    (h : UnwindRun nowMs x cur bs L L') (hK : Keyed L) : SameForks wt L L' := by
  induction h with
  | genesis L => exact ⟨hK, rfl⟩
  | ancestor L => exact ⟨hK, rfl⟩
  | cons _ head _ ih =>
    have h₁ : SameForks wt _ _ := head.sameForks hK
    have h₂ := ih h₁.keyed
    exact ⟨h₂.keyed, h₂.forkTree.trans h₁.forkTree⟩

/-- A block whose record is stored is applied again. -/
theorem Applied.sameForks (hK : Keyed L) {b : BlockRecordV1}
    (h : Applied W nowMs b L L') (hkey : KeyedAt b.blockId b)
    (hst : Consensus.forkTree wt L b.blockId = some (nodeOf wt b)) : SameForks wt L L' := by
  obtain ⟨-, hblocks, -⟩ := h.hidden
  rw [hkey.trimmed] at hblocks
  obtain ⟨hself, hne⟩ := forkTree_insert wt hblocks
  refine ⟨hK.insert hkey hblocks, ?_⟩
  funext j
  by_cases hj : j = b.blockId
  · rw [hj, hself, hst]
  · exact hne j hj

theorem ApplyRun.sameForks {bs : List BlockRecordV1} (h : ApplyRun W nowMs bs L L') (hK : Keyed L)
    (hst : ∀ b ∈ bs, KeyedAt b.blockId b ∧ Consensus.forkTree wt L b.blockId = some (nodeOf wt b)) :
    SameForks wt L L' := by
  induction h with
  | nil L => exact ⟨hK, rfl⟩
  | @cons b bs L L₁ L' _ _ head _ ih =>
    obtain ⟨hkey, hb⟩ := hst b List.mem_cons_self
    have h₁ := head.sameForks hK ⟨hkey.id, hkey.trimmed, hkey.ne⟩ hb
    have h₂ := ih h₁.keyed fun c hc => by
      rw [h₁.forkTree]
      exact hst c (List.mem_cons_of_mem _ hc)
    exact ⟨h₂.keyed, h₂.forkTree.trans h₁.forkTree⟩

/-- The tip after a branch is its last block. -/
theorem ApplyRun.tip {bs : List BlockRecordV1} {b : BlockRecordV1}
    (h : ApplyRun W nowMs (bs ++ [b]) L L') :
    L'.getChainTip = some ⟨1, b.height, trim b.blockId, b.cumulativeWeight, b.stateRoot, nowMs⟩ := by
  generalize hcs : bs ++ [b] = cs at h
  induction h generalizing bs with
  | nil => exact absurd hcs (List.append_ne_nil_of_right_ne_nil _ (List.cons_ne_nil _ _))
  | @cons c cs L L₁ L' _ _ head tail ih =>
    cases bs with
    | nil =>
      rw [List.nil_append, List.cons.injEq] at hcs
      obtain ⟨rfl, rfl⟩ := hcs
      cases tail
      obtain ⟨-, -, M, -, rfl⟩ := head
      exact Tree.get_insert_self _ _ _
    | cons d bs =>
      rw [List.cons_append, List.cons.injEq] at hcs
      exact ih hcs.2

/-- The branch of the tip is weighed, and the tip has its weight. -/
def TipWeighed (wt : Str → Nat) (L : Ledger) : Prop :=
  ∀ t, L.getChainTip = some t → ∃ n, Weighed u128Max (Consensus.forkTree wt L) t.blockId n ∧
    t.cumulativeWeight = min n u128Max

theorem TipWeighed.trimmed (h : TipWeighed wt L) (hK : Keyed L) {t : ChainTipV1}
    (ht : L.getChainTip = some t) : trim t.blockId = t.blockId ∧ t.blockId ≠ [] := by
  obtain ⟨n, hn, -⟩ := h t ht
  obtain ⟨e, he⟩ := hn.node
  obtain ⟨r, hr, -⟩ := Option.map_eq_some_iff.mp he
  exact ⟨(hK _ r hr).trimmed, (hK _ r hr).ne⟩

/-- The common ancestor is genesis or on the branch of the tip. -/
theorem findCommonAncestor_onBranch (hK : Keyed L) (hT : TipWeighed wt L) {id x : Str}
    {t : ChainTipV1} (ht : L.getChainTip = some t)
    (h : findCommonAncestor L fuel id = .ok (some x)) :
    trim x = [] ∨ OnBranch (Consensus.forkTree wt L) t.blockId (trim x) := by
  obtain ⟨t', anc, ht', hanc, hwalk⟩ := findCommonAncestor_ok h
  rw [ht, Option.some.injEq] at ht'
  subst ht'
  rcases walkToAncestor_mem hwalk with rfl | hx
  · exact Or.inl rfl
  · rcases ancestorIdsFrom_sound hanc x hx with hnil | hx
    · exact absurd hnil List.not_mem_nil
    · have hbranch := Ancestor.onBranch wt hK hx _ rfl
      rwa [trim_trim, (hT.trimmed hK ht).1] at hbranch

/-- **A successful reorg** to a weighed branch leaves the fork tree alone, and its tip is the new,
heavier one. -/
theorem reorg_forkTree (hK : Keyed L) (hT : TipWeighed wt L) {newTipId : Str} {n : Nat}
    (hn : Weighed u128Max (Consensus.forkTree wt L) (trim newTipId) n)
    (h : reorgToBranch W nowMs fuel newTipId L = (.ok true, L')) :
    SameForks wt L L' ∧ ∃ t t', L.getChainTip = some t ∧ L'.getChainTip = some t' ∧
      t'.blockId = trim newTipId ∧ t'.cumulativeWeight = min n u128Max ∧
      t.cumulativeWeight < t'.cumulativeWeight := by
  obtain ⟨plan, M, bs, hplan, hunwind, happly⟩ := reorgToBranch_ok_true h
  obtain ⟨ht, newTip, hrec, hlt, hanc, hbranch⟩ := planReorg_ok hplan
  have hkey := hK _ newTip hrec
  have hstack := branchFromAncestorToTip_ok hbranch
  have hweight : newTip.cumulativeWeight = min n u128Max := hn.stored_eq (forkTree_record wt hrec)
  have hM : SameForks wt L M := hunwind.sameForks hK
  have hL' : SameForks wt M L' := by
    refine happly.sameForks hM.keyed fun b hb => ?_
    obtain ⟨id, hid⟩ := hstack.stored b hb
    have hb := hK _ b hid
    rw [← hb.id] at hb
    refine ⟨hb, ?_⟩
    rw [hM.forkTree, (hK _ b hid).id]
    exact forkTree_record wt hid
  refine ⟨⟨hL'.keyed, hL'.forkTree.trans hM.forkTree⟩, plan.tip, ?_⟩
  rw [hkey.id, trim_trim] at hstack
  generalize hcur : some (trim newTipId) = cur at hstack
  generalize plan.branch = branch at hstack happly
  cases hstack with
  | genesis => cases hcur
  | ancestor =>
    -- the new tip would be on the branch of the tip, and no heavier
    exfalso
    have hx : trim plan.ancestor = trim newTipId := by rw [← Option.some.inj hcur, trim_trim]
    obtain ⟨m, hm, hmw⟩ := hT _ ht
    rcases findCommonAncestor_onBranch hK hT ht hanc with hnil | hon
    · rw [hx] at hnil
      exact hkey.ne hnil
    · rw [hx] at hon
      obtain ⟨n', hn', hle⟩ := hm.onBranch hon
      have := hn'.total.unique hn.total
      omega
  | snoc _ hb _ =>
    rw [← Option.some.inj hcur, Ledger.blockRecordById, trim_trim] at hb
    have hb' : L.blocksById.get (trim newTipId) = some newTip := hrec
    rw [hb', Option.some.injEq] at hb
    subst hb
    refine ⟨_, ht, happly.tip, ?_, hweight, hlt⟩
    change trim newTip.blockId = trim newTipId
    rw [hkey.id, trim_trim]

/-- The weight of the tip, `0` before the first block. -/
def tipWeight (L : Ledger) : Nat := (L.getChainTip.map (·.cumulativeWeight)).getD 0

theorem tipWeight_of_tip {t : ChainTipV1} (h : L.getChainTip = some t) :
    tipWeight L = t.cumulativeWeight := by
  rw [tipWeight, h]
  rfl

theorem tipWeight_congr (h : L'.getChainTip = L.getChainTip) : tipWeight L' = tipWeight L := by
  rw [tipWeight, h, tipWeight]

theorem TipWeighed.of_tip {t : ChainTipV1} {n : Nat} (ht : L.getChainTip = some t)
    (hn : Weighed u128Max (Consensus.forkTree wt L) t.blockId n)
    (hw : t.cumulativeWeight = min n u128Max) : TipWeighed wt L := by
  intro t' ht'
  rw [ht, Option.some.injEq] at ht'
  rw [← ht']
  exact ⟨n, hn, hw⟩

theorem TipWeighed.mono (h : TipWeighed wt L) (htip : L'.getChainTip = L.getChainTip)
    (hkept : ∀ t n, L.getChainTip = some t → Weighed u128Max (Consensus.forkTree wt L) t.blockId n →
      Weighed u128Max (Consensus.forkTree wt L') t.blockId n) : TipWeighed wt L' := by
  intro t ht
  rw [htip] at ht
  obtain ⟨n, hn, hw⟩ := h t ht
  exact ⟨n, hkept t n ht hn, hw⟩

/-- **A reorg to a weighed branch**, taken or declined, leaves a tip no lighter than before and than
the branch. -/
theorem reorg_weighed (hK : Keyed L) (hT : TipWeighed wt L) {newTipId : Str} {n : Nat} {done : Bool}
    (hn : Weighed u128Max (Consensus.forkTree wt L) (trim newTipId) n)
    (h : reorgToBranch W nowMs fuel newTipId L = (.ok done, L')) :
    SameForks wt L L' ∧ TipWeighed wt L' ∧ tipWeight L ≤ tipWeight L' ∧
      (L.getChainTip ≠ none → L'.getChainTip ≠ none ∧ min n u128Max ≤ tipWeight L') := by
  cases done with
  | true =>
    obtain ⟨hsame, t, t', ht, ht', hid, hw, hlt⟩ := reorg_forkTree hK hT hn h
    rw [← hsame.forkTree, ← hid] at hn
    refine ⟨hsame, .of_tip ht' hn hw, ?_, fun _ => ⟨by rw [ht']; exact Option.some_ne_none _, ?_⟩⟩
    · rw [tipWeight_of_tip ht, tipWeight_of_tip ht']
      exact Nat.le_of_lt hlt
    · rw [tipWeight_of_tip ht', hw]
  | false =>
    obtain ⟨hplan, rfl⟩ := reorgToBranch_declined h
    refine ⟨⟨hK, rfl⟩, hT, Nat.le_refl _, fun htip => ⟨htip, ?_⟩⟩
    obtain ⟨t, ht⟩ := Option.ne_none_iff_exists'.mp htip
    obtain ⟨e, he⟩ := hn.node
    obtain ⟨r, hr, -⟩ := Option.map_eq_some_iff.mp he
    rw [tipWeight_of_tip ht, ← hn.stored_eq (forkTree_record wt hr)]
    exact planReorg_none hplan ht hr

theorem planBackfilled_ne_none {newTipId : Str} {t : ChainTipV1} {r : BlockRecordV1}
    (ht : L.getChainTip = some t) (hr : L.blockRecordById newTipId = some r) :
    planBackfilled L fuel newTipId ≠ .ok none := by
  unfold planBackfilled findCommonAncestor
  simp only [hr, ht]
  cases ancestorIdsFrom L fuel (some (trim t.blockId)) [] with
  | none => exact fun h => by cases h
  | some anc =>
    simp only
    cases walkToAncestor L anc fuel (some (trim newTipId)) with
    | none => exact fun h => by cases h
    | some x =>
      simp only
      cases branchFromAncestorToTip L fuel x newTipId <;> exact fun h => by cases h

/-- **`try_reorg_backfilled_branch`** leaves a tip no lighter than before and than the branch it was
called on. -/
theorem tryReorg_weighed (hK : Keyed L) (hT : TipWeighed wt L)
    (hwt : ∀ p, caacBlockWeight L p = wt p) {newTipId : Str} {done : Bool}
    (h : tryReorgBackfilledBranch W nowMs fuel newTipId L = (.ok done, L')) :
    Keyed L' ∧ TipWeighed wt L' ∧
      SameShape (Consensus.forkTree wt L) (Consensus.forkTree wt L') ∧ tipWeight L ≤ tipWeight L' ∧
      (L.getChainTip ≠ none → L'.getChainTip ≠ none ∧
        (Consensus.forkTree wt L (trim newTipId) ≠ none →
          ∃ n, HasTotal (Consensus.forkTree wt L) (trim newTipId) n ∧
            min n u128Max ≤ tipWeight L')) := by
  simp only [tryReorgBackfilledBranch, Proc.bind_eq_ok_iff, Proc.observe_eq_ok_iff] at h
  obtain ⟨branch?, _, ⟨hplan, rfl⟩, h⟩ := h
  cases branch? with
  | none =>
    cases h
    refine ⟨hK, hT, .refl _, Nat.le_refl _, fun htip => ⟨htip, fun hst => ?_⟩⟩
    obtain ⟨t, ht⟩ := Option.ne_none_iff_exists'.mp htip
    obtain ⟨e, he⟩ := Option.ne_none_iff_exists'.mp hst
    obtain ⟨r, hr, -⟩ := Option.map_eq_some_iff.mp he
    exact absurd hplan (planBackfilled_ne_none ht hr)
  | some branch =>
    simp only [Proc.bind_eq_ok_iff] at h
    obtain ⟨_, L₁, hweigh, hreorg⟩ := h
    obtain ⟨r, x, hr, hanc, hbranch⟩ := OnChain.planBackfilled_ok hplan
    obtain ⟨t, -, ht, -⟩ := findCommonAncestor_ok hanc
    obtain ⟨m, hm, -⟩ := hT t ht
    have hbase : ∀ p, explicitParent (some x) = some p →
        ∃ n, Weighed u128Max (Consensus.forkTree wt L) p n := by
      intro p hp
      rw [explicitParent_some] at hp
      by_cases hx : trim x = []
      · rw [if_pos hx] at hp
        cases hp
      · rw [if_neg hx, Option.some.injEq] at hp
        rcases findCommonAncestor_onBranch hK hT ht hanc with hnil | hon
        · exact absurd hnil hx
        · rw [← hp]
          obtain ⟨n, hn, -⟩ := hm.onBranch hon
          exact ⟨n, hn⟩
    obtain ⟨h₁, htop⟩ := (branchFromAncestorToTip_ok hbranch).reweigh hK hwt hbase hweigh
    obtain ⟨n, hn⟩ := htop (trim newTipId) (by
      rw [explicitParent_some, trim_trim, if_neg (hK _ r hr).ne])
    have hT₁ : TipWeighed wt L₁ := hT.mono h₁.untouched.chainTip fun _ _ _ hw => h₁.weighed hw
    obtain ⟨h₂, hT₂, hle, hreach⟩ := reorg_weighed h₁.keyed hT₁ hn hreorg
    rw [tipWeight_congr h₁.untouched.chainTip] at hle
    refine ⟨h₂.keyed, hT₂, ?_, hle, fun htip => ?_⟩
    · rw [h₂.forkTree]
      exact h₁.shape
    · rw [h₁.untouched.chainTip] at hreach
      obtain ⟨htip', hmin⟩ := hreach htip
      exact ⟨htip', fun _ => ⟨n, hn.total.sameShape h₁.shape.symm, hmin⟩⟩

end Reorgs

end TetCore.Consensus
