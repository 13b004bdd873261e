import TetCore.Consensus.Stack

/-!
# A ledger on its canonical chain

`OnChain W Good cs L`: the canonical chain of `L` is `cs` (newest block first), its blocks are stored
as canonical records with linked parents and heights counting from 1, and `L` is on top of an undo
stack whose states are all at the top of their chain (`AtTop`) and `Good`. The events of a node keep
it: storing a record that is not of the chain, applying a block on top, unwinding the top block,
dropping undo records, and so a whole reorg (`OnChain.reorg`). `Good` stays a parameter, any property
that depends on the readable state and is kept by applied blocks (`KeptByBlocks`).
-/

namespace TetCore.Consensus

open TetCore.Lib
open TetCore.Ledger (ReadEq)

/-! ## The chain -/

/-- A canonical chain, newest block first: linked from genesis, with heights counting from 1. -/
inductive CanonicalChain : List BlockRecordV1 → Prop where
  | nil : CanonicalChain []
  | cons {b : BlockRecordV1} {bs : List BlockRecordV1} (trimmed : trim b.blockId = b.blockId)
      (ne : b.blockId ≠ []) (parent : b.parentBlockId = headId none bs)
      (height : b.height = bs.length + 1) (canonical : b.canonical = true)
      (tail : CanonicalChain bs) : CanonicalChain (b :: bs)

namespace CanonicalChain

variable {b : BlockRecordV1} {cs : List BlockRecordV1}

theorem linked (h : CanonicalChain cs) : Linked none cs := by
  induction h with
  | nil => exact .nil
  | cons htrim hne hpar _ _ _ ih => exact .cons htrim hne hpar ih

theorem tail (h : CanonicalChain (b :: cs)) : CanonicalChain cs := by
  cases h with
  | cons _ _ _ _ _ htail => exact htail

theorem suffix {os : List BlockRecordV1} (h : CanonicalChain (os ++ cs)) : CanonicalChain cs := by
  induction os with
  | nil => exact h
  | cons b os ih => exact ih h.tail

theorem height_le (h : CanonicalChain cs) : ∀ c ∈ cs, c.height ≤ cs.length := by
  induction h with
  | nil => exact fun c hc => absurd hc List.not_mem_nil
  | cons _ _ _ hheight _ _ ih =>
    intro c hc
    rw [List.length_cons]
    rcases List.mem_cons.mp hc with rfl | hc
    · exact le_of_eq hheight
    · exact Nat.le_succ_of_le (ih c hc)

theorem flagged (h : CanonicalChain cs) : ∀ c ∈ cs, c.canonical = true := by
  induction h with
  | nil => exact fun c hc => absurd hc List.not_mem_nil
  | cons _ _ _ _ hcan _ ih =>
    intro c hc
    rcases List.mem_cons.mp hc with rfl | hc
    · exact hcan
    · exact ih c hc

/-- The blocks below the top have other heights than the top. -/
theorem height_ne (h : CanonicalChain (b :: cs)) : ∀ c ∈ cs, c.height ≠ b.height := by
  intro c hc
  have hle := h.tail.height_le c hc
  cases h with
  | cons _ _ _ hheight _ _ => omega

/-- Every height up to the top has its block, which names the one below as its parent. -/
theorem at_height (h : CanonicalChain cs) {n : Nat} (hlo : 1 ≤ n) (hhi : n ≤ cs.length) :
    ∃ b ∈ cs, cs.find? (fun c => c.height = n) = some b ∧ b.height = n ∧ b.canonical = true ∧
      (1 < n → b.parentBlockId = (cs.find? fun c => c.height = n - 1).map (·.blockId)) := by
  induction h with
  | nil => exact absurd hhi (by simp only [List.length_nil]; omega)
  | @cons b bs _ _ hpar hheight hcan htail ih =>
    by_cases hn : b.height = n
    · refine ⟨b, List.mem_cons_self, List.find?_cons_of_pos (by simpa using hn), hn, hcan, ?_⟩
      intro hgt
      rw [List.find?_cons_of_neg (by simp only [decide_eq_true_eq]; omega), hpar]
      cases htail with
      | nil =>
        rw [List.length_nil] at hheight
        omega
      | @cons c cs _ _ _ hc _ _ =>
        rw [List.length_cons] at hheight
        rw [List.find?_cons_of_pos (by simp only [decide_eq_true_eq]; omega)]
        rfl
    · rw [List.length_cons] at hhi
      obtain ⟨c, hc, hfind, hch, hcc, hcp⟩ := ih (by omega)
      have hskip : ∀ m, m < b.height → (b :: bs).find? (fun c => c.height = m) =
          bs.find? fun c => c.height = m := fun m hm =>
        List.find?_cons_of_neg (by simp only [decide_eq_true_eq]; omega)
      refine ⟨c, List.mem_cons_of_mem _ hc, ?_, hch, hcc, fun hgt => ?_⟩
      · rw [hskip n (by omega), hfind]
      · rw [hskip (n - 1) (by omega), hcp hgt]

theorem find?_above (h : CanonicalChain cs) {n : Nat} (hn : cs.length < n) :
    cs.find? (fun c => c.height = n) = none := by
  rw [List.find?_eq_none]
  intro c hc
  have := h.height_le c hc
  simp only [decide_eq_true_eq]
  omega

end CanonicalChain

/-! ## The state on top of a chain -/

/-- Tip, height and canonical heights are those of the chain. -/
structure AtTop (cs : List BlockRecordV1) (L : Ledger) : Prop where
  tip : L.getChainTip.map (fun t => (t.height, t.blockId)) =
    cs.head?.map fun b => (b.height, b.blockId)
  height : L.blockHeight = cs.length
  byHeight : ∀ n, L.canonicalBlockIdAtHeight n =
    (cs.find? fun b => b.height = n).map (·.blockId)

theorem atTop_readable : Readable AtTop := by
  intro cs L L' hread h
  refine ⟨?_, ?_, fun n => ?_⟩
  · rw [← h.tip, Ledger.getChainTip, Ledger.getChainTip, hread.chainTip]
  · rw [← h.height, Ledger.blockHeight, Ledger.blockHeight, hread.metaU64 rfl]
  · rw [← h.byHeight n, Ledger.canonicalBlockIdAtHeight, Ledger.canonicalBlockIdAtHeight,
      hread.canonicalByHeight]

section Top

variable {W : World} {nowMs : Nat} {b : BlockRecordV1} {cs : List BlockRecordV1} {L L' : Ledger}

theorem AtTop.applied (h : AtTop cs L) (ha : Applied W nowMs b L L')
    (htrim : trim b.blockId = b.blockId) (hheight : b.height = cs.length + 1) :
    AtTop (b :: cs) L' := by
  obtain ⟨-, -, L₁, hrun, rfl⟩ := ha
  obtain ⟨hcan, -⟩ := applyBlock_chain hrun
  refine ⟨?_, ?_, fun n => ?_⟩
  · simp only [Ledger.getChainTip, Ledger.recorded, Tree.get_insert_self, Option.map_some,
      List.head?_cons, htrim]
  · have := Ledger.apply_height hrun
    rw [List.length_cons, ← hheight, ← this]
    rfl
  · have hn := h.byHeight n
    simp only [Ledger.canonicalBlockIdAtHeight, Ledger.recorded, htrim, hcan] at hn ⊢
    rw [Tree.get_insert]
    by_cases heq : b.height = n
    · rw [if_pos heq, List.find?_cons_of_pos (by simpa using heq)]
      rfl
    · rw [if_neg heq, List.find?_cons_of_neg (by simpa using heq), hn]

/-- The parent of the next block is the top of the chain. -/
theorem AtTop.parent (h : AtTop cs L) (hc : CanonicalChain cs) :
    parentBlockIdForHeight L (cs.length + 1) = .ok (headId none cs) := by
  cases hc with
  | nil => rfl
  | @cons c cs _ _ _ hheight _ _ =>
    have hn := h.byHeight (cs.length + 1)
    rw [List.find?_cons_of_pos (by simp only [decide_eq_true_eq]; exact hheight)] at hn
    unfold parentBlockIdForHeight
    rw [if_neg (by omega), if_neg (by rw [List.length_cons]; omega)]
    simp only [List.length_cons, Nat.add_sub_cancel, hn, Option.map_some]
    rfl

/-- The parents the height map gives are ids of the chain. -/
theorem AtTop.parent_mem (h : AtTop cs L) {n : Nat} {p : Str}
    (hp : parentBlockIdForHeight L n = .ok (some p)) : ∃ c ∈ cs, c.blockId = p := by
  unfold parentBlockIdForHeight at hp
  split at hp
  · cases hp
  split at hp
  · cases hp
  cases hcan : L.canonicalBlockIdAtHeight (n - 1) with
  | some id =>
    simp only [hcan, Except.ok.injEq, Option.some.injEq] at hp
    subst hp
    rw [h.byHeight] at hcan
    obtain ⟨c, hc, rfl⟩ := Option.map_eq_some_iff.mp hcan
    exact ⟨c, List.mem_of_find?_eq_some hc, rfl⟩
  | none =>
    simp only [hcan] at hp
    cases htip : L.getChainTip with
    | none =>
      rw [htip] at hp
      cases hp
    | some tip =>
      simp only [htip] at hp
      split at hp
      · rw [Except.ok.injEq, Option.some.injEq] at hp
        subst hp
        have ht := h.tip
        rw [htip] at ht
        cases cs with
        | nil => cases ht
        | cons c cs =>
          simp only [Option.map_some, List.head?_cons, Option.some.injEq, Prod.mk.injEq] at ht
          exact ⟨c, List.mem_cons_self, ht.2.symm⟩
      · cases hp

end Top

/-! ## Records and the chain -/

/-- The hashes of a block's transactions, each once. -/
structure Hashed (W : World) (txs : List SignedTxEnvelopeV1) (hashes : List Str) : Prop where
  eq : txs.mapM (txHashForEnv W) = .ok hashes
  distinct : hashes.Nodup

/-- A record filed under its own id, which has no blanks, as has the id of its parent. -/
structure FiledUnder (W : World) (k : Str) (r : BlockRecordV1) : Prop where
  id : r.blockId = k
  trimmed : trim k = k
  ne : k ≠ []
  parent : ∀ p, r.parentBlockId = some p → trim p = p ∧ p ≠ []
  hashed : Hashed W r.txs r.txHashes

def Filed (W : World) (L : Ledger) : Prop := ∀ k r, L.blocksById.get k = some r → FiledUnder W k r

/-- A property of the chain and the readable state that applied blocks keep, whose ZK claims the
ledger before them allows. -/
structure KeptByBlocks (W : World) (Good : List BlockRecordV1 → Ledger → Prop) : Prop where
  readable : Readable Good
  applied : ∀ {cs : List BlockRecordV1} {b : BlockRecordV1} {nowMs : Nat} {L L' : Ledger},
    Good cs L → Hashed W b.txs b.txHashes → validateZkTaskClaims W L b.txs = .ok () →
    Applied W nowMs b L L' → Good (b :: cs) L'

/-- The canonical chain of `L` is `cs`, and undoing its blocks leads down the chain. -/
structure OnChain (W : World) (Good : List BlockRecordV1 → Ledger → Prop)
    (cs : List BlockRecordV1) (L : Ledger) : Prop where
  filed : Filed W L
  chain : CanonicalChain cs
  stored : ∀ b ∈ cs, L.blockRecordById b.blockId = some b
  stack : ChainStack (fun cs L => AtTop cs L ∧ Good cs L) cs L

namespace OnChain

variable {W : World} {Good : List BlockRecordV1 → Ledger → Prop} {nowMs : Nat}
  {b : BlockRecordV1} {cs : List BlockRecordV1} {L L' : Ledger}

theorem atTop (h : OnChain W Good cs L) : AtTop cs L := h.stack.good.1

theorem good (h : OnChain W Good cs L) : Good cs L := h.stack.good.2

theorem readable_top (hG : Readable Good) : Readable fun cs L => AtTop cs L ∧ Good cs L :=
  fun cs L L' hread h => ⟨atTop_readable cs L L' hread h.1, hG cs L L' hread h.2⟩

/-- Blocks of the chain are not where a record that is not canonical is. -/
theorem ne_of_fork (h : OnChain W Good cs L) {id : Str}
    (hfresh : ∀ r, L.blockRecordById id = some r → r.canonical = false) :
    ∀ c ∈ cs, c.blockId ≠ trim id := by
  intro c hc heq
  have hst := h.stored c hc
  rw [heq, Ledger.blockRecordById, trim_trim] at hst
  have hfalse := hfresh c hst
  have htrue := h.chain.flagged c hc
  rw [hfalse] at htrue
  cases htrue

/-- The blocks below the top have other ids than the top. -/
theorem id_ne (h : OnChain W Good (b :: cs) L) : ∀ c ∈ cs, c.blockId ≠ b.blockId := by
  intro c hc heq
  have hb := h.stored b List.mem_cons_self
  have hst := h.stored c (List.mem_cons_of_mem _ hc)
  rw [heq, hb, Option.some.injEq] at hst
  exact h.chain.height_ne c hc (congrArg (·.height) hst.symm)

/-- Storing a record that is not of the chain. -/
theorem record (hG : Readable Good) (h : OnChain W Good cs L) {r : BlockRecordV1}
    (hr : FiledUnder W (trim r.blockId) r) (hne : ∀ c ∈ cs, c.blockId ≠ trim r.blockId) :
    OnChain W Good cs { L with blocksById := L.blocksById.insert (trim r.blockId) r } where
  filed := by
    intro k r' hk
    rw [Tree.get_insert] at hk
    by_cases heq : trim r.blockId = k
    · rw [if_pos heq, Option.some.injEq] at hk
      rw [← heq, ← hk]
      exact hr
    · rw [if_neg heq] at hk
      exact h.filed k r' hk
  chain := h.chain
  stored := by
    intro c hc
    rw [Ledger.blockRecordById, Tree.get_insert_ne]
    · exact h.stored c hc
    · rw [h.chain.linked.trimmed c hc]
      exact Ne.symm (hne c hc)
  stack := ChainStack.readEq (readable_top hG) h.stack
    (ReadEq.hidden L _ L.blockUndo L.txIndex).symm fun _ _ _ hu => hu

/-- **Applying a block** on top of the chain. -/
theorem applied (hG : KeptByBlocks W Good) (h : OnChain W Good cs L) (ha : Applied W nowMs b L L')
    (hzk : validateZkTaskClaims W L b.txs = .ok ()) (hb : FiledUnder W b.blockId b) (hpar : b.parentBlockId = headId none cs)
    (hheight : b.height = cs.length + 1) (hne : ∀ c ∈ cs, c.blockId ≠ b.blockId) :
    OnChain W Good (b :: cs) L' where
  filed := by
    obtain ⟨-, hby, -⟩ := ha.hidden
    intro k r hk
    rw [hby, Tree.get_insert, hb.trimmed] at hk
    by_cases heq : b.blockId = k
    · rw [if_pos heq, Option.some.injEq] at hk
      rw [← hk, ← heq]
      exact hb
    · rw [if_neg heq] at hk
      exact h.filed k r hk
  chain := .cons hb.trimmed hb.ne hpar hheight ha.canonical h.chain
  stored := by
    obtain ⟨-, hby, -⟩ := ha.hidden
    intro c hc
    rw [Ledger.blockRecordById, hby]
    rcases List.mem_cons.mp hc with rfl | hc
    · exact Tree.get_insert_self _ _ _
    · rw [Tree.get_insert_ne]
      · exact h.stored c hc
      · rw [hb.trimmed, h.chain.linked.trimmed c hc]
        exact Ne.symm (hne c hc)
  stack := by
    refine ChainStack.applied (readable_top hG.readable) h.stack ha ?_ ?_
    · exact ⟨h.atTop.applied ha hb.trimmed hheight, hG.applied h.good hb.hashed hzk ha⟩
    · intro c hc
      rw [hb.trimmed, h.chain.linked.trimmed c hc]
      exact hne c hc

theorem unwound_filed (h : Filed W L) {id : Str} {r : BlockRecordV1} {u : BlockUndoV1} :
    Filed W (unwound nowMs id r u L) := by
  intro k r' hk
  rw [unwound_blocksById, Ledger.setBlockRecordCanonical] at hk
  cases hrec : L.blockRecordById id with
  | none =>
    rw [hrec] at hk
    exact h k r' hk
  | some row =>
    simp only [hrec, Tree.get_insert] at hk
    by_cases heq : row.blockId = k
    · rw [if_pos heq, Option.some.injEq] at hk
      have hrow := h _ row hrec
      have hkey : trim id = k := hrow.id.symm.trans heq
      rw [hkey] at hrow
      rw [← hk]
      exact ⟨hrow.id, hrow.trimmed, hrow.ne, hrow.parent, hrow.hashed⟩
    · rw [if_neg heq] at hk
      exact h k r' hk

/-- **Unwinding the top block.** -/
theorem unwound (hG : Readable Good) (h : OnChain W Good (b :: cs) L) {r : BlockRecordV1}
    (hu : Unwound nowMs b.blockId r L L') : OnChain W Good cs L' where
  filed := by
    obtain ⟨-, -, u, -, rfl⟩ := hu
    exact unwound_filed h.filed
  chain := h.chain.tail
  stored := by
    have hb := h.stored b List.mem_cons_self
    obtain ⟨-, -, u, -, rfl⟩ := hu
    intro c hc
    have hst := h.stored c (List.mem_cons_of_mem _ hc)
    have hctrim := h.chain.linked.trimmed c (List.mem_cons_of_mem _ hc)
    rw [Ledger.blockRecordById, unwound_blocksById, Ledger.setBlockRecordCanonical]
    simp only [hb]
    rw [Tree.get_insert_ne]
    · exact hst
    · rw [hctrim]
      exact Ne.symm (h.id_ne c hc)
  stack := ChainStack.unwound (readable_top hG) h.stack hu

/-- Dropping undo records. -/
theorem prune (hG : Readable Good) (h : OnChain W Good cs L) (W' : World) (height : Nat) :
    OnChain W Good cs (L.pruneHistoryAfterBlock W' height) where
  filed := h.filed
  chain := h.chain
  stored := h.stored
  stack := by
    refine ChainStack.readEq (readable_top hG) h.stack
      (ReadEq.hidden L L.blocksById _ L.txIndex).symm fun c _ u hu => ?_
    exact Tree.get_of_foldl_remove _ hu

end OnChain

/-! ## Reorgs -/

section Reorg

variable {W : World} {Good : List BlockRecordV1 → Ledger → Prop} {nowMs fuel : Nat}
  {cs : List BlockRecordV1} {L L' : Ledger}

theorem UnwindRun.base {a : Option Str} {bs : List BlockRecordV1}
    (h : UnwindRun nowMs (baseId a) a bs L L') : L' = L := by
  cases a with
  | none =>
    cases h
    rfl
  | some x =>
    cases h with
    | ancestor => rfl
    | cons hne => exact absurd rfl hne

/-- Unwinding down to a block of the chain, or to genesis. -/
theorem OnChain.unwindRun (hG : Readable Good) {rest : List BlockRecordV1} :
    ∀ {os bs : List BlockRecordV1} {L M : Ledger}, OnChain W Good (os ++ rest) L →
    (∀ b ∈ os, b.blockId ≠ baseId (headId none rest)) →
    UnwindRun nowMs (baseId (headId none rest)) (headId none (os ++ rest)) bs L M →
    OnChain W Good rest M ∧ SameRecords L M := by
  intro os
  induction os with
  | nil =>
    intro bs L M h _ hrun
    have heq := UnwindRun.base hrun
    subst heq
    exact ⟨h, fun _ => rfl⟩
  | cons b os ih =>
    intro bs L M h hne hrun
    obtain ⟨r, bs', L₁, hhead, htail⟩ := hrun.step (hne b List.mem_cons_self)
    have hr : r = b := Option.some.inj
      (hhead.record.symm.trans (h.stored b List.mem_cons_self))
    subst hr
    have hpar : r.parentBlockId = headId none (os ++ rest) := by
      have hc := h.chain
      rw [List.cons_append] at hc
      cases hc with
      | cons _ _ hpar _ _ _ => exact hpar
    rw [hpar] at htail
    have hsame : SameRecords L L₁ := by
      have hrec := hhead.record
      obtain ⟨-, -, u, -, rfl⟩ := hhead
      exact unwound_sameRecords hrec rfl
    obtain ⟨hrest, hsame'⟩ := ih (OnChain.unwound hG h hhead)
      (fun c hc => hne c (List.mem_cons_of_mem _ hc)) htail
    exact ⟨hrest, hsame.trans hsame'⟩

theorem ApplyRun.snoc {b : BlockRecordV1} : ∀ {bs : List BlockRecordV1} {L L' : Ledger},
    ApplyRun W nowMs (bs ++ [b]) L L' →
    ∃ M, ApplyRun W nowMs bs L M ∧ validateZkTaskClaims W M b.txs = .ok () ∧
      Applied W nowMs { b with canonical := true } M L' := by
  intro bs
  induction bs with
  | nil =>
    intro L L' h
    cases h with
    | cons hzk _ hhead htail =>
      cases htail
      exact ⟨L, .nil L, hzk, hhead⟩
  | cons c bs ih =>
    intro L L' h
    cases h with
    | cons hzk hreward hhead htail =>
      obtain ⟨M, hM, hlast⟩ := ih htail
      exact ⟨M, .cons hzk hreward hhead hM, hlast⟩

/-- Applying a stored branch on top of the chain. `L₀` holds the records the branch was read from. -/
theorem OnChain.applyRun (hG : KeptByBlocks W Good) (L₀ : Ledger) {M : Ledger}
    {rest : List BlockRecordV1} (h : OnChain W Good rest M)
    (hrec : ∀ c ∈ rest, (L₀.blockRecordById c.blockId).map (·.height) = some c.height) :
    ∀ {ns : List BlockRecordV1} {L' : Ledger}, Linked (headId none rest) ns →
    (∀ b ∈ ns, L₀.blockRecordById b.blockId = some b ∧ FiledUnder W b.blockId b) →
    ns.reverse.map (·.height) = List.range' (rest.length + 1) ns.length →
    ApplyRun W nowMs ns.reverse M L' →
    ∃ cs, OnChain W Good cs L' ∧ cs.length = rest.length + ns.length ∧
      headId none cs = headId (headId none rest) ns ∧
      ∀ c ∈ cs, (L₀.blockRecordById c.blockId).map (·.height) = some c.height := by
  intro ns
  induction ns with
  | nil =>
    intro L' _ _ _ hrun
    cases hrun
    exact ⟨rest, h, rfl, rfl, hrec⟩
  | cons b ns ih =>
    intro L' hlink hst hheights hrun
    rw [List.reverse_cons, List.map_append, List.length_cons, List.range'_concat] at hheights
    obtain ⟨hbelow, hb⟩ := List.append_inj' hheights rfl
    rw [List.reverse_cons] at hrun
    obtain ⟨M', hM', hzk, happ⟩ := hrun.snoc
    cases hlink with
    | cons _ _ hpar htail =>
      obtain ⟨cs, hcs, hlen, hhead, hrec'⟩ := ih htail
        (fun c hc => hst c (List.mem_cons_of_mem _ hc)) hbelow hM'
      obtain ⟨hb₀, hfiled⟩ := hst b List.mem_cons_self
      have hheight : b.height = cs.length + 1 := by
        simp only [List.map_cons, List.map_nil, List.cons.injEq, and_true] at hb
        omega
      -- another height under the same id would be another record
      have hne : ∀ c ∈ cs, c.blockId ≠ b.blockId := by
        intro c hc heq
        have hc' := hrec' c hc
        rw [heq, hb₀, Option.map_some, Option.some.injEq] at hc'
        have := hcs.chain.height_le c hc
        omega
      refine ⟨{ b with canonical := true } :: cs, ?_, ?_, rfl, ?_⟩
      · exact hcs.applied hG happ hzk ⟨rfl, hfiled.trimmed, hfiled.ne, hfiled.parent, hfiled.hashed⟩
          (hpar.trans hhead.symm) hheight hne
      · rw [List.length_cons, List.length_cons, hlen]
        omega
      · intro c hc
        rcases List.mem_cons.mp hc with rfl | hc
        · exact congrArg (Option.map (·.height)) hb₀
        · exact hrec' c hc

/-- The branch of a plan takes up the heights where the ancestor leaves off. -/
def Continues (L : Ledger) (plan : ReorgPlan) : Prop :=
  plan.branch.map (·.height) = List.range'
    (((L.blockRecordById plan.ancestor).map (·.height)).getD 0 + 1) plan.branch.length

instance (L : Ledger) (plan : ReorgPlan) : Decidable (Continues L plan) :=
  inferInstanceAs (Decidable (_ = _))

/-- Whatever reorg to `newTipId` is planned, its branch takes up the heights of the ancestor. -/
def ReorgContinues (fuel : Nat) (newTipId : Str) (L : Ledger) : Prop :=
  ∀ plan, planReorg L fuel newTipId = .ok (some plan) → Continues L plan

/-- The first block with the id, and what is above it. -/
theorem exists_split {x : Str} : ∀ {cs : List BlockRecordV1}, x ∈ cs.map (·.blockId) →
    ∃ os c rest, cs = os ++ c :: rest ∧ c.blockId = x ∧ ∀ b ∈ os, b.blockId ≠ x := by
  intro cs
  induction cs with
  | nil =>
    intro h
    cases h
  | cons d cs ih =>
    intro h
    by_cases hd : d.blockId = x
    · exact ⟨[], d, cs, rfl, hd, fun b hb => absurd hb List.not_mem_nil⟩
    · rw [List.map_cons] at h
      obtain ⟨os, c, rest, hcs, hc, hos⟩ := ih
        ((List.mem_cons.mp h).resolve_left fun heq => hd heq.symm)
      refine ⟨d :: os, c, rest, by rw [hcs]; rfl, hc, fun b hb => ?_⟩
      rcases List.mem_cons.mp hb with rfl | hb
      · exact hd
      · exact hos b hb

/-- The ancestors of the tip are the blocks of the chain. -/
theorem OnChain.ancestor_mem (h : OnChain W Good cs L) {x : Str}
    (hx : Ancestor L (headId none cs) x) : x ∈ cs.map (·.blockId) := by
  refine hx.mem (fun id hid p hp => ?_) fun id hid => ?_
  · obtain ⟨c, hc, rfl⟩ := List.mem_map.mp hid
    rw [parentOf, h.stored c hc] at hp
    exact h.chain.linked.parent_mem c hc p hp
  · cases cs with
    | nil => cases hid
    | cons c cs =>
      rw [headId, Option.some.injEq] at hid
      rw [← hid]
      exact List.mem_map_of_mem List.mem_cons_self

theorem OnChain.headId_tip (h : OnChain W Good cs L) {tip : ChainTipV1}
    (htip : L.getChainTip = some tip) :
    headId none cs = some tip.blockId ∧ trim tip.blockId = tip.blockId := by
  have ht := h.atTop.tip
  rw [htip] at ht
  cases hcs : cs with
  | nil =>
    rw [hcs] at ht
    cases ht
  | cons c rest =>
    rw [hcs] at ht
    simp only [Option.map_some, List.head?_cons, Option.some.injEq, Prod.mk.injEq] at ht
    rw [headId, ht.2]
    exact ⟨rfl, h.chain.linked.trimmed c (by rw [hcs]; exact List.mem_cons_self)⟩

/-- The common ancestor is a block of the chain or genesis; it splits the chain. -/
theorem OnChain.split (h : OnChain W Good cs L) {x : Str} (hx : x = [] ∨ Ancestor L (headId none cs) x) :
    ∃ os rest, cs = os ++ rest ∧ headId none rest = baseOf x ∧ (∀ b ∈ os, b.blockId ≠ x) ∧
      ((L.blockRecordById x).map (·.height)).getD 0 = rest.length := by
  rcases hx with rfl | hx
  · refine ⟨cs, [], (List.append_nil cs).symm, rfl, h.chain.linked.id_ne, ?_⟩
    cases hnone : L.blockRecordById [] with
    | none => rfl
    | some r => exact absurd rfl (h.filed _ r hnone).ne
  · obtain ⟨os, c, rest, rfl, rfl, hos⟩ := exists_split (h.ancestor_mem hx)
    have hc : c ∈ os ++ c :: rest := List.mem_append_right _ List.mem_cons_self
    refine ⟨os, c :: rest, rfl, ?_, hos, ?_⟩
    · rw [headId, baseOf, if_neg (h.chain.linked.id_ne c hc)]
    · rw [h.stored c hc]
      have hchain := h.chain.suffix
      cases hchain with
      | cons _ _ _ hheight _ _ => exact hheight

/-- **A reorg whose heights continue** leads from a canonical chain to a canonical chain. -/
theorem OnChain.reorg (hG : KeptByBlocks W Good) (h : OnChain W Good cs L) {newTipId : Str}
    (hcont : ReorgContinues fuel newTipId L)
    (hrun : reorgToBranch W nowMs fuel newTipId L = (.ok true, L')) :
    ∃ cs', OnChain W Good cs' L' := by
  obtain ⟨plan, M, bs, hplan, hunwind, happly⟩ := reorgToBranch_ok_true hrun
  obtain ⟨htip, newTip, hnew, -, hanc, hbranch⟩ := planReorg_ok hplan
  obtain ⟨tip, anc, htip', hids, hwalk⟩ := findCommonAncestor_ok hanc
  rw [htip, Option.some.injEq] at htip'
  subst htip'
  obtain ⟨hhead, htrim⟩ := h.headId_tip htip
  rw [htrim, ← hhead] at hids
  -- the branch
  have hnewF := h.filed _ newTip hnew
  have hnewTrim : trim newTip.blockId = newTip.blockId := by
    rw [hnewF.id]
    exact hnewF.trimmed
  rw [hnewTrim] at hwalk
  rw [branchFromAncestorToTip, hnewTrim] at hbranch
  obtain ⟨ns, hout, hlink, -, hst⟩ := branch_of_walks
    (fun k r hk => ⟨(h.filed k r hk).id, (h.filed k r hk).parent⟩)
    (fun id hid => by
      rw [← Option.some.inj hid]
      exact ⟨hnewTrim, by rw [hnewF.id]; exact hnewF.ne⟩) hwalk hbranch
  rw [List.append_nil] at hout
  -- the ancestor
  have hx : plan.ancestor = [] ∨ Ancestor L (headId none cs) plan.ancestor := by
    rcases walkToAncestor_mem hwalk with hnil | hmem
    · exact Or.inl hnil
    · rcases ancestorIdsFrom_sound hids _ hmem with hno | hbelow
      · cases hno
      · exact Or.inr hbelow
  obtain ⟨os, rest, rfl, hbase, hos, hlen⟩ := h.split hx
  have hbaseId : baseId (headId none rest) = plan.ancestor := by
    rw [hbase, baseId_baseOf]
  rw [← hhead, ← hbaseId] at hunwind
  obtain ⟨hrest, -⟩ := OnChain.unwindRun hG.readable h (fun b hb => by
    rw [hbaseId]
    exact hos b hb) hunwind
  have hheights := hcont plan hplan
  rw [Continues, hlen, hout, List.length_reverse] at hheights
  rw [hout] at happly
  rw [← hbase] at hlink
  obtain ⟨cs', hcs', -⟩ := hrest.applyRun hG L
    (fun c hc => by rw [h.stored c (List.mem_append_right _ hc)]; rfl) hlink
    (fun b hb => ⟨(hst b hb).1, by
      have hb' := h.filed _ b (hst b hb).1
      have hid := hb'.id
      rw [← hid] at hb'
      exact hb'⟩) hheights happly
  exact ⟨cs', hcs'⟩

end Reorg

end TetCore.Consensus
