import TetCore.Consensus.Stack

/-!
# What a reorg leaves

A canonical branch built on the state `A` with `apply_block_record_forward`, and a heavier stored
branch on the same base. A reorg to it that succeeds leaves the readable state of applying the new
branch on `A` directly. The transaction index is the exception: the unwind first restores the index
rows a block had overwritten and then marks all of the block's transactions as not canonical, also
one that was canonical below the fork already.

* `UnwindRun.branch`: the unwind takes off exactly the old branch.
* `reorg_correct_iff`: the reorg is right, index included, unless a transaction of the old branch is
  canonical in `A` and not in the new branch.
-/

namespace TetCore.Consensus

open TetCore.Lib
open TetCore.Ledger (ReadEq txIndexRows normalizeTxHash)

/-! ## The transaction index -/

section Index

variable {W : World} {nowMs height : Nat} {L L' : Ledger} {b : BlockRecordV1}

/-- The index keys of a branch's transactions. -/
def txKeys (bs : List BlockRecordV1) : List Str := bs.flatMap fun b => b.txHashes.map normalizeTxHash

@[simp] theorem mem_txKeys_cons {bs : List BlockRecordV1} {k : Str} :
    k ∈ txKeys (b :: bs) ↔ k ∈ b.txHashes.map normalizeTxHash ∨ k ∈ txKeys bs := by
  simp only [txKeys, List.flatMap_cons, List.mem_append]

/-- The index marks the transaction as canonical. -/
def TxCanonical (L : Ledger) (k : Str) : Prop :=
  ∃ r, L.txIndex.get k = some r ∧ r.canonical = true

theorem txIndexRows_canonical {c : Bool} {k : Str} {v : TxIndexRecordV1} :
    ∀ {l : List (Str × SignedTxEnvelopeV1)} {i : Nat},
      (k, v) ∈ txIndexRows nowMs height c i l → v.canonical = c := by
  intro l
  induction l with
  | nil =>
    intro i h
    cases h
  | cons p l ih =>
    intro i h
    obtain ⟨hash, tx⟩ := p
    rw [txIndexRows] at h
    rcases List.mem_cons.mp h with heq | hmem
    · cases heq
      rfl
    · exact ih hmem

/-- The rows of a block's transactions carry the flag they are written with; no other row
changes. -/
theorem index_rows (nowMs height : Nat) (t : Tree Str TxIndexRecordV1) {c : Bool} {hashes : List Str}
    {txs : List SignedTxEnvelopeV1} (hlen : hashes.length = txs.length) (k : Str) :
    (k ∈ hashes.map normalizeTxHash →
      ∃ r, (t.applyBatch (txIndexRows nowMs height c 0 (hashes.zip txs))).get k = some r ∧
        r.canonical = c) ∧
    (k ∉ hashes.map normalizeTxHash →
      (t.applyBatch (txIndexRows nowMs height c 0 (hashes.zip txs))).get k = t.get k) := by
  have hkeys : (txIndexRows nowMs height c 0 (hashes.zip txs)).map Prod.fst =
      hashes.map normalizeTxHash := by
    rw [Ledger.txIndexRows_keys]
    have : (fun p : Str × SignedTxEnvelopeV1 => normalizeTxHash p.1) =
        normalizeTxHash ∘ Prod.fst := rfl
    rw [this, ← List.map_map, List.map_fst_zip (le_of_eq hlen)]
  constructor
  · intro hk
    rw [← hkeys] at hk
    obtain ⟨v, hv, hget⟩ := Tree.exists_get_applyBatch _ t hk
    exact ⟨v, hget, txIndexRows_canonical hv⟩
  · intro hk
    rw [← hkeys] at hk
    exact Tree.get_applyBatch_of_notMem _ t hk

theorem Applied.index (h : Applied W nowMs b L L') (k : Str) :
    (k ∈ b.txHashes.map normalizeTxHash → TxCanonical L' k) ∧
      (k ∉ b.txHashes.map normalizeTxHash → L'.txIndex.get k = L.txIndex.get k) := by
  obtain ⟨-, -, hidx⟩ := h.hidden
  unfold TxCanonical
  rw [hidx]
  exact index_rows _ _ _ h.lengths.symm k

/-- An unwound block's transactions are not canonical; no other row changes. -/
theorem Unwound.index {id : Str} {r : BlockRecordV1} (h : Unwound nowMs id r L L')
    (hform : ∀ u, L.blockUndoById id = some u → ∃ t P, u = undoFor W t b P)
    (hr : r.txHashes = b.txHashes) (k : Str) :
    (k ∈ b.txHashes.map normalizeTxHash →
      ∃ row, L'.txIndex.get k = some row ∧ row.canonical = false) ∧
    (k ∉ b.txHashes.map normalizeTxHash → L'.txIndex.get k = L.txIndex.get k) := by
  obtain ⟨-, hlen, u, hu, rfl⟩ := h
  obtain ⟨t, P, rfl⟩ := hform u hu
  have hrest : ((L.restoreUndo (undoFor W t b P)).setBlockRecordCanonical id false).txIndex =
      L.txIndex.restore (P.txIndex.capture
        (Ledger.blockUndoKeys W b.txs b.txHashes b.producerId b.reward.totalRewardMicro).txIndex) := by
    rw [setBlockRecordCanonical_rest]
    rfl
  obtain ⟨hin, hout⟩ := index_rows nowMs r.height ((L.restoreUndo (undoFor W t b
    P)).setBlockRecordCanonical id false).txIndex (c := false) hlen k
  rw [hr] at hin hout hlen
  unfold unwound
  rw [hr]
  refine ⟨hin, fun hk => (hout hk).trans ?_⟩
  rw [hrest, Tree.get_restore_capture, if_neg]
  rw [Ledger.blockUndoKeys_txIndex]
  intro hmem
  obtain ⟨p, hp, rfl⟩ := List.mem_map.mp hmem
  exact hk (List.mem_map_of_mem (List.of_mem_zip hp).2)

end Index

/-! ## Unwinding a branch -/

section Unwind

variable {W : World} {Good : List BlockRecordV1 → Ledger → Prop} {a : Option Str} {nowMs : Nat}

/-- The undo record of a block was taken for that block. -/
def UndoneBy (W : World) (L : Ledger) (b : BlockRecordV1) : Prop :=
  ∀ u, L.blockUndoById b.blockId = some u → ∃ t P, u = undoFor W t b P

/-- **Unwinding from the top of a branch** takes off exactly the branch, and marks its transactions
as not canonical. -/
theorem UnwindRun.branch (hG : Readable Good) (rest : List BlockRecordV1) :
    ∀ {os bs : List BlockRecordV1} {M M' : Ledger}, Linked a os → (∀ b ∈ os, StoredAs M b) →
    (∀ b ∈ os, UndoneBy W M b) → (∀ b ∈ os, b.blockId ≠ baseId a) →
    ChainStack Good (os ++ rest) M → UnwindRun nowMs (baseId a) (headId a os) bs M M' →
    ChainStack Good rest M' ∧
      ∀ k, (k ∉ txKeys os → M'.txIndex.get k = M.txIndex.get k) ∧
        (k ∈ txKeys os → ∃ r, M'.txIndex.get k = some r ∧ r.canonical = false) := by
  intro os
  induction os with
  | nil =>
    intro bs M M' _ _ _ _ hstack hrun
    have heq : M' = M := by
      cases a with
      | none =>
        cases hrun
        rfl
      | some x =>
        cases hrun with
        | ancestor => rfl
        | cons ne => exact absurd rfl ne
    subst heq
    exact ⟨hstack, fun k => ⟨fun _ => rfl, fun hk => absurd hk (by simp [txKeys])⟩⟩
  | cons b os ih =>
    intro bs M M' hlink hst hby hne hstack hrun
    cases hlink with
    | cons htrim _ hpar htail =>
      obtain ⟨r, bs', M₁, hhead, hrest⟩ := hrun.step (hne b List.mem_cons_self)
      obtain ⟨r', hr', heq⟩ := hst b List.mem_cons_self
      have hrr : r = r' := Option.some.inj (hhead.record.symm.trans hr')
      subst hrr
      have hpar' : r.parentBlockId = headId a os := by
        rw [← hpar]
        exact congrArg (·.parentBlockId) heq
      have hhash : r.txHashes = b.txHashes := congrArg (·.txHashes) heq
      have hid : r.blockId = b.blockId := congrArg (·.blockId) heq
      have hsame : SameRecords M M₁ := by
        obtain ⟨-, -, u, -, rfl⟩ := hhead
        exact unwound_sameRecords hr' (by rw [hid])
      have hstep := hhead.index (hby b List.mem_cons_self) hhash
      rw [hpar'] at hrest
      have hby' : ∀ c ∈ os, UndoneBy W M₁ c := by
        intro c hc u hu
        obtain ⟨-, -, u', -, rfl⟩ := hhead
        rw [Ledger.blockUndoById, unwound_blockUndo] at hu
        exact hby c (List.mem_cons_of_mem _ hc) u hu
      obtain ⟨hstack', hidx⟩ := ih htail
        (fun c hc => (hst c (List.mem_cons_of_mem _ hc)).sameRecords hsame) hby'
        (fun c hc => hne c (List.mem_cons_of_mem _ hc)) (ChainStack.unwound hG hstack hhead) hrest
      refine ⟨hstack', fun k => ⟨fun hk => ?_, fun hk => ?_⟩⟩
      · rw [mem_txKeys_cons, not_or] at hk
        rw [(hidx k).1 hk.2, (hstep k).2 hk.1]
      · by_cases hin : k ∈ txKeys os
        · exact (hidx k).2 hin
        · rw [(hidx k).1 hin]
          exact (hstep k).1 ((mem_txKeys_cons.mp hk).resolve_right hin)

end Unwind

/-! ## Applying a branch -/

section Apply

variable {W : World} {nowMs : Nat} {L L' A : Ledger}

theorem Applied.readEq {b : BlockRecordV1} (h : Applied W nowMs b L L') (hread : ReadEq L A) :
    ∃ A', Applied W nowMs b A A' ∧ ReadEq L' A' := by
  obtain ⟨hne, hc, L₁, ha, rfl⟩ := h
  have hstored : ReadEq (L.storeBlockUndo (undoFor W nowMs b L))
      (A.storeBlockUndo (undoFor W nowMs b A)) :=
    ((Untouched.storeBlockUndo L _).readEq.trans hread).trans
      (Untouched.storeBlockUndo A _).readEq.symm
  obtain ⟨A₁, ha', hread'⟩ := hstored.applyBlock ha
  exact ⟨_, ⟨hne, hc, A₁, ha', rfl⟩, hread'.recorded _ _ _ _ _ _⟩

/-- A branch runs alike on ledgers that read the same. -/
theorem ApplyRun.readEq {bs : List BlockRecordV1} (h : ApplyRun W nowMs bs L L') :
    ∀ {A : Ledger}, ReadEq L A → ∃ A', ApplyRun W nowMs bs A A' ∧ ReadEq L' A' := by
  induction h with
  | nil L =>
    intro A hread
    exact ⟨A, .nil A, hread⟩
  | @cons b bs L L₁ L' hzk hreward hhead _ ih =>
    intro A hread
    obtain ⟨A₁, happ, hread₁⟩ := hhead.readEq hread
    obtain ⟨A', hrun, hread'⟩ := ih hread₁
    rw [validateZkTaskClaims_readEq hread] at hzk
    exact ⟨A', .cons hzk hreward happ hrun, hread'⟩

theorem ApplyRun.index {bs : List BlockRecordV1} (h : ApplyRun W nowMs bs L L') (k : Str) :
    (k ∈ txKeys bs → TxCanonical L' k) ∧
      (k ∉ txKeys bs → L'.txIndex.get k = L.txIndex.get k) := by
  induction h with
  | nil L => exact ⟨fun hk => absurd hk (by simp [txKeys]), fun _ => rfl⟩
  | @cons b bs L L₁ L' _ _ hhead _ ih =>
    have hstep := hhead.index k
    constructor
    · intro hk
      by_cases hin : k ∈ txKeys bs
      · exact ih.1 hin
      · unfold TxCanonical
        rw [ih.2 hin]
        exact hstep.1 ((mem_txKeys_cons.mp hk).resolve_right hin)
    · intro hk
      rw [mem_txKeys_cons, not_or] at hk
      rw [ih.2 hk.2, hstep.2 hk.1]

theorem ApplyRun.heights {bs : List BlockRecordV1} (h : ApplyRun W nowMs bs L L') {n : Nat}
    (hn : ∀ b ∈ bs, b.height ≠ n) :
    L'.canonicalBlockIdAtHeight n = L.canonicalBlockIdAtHeight n := by
  induction h with
  | nil L => rfl
  | @cons b bs L L₁ L' _ _ hhead _ ih =>
    rw [ih fun c hc => hn c (List.mem_cons_of_mem _ hc)]
    obtain ⟨-, -, M, ha, rfl⟩ := hhead
    simp only [Ledger.canonicalBlockIdAtHeight, Ledger.recorded]
    rw [Tree.get_insert_ne (hn b List.mem_cons_self), (applyBlock_chain ha).1]

end Apply

/-! ## The reorg -/

section Reorg

variable {W : World} {A L L' : Ledger} {a : Option Str} {os ns : List BlockRecordV1}

/-- The ledger after a branch is applied on `A` block by block with `apply_block_record_forward`,
each block at its own time. The rows are the records as stored, newest first. -/
inductive Built (W : World) (A : Ledger) : List BlockRecordV1 → Ledger → Prop where
  | nil : Built W A [] A
  | cons {b : BlockRecordV1} {bs : List BlockRecordV1} {L L' : Ledger} {t : Nat}
      (below : Built W A bs L) (step : applyBlockRecordForward W t b L = (.ok (), L')) :
      Built W A ({ b with canonical := true } :: bs) L'

/-- At the bottom of the stack lies the state `A`. -/
def BuiltOn (A : Ledger) (cs : List BlockRecordV1) (L : Ledger) : Prop := cs = [] → ReadEq L A

theorem builtOn_readable (A : Ledger) : Readable (BuiltOn A) :=
  fun _ _ _ hread h hnil => hread.symm.trans (h hnil)

theorem Built.stack (h : Built W A os L) (hlink : Linked a os)
    (hnd : (os.map (·.blockId)).Nodup) :
    ChainStack (BuiltOn A) os L ∧
      ∀ b ∈ os, L.blockRecordById b.blockId = some b ∧ UndoneBy W L b := by
  induction h with
  | nil => exact ⟨fun _ => ReadEq.refl A, fun b hb => absurd hb List.not_mem_nil⟩
  | @cons b bs L L' t below step ih =>
    rw [List.map_cons, List.nodup_cons] at hnd
    cases hlink with
    | cons htrim _ _ htail =>
      obtain ⟨hstack, hst⟩ := ih htail hnd.2
      obtain ⟨-, -, happ⟩ := applyBlockRecordForward_ok step
      obtain ⟨hundo, hby, -⟩ := happ.hidden
      have hnew : ∀ c ∈ bs, trim c.blockId ≠ trim b.blockId := by
        intro c hc heq
        rw [htail.trimmed c hc] at heq
        exact hnd.1 (List.mem_map.mpr ⟨c, hc, heq.trans htrim⟩)
      refine ⟨ChainStack.applied (builtOn_readable A) hstack happ nofun hnew, fun c hc => ?_⟩
      unfold UndoneBy
      rw [Ledger.blockRecordById, Ledger.blockUndoById, hby, hundo]
      rcases List.mem_cons.mp hc with rfl | hc
      · refine ⟨Tree.get_insert_self _ _ _, fun u hu => ?_⟩
        rw [Tree.get_insert_self, Option.some.injEq] at hu
        exact ⟨t, L, hu.symm⟩
      · rw [Tree.get_insert_ne (Ne.symm (hnew c hc)), Tree.get_insert_ne (Ne.symm (hnew c hc))]
        exact hst c hc

theorem Built.index (h : Built W A os L) {k : Str} (hk : k ∉ txKeys os) :
    L.txIndex.get k = A.txIndex.get k := by
  induction h with
  | nil => rfl
  | @cons b bs L L' t below step ih =>
    rw [mem_txKeys_cons, not_or] at hk
    obtain ⟨-, -, happ⟩ := applyBlockRecordForward_ok step
    rw [(happ.index k).2 hk.1, ih hk.2]

theorem Built.tip (h : Built W A os L) (hlink : Linked a os)
    (hA : A.getChainTip.map (·.blockId) = a) :
    L.getChainTip.map (·.blockId) = headId a os := by
  cases h with
  | nil => exact hA
  | @cons b bs L₀ _ t below step =>
    obtain ⟨-, -, -, -, L₁, -, rfl⟩ := applyBlockRecordForward_ok step
    cases hlink with
    | cons htrim =>
      simp only [Ledger.getChainTip, Ledger.recorded, Tree.get_insert_self, Option.map_some, headId]
      rw [htrim]

/-- Two branches on the base `a`: the canonical one, built on the state `A` and standing in `L`, and
a stored one off the canonical chain. -/
structure Fork (W : World) (A L : Ledger) (a : Option Str) (os ns : List BlockRecordV1) :
    Prop where
  base : A.getChainTip.map (·.blockId) = a
  trimmed : ∀ x, a = some x → trim x = x
  built : Built W A os L
  old : Linked a os
  distinct : (os.map (·.blockId)).Nodup
  above : ∀ b ∈ os, some b.blockId ≠ a
  new : Linked a ns
  stored : ∀ b ∈ ns, L.blockRecordById b.blockId = some b
  apart : ∀ b ∈ ns, ¬ Ancestor L (headId a os) b.blockId

/-- What a reorg from `A`'s old branch to the branch `ns` has to leave: the readable state of
applying `ns` on `A` directly; canonical heights only as in `A` or from `ns`, so none above the new
tip; and an index that marks exactly the transactions of `ns` and of `A` as canonical. -/
structure ReorgCorrect (W : World) (nowMs : Nat) (A L' : Ledger) (ns : List BlockRecordV1) :
    Prop where
  direct : ∃ D, applyBranch W nowMs ns.reverse A = (.ok (), D) ∧ ReadEq L' D
  heights : ∀ n, (∀ b ∈ ns, b.height ≠ n) →
    L'.canonicalBlockIdAtHeight n = A.canonicalBlockIdAtHeight n
  index : ∀ k, TxCanonical L' k ↔ k ∈ txKeys ns ∨ TxCanonical A k

/-- The plan of a reorg to the stored branch: back to the base, then the branch. -/
theorem Fork.plan {n : BlockRecordV1} {fuel : Nat} {plan : ReorgPlan}
    (h : Fork W A L a os (n :: ns)) (hplan : planReorg L fuel n.blockId = .ok (some plan)) :
    some plan.tip.blockId = headId a os ∧ plan.ancestor = baseId a ∧
      plan.branch = (n :: ns).reverse := by
  obtain ⟨htip, newTip, hnew, -, hanc, hbranch⟩ := planReorg_ok hplan
  rw [h.stored n List.mem_cons_self, Option.some.injEq] at hnew
  subst hnew
  obtain ⟨tip, anc, htip', hids, hwalk⟩ := findCommonAncestor_ok hanc
  rw [htip, Option.some.injEq] at htip'
  subst htip'
  have hst := (h.built.stack h.old h.distinct).2
  have hstored : ∀ b ∈ os, StoredAs L b := fun b hb => .of_stored (hst b hb).1
  have hstoredN : ∀ b ∈ n :: ns, StoredAs L b := fun b hb => .of_stored (h.stored b hb)
  have hhead : headId a os = some plan.tip.blockId := by
    rw [← h.built.tip h.old h.base, htip]
    rfl
  have htrim : trim plan.tip.blockId = plan.tip.blockId := by
    cases os with
    | nil => exact h.trimmed _ hhead
    | cons b os =>
      rw [headId, Option.some.injEq] at hhead
      rw [← hhead]
      exact h.old.trimmed b List.mem_cons_self
  rw [htrim, ← hhead] at hids
  -- the ancestors reach the base and miss the new branch
  have hbase : ∀ x, a = some x → x ∈ anc :=
    (ancestorIdsFrom_branch h.old hstored h.distinct (fun _ _ => List.not_mem_nil) hids).2
  have hoff : ∀ b ∈ n :: ns, b.blockId ∉ anc := by
    intro b hb hmem
    rcases ancestorIdsFrom_sound hids _ hmem with hnil | hbelow
    · cases hnil
    · exact h.apart b hb hbelow
  have htrimN : trim n.blockId = n.blockId := h.new.trimmed n List.mem_cons_self
  rw [htrimN] at hwalk
  have hancestor : plan.ancestor = baseId a := walkToAncestor_eq hbase h.new hstoredN hoff hwalk
  have hne : ∀ b ∈ n :: ns, b.blockId ≠ baseId a := by
    intro b hb heq
    cases a with
    | none => exact h.new.id_ne b hb heq
    | some x =>
      refine h.apart b hb ?_
      rw [show b.blockId = x from heq]
      exact Ancestor.base h.old hstored
  rw [branchFromAncestorToTip, htrimN, hancestor] at hbranch
  have hout := branchFrom_eq h.new h.stored hne hbranch
  rw [List.append_nil] at hout
  exact ⟨hhead.symm, hancestor, hout⟩

/-- **A reorg is correct exactly when** no transaction of the old branch is canonical below the fork
and missing from the new branch. -/
theorem reorg_correct_iff {n : BlockRecordV1} {nowMs fuel : Nat}
    (h : Fork W A L a os (n :: ns))
    (hrun : reorgToBranch W nowMs fuel n.blockId L = (.ok true, L')) :
    ReorgCorrect W nowMs A L' (n :: ns) ↔
      ∀ k ∈ txKeys os, TxCanonical A k → k ∈ txKeys (n :: ns) := by
  obtain ⟨plan, M, bs, hplan, hunwind, happly⟩ := reorgToBranch_ok_true hrun
  obtain ⟨hhead, hancestor, hbranch⟩ := h.plan hplan
  obtain ⟨hstack, hst⟩ := h.built.stack h.old h.distinct
  have hne : ∀ b ∈ os, b.blockId ≠ baseId a := by
    intro b hb heq
    cases a with
    | none => exact h.old.id_ne b hb heq
    | some x => exact h.above b hb (congrArg some heq)
  rw [hhead, hancestor] at hunwind
  rw [hbranch] at happly
  obtain ⟨hbase, hidx⟩ := UnwindRun.branch (builtOn_readable A) [] h.old
    (fun b hb => .of_stored (hst b hb).1) (fun b hb => (hst b hb).2) hne
    (by rw [List.append_nil]; exact hstack) hunwind
  have hread : ReadEq M A := hbase.good rfl
  obtain ⟨D, hD, hreadD⟩ := happly.readEq hread
  have hkeys : ∀ k, k ∈ txKeys (n :: ns).reverse ↔ k ∈ txKeys (n :: ns) := by
    intro k
    simp only [txKeys, List.mem_flatMap, List.mem_reverse]
  have hindex := happly.index
  constructor
  · intro hc k hk hA
    by_contra hout
    -- the row of `k` was marked by the unwind and not written again
    obtain ⟨r, hr, hfalse⟩ := (hidx k).2 hk
    obtain ⟨r', hr', htrue⟩ := (hc.index k).mpr (Or.inr hA)
    rw [(hindex k).2 (fun hin => hout ((hkeys k).mp hin)), hr, Option.some.injEq] at hr'
    rw [← hr', hfalse] at htrue
    cases htrue
  · intro hcond
    refine ⟨⟨D, hD.applyBranch, hreadD⟩, fun m hm => ?_, fun k => ?_⟩
    · rw [happly.heights fun b hb => hm b (List.mem_reverse.mp hb), Ledger.canonicalBlockIdAtHeight,
        hread.canonicalByHeight]
      rfl
    · by_cases hin : k ∈ txKeys (n :: ns)
      · exact ⟨fun _ => Or.inl hin, fun _ => (hindex k).1 ((hkeys k).mpr hin)⟩
      · have hL' : L'.txIndex.get k = M.txIndex.get k :=
          (hindex k).2 fun hmem => hin ((hkeys k).mp hmem)
        by_cases hold : k ∈ txKeys os
        · obtain ⟨r, hr, hfalse⟩ := (hidx k).2 hold
          constructor
          · rintro ⟨r', hr', htrue⟩
            rw [hL', hr, Option.some.injEq] at hr'
            rw [← hr', hfalse] at htrue
            cases htrue
          · rintro (hmem | hA)
            · exact absurd hmem hin
            · exact absurd (hcond k hold hA) hin
        · have hA : L'.txIndex.get k = A.txIndex.get k := by
            rw [hL', (hidx k).1 hold, h.built.index hold]
          unfold TxCanonical
          rw [hA]
          exact ⟨Or.inr, fun hor => hor.resolve_left hin⟩

theorem carriedAgain_evaluated :
    let W := World.sample 100000
    let b := Sample.block W Sample.ledger 1 none [Sample.transfer]
    let L₁ := Sample.gossiped W b Sample.ledger
    let n₁ := Sample.block W L₁ 2 (some b.blockId) []
    let n₂ := Sample.block W (Sample.gossiped W n₁ L₁) 3 (some n₁.blockId) []
    let o := Sample.claimed W 2 (some b.blockId) [Sample.transfer] n₁.stateRoot
    let A := Sample.backfilled W n₂ (Sample.backfilled W n₁ (Sample.backfilled W o L₁))
    let k := normalizeTxHash (valueOr (txHashForEnv W Sample.transfer) [])
    let r := (A.blockRecordById o.blockId).getD (Sample.record 0 [] [] [] [] 0)
    let L := (applyBlockRecordForward W 0 r A).2
    A.blockRecordById o.blockId = some r ∧ (applyBlockRecordForward W 0 r A).1 = .ok () ∧
      (reorgToBranch W 0 8 n₂.blockId L).1 = .ok true ∧
      (A.txIndex.get k).map (·.canonical) = some true ∧
      ((reorgToBranch W 0 8 n₂.blockId L).2.txIndex.get k).map (·.canonical) = some false := by
  decide +kernel

/-- A transfer of the first block, carried again by the second: after a reorg that replaces the
second block by two empty ones the transfer is marked as not canonical, although the first block
stands. -/
theorem reorg_index_lost :
    let W := World.sample 100000
    let b := Sample.block W Sample.ledger 1 none [Sample.transfer]
    let L₁ := Sample.gossiped W b Sample.ledger
    let n₁ := Sample.block W L₁ 2 (some b.blockId) []
    let n₂ := Sample.block W (Sample.gossiped W n₁ L₁) 3 (some n₁.blockId) []
    let o := Sample.claimed W 2 (some b.blockId) [Sample.transfer] n₁.stateRoot
    let A := Sample.backfilled W n₂ (Sample.backfilled W n₁ (Sample.backfilled W o L₁))
    let k := normalizeTxHash (valueOr (txHashForEnv W Sample.transfer) [])
    ∃ r L L', A.blockRecordById o.blockId = some r ∧
      applyBlockRecordForward W 0 r A = (.ok (), L) ∧
      reorgToBranch W 0 8 n₂.blockId L = (.ok true, L') ∧
      (A.txIndex.get k).map (·.canonical) = some true ∧
      (L'.txIndex.get k).map (·.canonical) = some false := by
  obtain ⟨hr, hstep, hrun, hA, hL'⟩ := carriedAgain_evaluated
  exact ⟨_, _, _, hr, Prod.fst_eq_iff.mp hstep, Prod.fst_eq_iff.mp hrun, hA, hL'⟩

/-- A block on an empty chain beside two others, the second on top of the first. -/
theorem fork_of_two {W : World} {A L : Ledger} {o : BlockRecordV1} {id₁ id₂ : Str}
    (hrec₁ : (L.blockRecordById id₁).map (fun r => (r.blockId, r.parentBlockId)) = some (id₁, none))
    (hrec₂ : (L.blockRecordById id₂).map (fun r => (r.blockId, r.parentBlockId)) =
      some (id₂, some id₁))
    (hids : (trim id₁ = id₁ ∧ id₁ ≠ []) ∧ trim id₂ = id₂ ∧ id₂ ≠ [])
    (hstep : (applyBlockRecordForward W 0 o A).1 = .ok ()) (hL : (applyBlockRecordForward W 0 o A).2 = L)
    (hcanonical : { o with canonical := true } = o) (htip : A.getChainTip = none)
    (hparent : o.parentBlockId = none)
    (htrim : trim o.blockId = o.blockId) (hnil : o.blockId ≠ [])
    (hpar : ∀ id ∈ [o.blockId], parentOf L id = none) (hne : id₁ ≠ o.blockId ∧ id₂ ≠ o.blockId) :
    ∃ r₁ r₂ : BlockRecordV1, r₂.blockId = id₂ ∧ Fork W A L none [o] [r₂, r₁] := by
  obtain ⟨r₁, hr₁, hp₁⟩ := Option.map_eq_some_iff.mp hrec₁
  obtain ⟨r₂, hr₂, hp₂⟩ := Option.map_eq_some_iff.mp hrec₂
  obtain ⟨rfl, hpar₁⟩ := Prod.mk.inj hp₁
  obtain ⟨rfl, hpar₂⟩ := Prod.mk.inj hp₂
  have hstored : ∀ c ∈ [r₂, r₁], L.blockRecordById c.blockId = some c := by
    intro c hc
    rcases List.mem_cons.mp hc with rfl | hc
    · exact hr₂
    · rw [List.mem_singleton.mp hc, hr₁]
  have hbuilt : Built W A [{ o with canonical := true }] L := .cons .nil (Prod.ext hstep hL)
  rw [hcanonical] at hbuilt
  refine ⟨r₁, r₂, rfl, by rw [htip]; rfl, nofun, hbuilt, .cons htrim hnil hparent .nil,
    List.nodup_singleton _, fun _ _ => nofun, ?_, hstored, ?_⟩
  · exact .cons hids.2.1 hids.2.2 hpar₂ (.cons hids.1.1 hids.1.2 hpar₁ .nil)
  · -- the old block is the only ancestor of the tip
    intro c hc hanc
    have hmem := hanc.mem (l := [o.blockId])
      (fun id hid p hp => by rw [hpar id hid] at hp; cases hp)
      (fun id hid => List.mem_singleton.mpr (Option.some.inj hid).symm)
    rw [List.mem_singleton] at hmem
    rcases List.mem_cons.mp hc with rfl | hc
    · exact hne.2 hmem
    · rw [List.mem_singleton.mp hc] at hmem
      exact hne.1 hmem

theorem emptyBlocks_evaluated :
    let W := World.sample 100000
    let n₁ := Sample.block W Sample.ledger 1 none []
    let n₂ := Sample.block W (Sample.gossiped W n₁ Sample.ledger) 2 (some n₁.blockId) []
    let A := Sample.backfilled W n₂ (Sample.backfilled W n₁ Sample.ledger)
    let b := Sample.block W Sample.ledger 1 none [Sample.transfer]
    let o := Sample.record 1 b.blockId [valueOr (txHashForEnv W Sample.transfer) []]
      [Sample.transfer] b.stateRoot 100000
    let L := (applyBlockRecordForward W 0 o A).2
    (L.blockRecordById n₁.blockId).map (fun r => (r.blockId, r.parentBlockId)) =
        some (n₁.blockId, none) ∧
      (L.blockRecordById n₂.blockId).map (fun r => (r.blockId, r.parentBlockId)) =
        some (n₂.blockId, some n₁.blockId) ∧
      (applyBlockRecordForward W 0 o A).1 = .ok () ∧ A.getChainTip = none ∧
      trim o.blockId = o.blockId ∧ o.blockId ≠ [] ∧
      (∀ id ∈ [o.blockId], parentOf L id = none) ∧
      (n₁.blockId ≠ o.blockId ∧ n₂.blockId ≠ o.blockId) ∧
      (reorgToBranch W 0 8 n₂.blockId L).1 = .ok true ∧
      ∀ k ∈ txKeys [o], A.txIndex.get k = none := by
  decide +kernel

/-- A block with a transfer on the sample ledger gives way to two empty blocks. -/
theorem reorg_correct_emptyBlocks :
    let W := World.sample 100000
    let n₁ := Sample.block W Sample.ledger 1 none []
    let n₂ := Sample.block W (Sample.gossiped W n₁ Sample.ledger) 2 (some n₁.blockId) []
    let A := Sample.backfilled W n₂ (Sample.backfilled W n₁ Sample.ledger)
    ∃ o r₁ r₂ L L', Fork W A L none [o] [r₂, r₁] ∧ o.txs = [Sample.transfer] ∧
      reorgToBranch W 0 8 n₂.blockId L = (.ok true, L') ∧ ReorgCorrect W 0 A L' [r₂, r₁] := by
  intro W n₁ n₂ A
  obtain ⟨hrec₁, hrec₂, hstep, htip, htrim, hnil, hpar, hne, hrun, hnone⟩ := emptyBlocks_evaluated
  have hids : (trim n₁.blockId = n₁.blockId ∧ n₁.blockId ≠ []) ∧ trim n₂.blockId = n₂.blockId ∧
      n₂.blockId ≠ [] :=
    ⟨⟨trim_blockIdForBlock _ _ _ _ _ _, blockIdForBlock_ne_nil _ _ _ _ _ _⟩,
      trim_blockIdForBlock _ _ _ _ _ _, blockIdForBlock_ne_nil _ _ _ _ _ _⟩
  obtain ⟨r₁, r₂, hid₂, hfork⟩ :=
    fork_of_two hrec₁ hrec₂ hids hstep rfl rfl htip rfl htrim hnil hpar hne
  have hreorg := Prod.fst_eq_iff.mp hrun
  have hreorg' := hreorg
  rw [← hid₂] at hreorg'
  refine ⟨_, r₁, r₂, _, _, hfork, rfl, hreorg, ?_⟩
  rw [← hid₂]
  refine (reorg_correct_iff hfork hreorg').mpr ?_
  intro k hk hA
  obtain ⟨row, hrow, -⟩ := hA
  rw [hnone k hk] at hrow
  cases hrow

end Reorg

end TetCore.Consensus
