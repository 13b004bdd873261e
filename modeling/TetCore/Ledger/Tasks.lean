import TetCore.Ledger.Markers
import TetCore.Ledger.Footprint

/-!
# AI workload tasks

An `EnterpriseInference` transaction stores a task under its hash and a `VerifyZkProof` transaction
that names a task marks it processed. Block apply reads the tasks of the ledger before the block:
a stored task is only ever rewritten as processed (`applyTx_taskWrites`), so a processed task stays
processed (`apply_keeps_processed`), and a task that a proof of the block names is processed
afterwards (`apply_processes`). A proof also leaves a marker under the hash of its receipt, which
stays too (`apply_marks_receipt`, `apply_keeps_receipt`).
-/

namespace TetCore

open TetCore.Lib

/-- The key of the height, a task or a receipt's marker. Only blocks write these rows. -/
def MetaKey.ofBlocks : MetaKey → Bool
  | .ledgerBlockHeight | .aiWorkloadTx _ | .zkVerified _ => true
  | _ => false

namespace Ledger

variable {W : World} {L L' : Ledger} {nowMs height : Nat} {b b' : Batch}

/-- A processed task is stored under the key. -/
def ProcessedAt (L : Ledger) (k : MetaKey) : Prop :=
  ∃ t, L.metaTree.get k = some (.task t) ∧ t.processed = true

/-! ## The writes of one transaction -/

/-- A write of a task: a new one, or a stored one as processed. -/
def TaskWrite (L : Ledger) (k : MetaKey) (v : MetaVal) : Prop :=
  L.metaTree.get k = none ∨ ∃ t, v = .task t ∧ t.processed = true

theorem applyVerifyZkProof_taskWrites {signer taskId journal receipt : Str} {imageId : List Nat}
    (ha : applyVerifyZkProof W L nowMs b signer taskId imageId journal receipt = .ok b') (x : Str) :
    ∀ v, (MetaKey.aiWorkloadTx x, v) ∈ b'.metaBatch →
      (MetaKey.aiWorkloadTx x, v) ∈ b.metaBatch ∨ TaskWrite L (.aiWorkloadTx x) v := by
  intro v hv
  simp only [applyVerifyZkProof, bind_eq_ok, require_eq_ok] at ha
  obtain ⟨_, -, ha⟩ := ha
  -- the receipt's marker is no task
  have hzk : ∀ (c : Bool) (h : Str) (row : MetaVal), (MetaKey.aiWorkloadTx x, v) ∈
      (if c then b.putMeta (zkVerifiedMetaKey h) row else b).metaBatch →
        (MetaKey.aiWorkloadTx x, v) ∈ b.metaBatch := by
    intro c h row hmem
    cases c with
    | false => exact hmem
    | true =>
      rcases List.mem_append.mp hmem with hmem | hmem
      · exact hmem
      · rw [List.mem_singleton] at hmem
        cases hmem
  split at ha
  · cases ha
    exact Or.inl (hzk _ _ _ hv)
  · split at ha
    · cases ha
    · split at ha
      · cases ha
        exact Or.inl (hzk _ _ _ hv)
      · cases ha
        rcases List.mem_append.mp hv with hv | hv
        · exact Or.inl (hzk _ _ _ hv)
        · rw [List.mem_singleton, Prod.mk.injEq] at hv
          exact Or.inr (Or.inr ⟨_, hv.2, rfl⟩)
    · cases ha

theorem applyTx_taskWrites {env : SignedTxEnvelopeV1} {h : Str}
    (ha : applyTx .saturating W L nowMs height b env h = .ok b') (x : Str) :
    ∀ v, (MetaKey.aiWorkloadTx x, v) ∈ b'.metaBatch →
      (MetaKey.aiWorkloadTx x, v) ∈ b.metaBatch ∨ TaskWrite L (.aiWorkloadTx x) v := by
  intro v hv
  obtain ⟨m, hm, hkeys⟩ := (applyTx_grows ha).metaBatch
  -- the other kinds write no task
  have hother : MetaKey.aiWorkloadTx x ∉ (undoKeysOf W env h).metaKeys →
      (MetaKey.aiWorkloadTx x, v) ∈ b.metaBatch := by
    intro hno
    rw [hm] at hv
    rcases List.mem_append.mp hv with hv | hv
    · exact hv
    · exact absurd (hkeys _ hv) hno
  simp only [applyTx, bind_eq_ok, require_eq_ok] at ha
  obtain ⟨_, -, ha⟩ := ha
  cases he : env.tx with
  | verifyZkProof tid img j r =>
    rw [he] at ha
    exact applyVerifyZkProof_taskWrites ha x v hv
  | enterpriseInference w p mo amount nonce ph flag att =>
    simp only [he, Except.ok.injEq] at ha
    subst ha
    unfold applyEnterpriseInference at hv
    simp only at hv
    by_cases hnone : (L.metaTree.get (aiWorkloadTxMetaKey h)).isNone = true
    · rw [if_pos hnone] at hv
      rcases List.mem_append.mp hv with hv | hv
      · exact Or.inl hv
      · rw [List.mem_singleton, Prod.mk.injEq] at hv
        rw [hv.1]
        exact Or.inr (Or.inl (Option.isNone_iff_eq_none.mp hnone))
    · rw [if_neg hnone] at hv
      exact Or.inl hv
  | transfer f t amount bps =>
    refine Or.inl (hother ?_)
    simp only [undoKeysOf, he, feeCounterKeys, remoteTxAppliedMetaKey]
    split <;> simp
  | fileFee f s fid fee =>
    exact Or.inl (hother (by simp [undoKeysOf, he, feeCounterKeys, remoteTxAppliedMetaKey]))
  | workerRegister w hw hp caps tf =>
    exact Or.inl (hother (by simp [undoKeysOf, he, remoteTxAppliedMetaKey]))
  | initialAirdrop w => exact Or.inl (hother (by simp [undoKeysOf, he, remoteTxAppliedMetaKey]))
  | signerLink w => exact Or.inl (hother (by simp [undoKeysOf, he]))
  | foundingMemberEnroll w => exact Or.inl (hother (by simp [undoKeysOf, he]))
  | genesisBridge f t amount => exact Or.inl (hother (by simp [undoKeysOf, he]))

/-- The writes of all transactions. -/
theorem applyTxs_taskWrites (x : Str) : ∀ {l : List (SignedTxEnvelopeV1 × Str)} {b b' : Batch},
    applyTxs .saturating W L nowMs height l b = .ok b' →
    (∀ v, (MetaKey.aiWorkloadTx x, v) ∈ b.metaBatch → TaskWrite L (.aiWorkloadTx x) v) →
    ∀ v, (MetaKey.aiWorkloadTx x, v) ∈ b'.metaBatch → TaskWrite L (.aiWorkloadTx x) v := by
  intro l
  induction l with
  | nil =>
    intro b b' ha hb
    cases ha
    exact hb
  | cons p l ih =>
    intro b b' ha hb
    obtain ⟨env, h⟩ := p
    simp only [applyTxs, bind_eq_ok] at ha
    obtain ⟨b₁, ha₁, ha₂⟩ := ha
    refine ih ha₂ fun v hv => ?_
    rcases applyTx_taskWrites ha₁ x v hv with hold | hnew
    · exact hb v hold
    · exact hnew

/-- A proof that names a task: the task is processed already, or the batch says so. -/
theorem applyVerifyZkProof_processes {signer taskId journal receipt : Str} {imageId : List Nat}
    (hid : (trim taskId).isEmpty = false)
    (ha : applyVerifyZkProof W L nowMs b signer taskId imageId journal receipt = .ok b') :
    ∃ t, L.metaTree.get (aiWorkloadTxMetaKey taskId) = some (.task t) ∧
      (t.processed = true ∨
        ∃ t', (aiWorkloadTxMetaKey taskId, MetaVal.task t') ∈ b'.metaBatch) := by
  simp only [applyVerifyZkProof, bind_eq_ok, require_eq_ok] at ha
  obtain ⟨_, -, ha⟩ := ha
  rw [if_neg (by rw [hid]; exact Bool.false_ne_true)] at ha
  split at ha
  · cases ha
  · rename_i t ht
    refine ⟨t, ht, ?_⟩
    by_cases hp : t.processed = true
    · exact Or.inl hp
    · rw [if_neg hp] at ha
      cases ha
      exact Or.inr ⟨_, List.mem_append_right _ (List.mem_singleton.mpr rfl)⟩
  · cases ha

theorem applyTxs_processes {taskId : Str} (hid : (trim taskId).isEmpty = false)
    {l : List (SignedTxEnvelopeV1 × Str)} {b b' : Batch}
    (ha : applyTxs .saturating W L nowMs height l b = .ok b')
    (hzk : ∃ p ∈ l, ∃ imageId journal receipt,
      p.1.tx = .verifyZkProof taskId imageId journal receipt) :
    ∃ t, L.metaTree.get (aiWorkloadTxMetaKey taskId) = some (.task t) ∧
      (t.processed = true ∨
        ∃ t', (aiWorkloadTxMetaKey taskId, MetaVal.task t') ∈ b'.metaBatch) := by
  obtain ⟨p, hp, imageId, journal, receipt, he⟩ := hzk
  obtain ⟨b₁, b₂, hb, hmem⟩ := applyTxs_mem ha p hp
  simp only [applyTx, he, bind_eq_ok, require_eq_ok] at hb
  obtain ⟨_, -, hb⟩ := hb
  obtain ⟨t, ht, hp | ⟨t', ht'⟩⟩ := applyVerifyZkProof_processes hid hb
  · exact ⟨t, ht, Or.inl hp⟩
  · exact ⟨t, ht, Or.inr ⟨t', hmem _ ht'⟩⟩

/-- A proof leaves the marker of its receipt. -/
theorem applyVerifyZkProof_marks {signer taskId journal receipt : Str} {imageId : List Nat}
    (ha : applyVerifyZkProof W L nowMs b signer taskId imageId journal receipt = .ok b') :
    (L.metaTree.get (zkVerifiedMetaKey (W.sha256Hex (utf8 receipt)))).isSome = true ∨
      zkVerifiedMetaKey (W.sha256Hex (utf8 receipt)) ∈ b'.metaBatch.map Prod.fst := by
  simp only [applyVerifyZkProof, bind_eq_ok, require_eq_ok] at ha
  obtain ⟨_, -, ha⟩ := ha
  cases hold : L.metaTree.get (zkVerifiedMetaKey (W.sha256Hex (utf8 receipt))) with
  | some v => exact Or.inl rfl
  | none =>
    right
    rw [hold] at ha
    simp only [Option.isNone_none, if_true] at ha
    split at ha
    · cases ha
      simp [Batch.putMeta]
    · split at ha
      · cases ha
      · split at ha
        · cases ha
          simp [Batch.putMeta]
        · cases ha
          simp [Batch.putMeta]
      · cases ha

/-! ## Blocks -/

section Blocks

variable {txs : List SignedTxEnvelopeV1} {hashes : List Str} {producer root : Str} {reward : Nat}

/-- A stored task that a block writes is processed afterwards. -/
theorem apply_processed_of_mem {x : Str} {batch : List (MetaKey × MetaVal)}
    (hold : (L.metaTree.get (.aiWorkloadTx x)).isSome = true)
    (hw : ∀ v, (MetaKey.aiWorkloadTx x, v) ∈ batch → TaskWrite L (.aiWorkloadTx x) v)
    (hmem : MetaKey.aiWorkloadTx x ∈ batch.map Prod.fst) :
    ∃ t, (L.metaTree.applyBatch batch).get (.aiWorkloadTx x) = some (.task t) ∧
      t.processed = true := by
  obtain ⟨v, hv, hget⟩ := Tree.exists_get_applyBatch batch L.metaTree hmem
  rcases hw v hv with hnone | ⟨t, rfl, ht⟩
  · rw [hnone] at hold
    cases hold
  · exact ⟨t, hget, ht⟩

theorem startBatch_noTask (L : Ledger) (x : Str) :
    ∀ v, (MetaKey.aiWorkloadTx x, v) ∈ (startBatch L).metaBatch → TaskWrite L (.aiWorkloadTx x) v :=
  fun _ hv => absurd hv List.not_mem_nil

/-- **A processed task stays processed.** -/
theorem apply_keeps_processed {x : Str}
    (ha : applyConsensusBlockBatch W nowMs height txs hashes producer reward L = .ok (root, L'))
    (hp : ProcessedAt L (.aiWorkloadTx x)) : ProcessedAt L' (.aiWorkloadTx x) := by
  obtain ⟨b, hb, hget⟩ := apply_meta ha
  unfold ProcessedAt
  rw [hget _ rfl]
  by_cases hmem : MetaKey.aiWorkloadTx x ∈ b.metaBatch.map Prod.fst
  · obtain ⟨t, ht, -⟩ := hp
    refine apply_processed_of_mem ?_ (applyTxs_taskWrites x hb (startBatch_noTask L x)) hmem
    rw [ht]
    rfl
  · rw [Tree.get_applyBatch_of_notMem _ _ hmem]
    exact hp

/-- **A task that a proof of the block names** is processed after the block. -/
theorem apply_processes {taskId : Str} (hid : (trim taskId).isEmpty = false)
    (ha : applyConsensusBlockBatch W nowMs height txs hashes producer reward L = .ok (root, L'))
    (hzk : ∃ env ∈ txs, ∃ imageId journal receipt,
      env.tx = .verifyZkProof taskId imageId journal receipt) :
    ProcessedAt L' (aiWorkloadTxMetaKey taskId) := by
  have hlen := apply_lengths ha
  obtain ⟨b, hb, hget⟩ := apply_meta ha
  obtain ⟨env, henv, himg⟩ := hzk
  obtain ⟨i, hi, rfl⟩ := List.getElem_of_mem henv
  have hzip : (txs[i], hashes[i]) ∈ txs.zip hashes := by
    rw [← List.getElem_zip (h := by rw [List.length_zip]; omega)]
    exact List.getElem_mem _
  obtain ⟨t, ht, hp | ⟨t', ht'⟩⟩ := applyTxs_processes hid hb ⟨_, hzip, himg⟩
  · exact apply_keeps_processed ha ⟨t, ht, hp⟩
  · unfold ProcessedAt
    rw [hget _ rfl]
    refine apply_processed_of_mem ?_ (applyTxs_taskWrites _ hb (startBatch_noTask L _))
      (List.mem_map.mpr ⟨_, ht', rfl⟩)
    rw [show MetaKey.aiWorkloadTx (trim taskId) = aiWorkloadTxMetaKey taskId from rfl, ht]
    rfl

/-- The receipt has its marker. -/
def ReceiptMarked (W : World) (L : Ledger) (receipt : Str) : Prop :=
  (L.metaTree.get (zkVerifiedMetaKey (W.sha256Hex (utf8 receipt)))).isSome = true

/-- **A marked receipt stays marked.** -/
theorem apply_keeps_receipt {receipt : Str}
    (ha : applyConsensusBlockBatch W nowMs height txs hashes producer reward L = .ok (root, L'))
    (hm : ReceiptMarked W L receipt) : ReceiptMarked W L' receipt := by
  simp only [applyConsensusBlockBatch, applyConsensusBlockBatchWith, bind_eq_ok, Except.ok.injEq,
    Prod.mk.injEq] at ha
  obtain ⟨b, -, -, rfl⟩ := ha
  exact Tree.isSome_get_applyBatch _ hm

/-- **A receipt that a proof of the block carries** is marked after the block. -/
theorem apply_marks_receipt {receipt : Str}
    (ha : applyConsensusBlockBatch W nowMs height txs hashes producer reward L = .ok (root, L'))
    (hzk : ∃ env ∈ txs, ∃ taskId imageId journal,
      env.tx = .verifyZkProof taskId imageId journal receipt) : ReceiptMarked W L' receipt := by
  obtain ⟨b, hb, hget⟩ := apply_meta ha
  obtain ⟨env, henv, taskId, imageId, journal, he⟩ := hzk
  rw [← List.map_fst_zip (le_of_eq (apply_lengths ha))] at henv
  obtain ⟨p, hp, rfl⟩ := List.mem_map.mp henv
  obtain ⟨b₁, b₂, hb₂, hmem⟩ := applyTxs_mem hb p hp
  simp only [applyTx, he, bind_eq_ok, require_eq_ok] at hb₂
  obtain ⟨_, -, hb₂⟩ := hb₂
  rcases applyVerifyZkProof_marks hb₂ with hold | hnew
  · exact apply_keeps_receipt ha hold
  · obtain ⟨w, hw, hkey⟩ := List.mem_map.mp hnew
    obtain ⟨v, -, hv⟩ := Tree.exists_get_applyBatch b.metaBatch L.metaTree
      (List.mem_map.mpr ⟨w, hmem w hw, hkey⟩)
    unfold ReceiptMarked
    rw [hget (zkVerifiedMetaKey (W.sha256Hex (utf8 receipt))) rfl, hv]
    rfl

end Blocks

/-! ## Direct operations -/

/-- The stored tasks are the same. -/
def SameTasks (L L' : Ledger) : Prop :=
  ∀ x, L'.metaTree.get (.aiWorkloadTx x) = L.metaTree.get (.aiWorkloadTx x)

theorem SameTasks.processed (h : SameTasks L L') {x : Str} (hp : ProcessedAt L (.aiWorkloadTx x)) :
    ProcessedAt L' (.aiWorkloadTx x) := by
  unfold ProcessedAt
  rw [h x]
  exact hp

/-- The rows that only blocks write are the same, and so are the trees of the chain. -/
structure SameRows (L L' : Ledger) : Prop where
  rows : ∀ k : MetaKey, k.ofBlocks = true → L'.metaTree.get k = L.metaTree.get k
  chainTip : L'.chainTip = L.chainTip
  canonicalByHeight : L'.canonicalByHeight = L.canonicalByHeight
  blocksById : L'.blocksById = L.blocksById
  blockUndo : L'.blockUndo = L.blockUndo

namespace SameRows

theorem refl (L : Ledger) : SameRows L L := ⟨fun _ _ => rfl, rfl, rfl, rfl, rfl⟩

theorem tasks (h : SameRows L L') : SameTasks L L' := fun _ => h.rows _ rfl

end SameRows

/-- A direct operation writes no row that only blocks write. -/
theorem Op.rowKeys_ofBlocks {op : Op} (hop : op.isBlock = false) {k : MetaKey}
    (hk : k.ofBlocks = true) : k ∉ op.rowKeys W := by
  intro hmem
  cases op
  case applyConsensusBlockBatch => cases hop
  all_goals
    simp only [Op.rowKeys, List.mem_cons, List.not_mem_nil, or_false] at hmem
    try rcases hmem with rfl | rfl | rfl | rfl | rfl
    all_goals cases hk

/-- **A direct operation** other than a block leaves the tasks and the receipts' markers alone. -/
theorem exec_rows {op : Op} (hop : op.isBlock = false) (h : op.exec W nowMs L = .ok L') :
    SameRows L L' := by
  have hin := exec_within hop h
  refine ⟨fun k hk => hin.rows k (Op.rowKeys_ofBlocks hop hk), ?_, ?_, ?_, ?_⟩ <;> rw [hin.rest]

/-- **Every operation** is a block, or leaves the rows alone that only blocks write. -/
theorem run_rows (op : Op) (L : Ledger) : SameRows L (op.run W nowMs L) ∨
    ∃ height txs hashes producer reward root,
      applyConsensusBlockBatch W nowMs height txs hashes producer reward L =
        .ok (root, op.run W nowMs L) := by
  unfold Op.run
  cases h : op.exec W nowMs L with
  | error e => exact Or.inl (SameRows.refl L)
  | ok L' =>
    cases hop : op.isBlock with
    | false => exact Or.inl (exec_rows hop h)
    | true =>
      cases op
      case applyConsensusBlockBatch height txs hashes producer reward =>
        rw [Op.exec, map_snd_eq_ok] at h
        obtain ⟨root, h⟩ := h
        exact Or.inr ⟨height, txs, hashes, producer, reward, root, h⟩
      all_goals cases hop

/-- Every operation keeps processed tasks processed. -/
theorem run_keeps_processed (op : Op) {x : Str} (hp : ProcessedAt L (.aiWorkloadTx x)) :
    ProcessedAt (op.run W nowMs L) (.aiWorkloadTx x) := by
  rcases run_rows op L with hsame | ⟨height, txs, hashes, producer, reward, root, h⟩
  · exact hsame.tasks.processed hp
  · exact apply_keeps_processed h hp

/-- Every operation keeps marked receipts marked. -/
theorem run_keeps_receipt (op : Op) {receipt : Str} (hm : ReceiptMarked W L receipt) :
    ReceiptMarked W (op.run W nowMs L) receipt := by
  rcases run_rows op L with hsame | ⟨height, txs, hashes, producer, reward, root, h⟩
  · unfold ReceiptMarked
    rw [hsame.rows (zkVerifiedMetaKey (W.sha256Hex (utf8 receipt))) rfl]
    exact hm
  · exact apply_keeps_receipt h hm

end Ledger

end TetCore
