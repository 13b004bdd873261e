import TetCore.Ledger.Apply
import TetCore.Ledger.Records

/-!
# What block apply can change

`Batch.Grows ks b b'`: from `b` to `b'` only balance keys, `meta` keys and registry keys of `ks` were
written, every balance written is marked dirty, and the counters moved only if `ks` names them.
Each arm of the apply grows its batch by its own undo keys (`applyTx_grows`), so a whole block does
(`blockBatch_grows`).

* `commit_balances`: the dirty keys are enough. The tree after the commit is the balance map the
  root was computed from.
* `apply_frame`: a committed block changes `balances`, `meta` and `workers_registry` only, and there
  only keys that `prepare_block_undo` captures, up to counters that read `0` when absent.
-/

namespace TetCore

open TetCore.Lib

namespace Ledger

/-! ## Balance maps -/

/-- From `m` to `m'` the keys of `ks` got a row and no other key changed. -/
def Touches (ks : List Str) (m m' : Tree Str Nat) : Prop :=
  (∀ k, k ∉ ks → m'.get k = m.get k) ∧ ∀ k ∈ ks, (m'.get k).isSome = true

theorem Touches.nil (m : Tree Str Nat) : Touches [] m m :=
  ⟨fun _ _ => rfl, fun _ hk => absurd hk List.not_mem_nil⟩

theorem Touches.insert {ks : List Str} {m m' : Tree Str Nat} (h : Touches ks m m') (a : Str)
    (n : Nat) : Touches (a :: ks) m (m'.insert a n) := by
  refine ⟨fun k hk => ?_, fun k hk => ?_⟩
  · rw [List.mem_cons, not_or] at hk
    rw [Tree.get_insert_ne (Ne.symm hk.1), h.1 k hk.2]
  · rw [Tree.get_insert]
    split
    · rfl
    · exact h.2 k ((List.mem_cons.mp hk).resolve_left fun e => ‹¬_› e.symm)

theorem Touches.trans {ks ks' : List Str} {m m' m'' : Tree Str Nat} (h : Touches ks m m')
    (h' : Touches ks' m' m'') : Touches (ks' ++ ks) m m'' := by
  refine ⟨fun k hk => ?_, fun k hk => ?_⟩
  · rw [List.mem_append, not_or] at hk
    rw [h'.1 k hk.1, h.1 k hk.2]
  · by_cases hk' : k ∈ ks'
    · exact h'.2 k hk'
    · rw [h'.1 k hk']
      exact h.2 k ((List.mem_append.mp hk).resolve_left hk')

theorem credit_eq_ok {A : Arith} {m m' : Tree Str Nat} {k : Str} {a : Nat} :
    credit A m k a = .ok m' ↔ ∃ n, A.add (amountAt m k) a = .ok n ∧ m.insert k n = m' := by
  simp [credit]

theorem Touches.credit {A : Arith} {ks : List Str} {m m' m'' : Tree Str Nat} {k : Str} {a : Nat}
    (h : Touches ks m m') (hc : credit A m' k a = .ok m'') : Touches (k :: ks) m m'' := by
  obtain ⟨n, -, rfl⟩ := credit_eq_ok.mp hc
  exact h.insert k n

theorem applyFileFee_touches {A : Arith} {W : World} {L : Ledger} {nowMs fee : Nat}
    {m : Tree Str Nat} {f s : Str} {r : FileFeeEffect × Tree Str Nat}
    (h : applyFileFeeToBalanceMap A W L nowMs m f s fee = .ok r) :
    Touches [r.1.storageKey, r.1.treasuryKey, r.1.fromKey] m r.2 ∧
      r.1.fromKey = trimLower f ∧ W.treasuryAddressFromEnv = .ok r.1.treasuryKey ∧
      r.1.storageKey =
        if (trimLower s).isEmpty then r.1.treasuryKey else trimLower s := by
  simp only [applyFileFeeToBalanceMap, bind_eq_ok, require_eq_ok, Except.ok.injEq] at h
  obtain ⟨_, -, _, -, t, ht, _, -, _, -, _, -, rest, -, m₁, h₁, m₂, h₂, rfl⟩ := h
  exact ⟨(((Touches.nil m).insert _ rest).credit h₁).credit h₂, rfl, ht, rfl⟩

theorem applyInitialAirdrop_touches {A : Arith} {W : World} {m : Tree Str Nat} {w : Str}
    {count : Nat} {m' : Tree Str Nat} {count' : Nat}
    (h : applyInitialAirdropToBalanceMap A W m w count = .ok (some (m', count'))) :
    Touches [trimLower w, walletWorkerPool] m m' := by
  simp only [applyInitialAirdropToBalanceMap, bind_eq_ok, require_eq_ok] at h
  obtain ⟨_, -, _, -, h⟩ := h
  split at h
  · cases h
  split at h
  · cases h
  simp only [bind_eq_ok, Except.ok.injEq, Option.some.injEq, Prod.mk.injEq] at h
  obtain ⟨rest, -, m₁, h₁, _, -, rfl, -⟩ := h
  exact ((Touches.nil m).insert _ rest).credit h₁

theorem applyBlockReward_touches {A : Arith} {m m' : Tree Str Nat} {p : Str} {reward : Nat}
    (h : applyBlockRewardToBalanceMap A m p reward = .ok m') :
    Touches (if 0 < reward then [trimLower p, walletWorkerPool] else []) m m' := by
  unfold applyBlockRewardToBalanceMap at h
  split at h
  · cases h
    rw [if_neg (by omega)]
    exact Touches.nil m
  · rw [if_pos (by omega)]
    simp only [bind_eq_ok, require_eq_ok, Except.ok.injEq] at h
    obtain ⟨_, -, _, -, _, -, pn, -, qn, -, rfl⟩ := h
    exact ((Touches.nil m).insert _ pn).insert _ qn

/-! ## Batches -/

/-- `ks` lists only keys of `ks'`. -/
structure UndoKeys.Sub (ks ks' : UndoKeys) : Prop where
  balances : ∀ k ∈ ks.balances, k ∈ ks'.balances
  metaKeys : ∀ k ∈ ks.metaKeys, k ∈ ks'.metaKeys
  workersRegistry : ∀ k ∈ ks.workersRegistry, k ∈ ks'.workersRegistry

/-- What a part of the apply may add to its batch. -/
structure Batch.Grows (ks : UndoKeys) (b b' : Batch) : Prop where
  balances : ∃ d, b'.dirtyBalances = d ++ b.dirtyBalances ∧ (∀ k ∈ d, k ∈ ks.balances) ∧
    Touches d b.balances b'.balances
  metaBatch : ∃ m, b'.metaBatch = b.metaBatch ++ m ∧ ∀ p ∈ m, p.1 ∈ ks.metaKeys
  registry : ∃ r, b'.workersRegistryBatch = b.workersRegistryBatch ++ r ∧
    ∀ p ∈ r, p.1 ∈ ks.workersRegistry
  counters : (∀ k ∈ feeCounterKeys, k ∈ ks.metaKeys) ∨
    b'.totalSupply = b.totalSupply ∧ b'.totalBurned = b.totalBurned ∧ b'.feeTotal = b.feeTotal
  airdrop : .faucetInitialRecipientsCount ∈ ks.metaKeys ∨ b'.airdropCredited = b.airdropCredited

namespace Batch

variable {ks ks' : UndoKeys} {b b' b'' : Batch}

theorem Grows.refl (ks : UndoKeys) (b : Batch) : Grows ks b b where
  balances := ⟨[], rfl, by simp, Touches.nil _⟩
  metaBatch := ⟨[], by simp, by simp⟩
  registry := ⟨[], by simp, by simp⟩
  counters := Or.inr ⟨rfl, rfl, rfl⟩
  airdrop := Or.inr rfl

theorem Grows.trans (h : Grows ks b b') (h' : Grows ks b' b'') : Grows ks b b'' where
  balances := by
    obtain ⟨d, hd, hs, ht⟩ := h.balances
    obtain ⟨d', hd', hs', ht'⟩ := h'.balances
    refine ⟨d' ++ d, by rw [hd', hd, List.append_assoc], fun k hk => ?_, ht.trans ht'⟩
    exact (List.mem_append.mp hk).elim (hs' k) (hs k)
  metaBatch := by
    obtain ⟨m, hm, hs⟩ := h.metaBatch
    obtain ⟨m', hm', hs'⟩ := h'.metaBatch
    refine ⟨m ++ m', by rw [hm', hm, List.append_assoc], fun p hp => ?_⟩
    exact (List.mem_append.mp hp).elim (hs p) (hs' p)
  registry := by
    obtain ⟨m, hm, hs⟩ := h.registry
    obtain ⟨m', hm', hs'⟩ := h'.registry
    refine ⟨m ++ m', by rw [hm', hm, List.append_assoc], fun p hp => ?_⟩
    exact (List.mem_append.mp hp).elim (hs p) (hs' p)
  counters := by
    rcases h.counters with hc | ⟨h1, h2, h3⟩
    · exact Or.inl hc
    rcases h'.counters with hc | ⟨h1', h2', h3'⟩
    · exact Or.inl hc
    · exact Or.inr ⟨h1'.trans h1, h2'.trans h2, h3'.trans h3⟩
  airdrop := by
    rcases h.airdrop with hc | h1
    · exact Or.inl hc
    · exact h'.airdrop.imp_right fun h2 => h2.trans h1

theorem Grows.mono (h : Grows ks b b') (hs : ks.Sub ks') : Grows ks' b b' where
  balances := by
    obtain ⟨d, hd, hd', ht⟩ := h.balances
    exact ⟨d, hd, fun k hk => hs.balances k (hd' k hk), ht⟩
  metaBatch := by
    obtain ⟨m, hm, hm'⟩ := h.metaBatch
    exact ⟨m, hm, fun p hp => hs.metaKeys _ (hm' p hp)⟩
  registry := by
    obtain ⟨m, hm, hm'⟩ := h.registry
    exact ⟨m, hm, fun p hp => hs.workersRegistry _ (hm' p hp)⟩
  counters := h.counters.imp_left fun hc k hk => hs.metaKeys k (hc k hk)
  airdrop := h.airdrop.imp_left fun hc => hs.metaKeys _ hc

theorem Grows.putMeta (b : Batch) {k : MetaKey} (v : MetaVal) (h : k ∈ ks.metaKeys) :
    Grows ks b (b.putMeta k v) :=
  { Grows.refl ks b with metaBatch := ⟨[(k, v)], rfl, by simpa using h⟩ }

/-- New balances over the keys `d`, all marked dirty. -/
theorem Grows.setBalances (b : Batch) {d : List Str} {m : Tree Str Nat}
    (ht : Touches d b.balances m) (hd : ∀ k ∈ d, k ∈ ks.balances) :
    Grows ks b { b with balances := m, dirtyBalances := d ++ b.dirtyBalances } :=
  { Grows.refl ks b with balances := ⟨d, rfl, hd, ht⟩ }

theorem countFee_grows {A : Arith} {burn fee : Nat} (h : b.countFee A burn fee = .ok b')
    (hk : ∀ k ∈ feeCounterKeys, k ∈ ks.metaKeys) : Grows ks b b' := by
  simp only [countFee, bind_eq_ok, Except.ok.injEq] at h
  obtain ⟨_, -, _, -, _, -, rfl⟩ := h
  exact { Grows.refl ks b with counters := Or.inl hk }

end Batch

/-! ## The arms -/

section Arms

variable {W : World} {L : Ledger} {nowMs blockHeight : Nat} {b b' : Batch}
  {env : SignedTxEnvelopeV1} {txHash : Str}

@[simp] theorem feeMicroWith_saturating (s : FeeSplit) :
    s.feeMicroWith .saturating = .ok s.feeMicro := rfl

theorem chargeLedger_eq_ok {kind : FeeKind} {amount : Nat} {s : FeeSplit} :
    chargeLedger kind amount = .ok s ↔ charge kind amount = .ok s := by
  unfold chargeLedger
  cases charge kind amount <;> simp [invalid]

theorem settleTransferFee_grows {ks : UndoKeys} {split : FeeSplit}
    (h : b.settleTransferFee .saturating split = .ok b')
    (hb : 0 < split.feeMicro → walletWorkerPool ∈ ks.balances)
    (hm : 0 < split.feeMicro → ∀ k ∈ feeCounterKeys, k ∈ ks.metaKeys) : Batch.Grows ks b b' := by
  unfold Batch.settleTransferFee at h
  rw [feeMicroWith_saturating, ok_bind] at h
  split at h
  · rename_i hfee
    rw [bind_eq_ok] at h
    obtain ⟨b₁, h₁, h₂⟩ := h
    refine Batch.Grows.trans ?_ (Batch.countFee_grows h₂ (hm hfee))
    unfold Batch.creditPool at h₁
    split at h₁
    · simp only [bind_eq_ok, Except.ok.injEq] at h₁
      obtain ⟨m, hc, rfl⟩ := h₁
      exact Batch.Grows.setBalances b ((Touches.nil _).credit hc) (by simpa using hb hfee)
    · cases h₁
      exact Batch.Grows.refl ks b
  · cases h
    exact Batch.Grows.refl ks b

theorem applyTransfer_grows {f t : Str} {amount bps : Nat}
    (h : applyTransfer .saturating L nowMs b txHash f t amount bps = .ok b')
    (he : env.tx = .transfer f t amount bps) : Batch.Grows (undoKeysOf W env txHash) b b' := by
  simp only [applyTransfer, bind_eq_ok, require_eq_ok] at h
  obtain ⟨_, -, _, -, h⟩ := h
  split at h
  · cases h
    exact Batch.Grows.refl _ b
  simp only [bind_eq_ok, require_eq_ok, Except.ok.injEq] at h
  obtain ⟨_, -, _, -, _, -, split, hs, rest, -, m, hm, b₂, h₂, rfl⟩ := h
  rw [chargeLedger_eq_ok] at hs
  have hks : undoKeysOf W env txHash =
      { balances := trimLower f :: trimLower t ::
          (if 0 < split.feeMicro then [walletWorkerPool] else [])
        metaKeys := (if 0 < split.feeMicro then feeCounterKeys else []) ++
          [remoteTxAppliedMetaKey txHash]
        txIndex := [normalizeTxHash txHash]
        workersRegistry := [] } := by
    simp [undoKeysOf, he, hs, valueOr]
  rw [hks]
  refine Batch.Grows.trans (Batch.Grows.setBalances b
    (((Touches.nil b.balances).insert _ rest).credit hm) (by simp)) (Batch.Grows.trans
      (settleTransferFee_grows h₂ (fun hf => by simp [hf]) (fun hf k hk => by simp [hf, hk]))
      (Batch.Grows.putMeta b₂ _ (by simp)))

theorem applyVerifyZkProof_grows {signer taskId journal receipt : Str} {imageId : List Nat}
    (h : applyVerifyZkProof W L nowMs b signer taskId imageId journal receipt = .ok b')
    (he : env.tx = .verifyZkProof taskId imageId journal receipt) :
    Batch.Grows (undoKeysOf W env txHash) b b' := by
  have hks : undoKeysOf W env txHash =
      { balances := []
        metaKeys := zkVerifiedMetaKey (W.sha256Hex (utf8 receipt)) ::
          (if (trim taskId).isEmpty then [] else [aiWorkloadTxMetaKey taskId])
        txIndex := [normalizeTxHash txHash]
        workersRegistry := [] } := by
    simp only [undoKeysOf, he]
  rw [hks]
  simp only [applyVerifyZkProof, bind_eq_ok, require_eq_ok] at h
  obtain ⟨_, -, h⟩ := h
  have hzk : ∀ (c : Bool) (v : MetaVal), Batch.Grows
      { balances := []
        metaKeys := zkVerifiedMetaKey (W.sha256Hex (utf8 receipt)) ::
          (if (trim taskId).isEmpty then [] else [aiWorkloadTxMetaKey taskId])
        txIndex := [normalizeTxHash txHash]
        workersRegistry := [] } b
      (if c then b.putMeta (zkVerifiedMetaKey (W.sha256Hex (utf8 receipt))) v else b) := by
    intro c v
    cases c
    · exact Batch.Grows.refl _ b
    · exact Batch.Grows.putMeta b v (by simp)
  split at h
  · cases h
    exact hzk _ _
  · rename_i htask
    split at h
    · cases h
    · split at h
      · cases h
        exact hzk _ _
      · cases h
        exact (hzk _ _).trans (Batch.Grows.putMeta _ _ (by simp [htask]))
    · cases h

theorem applyEnterpriseInference_grows {w p m : Str} {amount nonce flag : Nat} {ph : Str}
    {att : Bool} {task : AiWorkloadTask}
    (he : env.tx = .enterpriseInference w p m amount nonce ph flag att) :
    Batch.Grows (undoKeysOf W env txHash) b (applyEnterpriseInference L b txHash task) := by
  simp only [applyEnterpriseInference]
  split
  · exact Batch.Grows.putMeta b _ (by simp [undoKeysOf, he])
  · exact Batch.Grows.refl _ b

theorem applyFileFee_grows {f s fid : Str} {fee : Nat}
    (h : applyFileFee .saturating W L nowMs b txHash f s fee = .ok b')
    (he : env.tx = .fileFee f s fid fee) : Batch.Grows (undoKeysOf W env txHash) b b' := by
  unfold applyFileFee at h
  split at h
  · cases h
    exact Batch.Grows.refl _ b
  simp only [bind_eq_ok, Except.ok.injEq] at h
  obtain ⟨r, hr, b₂, h₂, rfl⟩ := h
  obtain ⟨ht, hf, htr, hst⟩ := applyFileFee_touches hr
  have hbal : ∀ k ∈ [r.1.storageKey, r.1.treasuryKey, r.1.fromKey],
      k ∈ (undoKeysOf W env txHash).balances := by
    simp only [undoKeysOf, he, htr, hst, hf]
    intro k hk
    split at hk <;> simp_all <;> tauto
  have hmeta : ∀ k, k ∈ feeCounterKeys ∨ k = remoteTxAppliedMetaKey txHash →
      k ∈ (undoKeysOf W env txHash).metaKeys := by
    intro k hk
    simpa [undoKeysOf, he] using hk
  exact (Batch.Grows.setBalances b ht hbal).trans
    ((Batch.countFee_grows h₂ fun k hk => hmeta k (Or.inl hk)).trans
      (Batch.Grows.putMeta b₂ _ (hmeta _ (Or.inr rfl))))

theorem applyWorkerRegisterTx_grows {w hw hp : Str} {caps : List Str} {tf : F64}
    (h : applyWorkerRegisterTx L nowMs blockHeight b txHash w hw hp caps tf = .ok b')
    (he : env.tx = .workerRegister w hw hp caps tf) :
    Batch.Grows (undoKeysOf W env txHash) b b' := by
  unfold applyWorkerRegisterTx at h
  split at h
  · cases h
    exact Batch.Grows.refl _ b
  simp only [bind_eq_ok, Except.ok.injEq] at h
  obtain ⟨row, hrow, rfl⟩ := h
  have hkey : row.1 = trimLower w := by
    unfold applyWorkerRegister at hrow
    split at hrow
    · cases hrow
    · simp only [bind_eq_ok, Except.ok.injEq] at hrow
      obtain ⟨_, -, rfl⟩ := hrow
      rfl
  have hreg : Batch.Grows (undoKeysOf W env txHash) b
      { b with workersRegistryBatch := b.workersRegistryBatch ++ [row] } :=
    { Batch.Grows.refl _ b with registry := ⟨[row], rfl, by simp [undoKeysOf, he, hkey]⟩ }
  exact hreg.trans (Batch.Grows.putMeta _ _ (by simp [undoKeysOf, he]))

theorem applyInitialAirdrop_grows {w : Str}
    (h : applyInitialAirdrop .saturating W L b txHash w = .ok b')
    (he : env.tx = .initialAirdrop w) : Batch.Grows (undoKeysOf W env txHash) b b' := by
  unfold applyInitialAirdrop at h
  split at h
  · cases h
    exact Batch.Grows.refl _ b
  rw [bind_eq_ok] at h
  obtain ⟨r, hr, h⟩ := h
  have hks : undoKeysOf W env txHash = ⟨[walletWorkerPool, trimLower w],
      [remoteTxAppliedMetaKey txHash, .faucetInitialRecipientsCount],
      [normalizeTxHash txHash], []⟩ := by
    simp only [undoKeysOf, he]
  rw [hks]
  cases r with
  | none =>
    cases h
    exact Batch.Grows.refl _ b
  | some p =>
    obtain ⟨m, count⟩ := p
    cases h
    have hcredit : Batch.Grows ⟨[walletWorkerPool, trimLower w],
        [remoteTxAppliedMetaKey txHash, .faucetInitialRecipientsCount],
        [normalizeTxHash txHash], []⟩ b { b with
          balances := m
          airdropCount := count
          airdropCredited := true
          dirtyBalances := trimLower w :: walletWorkerPool :: b.dirtyBalances } :=
      { Batch.Grows.refl _ b with
        balances := ⟨[trimLower w, walletWorkerPool], rfl, by simp, applyInitialAirdrop_touches hr⟩
        airdrop := Or.inl (by simp) }
    exact hcredit.trans (Batch.Grows.putMeta _ _ (by simp))

/-- **Each transaction writes only its own undo keys.** -/
theorem applyTx_grows (h : applyTx .saturating W L nowMs blockHeight b env txHash = .ok b') :
    Batch.Grows (undoKeysOf W env txHash) b b' := by
  simp only [applyTx, bind_eq_ok, require_eq_ok] at h
  obtain ⟨_, -, h⟩ := h
  cases he : env.tx with
  | transfer f t amount bps => rw [he] at h; exact applyTransfer_grows h he
  | verifyZkProof tid img j r => rw [he] at h; exact applyVerifyZkProof_grows h he
  | enterpriseInference w p m amount nonce ph flag att =>
    rw [he] at h
    cases h
    exact applyEnterpriseInference_grows he
  | fileFee f s fid fee => rw [he] at h; exact applyFileFee_grows h he
  | workerRegister w hw hp caps tf => rw [he] at h; exact applyWorkerRegisterTx_grows h he
  | initialAirdrop w => rw [he] at h; exact applyInitialAirdrop_grows h he
  | signerLink w => rw [he] at h; cases h
  | foundingMemberEnroll w => rw [he] at h; cases h
  | genesisBridge f t amount => rw [he] at h; cases h

end Arms

/-! ## Whole blocks -/

section Blocks

variable {W : World} {L L' : Ledger} {nowMs height : Nat} {txs : List SignedTxEnvelopeV1}
  {txHashes : List Str} {producer root : Str} {reward : Nat}

theorem applyTxs_grows {ks : UndoKeys} : ∀ (l : List (SignedTxEnvelopeV1 × Str)) {b b' : Batch},
    applyTxs .saturating W L nowMs height l b = .ok b' →
    (∀ p ∈ l, (undoKeysOf W p.1 p.2).Sub ks) → Batch.Grows ks b b'
  | [], b, b', h, _ => by
    cases h
    exact Batch.Grows.refl ks b
  | (env, txHash) :: l, b, b', h, hs => by
    simp only [applyTxs, bind_eq_ok] at h
    obtain ⟨b₁, h₁, h₂⟩ := h
    exact ((applyTx_grows h₁).mono (hs (env, txHash) List.mem_cons_self)).trans
      (applyTxs_grows l h₂ fun p hp => hs p (List.mem_cons_of_mem _ hp))

theorem undoKeysOf_sub {p : SignedTxEnvelopeV1 × Str} (hp : p ∈ txs.zip txHashes) :
    (undoKeysOf W p.1 p.2).Sub (blockUndoKeys W txs txHashes producer reward) where
  balances _ hk := List.mem_append_right _ (List.mem_flatMap.mpr
    ⟨_, List.mem_map_of_mem (f := fun p => undoKeysOf W p.1 p.2) hp, hk⟩)
  metaKeys _ hk := List.mem_cons_of_mem _ (List.mem_flatMap.mpr
    ⟨_, List.mem_map_of_mem (f := fun p => undoKeysOf W p.1 p.2) hp, hk⟩)
  workersRegistry _ hk := List.mem_flatMap.mpr
    ⟨_, List.mem_map_of_mem (f := fun p => undoKeysOf W p.1 p.2) hp, hk⟩

theorem closeAirdrop_grows {ks : UndoKeys} {b : Batch}
    (h : .faucetInitialRecipientsCount ∈ ks.metaKeys ∨ b.airdropCredited = false) :
    Batch.Grows ks b b.closeAirdrop := by
  unfold Batch.closeAirdrop
  split
  · rename_i hc
    exact Batch.Grows.putMeta b _ (h.resolve_right (by simp [hc]))
  · exact Batch.Grows.refl ks b

theorem payReward_grows {ks : UndoKeys} {b b' : Batch}
    (h : b.payReward .saturating producer reward = .ok b')
    (hk : 0 < reward → walletWorkerPool ∈ ks.balances ∧ trimLower producer ∈ ks.balances) :
    Batch.Grows ks b b' := by
  simp only [Batch.payReward, bind_eq_ok, Except.ok.injEq] at h
  obtain ⟨m, hm, rfl⟩ := h
  have ht := applyBlockReward_touches hm
  by_cases hr : 0 < reward
  · simp only [if_pos hr] at ht ⊢
    exact Batch.Grows.setBalances b ht (by simpa using (hk hr).symm)
  · simp only [if_neg hr] at ht ⊢
    exact Batch.Grows.setBalances b ht (by simp)

/-- **A block's batch** grows by the block's undo keys, and then writes the counters. -/
theorem blockBatch_grows {b : Batch}
    (h : blockBatch .saturating W L nowMs height txs txHashes producer reward = .ok b) :
    txs.length = txHashes.length ∧ ∃ b₁, b = b₁.putCounters height ∧
      Batch.Grows (blockUndoKeys W txs txHashes producer reward) (startBatch L) b₁ := by
  simp only [blockBatch, bind_eq_ok, require_eq_ok, Except.ok.injEq] at h
  obtain ⟨_, hlen, b₀, h₀, b₁, h₁, rfl⟩ := h
  have hg : Batch.Grows (blockUndoKeys W txs txHashes producer reward) (startBatch L) b₀ :=
    applyTxs_grows _ h₀ fun p hp => undoKeysOf_sub hp
  refine ⟨hlen, b₁, rfl, (hg.trans (closeAirdrop_grows ?_)).trans (payReward_grows h₁ ?_)⟩
  · exact hg.airdrop.imp_right fun h => h.trans rfl
  · intro hr
    simp [blockUndoKeys, hr]

/-- **The dirty keys are enough**: the tree after the commit is the batch's balance map. -/
theorem commit_balances {ks : UndoKeys} {b : Batch} (h : Batch.Grows ks (startBatch L) b) :
    (b.commit L).balances = b.balances := by
  obtain ⟨d, hd, -, ht⟩ := h.balances
  have hdirty : b.dirtyBalances = d := by rw [hd]; exact List.append_nil d
  refine Tree.ext fun k => ?_
  simp only [Batch.commit, hdirty]
  by_cases hk : k ∈ d
  · obtain ⟨v, hv⟩ := Option.isSome_iff_exists.mp (ht.2 k hk)
    rw [hv]
    refine Tree.get_applyBatch_of_mem _ _ (fun u hu => ?_) (Or.inr (by simpa using hk))
    simp only [List.mem_map, Prod.mk.injEq] at hu
    obtain ⟨a, -, rfl, rfl⟩ := hu
    simp [amountAt, hv]
  · rw [Tree.get_applyBatch_of_notMem _ _ (by simpa using hk), ht.1 k hk]
    rfl

/-! ## Reading the ledger -/

/-- A `meta` row as the code reads it: an absent counter is `0`. -/
def readMeta (t : Tree MetaKey MetaVal) (k : MetaKey) : Option MetaVal :=
  if k.isCounter then some (.u64 (u64Of (t.get k))) else t.get k

theorem readMeta_congr {t u : Tree MetaKey MetaVal} {k : MetaKey} (h : t.get k = u.get k) :
    readMeta t k = readMeta u k := by
  unfold readMeta
  rw [h]

theorem u64Of_of_readMeta {t u : Tree MetaKey MetaVal} {k : MetaKey} (hk : k.isCounter = true)
    (h : readMeta t k = readMeta u k) : u64Of (t.get k) = u64Of (u.get k) := by
  simpa only [readMeta, hk, if_true, Option.some.injEq, MetaVal.u64.injEq] using h

/-- The counter a batch writes last under `k`. -/
theorem get_putCounters {t : Tree MetaKey MetaVal} (b : Batch) (k : MetaKey) :
    (t.applyBatch (b.putCounters height).metaBatch).get k =
      if k = .ledgerBlockHeight then some (.u64 height)
      else if k = .feeTotal then some (.u64 b.feeTotal)
      else if k = .totalBurned then some (.u64 b.totalBurned)
      else if k = .totalSupply then some (.u64 b.totalSupply)
      else (t.applyBatch b.metaBatch).get k := by
  simp only [Batch.putCounters, Batch.putMeta, Tree.applyBatch_append, Tree.applyBatch_cons,
    Tree.applyBatch_nil, Tree.get_insert, eq_comm (a := k)]

/-- What a committed block leaves alone. -/
structure BlockFrame (ks : UndoKeys) (L L' : Ledger) : Prop where
  rest : L' = { L with
    balances := L'.balances
    metaTree := L'.metaTree
    workersRegistry := L'.workersRegistry }
  balances : ∀ k, k ∉ ks.balances → L'.balances.get k = L.balances.get k
  readMeta : ∀ k, k ∉ ks.metaKeys → readMeta L'.metaTree k = readMeta L.metaTree k
  workersRegistry : ∀ k, k ∉ ks.workersRegistry →
    L'.workersRegistry.get k = L.workersRegistry.get k

theorem commit_readMeta {ks : UndoKeys} {b : Batch} (hg : Batch.Grows ks (startBatch L) b)
    {k : MetaKey} (hh : k ≠ .ledgerBlockHeight) (hk : k ∉ ks.metaKeys) :
    readMeta (L.metaTree.applyBatch (b.putCounters height).metaBatch) k = readMeta L.metaTree k := by
  obtain ⟨m, hm, hms⟩ := hg.metaBatch
  have hbatch : b.metaBatch = m := by rw [hm]; rfl
  have hout : (L.metaTree.applyBatch b.metaBatch).get k = L.metaTree.get k := by
    refine Tree.get_applyBatch_of_notMem _ _ fun hmem => ?_
    rw [hbatch] at hmem
    obtain ⟨p, hp, rfl⟩ := List.mem_map.mp hmem
    exact hk (hms p hp)
  -- a fee counter that is not captured was not moved
  have hcount : k ∈ feeCounterKeys → b.totalSupply = L.metaU64OrZero .totalSupply ∧
      b.totalBurned = L.metaU64OrZero .totalBurned ∧ b.feeTotal = L.metaU64OrZero .feeTotal :=
    fun hfee => hg.counters.resolve_left fun hall => hk (hall k hfee)
  unfold readMeta
  rw [get_putCounters, if_neg hh]
  by_cases h1 : k = .feeTotal
  · subst h1
    simp [u64Of, MetaKey.isCounter, (hcount (by simp [feeCounterKeys])).2.2, metaU64OrZero]
  by_cases h2 : k = .totalBurned
  · subst h2
    simp [u64Of, MetaKey.isCounter, (hcount (by simp [feeCounterKeys])).2.1, metaU64OrZero]
  by_cases h3 : k = .totalSupply
  · subst h3
    simp [u64Of, MetaKey.isCounter, (hcount (by simp [feeCounterKeys])).1, metaU64OrZero]
  rw [if_neg h1, if_neg h2, if_neg h3, hout]

/-- **Block apply changes only captured keys**, up to counters that read `0` when absent. -/
theorem apply_frame
    (h : applyConsensusBlockBatch W nowMs height txs txHashes producer reward L = .ok (root, L')) :
    BlockFrame (blockUndoKeys W txs txHashes producer reward) L L' := by
  simp only [applyConsensusBlockBatch, applyConsensusBlockBatchWith, bind_eq_ok,
    Except.ok.injEq, Prod.mk.injEq] at h
  obtain ⟨b, hb, -, rfl⟩ := h
  obtain ⟨-, b₁, rfl, hg⟩ := blockBatch_grows hb
  refine ⟨rfl, fun k hk => ?_, fun k hk => ?_, fun k hk => ?_⟩
  · obtain ⟨d, hd, hsub, -⟩ := hg.balances
    have hdirty : b₁.dirtyBalances = d := by rw [hd]; exact List.append_nil d
    refine Tree.get_applyBatch_of_notMem _ _ fun hmem => hk (hsub k ?_)
    simpa [Batch.putCounters, Batch.putMeta, hdirty] using hmem
  · exact commit_readMeta hg (fun e => hk (by simp [e, blockUndoKeys])) hk
  · obtain ⟨r, hr, hrs⟩ := hg.registry
    have hbatch : b₁.workersRegistryBatch = r := by rw [hr]; rfl
    refine Tree.get_applyBatch_of_notMem _ _ fun hmem => ?_
    simp only [Batch.putCounters, Batch.putMeta, hbatch] at hmem
    obtain ⟨p, hp, rfl⟩ := List.mem_map.mp hmem
    exact hk (hrs p hp)

theorem apply_lengths
    (h : applyConsensusBlockBatch W nowMs height txs txHashes producer reward L = .ok (root, L')) :
    txs.length = txHashes.length := by
  simp only [applyConsensusBlockBatch, applyConsensusBlockBatchWith, bind_eq_ok] at h
  obtain ⟨b, hb, -⟩ := h
  exact (blockBatch_grows hb).1

/-- The height of the ledger is that of the block applied last. -/
theorem apply_height
    (h : applyConsensusBlockBatch W nowMs height txs txHashes producer reward L = .ok (root, L')) :
    L'.blockHeight = height := by
  simp only [applyConsensusBlockBatch, applyConsensusBlockBatchWith, bind_eq_ok,
    Except.ok.injEq, Prod.mk.injEq] at h
  obtain ⟨b, hb, -, rfl⟩ := h
  obtain ⟨-, b₁, rfl, -⟩ := blockBatch_grows hb
  simp only [blockHeight, metaU64OrZero, Batch.commit]
  rw [get_putCounters, if_pos rfl]
  rfl

end Blocks

end Ledger

end TetCore
