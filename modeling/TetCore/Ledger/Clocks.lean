import TetCore.Ledger.Spending
import TetCore.Ledger.Supply

/-!
# Two nodes and their clocks

Two nodes run the genesis allocation, each at its own time, and then apply the same chain, each at
its own times. Their ledgers differ in the times that rows were written at (`Alike`) and in when the
founder's genesis lock ends, which is counted from the node's own genesis. What a block may debit the
founder depends on that lock and on the clock of the node that applies it.

* `applyTx_alike`: what the one node applies the other applies too, with the same effect, unless it
  debits the founder and the lock there still runs.
* `clock_independent_iff`: the other node accepts the whole chain, with the same roots, exactly when
  every debit of the founder that it applies under a running lock leaves the locked share.
-/

namespace TetCore

open TetCore.Lib

/-- A row without the time it was written at. -/
def MetaVal.timeless : MetaVal → MetaVal
  | .task t => .task { t with processedAtMs := none }
  | .zkVerified row => .zkVerified { row with tsMs := 0 }
  | v => v

/-- A registration without the time it was written at. -/
def WorkerRegistryRecordV1.timeless (r : WorkerRegistryRecordV1) : WorkerRegistryRecordV1 :=
  { r with registeredAtMs := 0 }

namespace Ledger

/-! ## Ledgers and batches up to times -/

/-- The ledgers differ in the times of their rows and in when the founder's lock ends. -/
structure Alike (L L' : Ledger) : Prop where
  balances : L'.balances = L.balances
  rows : ∀ k, k ≠ .founderGenesisUnlockAtMs →
    (L'.metaTree.get k).map MetaVal.timeless = (L.metaTree.get k).map MetaVal.timeless
  registry : ∀ w, (L'.workersRegistry.get w).map WorkerRegistryRecordV1.timeless =
    (L.workersRegistry.get w).map WorkerRegistryRecordV1.timeless
  workerStakes : L'.workerStakes = L.workerStakes

/-- The batches differ in the times of their rows. -/
structure SameBatch (b b' : Batch) : Prop where
  eq : b' = { b with
    metaBatch := b'.metaBatch
    workersRegistryBatch := b'.workersRegistryBatch }
  rows : b'.metaBatch.map (fun p => (p.1, p.2.timeless)) =
    b.metaBatch.map fun p => (p.1, p.2.timeless)
  registry : b'.workersRegistryBatch.map (fun p => (p.1, p.2.timeless)) =
    b.workersRegistryBatch.map fun p => (p.1, p.2.timeless)

section Congr

variable {W : World} {L L' : Ledger} {b b' b₁ : Batch} {t s height : Nat}

theorem u64Of_timeless (o : Option MetaVal) : u64Of (o.map MetaVal.timeless) = u64Of o := by
  rcases o with - | v
  · rfl
  · cases v <;> rfl

/-- A row that is a task up to its time is that task with another time. -/
theorem task_of_timeless {v : MetaVal} {task : AiWorkloadTask}
    (h : v.timeless = (MetaVal.task task).timeless) :
    ∃ ms, v = .task { task with processedAtMs := ms } := by
  cases v with
  | task task' =>
    refine ⟨task'.processedAtMs, ?_⟩
    have heq := MetaVal.task.inj h
    cases task
    cases task'
    simp only [AiWorkloadTask.mk.injEq] at heq
    simp only [heq]
  | _ => exact MetaVal.noConfusion h

namespace Alike

theorem metaU64 (h : Alike L L') {k : MetaKey} (hk : k ≠ .founderGenesisUnlockAtMs) :
    L'.metaU64OrZero k = L.metaU64OrZero k := by
  have hrow := congrArg u64Of (h.rows k hk)
  rwa [u64Of_timeless, u64Of_timeless] at hrow

theorem isSome (h : Alike L L') {k : MetaKey} (hk : k ≠ .founderGenesisUnlockAtMs) :
    (L'.metaTree.get k).isSome = (L.metaTree.get k).isSome := by
  have hrow := congrArg Option.isSome (h.rows k hk)
  rwa [Option.isSome_map, Option.isSome_map] at hrow

theorem isNone (h : Alike L L') {k : MetaKey} (hk : k ≠ .founderGenesisUnlockAtMs) :
    (L'.metaTree.get k).isNone = (L.metaTree.get k).isNone := by
  have hrow := congrArg Option.isNone (h.rows k hk)
  rwa [Option.isNone_map, Option.isNone_map] at hrow

theorem isTxApplied (h : Alike L L') (x : Str) : L'.isTxApplied x = L.isTxApplied x :=
  h.isSome MetaKey.noConfusion

theorem workerRegisterEligible (h : Alike L L') (w : Str) :
    validateWorkerRegisterEligible L' w = validateWorkerRegisterEligible L w := by
  unfold validateWorkerRegisterEligible workerBondMicro
  rw [h.workerStakes]

theorem startBatch (h : Alike L L') : SameBatch L.startBatch L'.startBatch := by
  refine ⟨?_, rfl, rfl⟩
  unfold Ledger.startBatch
  rw [h.balances, h.metaU64 MetaKey.noConfusion, h.metaU64 MetaKey.noConfusion,
    h.metaU64 MetaKey.noConfusion, h.metaU64 MetaKey.noConfusion]

end Alike

namespace SameBatch

theorem balances (h : SameBatch b b') : b'.balances = b.balances := by
  rw [h.eq]

theorem airdropCount (h : SameBatch b b') : b'.airdropCount = b.airdropCount := by
  rw [h.eq]

theorem airdropCredited (h : SameBatch b b') : b'.airdropCredited = b.airdropCredited := by
  rw [h.eq]

theorem dirtyBalances (h : SameBatch b b') : b'.dirtyBalances = b.dirtyBalances := by
  rw [h.eq]

theorem counters (h : SameBatch b b') : b'.totalSupply = b.totalSupply ∧
    b'.totalBurned = b.totalBurned ∧ b'.feeTotal = b.feeTotal := by
  rw [h.eq]
  exact ⟨rfl, rfl, rfl⟩

theorem putMeta (h : SameBatch b b') (k : MetaKey) {v v' : MetaVal}
    (hv : v'.timeless = v.timeless) : SameBatch (b.putMeta k v) (b'.putMeta k v') where
  eq := by
    unfold Batch.putMeta
    rw [h.eq]
  rows := by
    unfold Batch.putMeta
    simp only [List.map_append, h.rows, List.map_cons, List.map_nil, hv]
  registry := h.registry

theorem putBalances (h : SameBatch b b') (m : Tree Str Nat) (dirty : List Str) :
    SameBatch { b with balances := m, dirtyBalances := dirty }
      { b' with balances := m, dirtyBalances := dirty } :=
  ⟨by rw [h.eq], h.rows, h.registry⟩

theorem countFee (h : SameBatch b b') {burn fee : Nat}
    (ha : b.countFee .saturating burn fee = .ok b₁) :
    ∃ b₁', b'.countFee .saturating burn fee = .ok b₁' ∧ SameBatch b₁ b₁' := by
  simp only [Batch.countFee, Arith.saturating_sub, Arith.saturating_add, ok_bind,
    Except.ok.injEq] at ha ⊢
  subst ha
  obtain ⟨hsupply, hburned, hfee⟩ := h.counters
  refine ⟨_, rfl, ⟨?_, h.rows, h.registry⟩⟩
  rw [hsupply, hburned, hfee, h.eq]

theorem creditPool (h : SameBatch b b') {pool : Nat} (ha : b.creditPool .saturating pool = .ok b₁) :
    ∃ b₁', b'.creditPool .saturating pool = .ok b₁' ∧ SameBatch b₁ b₁' := by
  unfold Batch.creditPool at ha ⊢
  by_cases hpool : 0 < pool
  · rw [if_pos hpool] at ha ⊢
    simp only [credit_saturating, ok_bind, Except.ok.injEq] at ha ⊢
    subst ha
    rw [h.balances, h.dirtyBalances]
    exact ⟨_, rfl, h.putBalances _ _⟩
  · rw [if_neg hpool] at ha ⊢
    cases ha
    exact ⟨b', rfl, h⟩

theorem settleTransferFee (h : SameBatch b b') {split : FeeSplit}
    (ha : b.settleTransferFee .saturating split = .ok b₁) :
    ∃ b₁', b'.settleTransferFee .saturating split = .ok b₁' ∧ SameBatch b₁ b₁' := by
  simp only [Batch.settleTransferFee, bind_eq_ok] at ha ⊢
  obtain ⟨fee, hfee, ha⟩ := ha
  by_cases hpos : 0 < fee
  · rw [if_pos hpos] at ha
    simp only [bind_eq_ok] at ha
    obtain ⟨b₂, h₂, h₁⟩ := ha
    obtain ⟨b₂', h₂', hsame⟩ := h.creditPool h₂
    obtain ⟨b₁', h₁', hsame₁⟩ := hsame.countFee h₁
    refine ⟨b₁', ⟨fee, hfee, ?_⟩, hsame₁⟩
    rw [if_pos hpos, h₂', ok_bind, h₁']
  · rw [if_neg hpos] at ha
    cases ha
    exact ⟨b', ⟨fee, hfee, if_neg hpos⟩, h⟩

end SameBatch

/-! ## One transaction -/

/-- The wallet a transaction debits, named as its locks are looked up, and the amount. -/
def lockedDebit (env : SignedTxEnvelopeV1) : Option (Str × Nat) :=
  match env.tx with
  | .transfer f _ amountMicro _ => some (trimLower f, amountMicro)
  | .fileFee f _ _ feeMicro => some (trim f, feeMicro)
  | _ => none

theorem trimLower_trim (f : Str) : trimLower (trim f) = trimLower f := by
  unfold trimLower
  rw [trim_trim]

theorem applyTransfer_alike {x f to' : Str} {amount bps : Nat} (hL : Alike L L')
    (hb : SameBatch b b') (ha : applyTransfer .saturating L t b x f to' amount bps = .ok b₁)
    (hspare : L.isTxApplied x = false →
      amount ≤ amountAt b.balances (trimLower f) - L'.lockedMicro (trimLower f) s) :
    ∃ b₁', applyTransfer .saturating L' s b' x f to' amount bps = .ok b₁' ∧ SameBatch b₁ b₁' := by
  simp only [applyTransfer, bind_eq_ok, require_eq_ok] at ha ⊢
  obtain ⟨_, h₁, _, h₂, ha⟩ := ha
  cases hset : L.isTxApplied x with
  | true =>
    simp only [hset, if_true, Except.ok.injEq] at ha
    subst ha
    refine ⟨b', ⟨(), h₁, (), h₂, ?_⟩, hb⟩
    simp only [hL.isTxApplied, hset, if_true]
  | false =>
    simp only [hset, Bool.false_eq_true, if_false, lockedBalanceMicro_saturating,
      Arith.saturating_sub, credit_saturating, ok_bind, bind_eq_ok, require_eq_ok,
      Except.ok.injEq] at ha
    obtain ⟨_, -, split, hsplit, b₂, hfee, rfl⟩ := ha
    obtain ⟨b₂', hfee', hsame⟩ := (hb.putBalances _ _).settleTransferFee hfee
    refine ⟨_, ⟨(), h₁, (), h₂, ?_⟩, hsame.putMeta _ rfl⟩
    simp only [hL.isTxApplied, hset, Bool.false_eq_true, if_false, lockedBalanceMicro_saturating,
      Arith.saturating_sub, credit_saturating, ok_bind, hb.balances, hb.dirtyBalances,
      require_of (hspare hset), hsplit]
    rw [hfee']
    rfl

theorem applyFileFee_alike {x f sw : Str} {fee : Nat} (hL : Alike L L') (hb : SameBatch b b')
    (ha : applyFileFee .saturating W L t b x f sw fee = .ok b₁)
    (hspare : L.isTxApplied x = false →
      fee ≤ amountAt b.balances (trimLower f) - L'.lockedMicro (trim f) s) :
    ∃ b₁', applyFileFee .saturating W L' s b' x f sw fee = .ok b₁' ∧ SameBatch b₁ b₁' := by
  unfold applyFileFee at ha ⊢
  rw [hL.isTxApplied]
  cases hset : L.isTxApplied x with
  | true =>
    simp only [hset, if_true, Except.ok.injEq] at ha
    subst ha
    exact ⟨b', rfl, hb⟩
  | false =>
    simp only [hset, Bool.false_eq_true, if_false, applyFileFeeToBalanceMap,
      lockedBalanceMicro_saturating, Arith.saturating_sub, credit_saturating, ok_bind, bind_eq_ok,
      require_eq_ok, Except.ok.injEq] at ha
    obtain ⟨r, ⟨_, h₁, _, h₂, treasury, h₃, _, -, rfl⟩, b₂, hfee, rfl⟩ := ha
    obtain ⟨b₂', hfee', hsame⟩ := (hb.putBalances _ _).countFee hfee
    refine ⟨_, ?_, hsame.putMeta _ rfl⟩
    simp only [Bool.false_eq_true, if_false, applyFileFeeToBalanceMap,
      lockedBalanceMicro_saturating, Arith.saturating_sub, credit_saturating, ok_bind, hb.balances,
      hb.dirtyBalances, require_of h₁, require_of h₂, h₃, require_of (hspare hset)]
    rw [hfee']
    rfl

theorem applyVerifyZkProof_alike {signer tid journal receipt : Str} {img : List Nat}
    (hL : Alike L L') (hb : SameBatch b b')
    (ha : applyVerifyZkProof W L t b signer tid img journal receipt = .ok b₁) :
    ∃ b₁', applyVerifyZkProof W L' s b' signer tid img journal receipt = .ok b₁' ∧
      SameBatch b₁ b₁' := by
  simp only [applyVerifyZkProof, bind_eq_ok, require_eq_ok] at ha ⊢
  obtain ⟨_, h₁, ha⟩ := ha
  rw [hL.isNone MetaKey.noConfusion]
  -- the receipt's marker, each with its own time
  have hmark : ∀ (c : Bool) (k : MetaKey) (row : ZkVerifiedRow),
      SameBatch (if c then b.putMeta k (.zkVerified { row with tsMs := t }) else b)
        (if c then b'.putMeta k (.zkVerified { row with tsMs := s }) else b') := by
    intro c k row
    cases c with
    | true => exact hb.putMeta k rfl
    | false => exact hb
  have hsame := hmark (L.metaTree.get (zkVerifiedMetaKey (W.sha256Hex (utf8 receipt)))).isNone
    (zkVerifiedMetaKey (W.sha256Hex (utf8 receipt)))
    ⟨img, W.sha256Hex (utf8 receipt), W.sha256Hex (utf8 journal), 0⟩
  by_cases hid : (trim tid).isEmpty = true
  · rw [if_pos hid] at ha
    simp only [Except.ok.injEq] at ha
    subst ha
    exact ⟨_, ⟨(), h₁, if_pos hid⟩, hsame⟩
  · rw [if_neg hid] at ha
    simp only [if_neg hid]
    have hrow := hL.rows (aiWorkloadTxMetaKey tid) MetaKey.noConfusion
    cases htask : L.metaTree.get (aiWorkloadTxMetaKey tid) with
    | none =>
      rw [htask] at ha
      cases ha
    | some v =>
      rw [htask] at ha hrow
      cases v with
      | task task =>
        obtain ⟨v', hv', htime⟩ := Option.map_eq_some_iff.mp hrow
        obtain ⟨ms, rfl⟩ := task_of_timeless htime
        simp only at ha
        simp only [hv']
        by_cases hp : task.processed = true
        · rw [if_pos hp, Except.ok.injEq] at ha
          subst ha
          exact ⟨_, ⟨(), h₁, if_pos hp⟩, hsame⟩
        · rw [if_neg hp, Except.ok.injEq] at ha
          subst ha
          exact ⟨_, ⟨(), h₁, if_neg hp⟩, hsame.putMeta _ rfl⟩
      | _ => cases ha

theorem applyWorkerRegisterTx_alike {x w hw hp : Str} {caps : List Str} {tf : F64}
    (hL : Alike L L') (hb : SameBatch b b')
    (ha : applyWorkerRegisterTx L t height b x w hw hp caps tf = .ok b₁) :
    ∃ b₁', applyWorkerRegisterTx L' s height b' x w hw hp caps tf = .ok b₁' ∧
      SameBatch b₁ b₁' := by
  unfold applyWorkerRegisterTx at ha ⊢
  rw [hL.isTxApplied]
  cases hset : L.isTxApplied x with
  | true =>
    simp only [hset, if_true, Except.ok.injEq] at ha
    subst ha
    exact ⟨b', rfl, hb⟩
  | false =>
    simp only [hset, Bool.false_eq_true, if_false, bind_eq_ok, Except.ok.injEq] at ha
    simp only [Bool.false_eq_true, if_false]
    obtain ⟨row, hrow, rfl⟩ := ha
    unfold applyWorkerRegister at hrow ⊢
    cases hv : validateWorkerRegisterFields w hw hp caps tf with
    | error e =>
      rw [hv] at hrow
      cases hrow
    | ok u =>
      simp only [hv, bind_eq_ok, Except.ok.injEq] at hrow
      obtain ⟨_, hel, rfl⟩ := hrow
      simp only [hL.workerRegisterEligible, hel, ok_bind]
      have hrewards : ((L'.workersRegistry.get (trimLower w)).map (·.totalRewardsMicro)).getD 0 =
          ((L.workersRegistry.get (trimLower w)).map (·.totalRewardsMicro)).getD 0 := by
        have hreg := congrArg (Option.map WorkerRegistryRecordV1.totalRewardsMicro)
          (hL.registry (trimLower w))
        rw [Option.map_map, Option.map_map] at hreg
        exact congrArg (fun o : Option Nat => o.getD 0) hreg
      refine ⟨_, rfl, SameBatch.putMeta ?_ _ rfl⟩
      refine ⟨?_, hb.rows, ?_⟩
      · rw [hb.eq]
      · simp only [List.map_append, hb.registry, List.map_cons, List.map_nil, hrewards]
        rfl

theorem applyInitialAirdrop_alike {x w : Str} (hL : Alike L L') (hb : SameBatch b b')
    (ha : applyInitialAirdrop .saturating W L b x w = .ok b₁) :
    ∃ b₁', applyInitialAirdrop .saturating W L' b' x w = .ok b₁' ∧ SameBatch b₁ b₁' := by
  unfold applyInitialAirdrop at ha ⊢
  rw [hL.isTxApplied]
  cases hset : L.isTxApplied x with
  | true =>
    simp only [hset, if_true, Except.ok.injEq] at ha
    subst ha
    exact ⟨b', rfl, hb⟩
  | false =>
    simp only [hset, Bool.false_eq_true, if_false, bind_eq_ok] at ha
    simp only [Bool.false_eq_true, if_false, hb.balances, hb.airdropCount]
    obtain ⟨r, hr, ha⟩ := ha
    rw [hr, ok_bind]
    cases r with
    | none =>
      cases ha
      exact ⟨b', rfl, hb⟩
    | some p =>
      cases ha
      refine ⟨_, rfl, SameBatch.putMeta ?_ _ rfl⟩
      refine ⟨?_, hb.rows, hb.registry⟩
      rw [hb.eq]

/-- **One transaction** that one node applies the other applies too, with the same effect, if it
debits what is free there. -/
theorem applyTx_alike {env : SignedTxEnvelopeV1} {x : Str} (hL : Alike L L') (hb : SameBatch b b')
    (ha : applyTx .saturating W L t height b env x = .ok b₁)
    (hspare : L.isTxApplied x = false → ∀ w amount, lockedDebit env = some (w, amount) →
      amount ≤ amountAt b.balances (trimLower w) - L'.lockedMicro w s) :
    ∃ b₁', applyTx .saturating W L' s height b' env x = .ok b₁' ∧ SameBatch b₁ b₁' := by
  simp only [applyTx, bind_eq_ok, require_eq_ok] at ha ⊢
  obtain ⟨_, hsig, ha⟩ := ha
  suffices h : ∃ b₁', _ = Except.ok b₁' ∧ SameBatch b₁ b₁' by
    obtain ⟨b₁', h₁, hsame⟩ := h
    exact ⟨b₁', ⟨(), hsig, h₁⟩, hsame⟩
  unfold lockedDebit at hspare
  cases he : env.tx with
  | transfer f to' amount bps =>
    simp only [he] at ha hspare ⊢
    refine applyTransfer_alike hL hb ha fun hset => ?_
    have hfree := hspare hset _ _ rfl
    rwa [trimLower_trimLower] at hfree
  | verifyZkProof tid img j r =>
    simp only [he] at ha ⊢
    exact applyVerifyZkProof_alike hL hb ha
  | enterpriseInference w p m amount nonce ph flag att =>
    simp only [he, Except.ok.injEq] at ha ⊢
    subst ha
    refine ⟨_, rfl, ?_⟩
    unfold applyEnterpriseInference
    simp only [hL.isNone (k := aiWorkloadTxMetaKey x) MetaKey.noConfusion]
    split
    · exact hb.putMeta _ rfl
    · exact hb
  | fileFee f sw fid fee =>
    simp only [he] at ha hspare ⊢
    refine applyFileFee_alike hL hb ha fun hset => ?_
    have hfree := hspare hset _ _ rfl
    rwa [trimLower_trim] at hfree
  | workerRegister w hw hp caps tf =>
    simp only [he] at ha ⊢
    exact applyWorkerRegisterTx_alike hL hb ha
  | initialAirdrop w =>
    simp only [he] at ha ⊢
    exact applyInitialAirdrop_alike hL hb ha
  | signerLink w => simp [he, invalid] at ha
  | foundingMemberEnroll w => simp [he, invalid] at ha
  | genesisBridge f to' amount => simp [he, invalid] at ha

/-- A transaction that is applied debits what is free. -/
theorem applyTx_spares {env : SignedTxEnvelopeV1} {x w : Str} {amount : Nat}
    (ha : applyTx .saturating W L t height b env x = .ok b₁) (hfresh : L.isTxApplied x = false)
    (hw : lockedDebit env = some (w, amount)) :
    0 < amount ∧ amount ≤ amountAt b.balances (trimLower w) - L.lockedMicro w t := by
  simp only [applyTx, bind_eq_ok, require_eq_ok] at ha
  obtain ⟨_, -, ha⟩ := ha
  unfold lockedDebit at hw
  cases he : env.tx with
  | transfer f to' amount bps =>
    simp only [he, Option.some.injEq, Prod.mk.injEq] at ha hw
    obtain ⟨rfl, rfl⟩ := hw
    obtain ⟨hpos, hfree, -⟩ := applyTransfer_debit hfresh ha
    rw [trimLower_trimLower]
    exact ⟨hpos, hfree⟩
  | fileFee f sw fid fee =>
    simp only [he, Option.some.injEq, Prod.mk.injEq] at ha hw
    obtain ⟨rfl, rfl⟩ := hw
    obtain ⟨hpos, hfree, -⟩ := applyFileFee_debit hfresh ha
    rw [trimLower_trim]
    exact ⟨hpos, hfree⟩
  | _ => simp [he] at hw

end Congr

/-! ## The founder's lock -/

/-- What is locked in the ledger is the founder's genesis share, until `unlock`. -/
structure FounderLock (founder : Str) (unlock : Nat) (L : Ledger) : Prop where
  named : founder ≠ []
  vestLocks : L.vestLocks = .empty
  wallet : L.metaTree.get .founderWallet = some (.text founder)
  unlockAt : L.metaU64OrZero .founderGenesisUnlockAtMs = unlock
  share : L.metaU64OrZero .founderGenesisLockedMicro = genesisFounderShareMicro

section Lock

variable {W : World} {L L' : Ledger} {founder : Str} {unlock : Nat}

theorem FounderLock.lockedMicro (h : FounderLock founder unlock L) (w : Str) (t : Nat) :
    L.lockedMicro w t =
      if trim w = founder ∧ t < unlock then genesisFounderShareMicro else 0 := by
  have hfounder : L.founderWallet = .ok founder := by
    unfold founderWallet
    rw [h.wallet]
  have hvest : (Tree.empty : Tree Str VestLockV1).iter = [] :=
    List.eq_nil_iff_forall_not_mem.mpr fun r hr => by
      have hget := Tree.mem_iter.mp (show (r.1, r.2) ∈ (Tree.empty : Tree Str VestLockV1).iter from hr)
      rw [Tree.get_empty] at hget
      cases hget
  unfold Ledger.lockedMicro lockedAmounts
  simp only [h.vestLocks, hvest, List.filter_nil, List.map_nil, hfounder, h.unlockAt, h.share,
    List.nil_append]
  by_cases hw : trim w = founder
  · have hempty : (trim w).isEmpty = false := by
      rw [hw]
      exact List.isEmpty_eq_false_iff.mpr h.named
    by_cases ht : t < unlock
    · have hpos : 0 < unlock := by omega
      rw [if_pos (by simp [hw, h.named, ht, hpos]), if_pos ⟨hw, ht⟩]
      rfl
    · rw [if_neg (by simp [ht]), if_neg fun hc => ht hc.2]
      rfl
  · rw [if_neg (by simp [Ne.symm hw]), if_neg fun hc => hw hc.1]
    rfl

/-- A block leaves the founder's lock. -/
theorem FounderLock.apply {t height reward : Nat} {txs : List SignedTxEnvelopeV1}
    {hashes : List Str} {producer root : Str} (h : FounderLock founder unlock L)
    (ha : applyConsensusBlockBatch W t height txs hashes producer reward L = .ok (root, L')) :
    FounderLock founder unlock L' := by
  obtain ⟨hvest, hfounder, hunlock, hlocked⟩ := apply_genesisLock ha
  exact ⟨h.named, hvest.trans h.vestLocks, hfounder.trans h.wallet, hunlock.trans h.unlockAt,
    hlocked.trans h.share⟩

/-- The name under which locks are looked up is trimmed. -/
theorem trim_lockedDebit {env : SignedTxEnvelopeV1} {w : Str} {amount : Nat}
    (h : lockedDebit env = some (w, amount)) : trim w = w := by
  unfold lockedDebit at h
  split at h
  · cases h
    exact trim_trimLower _
  · cases h
    exact trim_trim _
  · cases h

end Lock

/-! ## Blocks -/

/-- Every unsettled debit of the founder leaves the genesis share. -/
def DebitsLeaveShare (W : World) (L : Ledger) (t height : Nat) (founder : Str) :
    List (SignedTxEnvelopeV1 × Str) → Batch → Prop
  | [], _ => True
  | (env, x) :: l, b =>
    (L.isTxApplied x = false → ∀ amount, lockedDebit env = some (founder, amount) →
      genesisFounderShareMicro + amount ≤ amountAt b.balances (trimLower founder)) ∧
    ∀ b₁, applyTx .saturating W L t height b env x = .ok b₁ →
      DebitsLeaveShare W L t height founder l b₁

section Blocks

variable {W : World} {L L' : Ledger} {founder : Str} {unlock unlock' t s height : Nat}

/-- While the founder's lock runs, what is applied leaves the share. -/
theorem debitsLeaveShare_of_running (hlock : FounderLock founder unlock L) (ht : t < unlock) :
    ∀ {l : List (SignedTxEnvelopeV1 × Str)} {b b₁ : Batch},
      applyTxs .saturating W L t height l b = .ok b₁ →
        DebitsLeaveShare W L t height founder l b := by
  intro l
  induction l with
  | nil => exact fun _ => trivial
  | cons p l ih =>
    intro b b₁ ha
    obtain ⟨env, x⟩ := p
    simp only [applyTxs, bind_eq_ok] at ha
    obtain ⟨b₂, h₂, h₁⟩ := ha
    refine ⟨fun hfresh amount hw => ?_, fun b₃ h₃ => ?_⟩
    · obtain ⟨hpos, hfree⟩ := applyTx_spares h₂ hfresh hw
      rw [hlock.lockedMicro, if_pos ⟨trim_lockedDebit hw, ht⟩] at hfree
      omega
    · rw [h₂] at h₃
      cases h₃
      exact ih h₁

/-- **The transactions of a block**: the other node applies them exactly when the founder's debits
leave the share, or its lock has ended. -/
theorem applyTxs_alike_iff (hL : Alike L L') (hlock' : FounderLock founder unlock' L') :
    ∀ {l : List (SignedTxEnvelopeV1 × Str)} {b b' b₁ : Batch}, SameBatch b b' →
      applyTxs .saturating W L t height l b = .ok b₁ →
      ((s < unlock' → DebitsLeaveShare W L t height founder l b) →
        ∃ b₁', applyTxs .saturating W L' s height l b' = .ok b₁' ∧ SameBatch b₁ b₁') ∧
      ((∃ b₁', applyTxs .saturating W L' s height l b' = .ok b₁') → s < unlock' →
        DebitsLeaveShare W L t height founder l b) := by
  intro l
  induction l with
  | nil =>
    intro b b' b₁ hb ha
    cases ha
    exact ⟨fun _ => ⟨b', rfl, hb⟩, fun _ _ => trivial⟩
  | cons p l ih =>
    intro b b' b₁ hb ha
    obtain ⟨env, x⟩ := p
    simp only [applyTxs, bind_eq_ok] at ha
    obtain ⟨b₂, h₂, h₁⟩ := ha
    constructor
    · intro hspare
      have hfree : L.isTxApplied x = false → ∀ w amount, lockedDebit env = some (w, amount) →
          amount ≤ amountAt b.balances (trimLower w) - L'.lockedMicro w s := by
        intro hfresh w amount hw
        have hA := (applyTx_spares h₂ hfresh hw).2
        rw [hlock'.lockedMicro, trim_lockedDebit hw]
        split
        · rename_i hrun
          obtain ⟨rfl, hs⟩ := hrun
          have := (hspare hs).1 hfresh amount hw
          omega
        · omega
      obtain ⟨b₂', h₂', hsame⟩ := applyTx_alike hL hb h₂ hfree
      obtain ⟨b₁', h₁', hsame₁⟩ := (ih hsame h₁).1 fun hs => (hspare hs).2 b₂ h₂
      refine ⟨b₁', ?_, hsame₁⟩
      rw [applyTxs, h₂', ok_bind, h₁']
    · rintro ⟨b₁', h'⟩ hs
      simp only [applyTxs, bind_eq_ok] at h'
      obtain ⟨b₂', h₂', h₁'⟩ := h'
      -- the debits of this transaction are free over there
      have hfree : L.isTxApplied x = false → ∀ w amount, lockedDebit env = some (w, amount) →
          amount ≤ amountAt b.balances (trimLower w) - L'.lockedMicro w s := by
        intro hfresh w amount hw
        rw [← hL.isTxApplied] at hfresh
        have hB := (applyTx_spares h₂' hfresh hw).2
        rwa [hb.balances] at hB
      refine ⟨fun hfresh amount hw => ?_, fun b₃ h₃ => ?_⟩
      · have hpos := (applyTx_spares h₂ hfresh hw).1
        have := hfree hfresh founder amount hw
        rw [hlock'.lockedMicro, if_pos ⟨trim_lockedDebit hw, hs⟩] at this
        omega
      · rw [h₂] at h₃
        cases h₃
        obtain ⟨b₃', h₃', hsame⟩ := applyTx_alike hL hb h₂ hfree
        rw [h₂'] at h₃'
        cases h₃'
        exact (ih hsame h₁).2 ⟨b₁', h₁'⟩ hs

theorem SameBatch.closeAirdrop {b b' : Batch} (h : SameBatch b b') :
    SameBatch b.closeAirdrop b'.closeAirdrop := by
  unfold Batch.closeAirdrop
  rw [h.airdropCredited, h.airdropCount]
  split
  · exact h.putMeta _ rfl
  · exact h

theorem SameBatch.putCounters {b b' : Batch} (h : SameBatch b b') (height : Nat) :
    SameBatch (b.putCounters height) (b'.putCounters height) := by
  unfold Batch.putCounters
  obtain ⟨hsupply, hburned, hfee⟩ := h.counters
  rw [hsupply, hburned, hfee]
  exact (((h.putMeta _ rfl).putMeta _ rfl).putMeta _ rfl).putMeta _ rfl

/-- The reads up to times after batches that agree up to times. -/
theorem get_applyBatch_map {K V : Type} [Ord K] [Std.TransOrd K] [Std.LawfulEqOrd K] [DecidableEq K]
    {f : V → V} : ∀ {l l' : List (K × V)} {u u' : Tree K V} {k : K},
    l'.map (fun p => (p.1, f p.2)) = l.map (fun p => (p.1, f p.2)) →
    (u'.get k).map f = (u.get k).map f →
      ((u'.applyBatch l').get k).map f = ((u.applyBatch l).get k).map f := by
  intro l
  induction l with
  | nil =>
    intro l' u u' k hl hu
    rw [List.map_nil, List.map_eq_nil_iff] at hl
    subst hl
    exact hu
  | cons p l ih =>
    intro l' u u' k hl hu
    cases l' with
    | nil => cases hl
    | cons p' l' =>
      simp only [List.map_cons, List.cons.injEq, Prod.mk.injEq] at hl
      rw [Tree.applyBatch_cons, Tree.applyBatch_cons]
      refine ih hl.2 ?_
      rw [Tree.get_insert, Tree.get_insert, hl.1.1]
      split
      · rw [Option.map_some, Option.map_some, hl.1.2]
      · exact hu

theorem SameBatch.commit {b b' : Batch} (hb : SameBatch b b') (hL : Alike L L') :
    Alike (b.commit L) (b'.commit L') where
  balances := by
    unfold Batch.commit
    simp only [hb.dirtyBalances, hb.balances, hL.balances]
  rows k hk := get_applyBatch_map hb.rows (hL.rows k hk)
  registry w := get_applyBatch_map hb.registry (hL.registry w)
  workerStakes := hL.workerStakes

/-- A block, as the ledger applies it. -/
structure ChainBlock where
  height : Nat
  txs : List SignedTxEnvelopeV1
  txHashes : List Str
  producerId : Str
  rewardMicro : Nat

/-- The block applied at `nowMs`. -/
def ChainBlock.apply (W : World) (nowMs : Nat) (c : ChainBlock) (L : Ledger) :
    Except LedgerError (Str × Ledger) :=
  applyConsensusBlockBatch W nowMs c.height c.txs c.txHashes c.producerId c.rewardMicro L

/-- **One block** that one node applies the other applies exactly when the founder's debits leave the
share, or its lock has ended; the roots are the same. -/
theorem ChainBlock.apply_alike_iff {c : ChainBlock} {root : Str} {M : Ledger} (hL : Alike L L')
    (hlock' : FounderLock founder unlock' L') (ha : c.apply W t L = .ok (root, M)) :
    ((s < unlock' → DebitsLeaveShare W L t c.height founder (c.txs.zip c.txHashes) L.startBatch) →
      ∃ M', c.apply W s L' = .ok (root, M') ∧ Alike M M') ∧
    ((∃ r, c.apply W s L' = .ok r) → s < unlock' →
      DebitsLeaveShare W L t c.height founder (c.txs.zip c.txHashes) L.startBatch) := by
  simp only [ChainBlock.apply, applyConsensusBlockBatch, applyConsensusBlockBatchWith, blockBatch,
    bind_eq_ok, require_eq_ok, Except.ok.injEq, Prod.mk.injEq] at ha ⊢
  obtain ⟨b₁, ⟨_, hlen, b₂, h₂, b₃, h₃, rfl⟩, rfl, rfl⟩ := ha
  have hiff := applyTxs_alike_iff (t := t) (s := s) hL hlock' hL.startBatch h₂
  constructor
  · intro hspare
    obtain ⟨b₂', h₂', hsame⟩ := hiff.1 hspare
    have hclose := hsame.closeAirdrop
    simp only [Batch.payReward, bind_eq_ok, Except.ok.injEq] at h₃ ⊢
    obtain ⟨m, hm, rfl⟩ := h₃
    have hpaid : SameBatch _ _ := hclose.putBalances m (if 0 < c.rewardMicro then
      trimLower c.producerId :: walletWorkerPool :: b₂.closeAirdrop.dirtyBalances
      else b₂.closeAirdrop.dirtyBalances)
    refine ⟨_, ⟨_, ⟨(), hlen, b₂', h₂', _, ⟨m, ?_, rfl⟩, rfl⟩, ?_, rfl⟩, ?_⟩
    · rw [hclose.balances]
      exact hm
    · rfl
    · rw [hclose.dirtyBalances]
      exact (hpaid.putCounters c.height).commit hL
  · rintro ⟨⟨root', M'⟩, b₁', ⟨_, _, b₂', h₂', _⟩, _⟩
    exact hiff.2 ⟨b₂', h₂'⟩

end Blocks

/-! ## Genesis -/

section Genesis

variable {W : World} {founder : Str} {g g' : Nat} {L L' : Ledger}

theorem genesisRows_lock (hne : founder ≠ []) (treasury : Str) :
    FounderLock founder (satAdd g W.founderCliffMs)
      (genesisRows W g founder treasury Ledger.empty) where
  named := hne
  vestLocks := rfl
  wallet := by
    unfold genesisRows putRow
    simp only
    rw [Tree.get_insert_ne (by decide), Tree.get_insert_ne (by decide),
      Tree.get_insert_ne (by decide), Tree.get_insert_self]
  unlockAt := by
    unfold genesisRows metaU64OrZero putRow
    simp only
    rw [Tree.get_insert_ne (by decide), Tree.get_insert_self]
    rfl
  share := by
    unfold genesisRows metaU64OrZero putRow
    simp only
    rw [Tree.get_insert_self]
    rfl

theorem genesisRows_alike (founder treasury : Str) :
    Alike (genesisRows W g founder treasury Ledger.empty)
      (genesisRows W g' founder treasury Ledger.empty) where
  balances := rfl
  rows k hk := by
    unfold genesisRows putRow
    simp only
    by_cases hlast : MetaKey.founderGenesisLockedMicro = k
    · subst hlast
      rw [Tree.get_insert_self, Tree.get_insert_self]
    · rw [Tree.get_insert_ne hlast, Tree.get_insert_ne hlast, Tree.get_insert_ne (Ne.symm hk),
        Tree.get_insert_ne (Ne.symm hk)]
  registry _ := rfl
  workerStakes := rfl

end Genesis

/-! ## Chains -/

/-- A chain applied block by block, each block at its time: the roots and the last ledger. -/
def applyChain (W : World) : List (ChainBlock × Nat) → Ledger → Except LedgerError (List Str × Ledger)
  | [], L => .ok ([], L)
  | (c, t) :: rest, L => do
    let (root, L) ← c.apply W t L
    let (roots, L) ← applyChain W rest L
    .ok (root :: roots, L)

/-- Whenever the founder's lock runs on the node of the genesis at `g'` as it applies a block, it ran
on the node of the genesis at `g`, or the founder's debits leave the share anyway. A block comes with
the times both nodes apply it at. -/
def LateLocksSpared (W : World) (founder : Str) (g g' : Nat) :
    List (ChainBlock × Nat × Nat) → Ledger → Prop
  | [], _ => True
  | (c, t, s) :: rest, L =>
    (s < satAdd g' W.founderCliffMs → t < satAdd g W.founderCliffMs ∨
      DebitsLeaveShare W L t c.height founder (c.txs.zip c.txHashes) L.startBatch) ∧
    ∀ root L', c.apply W t L = .ok (root, L') → LateLocksSpared W founder g g' rest L'

/-- The chain with the times of the first node, and with those of the second. -/
def firstTimes (chain : List (ChainBlock × Nat × Nat)) : List (ChainBlock × Nat) :=
  chain.map fun c => (c.1, c.2.1)

def secondTimes (chain : List (ChainBlock × Nat × Nat)) : List (ChainBlock × Nat) :=
  chain.map fun c => (c.1, c.2.2)

section Chains

variable {W : World} {founder : Str} {g g' : Nat}

theorem applyChain_alike_iff : ∀ {chain : List (ChainBlock × Nat × Nat)} {L L' M : Ledger}
    {roots : List Str}, Alike L L' → FounderLock founder (satAdd g W.founderCliffMs) L →
    FounderLock founder (satAdd g' W.founderCliffMs) L' →
    applyChain W (firstTimes chain) L = .ok (roots, M) →
    ((∃ M', applyChain W (secondTimes chain) L' = .ok (roots, M')) ↔
      LateLocksSpared W founder g g' chain L) := by
  intro chain
  induction chain with
  | nil =>
    intro L L' M roots _ _ _ ha
    cases ha
    exact ⟨fun _ => trivial, fun _ => ⟨L', rfl⟩⟩
  | cons c chain ih =>
    intro L L' M roots hL hlock hlock' ha
    obtain ⟨c, t, s⟩ := c
    simp only [firstTimes, secondTimes, List.map_cons, applyChain, bind_eq_ok, Except.ok.injEq,
      Prod.mk.injEq] at ha ⊢
    obtain ⟨⟨root, L₁⟩, h₁, ⟨rs, M₁⟩, hrest, rfl, rfl⟩ := ha
    have hone := ChainBlock.apply_alike_iff (s := s) hL hlock' h₁
    constructor
    · rintro ⟨M', ⟨root', L₁'⟩, h₁', ⟨rs', M₁'⟩, hrest', hroots, rfl⟩
      have hspare := hone.2 ⟨_, h₁'⟩
      refine ⟨fun hs => Or.inr (hspare hs), fun root₂ L₂ h₂ => ?_⟩
      rw [h₁] at h₂
      cases h₂
      obtain ⟨M₂, h₂, hL₁⟩ := hone.1 hspare
      rw [h₁'] at h₂
      cases h₂
      rw [List.cons.injEq] at hroots
      obtain ⟨-, rfl⟩ := hroots
      exact (ih hL₁ (hlock.apply h₁) (hlock'.apply h₁') hrest).mp ⟨_, hrest'⟩
    · rintro ⟨hnow, hlater⟩
      have hspare : s < satAdd g' W.founderCliffMs →
          DebitsLeaveShare W L t c.height founder (c.txs.zip c.txHashes) L.startBatch := by
        intro hs
        rcases hnow hs with ht | hleave
        · have hrun := h₁
          simp only [ChainBlock.apply, applyConsensusBlockBatch, applyConsensusBlockBatchWith,
            blockBatch, bind_eq_ok] at hrun
          obtain ⟨_, ⟨_, -, b, hb, -⟩, -⟩ := hrun
          exact debitsLeaveShare_of_running hlock ht hb
        · exact hleave
      obtain ⟨L₁', h₁', hL₁⟩ := hone.1 hspare
      obtain ⟨M', hrest'⟩ := (ih hL₁ (hlock.apply h₁) (hlock'.apply h₁') hrest).mpr
        (hlater root L₁ h₁)
      exact ⟨M', (root, L₁'), h₁', (rs, M'), hrest', rfl, rfl⟩

/-- **Two clocks**. Two nodes run the genesis allocation of the same founder at the times `g` and
`g'`, and the first applies a chain. The second accepts the chain at its own times, with the same
root after every block, exactly when every debit of the founder that meets a lock still running there
leaves the genesis share, or met the lock on the first node too. -/
theorem clock_independent_iff {founder : Str} {L L' M : Ledger}
    {chain : List (ChainBlock × Nat × Nat)} {roots : List Str}
    (hg : applyGenesisAllocation W g founder Ledger.empty = (.ok (), L))
    (hg' : applyGenesisAllocation W g' founder Ledger.empty = (.ok (), L'))
    (ha : applyChain W (firstTimes chain) L = .ok (roots, M)) :
    (∃ M', applyChain W (secondTimes chain) L' = .ok (roots, M')) ↔
      LateLocksSpared W (trim founder) g g' chain L := by
  obtain ⟨hne, treasury, ht, rfl, -⟩ := applyGenesisAllocation_ok hg
  obtain ⟨-, treasury', ht', rfl, -⟩ := applyGenesisAllocation_ok hg'
  rw [ht] at ht'
  cases ht'
  exact applyChain_alike_iff (genesisRows_alike _ _) (genesisRows_lock hne _)
    (genesisRows_lock hne _) ha

end Chains

end Ledger

/-- The genesis ledger of the sample world, the founder `alice`, at the time `g`. -/
def Sample.founded (g : Nat) : Ledger :=
  (Ledger.applyGenesisAllocation (World.sample 0) g Sample.alice Ledger.empty).2

/-- A block of `node` with one transaction of the wallet, 10 TET to `bob`. -/
def Sample.payBlock (sender : Str) : Ledger.ChainBlock :=
  ⟨1, [Sample.signed (.transfer sender Sample.bob (10 * stevemon) 100)], [['1']], Sample.node, 0⟩

namespace Ledger

/-- The treasury's wallet pays `bob` while both locks run: both nodes accept the block. -/
theorem clock_independent_treasury :
    let chain := [(Sample.payBlock Sample.treasury, 5, 2000)]
    ∃ roots M M', applyChain (World.sample 0) (firstTimes chain) (Sample.founded 0) = .ok (roots, M) ∧
      applyChain (World.sample 0) (secondTimes chain) (Sample.founded 1000) = .ok (roots, M') := by
  intro chain
  have hall : (applyGenesisAllocation (World.sample 0) 0 Sample.alice Ledger.empty).1 = .ok () ∧
      (applyGenesisAllocation (World.sample 0) 1000 Sample.alice Ledger.empty).1 = .ok () ∧
      (applyChain (World.sample 0) (firstTimes chain) (Sample.founded 0)).isOk = true ∧
      5 < satAdd 0 (World.sample 0).founderCliffMs := by
    decide +kernel
  obtain ⟨hg, hg', hok, hrun⟩ := hall
  obtain ⟨⟨roots, M⟩, ha⟩ := exists_ok hok
  obtain ⟨M', ha'⟩ := (clock_independent_iff (Prod.ext hg rfl) (Prod.ext hg' rfl) ha).mpr
    ⟨fun _ => Or.inl hrun, fun _ _ _ => trivial⟩
  exact ⟨roots, M, M', ha, ha'⟩

/-- The node of the genesis at time 0 accepts a payment of the founder when its lock has just ended; a
node that created its genesis a second later refuses the block, half a second later. -/
theorem clock_dependent_founder :
    let chain := [(Sample.payBlock Sample.alice, 365 * 86400000, 365 * 86400000 + 500)]
    (applyGenesisAllocation (World.sample 0) 0 Sample.alice Ledger.empty).1 = .ok () ∧
      (applyGenesisAllocation (World.sample 0) 1000 Sample.alice Ledger.empty).1 = .ok () ∧
      (applyChain (World.sample 0) (firstTimes chain) (Sample.founded 0)).isOk = true ∧
      applyChain (World.sample 0) (secondTimes chain) (Sample.founded 1000) =
        .error .insufficientFunds := by
  intro chain
  have hall : (applyGenesisAllocation (World.sample 0) 0 Sample.alice Ledger.empty).1 = .ok () ∧
      (applyGenesisAllocation (World.sample 0) 1000 Sample.alice Ledger.empty).1 = .ok () ∧
      (applyChain (World.sample 0) (firstTimes chain) (Sample.founded 0)).isOk = true ∧
      (match applyChain (World.sample 0) (secondTimes chain) (Sample.founded 1000) with
        | .ok _ => none
        | .error e => some e) = some .insufficientFunds := by
    decide +kernel
  obtain ⟨hg, hg', hok, herr⟩ := hall
  refine ⟨hg, hg', hok, ?_⟩
  cases h : applyChain (World.sample 0) (secondTimes chain) (Sample.founded 1000) with
  | ok r =>
    rw [h] at herr
    cases herr
  | error e =>
    rw [h] at herr
    exact congrArg Except.error (Option.some.inj herr)

end Ledger

end TetCore
