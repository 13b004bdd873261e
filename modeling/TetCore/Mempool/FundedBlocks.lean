import TetCore.Mempool.Coverage
import TetCore.Ledger.Spending

/-!
# Blocks of transfers their senders can pay

A preview of transfers whose amounts fit the balances of their senders less their locks does not fail
on one of them: a transfer takes its amount from its sender, gives to others, and leaves the locks
alone. What is left to fail is the reward, which is paid from the worker pool. Fees are paid into the
pool, so the block of all the transfers pays its reward if the block of some of them does.

* `previewTxs_funded`: the preview of funded transfers, and of some of them, with their pools.
* `select_funded`: `select_block_txs` leaves out none of the transfers, or it makes an empty block
  that cannot pay its reward.
-/

namespace TetCore.Mempool

open TetCore.Lib TetCore.Consensus
open TetCore.Ledger (Bounded satAdd_le amountAt previewTransfer previewTx previewTxs credit credit_saturating
  applyBlockRewardToBalanceMap lockedBalanceMicro_saturating)

/-- A transfer that passes `tx_admissible`. -/
def PlainTransfer (env : SignedTxEnvelopeV1) : Prop :=
  txAdmissible env = .ok () ∧
    ∃ f to' amount bps, env.tx = .transfer f to' amount bps

/-- The transfers fit their senders' balances less their locks, and leave a wallet its reserve. -/
def Funded (L : Ledger) (nowMs : Nat) (reserve : Str → Nat) (m : Tree Str Nat)
    (txs : List SignedTxEnvelopeV1) : Prop :=
  ∀ wallet, weigh (transferMicro (trimLower wallet)) txs + reserve (trimLower wallet) ≤
    amountAt m (trimLower wallet) - L.lockedMicro (trimLower wallet) nowMs

section Transfers

variable {W : World} {L : Ledger} {nowMs : Nat} {m m' m₁ m₂ : Tree Str Nat}
  {env : SignedTxEnvelopeV1} {txs : List SignedTxEnvelopeV1} {f to' : Str} {amount bps : Nat}
  {reserve : Str → Nat}

theorem Funded.sublist {txs' : List SignedTxEnvelopeV1} (h : Funded L nowMs reserve m txs)
    (hs : List.Sublist txs' txs) : Funded L nowMs reserve m txs' :=
  fun wallet => (Nat.add_le_add_right (weigh_sublist hs) _).trans (h wallet)

/-- The checks of a plain transfer. -/
theorem PlainTransfer.charged (h : PlainTransfer env) (htx : env.tx = .transfer f to' amount bps) :
    signerActsForItself env = true ∧ trim f ≠ [] ∧ trim to' ≠ [] ∧ amount ≠ 0 ∧
      amount ≤ maxSupplyMicro ∧ ∃ split, charge (.transfer bps) amount = .ok split := by
  have hadm := h.1
  simp only [txAdmissible, htx, bind_eq_ok, require_eq_ok, List.isEmpty_eq_false_iff] at hadm
  obtain ⟨_, hsigner, _, ⟨hf, ht⟩, _, ⟨hpos, hmax⟩, split, hsplit, -⟩ := hadm
  refine ⟨hsigner, hf, ht, hpos, hmax, split, ?_⟩
  exact mapError_eq_ok.mp hsplit

/-- The balances after a transfer. -/
def paid (m : Tree Str Nat) (fromK toK : Str) (amount : Nat) (split : FeeSplit) : Tree Str Nat :=
  let m := m.insert fromK (amountAt m fromK - amount)
  let m := m.insert toK (satAdd (amountAt m toK) split.netMicro)
  if 0 < split.poolMicro then
    m.insert walletWorkerPool (satAdd (amountAt m walletWorkerPool) split.poolMicro)
  else m

/-- **One funded transfer** goes through. -/
theorem previewTransfer_funded {split : FeeSplit} (hf : trim f ≠ []) (ht : trim to' ≠ [])
    (hpos : amount ≠ 0) (hmax : amount ≤ maxSupplyMicro)
    (hsplit : charge (.transfer bps) amount = .ok split)
    (hfunds : amount ≤ amountAt m (trimLower f) - L.lockedMicro (trimLower f) nowMs) :
    previewTransfer .saturating L nowMs m f to' amount bps =
      .ok (paid m (trimLower f) (trimLower to') amount split) := by
  have hnames : trim f ≠ [] ∧ trim to' ≠ [] := ⟨hf, ht⟩
  have hamount : amount ≠ 0 ∧ amount ≤ maxSupplyMicro := ⟨hpos, hmax⟩
  simp only [previewTransfer, lockedBalanceMicro_saturating, Arith.saturating_sub,
    credit_saturating, ok_bind, require_of hnames, require_of hamount,
    Ledger.chargeLedger_eq_ok.mpr hsplit, require_of hfunds, paid]
  split <;> rfl

/-- The worker pool after a transfer from another wallet. -/
def poolAfter (env : SignedTxEnvelopeV1) (pool : Nat) : Nat :=
  match env.tx with
  | .transfer _ to' amount bps =>
    match charge (.transfer bps) amount with
    | .ok split =>
      satAdd (satAdd pool (if trimLower to' = walletWorkerPool then split.netMicro else 0))
        split.poolMicro
    | .error _ => pool
  | _ => pool

theorem poolAfter_mono {p q : Nat} (env : SignedTxEnvelopeV1) (h : p ≤ q) :
    poolAfter env p ≤ poolAfter env q := by
  unfold poolAfter satAdd
  split
  · split
    · omega
    · exact h
  · exact h

theorem le_poolAfter {p : Nat} (env : SignedTxEnvelopeV1) (h : p ≤ u64Max) :
    p ≤ poolAfter env p := by
  unfold poolAfter satAdd
  split
  · split
    · omega
    · exact Nat.le_refl p
  · exact Nat.le_refl p

theorem paid_pool {split : FeeSplit} (hm : Bounded m) (htx : env.tx = .transfer f to' amount bps)
    (hsplit : charge (.transfer bps) amount = .ok split) (hne : trimLower f ≠ walletWorkerPool) :
    amountAt (paid m (trimLower f) (trimLower to') amount split) walletWorkerPool =
      poolAfter env (amountAt m walletWorkerPool) := by
  have hpool := hm.amountAt walletWorkerPool
  have hfirst : amountAt ((m.insert (trimLower f) (amountAt m (trimLower f) - amount)).insert
      (trimLower to') (satAdd (amountAt (m.insert (trimLower f)
        (amountAt m (trimLower f) - amount)) (trimLower to')) split.netMicro)) walletWorkerPool =
      satAdd (amountAt m walletWorkerPool)
        (if trimLower to' = walletWorkerPool then split.netMicro else 0) := by
    rw [Ledger.amountAt_insert]
    by_cases ht : trimLower to' = walletWorkerPool
    · rw [if_pos ht, if_pos ht, ht, Ledger.amountAt_insert, if_neg hne]
    · rw [if_neg ht, if_neg ht, Ledger.amountAt_insert, if_neg hne]
      unfold satAdd
      omega
  unfold poolAfter
  rw [htx]
  simp only [hsplit]
  unfold paid
  simp only
  by_cases hshare : 0 < split.poolMicro
  · rw [if_pos hshare, Ledger.amountAt_insert, if_pos rfl, hfirst]
  · have hzero : split.poolMicro = 0 := by omega
    have hsat := satAdd_le (amountAt m walletWorkerPool)
      (if trimLower to' = walletWorkerPool then split.netMicro else 0)
    rw [if_neg hshare, hfirst, hzero]
    unfold satAdd at hsat ⊢
    omega

/-- **One plain transfer** of funded ones goes through, and the others stay funded. -/
theorem previewTx_funded (W : World) (count : Nat) (hb : Bounded m) (hp : PlainTransfer env)
    (hfunds : Funded L nowMs reserve m (env :: txs)) :
    ∃ m', previewTx .saturating W L nowMs (m, count) env = .ok (m', count) ∧ Bounded m' ∧
      Funded L nowMs reserve m' txs ∧
      (transferMicro walletWorkerPool env = 0 →
        amountAt m' walletWorkerPool = poolAfter env (amountAt m walletWorkerPool)) := by
  obtain ⟨f, to', amount, bps, htx⟩ := hp.2
  obtain ⟨hsigner, hf, ht, hpos, hmax, split, hsplit⟩ := hp.charged htx
  have hcover : ∀ wallet, (if trimLower f = trimLower wallet then amount else 0) +
      weigh (transferMicro (trimLower wallet)) txs + reserve (trimLower wallet) ≤
        amountAt m (trimLower wallet) - L.lockedMicro (trimLower wallet) nowMs := by
    intro wallet
    have h := hfunds wallet
    rwa [weigh_cons, transferMicro_eq htx] at h
  have hown := hcover f
  rw [if_pos rfl] at hown
  have hfits : amount ≤ amountAt m (trimLower f) - L.lockedMicro (trimLower f) nowMs := by omega
  have hrun := previewTransfer_funded hf ht hpos hmax hsplit hfits
  refine ⟨_, ?_, Ledger.previewTransfer_bounded hb hrun, fun wallet => ?_, fun hzero => ?_⟩
  · simp only [previewTx, htx, require_of hsigner, ok_bind, hrun]
  · have hspent := Ledger.previewTransfer_spends (w := trimLower wallet) hb hrun
    have hother := hcover wallet
    omega
  · refine paid_pool hb htx hsplit fun hpool => hpos ?_
    have hamount := transferMicro_eq htx walletWorkerPool
    have hlower : trimLower walletWorkerPool = walletWorkerPool := by decide
    rw [hlower, hzero, if_pos hpool] at hamount
    exact hamount.symm

/-- **Funded transfers** go through, and so do some of them; the pool grows with the transfers when
none is from it. -/
theorem previewTxs_funded (W : World) (count : Nat) {txs' txs : List SignedTxEnvelopeV1}
    (hs : List.Sublist txs' txs) (hplain : ∀ env ∈ txs, PlainTransfer env) {m₁ m₂ : Tree Str Nat}
    (hb₁ : Bounded m₁) (hb₂ : Bounded m₂) (hf₁ : Funded L nowMs reserve m₁ txs')
    (hf₂ : Funded L nowMs reserve m₂ txs) :
    ∃ a₁ a₂, previewTxs .saturating W L nowMs txs' (m₁, count) = .ok (a₁, count) ∧
      previewTxs .saturating W L nowMs txs (m₂, count) = .ok (a₂, count) ∧
      Funded L nowMs reserve a₂ [] ∧
      (weigh (transferMicro walletWorkerPool) txs = 0 →
        amountAt m₁ walletWorkerPool ≤ amountAt m₂ walletWorkerPool →
        amountAt a₁ walletWorkerPool ≤ amountAt a₂ walletWorkerPool) := by
  induction hs generalizing m₁ m₂ with
  | slnil => exact ⟨m₁, m₂, rfl, rfl, hf₂, fun _ h => h⟩
  | @cons txs' txs env hs ih =>
    obtain ⟨n₂, hrun₂, hb₂', hf₂', hpool₂⟩ :=
      previewTx_funded W count hb₂ (hplain env List.mem_cons_self) hf₂
    obtain ⟨a₁, a₂, h₁, h₂, hend, hle⟩ :=
      ih (fun e he => hplain e (List.mem_cons_of_mem _ he)) hb₁ hb₂' hf₁ hf₂'
    refine ⟨a₁, a₂, h₁, ?_, hend, fun hzero hm => hle ?_ ?_⟩
    · simp only [previewTxs, hrun₂, ok_bind, h₂]
    · rw [weigh_cons] at hzero
      omega
    · rw [weigh_cons] at hzero
      rw [hpool₂ (by omega)]
      exact hm.trans (le_poolAfter env (hb₂.amountAt _))
  | @cons_cons txs' txs env hs ih =>
    have henv := hplain env List.mem_cons_self
    obtain ⟨n₁, hrun₁, hb₁', hf₁', hpool₁⟩ := previewTx_funded W count hb₁ henv hf₁
    obtain ⟨n₂, hrun₂, hb₂', hf₂', hpool₂⟩ := previewTx_funded W count hb₂ henv hf₂
    obtain ⟨a₁, a₂, h₁, h₂, hend, hle⟩ :=
      ih (fun e he => hplain e (List.mem_cons_of_mem _ he)) hb₁' hb₂' hf₁' hf₂'
    refine ⟨a₁, a₂, ?_, ?_, hend, fun hzero hm => hle ?_ ?_⟩
    · simp only [previewTxs, hrun₁, ok_bind, h₁]
    · simp only [previewTxs, hrun₂, ok_bind, h₂]
    · rw [weigh_cons] at hzero
      omega
    · rw [weigh_cons] at hzero
      rw [hpool₁ (by omega), hpool₂ (by omega)]
      exact poolAfter_mono env hm

end Transfers

/-! ## Their block -/

section Block

variable {W : World} {L : Ledger} {nowMs : Nat} {producer : Str} {m : Tree Str Nat}
  {txs txs' : List SignedTxEnvelopeV1}

/-- The reward of a block of transfers. -/
def transferBlockReward (W : World) : Nat := satAdd W.baseBlockRewardMicro 0

/-- What the worker pool needs beside its own transfers, if it makes some. -/
def poolReserve (W : World) (txs : List SignedTxEnvelopeV1) (wallet : Str) : Nat :=
  if wallet = walletWorkerPool ∧ 0 < weigh (transferMicro walletWorkerPool) txs then
    transferBlockReward W
  else 0

theorem claimTasks_plain : ∀ {txs : List SignedTxEnvelopeV1}, (∀ env ∈ txs, PlainTransfer env) →
    ∀ seen, claimTasks W L txs seen = .ok () := by
  intro txs
  induction txs with
  | nil => exact fun _ _ => rfl
  | cons env txs ih =>
    intro hplain seen
    obtain ⟨f, to', amount, bps, htx⟩ := (hplain env List.mem_cons_self).2
    simp only [claimTasks, htx]
    exact ih (fun e he => hplain e (List.mem_cons_of_mem _ he)) seen

theorem rewardForBlock_plain (hplain : ∀ env ∈ txs, PlainTransfer env) :
    rewardForBlock W txs = .ok ⟨W.baseBlockRewardMicro, 0, transferBlockReward W⟩ := by
  have hsum : txs.foldlM (fun sum env => do .ok (satAdd128 sum (← txFlops W env))) 0 =
      (.ok 0 : Except String Nat) := by
    induction txs with
    | nil => rfl
    | cons env txs ih =>
      obtain ⟨f, to', amount, bps, htx⟩ := (hplain env List.mem_cons_self).2
      have hflops : txFlops W env = .ok 0 := by
        unfold txFlops
        rw [htx]
      rw [List.foldlM_cons, hflops]
      exact ih fun e he => hplain e (List.mem_cons_of_mem _ he)
  unfold rewardForBlock computeRewardForBlock
  rw [hsum]
  rfl

/-- When a block can pay its reward. -/
theorem blockReward_isOk {reward : Nat} :
    (applyBlockRewardToBalanceMap .saturating m producer reward).isOk = true ↔
      reward = 0 ∨ (trimLower producer ≠ [] ∧
        Ledger.isReservedRewardWallet (trimLower producer) none = false ∧
          reward ≤ amountAt m walletWorkerPool) := by
  unfold applyBlockRewardToBalanceMap
  by_cases hzero : reward = 0
  · rw [if_pos hzero]
    exact iff_of_true rfl (Or.inl hzero)
  · rw [if_neg hzero]
    simp only [Arith.saturating_sub, Arith.saturating_add, ok_bind]
    constructor
    · intro h
      obtain ⟨m', hm'⟩ := exists_ok h
      simp only [bind_eq_ok, require_eq_ok] at hm'
      obtain ⟨_, hproducer, _, hreserved, _, hpool, -⟩ := hm'
      exact Or.inr ⟨hproducer, hreserved, hpool⟩
    · rintro (h | ⟨hproducer, hreserved, hpool⟩)
      · exact absurd h hzero
      · rw [require_of hproducer, require_of hreserved, require_of hpool]
        rfl

/-- A block of plain transfers is fine when its preview is and its reward can be paid. -/
theorem blockTxsOk_plain {a : Tree Str Nat} {count : Nat} (hplain : ∀ env ∈ txs, PlainTransfer env)
    (hrun : previewTxs .saturating W L nowMs txs
      (L.balances, L.metaU64OrZero .faucetInitialRecipientsCount) = .ok (a, count)) :
    blockTxsOk W L nowMs txs producer =
      (applyBlockRewardToBalanceMap .saturating a producer (transferBlockReward W)).isOk := by
  unfold blockTxsOk validateZkTaskClaims
  rw [claimTasks_plain hplain, rewardForBlock_plain hplain]
  simp only [Ledger.computeStateRootAfterRemoteBlock, hrun, ok_bind]
  cases applyBlockRewardToBalanceMap .saturating a producer (transferBlockReward W) <;> rfl

/-- **The block of all** the transfers is fine if the block of some of them is. -/
theorem blockTxsOk_mono (hb : Bounded L.balances) (hplain : ∀ env ∈ txs, PlainTransfer env)
    (hfunds : Funded L nowMs (poolReserve W txs) L.balances txs) (hs : List.Sublist txs' txs)
    (h : blockTxsOk W L nowMs txs' producer = true) :
    blockTxsOk W L nowMs txs producer = true := by
  obtain ⟨a₁, a₂, h₁, h₂, hend, hle⟩ :=
    previewTxs_funded W (L.metaU64OrZero .faucetInitialRecipientsCount) hs hplain
      hb hb (hfunds.sublist hs) hfunds
  rw [blockTxsOk_plain (fun e he => hplain e (hs.subset he)) h₁, blockReward_isOk] at h
  rw [blockTxsOk_plain hplain h₂, blockReward_isOk]
  rcases h with hzero | ⟨hproducer, hreserved, hpool⟩
  · exact Or.inl hzero
  · refine Or.inr ⟨hproducer, hreserved, ?_⟩
    by_cases hsends : 0 < weigh (transferMicro walletWorkerPool) txs
    · -- the pool keeps its reserve
      have hreserve := hend walletWorkerPool
      have hlower : trimLower walletWorkerPool = walletWorkerPool := by decide
      have hpay : poolReserve W txs walletWorkerPool = transferBlockReward W :=
        if_pos ⟨rfl, hsends⟩
      rw [hlower, hpay] at hreserve
      omega
    · exact hpool.trans (hle (by omega) (Nat.le_refl _))

/-- The empty block pays its reward at any time or at none. -/
theorem blockTxsOk_nil (t nowMs : Nat) :
    blockTxsOk W L t [] producer = blockTxsOk W L nowMs [] producer := by
  have hnone : ∀ env ∈ ([] : List SignedTxEnvelopeV1), PlainTransfer env :=
    fun e he => absurd he List.not_mem_nil
  have hat : ∀ nowMs, blockTxsOk W L nowMs [] producer =
      (applyBlockRewardToBalanceMap .saturating L.balances producer (transferBlockReward W)).isOk :=
    fun _ => blockTxsOk_plain hnone rfl
  rw [hat t, hat nowMs]

/-- **Selection**: all of the transfers, or none and the empty block cannot be made either. -/
theorem select_funded (hb : Bounded L.balances) (hplain : ∀ env ∈ txs, PlainTransfer env)
    (hfunds : Funded L nowMs (poolReserve W txs) L.balances txs) :
    selectBlockTxs W L nowMs txs producer = (txs, []) ∨
      (selectBlockTxs W L nowMs txs producer).1 = [] ∧
        ∀ t, blockTxsOk W L t [] producer = false := by
  unfold selectBlockTxs
  by_cases hall : blockTxsOk W L nowMs txs producer = true
  · rw [if_pos hall]
    exact Or.inl rfl
  · rw [if_neg hall]
    have hnone : ∀ l, List.Sublist l txs → blockTxsOk W L nowMs l producer = false := by
      intro l hl
      by_contra hok
      exact hall (blockTxsOk_mono hb hplain hfunds hl (Bool.not_eq_false _ ▸ hok))
    refine Or.inr ⟨?_, fun t => ?_⟩
    · have hfold : ∀ l : List SignedTxEnvelopeV1, l ⊆ txs → l.foldl (fun kept env =>
          if blockTxsOk W L nowMs (kept ++ [env]) producer then kept ++ [env] else kept) [] = [] := by
        intro l
        induction l with
        | nil => exact fun _ => rfl
        | cons env l ih =>
          intro hl
          have hone := hnone [env] (List.singleton_sublist.mpr (hl List.mem_cons_self))
          rw [List.foldl_cons, List.nil_append, hone]
          exact ih fun e he => hl (List.mem_cons_of_mem _ he)
      exact hfold _ (List.take_subset _ _)
    · rw [blockTxsOk_nil t nowMs]
      exact hnone [] (List.nil_sublist txs)

end Block

end TetCore.Mempool
