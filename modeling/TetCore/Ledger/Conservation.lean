import TetCore.Ledger.Frame
import TetCore.Ledger.Sample

/-!
# Block apply conserves value

Balances move one key at a time on a shared map, so every leg is stated as what it does to the sum:
a debit removes its amount (`debit_sum`), a credit adds it (`credit_sum`), whatever other roles the
wallet has. A transaction moves its burn out of the balances and out of the supply
(`Batch.Moves`), and everything else it takes comes back.

With the balances bounded by the supply no addition or subtraction can clamp, which is said by
running the same code with `checked` arithmetic: it returns the same result. The two lifetime
counters, burned and fees, are outside that bound: they need room of their own.

* `apply_conserves`: the sum, the supply and the counters after a block, and the checked run.
-/

namespace TetCore

open TetCore.Lib

namespace Ledger

/-- The sum of the amounts of a balance or bond tree. -/
def sumOf (t : Tree Str Nat) : Nat := t.sumBy fun _ v => v

theorem rowWeight_eq_amountAt (t : Tree Str Nat) (k : Str) :
    t.rowWeight (fun _ v => v) k = amountAt t k := by
  unfold Tree.rowWeight amountAt
  cases t.get k <;> rfl

theorem sumOf_insert (t : Tree Str Nat) (k : Str) (v : Nat) :
    sumOf (t.insert k v) + amountAt t k = sumOf t + v := by
  have := Tree.sumBy_insert (fun _ v => v) t k v
  rwa [rowWeight_eq_amountAt] at this

theorem amountAt_le_sumOf (t : Tree Str Nat) (k : Str) : amountAt t k ≤ sumOf t := by
  rw [← rowWeight_eq_amountAt]
  exact Tree.rowWeight_le_sumBy _ t k

theorem amountAt_insert (t : Tree Str Nat) (k a : Str) (v : Nat) :
    amountAt (t.insert k v) a = if k = a then v else amountAt t a := by
  unfold amountAt
  rw [Tree.get_insert]
  split <;> rfl

/-- A debit the row covers. -/
theorem debit_sum {t : Tree Str Nat} {k : Str} {a : Nat} (h : a ≤ amountAt t k) :
    sumOf (t.insert k (amountAt t k - a)) + a = sumOf t := by
  have := sumOf_insert t k (amountAt t k - a)
  omega

/-- A credit that keeps the sum within `u64` does not clamp, and the checked one agrees. -/
theorem credit_sum {t t' : Tree Str Nat} {k : Str} {a : Nat}
    (h : credit .saturating t k a = .ok t') (hfit : sumOf t + a ≤ u64Max) :
    credit .checked t k a = .ok t' ∧ sumOf t' = sumOf t + a := by
  have hle := amountAt_le_sumOf t k
  have hsat : satAdd (amountAt t k) a = amountAt t k + a := satAdd_of_le (by omega)
  have hins := sumOf_insert t k (amountAt t k + a)
  rw [credit, Arith.saturating_add, ok_bind, hsat] at h
  rw [credit, Arith.checked_add (by omega), ok_bind]
  cases h
  exact ⟨rfl, by omega⟩

theorem maxSupply_le_u64Max : maxSupplyMicro ≤ u64Max := by decide

/-! ## Locks -/

/-- A saturating sum only grows. -/
theorem foldlM_saturating_le : ∀ (l : List Nat) {s v : Nat}, s ≤ u64Max →
    l.foldlM Arith.saturating.add s = .ok v → s ≤ v
  | [], s, v, _, h => by
    cases h
    exact le_rfl
  | a :: l, s, v, hs, h => by
    rw [List.foldlM_cons, Arith.saturating_add, ok_bind] at h
    have hle := foldlM_saturating_le l (Nat.min_le_right _ _) h
    exact le_trans (le_min (Nat.le_add_right _ _) hs) hle

/-- A saturating sum below the maximum was reached without clamping. -/
theorem foldlM_checked : ∀ (l : List Nat) {s v : Nat}, s ≤ u64Max → v < u64Max →
    l.foldlM Arith.saturating.add s = .ok v → l.foldlM Arith.checked.add s = .ok v
  | [], _, _, _, _, h => h
  | a :: l, s, v, hs, hv, h => by
    rw [List.foldlM_cons, Arith.saturating_add, ok_bind] at h
    have hle := foldlM_saturating_le l (Nat.min_le_right _ _) h
    have hfit : s + a ≤ u64Max := by omega
    rw [satAdd_of_le hfit] at h
    rw [List.foldlM_cons, Arith.checked_add hfit, ok_bind]
    exact foldlM_checked l hfit hv h

/-- The spendable balance of a wallet that covers a positive amount: nothing clamps on the way. -/
theorem spendable_checked {L : Ledger} {t : Tree Str Nat} {peer k : Str} {nowMs locked a : Nat}
    (hmax : sumOf t ≤ maxSupplyMicro) (ha : 0 < a)
    (hl : L.lockedBalanceMicro .saturating peer nowMs = .ok locked)
    (hs : a ≤ amountAt t k - locked) :
    L.lockedBalanceMicro .checked peer nowMs = .ok locked ∧
      Arith.checked.sub (amountAt t k) locked = .ok (amountAt t k - locked) ∧
      Arith.checked.sub (amountAt t k) a = .ok (amountAt t k - a) ∧ a ≤ amountAt t k := by
  have hle := amountAt_le_sumOf t k
  have hu := maxSupply_le_u64Max
  refine ⟨foldlM_checked _ (Nat.zero_le _) (by omega) hl, Arith.checked_sub (by omega),
    Arith.checked_sub (by omega), by omega⟩

/-! ## What a transaction burns and charges -/

/-- What a transaction destroys when it takes effect; a settled one takes none. -/
def txBurn (L : Ledger) (env : SignedTxEnvelopeV1) (txHash : Str) : Nat :=
  if L.isTxApplied txHash then 0 else match env.tx with
  | .transfer _ _ amount bps => (valueOr (charge (.transfer bps) amount) .default).burnMicro
  | .fileFee _ _ _ fee => (fileFeeSplit fee).burnMicro
  | _ => 0

/-- The fee of a transaction that takes effect: what its sender pays beyond the net amount. -/
def txFee (L : Ledger) (env : SignedTxEnvelopeV1) (txHash : Str) : Nat :=
  if L.isTxApplied txHash then 0 else match env.tx with
  | .transfer _ _ amount bps =>
    let s := valueOr (charge (.transfer bps) amount) .default
    s.poolMicro + s.treasuryMicro + s.burnMicro
  | .fileFee _ _ _ fee => fee
  | _ => 0

/-- The burn of a block: over the transactions that take effect. -/
def blockBurn (L : Ledger) (txs : List (SignedTxEnvelopeV1 × Str)) : Nat :=
  (txs.map fun p => L.txBurn p.1 p.2).sum

/-- The fees of a block: over the transactions that take effect. -/
def blockFees (L : Ledger) (txs : List (SignedTxEnvelopeV1 × Str)) : Nat :=
  (txs.map fun p => L.txFee p.1 p.2).sum

/-- The lifetime counters can take `burn` and `fee` without clamping. -/
def Batch.Room (burn fee : Nat) (b : Batch) : Prop :=
  b.totalBurned + burn ≤ u64Max ∧ b.feeTotal + fee ≤ u64Max

/-- From `b` to `b'`, `burn` left the balances and the supply; the counters say so when they have
room. -/
structure Batch.Moves (burn fee : Nat) (b b' : Batch) : Prop where
  sum : sumOf b'.balances + burn = sumOf b.balances
  supply : b'.totalSupply + burn = b.totalSupply
  counters : b.Room burn fee →
    b'.totalBurned = b.totalBurned + burn ∧ b'.feeTotal = b.feeTotal + fee

/-- A batch whose balances lie within the supply, and that within the cap. -/
structure Batch.Sound (b : Batch) : Prop where
  sum : sumOf b.balances ≤ b.totalSupply
  max : b.totalSupply ≤ maxSupplyMicro

theorem Batch.Sound.sum_le {b : Batch} (h : b.Sound) : sumOf b.balances ≤ maxSupplyMicro :=
  le_trans h.sum h.max

theorem Batch.Moves.same (b : Batch) : Batch.Moves 0 0 b b := ⟨rfl, rfl, fun _ => ⟨rfl, rfl⟩⟩

/-- Counting a fee whose burn is covered by the supply. -/
theorem countFee_moves {b b' : Batch} {burn fee : Nat}
    (h : b.countFee .saturating burn fee = .ok b') (hburn : burn ≤ b.totalSupply) :
    (b.Room burn fee → b.countFee .checked burn fee = .ok b') ∧ b'.balances = b.balances ∧
      b'.totalSupply + burn = b.totalSupply ∧ (b.Room burn fee →
        b'.totalBurned = b.totalBurned + burn ∧ b'.feeTotal = b.feeTotal + fee) := by
  simp only [Batch.countFee, Arith.saturating_sub, Arith.saturating_add, ok_bind,
    Except.ok.injEq] at h
  subst h
  refine ⟨fun hroom => ?_, rfl, by simp only; omega, fun hroom => ?_⟩
  · simp only [Batch.countFee, Arith.checked_sub hburn, Arith.checked_add hroom.1,
      Arith.checked_add hroom.2, ok_bind, satAdd_of_le hroom.1, satAdd_of_le hroom.2]
  · exact ⟨satAdd_of_le hroom.1, satAdd_of_le hroom.2⟩

/-! ## Transfers -/

section Arms

variable {W : World} {L : Ledger} {nowMs height : Nat} {b b' : Batch} {env : SignedTxEnvelopeV1}
  {txHash : Str}

theorem creditPool_moves {pool : Nat} (h : b.creditPool .saturating pool = .ok b')
    (hsum : sumOf b.balances + pool ≤ u64Max) :
    b.creditPool .checked pool = .ok b' ∧ sumOf b'.balances = sumOf b.balances + pool ∧
      b'.totalSupply = b.totalSupply ∧ b'.totalBurned = b.totalBurned ∧
      b'.feeTotal = b.feeTotal := by
  unfold Batch.creditPool at h ⊢
  split at h
  · rw [bind_eq_ok] at h
    obtain ⟨m, hm, h⟩ := h
    obtain ⟨hc, hs⟩ := credit_sum hm hsum
    rw [if_pos ‹_›, hc, ok_bind]
    cases h
    exact ⟨rfl, hs, rfl, rfl, rfl⟩
  · rw [if_neg ‹_›]
    cases h
    exact ⟨rfl, by omega, rfl, rfl, rfl⟩

/-- The fee leg: the pool's share comes back to the balances, the burn leaves the supply. -/
theorem settleTransferFee_moves {split : FeeSplit}
    (h : b.settleTransferFee .saturating split = .ok b')
    (htre : split.treasuryMicro = 0) (hfit : split.poolMicro + split.burnMicro ≤ u64Max)
    (hsum : sumOf b.balances + split.poolMicro ≤ u64Max)
    (hburn : split.burnMicro ≤ b.totalSupply) :
    (b.Room split.burnMicro (split.poolMicro + split.burnMicro) →
        b.settleTransferFee .checked split = .ok b') ∧
      sumOf b'.balances = sumOf b.balances + split.poolMicro ∧
      b'.totalSupply + split.burnMicro = b.totalSupply ∧
      (b.Room split.burnMicro (split.poolMicro + split.burnMicro) →
        b'.totalBurned = b.totalBurned + split.burnMicro ∧
          b'.feeTotal = b.feeTotal + (split.poolMicro + split.burnMicro)) := by
  have hfee : split.feeMicro = split.poolMicro + split.burnMicro := by
    have hpool : satAdd split.poolMicro 0 = split.poolMicro := satAdd_of_le (by omega)
    rw [FeeSplit.feeMicro, htre, hpool, satAdd_of_le hfit]
  have hchk : split.feeMicroWith .checked = .ok (split.poolMicro + split.burnMicro) := by
    simp only [FeeSplit.feeMicroWith, htre]
    rw [Arith.checked_add (by omega), ok_bind, Nat.add_zero, Arith.checked_add hfit]
  unfold Batch.settleTransferFee at h ⊢
  rw [feeMicroWith_saturating, ok_bind, hfee] at h
  rw [hchk, ok_bind]
  split at h
  · rw [if_pos ‹_›]
    rw [bind_eq_ok] at h
    obtain ⟨b₁, h₁, h₂⟩ := h
    obtain ⟨hp, hs, hsup, hbur, hft⟩ := creditPool_moves h₁ hsum
    have hroom : b.Room split.burnMicro (split.poolMicro + split.burnMicro) →
        b₁.Room split.burnMicro (split.poolMicro + split.burnMicro) := by
      unfold Batch.Room
      omega
    rw [hp, ok_bind]
    obtain ⟨hc, hbal, h3, h4⟩ := countFee_moves h₂ (by omega)
    refine ⟨fun hr => hc (hroom hr), by rw [hbal, hs], by omega, fun hr => ?_⟩
    have := h4 (hroom hr)
    omega
  · rw [if_neg ‹_›]
    cases h
    exact ⟨fun _ => rfl, by omega, by omega, fun _ => by omega⟩

theorem applyTransfer_moves {f t : Str} {amount bps : Nat}
    (he : env.tx = .transfer f t amount bps) (hs : b.Sound)
    (h : applyTransfer .saturating L nowMs b txHash f t amount bps = .ok b') :
    (b.Room (L.txBurn env txHash) (L.txFee env txHash) →
        applyTransfer .checked L nowMs b txHash f t amount bps = .ok b') ∧
      b.Moves (L.txBurn env txHash) (L.txFee env txHash) b' := by
  simp only [applyTransfer, bind_eq_ok, require_eq_ok] at h
  obtain ⟨_, hne, _, hamt, h⟩ := h
  rw [applyTransfer, require_of hne, ok_bind, require_of hamt, ok_bind]
  split at h
  · rename_i happ
    rw [if_pos happ]
    cases h
    simpa [txBurn, txFee, happ] using Batch.Moves.same b
  rename_i happ
  rw [if_neg happ]
  simp only [bind_eq_ok, require_eq_ok, Arith.saturating_sub, Except.ok.injEq, exists_eq_left'] at h
  obtain ⟨locked, hl, _, hsp, split, hsplit, m, hm, b₂, h₂, rfl⟩ := h
  obtain ⟨hl', hsub, hsub', hle⟩ :=
    spendable_checked hs.sum_le (Nat.pos_of_ne_zero hamt.1) hl hsp
  simp only [hl', ok_bind, hsub, require_of hsp, hsplit, hsub']
  rw [chargeLedger_eq_ok] at hsplit
  have htot := charge_total hsplit
  have htre := charge_transfer_treasury hsplit
  have hu := maxSupply_le_u64Max
  have hsum := hs.sum
  have hmax := hs.sum_le
  have hfb := amountAt_le_sumOf b.balances (trimLower f)
  rw [show L.txBurn env txHash = split.burnMicro by simp [txBurn, happ, he, hsplit, valueOr],
    show L.txFee env txHash = split.poolMicro + split.burnMicro by
      simp [txFee, happ, he, hsplit, valueOr, htre]]
  -- debit the sender, then credit the recipient with the net amount
  have hdeb := debit_sum hle
  obtain ⟨hcc, hcs⟩ := credit_sum hm (by omega)
  rw [hcc, ok_bind]
  obtain ⟨hc, h3, h4, h5⟩ := settleTransferFee_moves h₂ htre (by omega)
    (by simp only; omega) (by simp only; omega)
  refine ⟨fun hr => by rw [hc hr, ok_bind], ⟨?_, h4, h5⟩⟩
  simp only [Batch.putMeta] at h3 ⊢
  omega

/-! ## The other kinds -/

/-- A file fee leaves the sender; its burn is what does not come back. -/
theorem applyFileFeeToBalanceMap_moves {m : Tree Str Nat} {f s : Str} {fee : Nat}
    {r : FileFeeEffect × Tree Str Nat} (hmax : sumOf m ≤ maxSupplyMicro)
    (h : applyFileFeeToBalanceMap .saturating W L nowMs m f s fee = .ok r) :
    applyFileFeeToBalanceMap .checked W L nowMs m f s fee = .ok r ∧
      sumOf r.2 + (fileFeeSplit fee).burnMicro = sumOf m ∧ r.1.split = fileFeeSplit fee := by
  simp only [applyFileFeeToBalanceMap, bind_eq_ok, require_eq_ok, Arith.saturating_sub,
    Except.ok.injEq, exists_eq_left'] at h
  obtain ⟨_, rfl, _, hne, tre, htre, locked, hl, _, hsp, m₁, hm₁, m₂, hm₂, rfl⟩ := h
  have hpos : 0 < fileFeeMicro := by decide
  obtain ⟨hl', hsub, hsub', hle⟩ := spendable_checked hmax hpos hl hsp
  have htot := charge_total charge_file_ok
  have hpool : (fileFeeSplit fileFeeMicro).poolMicro = 0 := by decide
  have hu := maxSupply_le_u64Max
  -- debit the sender, then credit the treasury and the storage node
  have hdeb := debit_sum hle
  obtain ⟨hc₁, hs₁⟩ := credit_sum hm₁ (by omega)
  obtain ⟨hc₂, hs₂⟩ := credit_sum hm₂ (by omega)
  simp only [applyFileFeeToBalanceMap, require_of trivial, require_of hne, htre, hl', hsub,
    require_of hsp, hsub', hc₁, hc₂, ok_bind]
  exact ⟨trivial, by omega, trivial⟩

theorem applyFileFee_moves {f s fid : Str} {fee : Nat} (he : env.tx = .fileFee f s fid fee)
    (hs : b.Sound) (h : applyFileFee .saturating W L nowMs b txHash f s fee = .ok b') :
    (b.Room (L.txBurn env txHash) (L.txFee env txHash) →
        applyFileFee .checked W L nowMs b txHash f s fee = .ok b') ∧
      b.Moves (L.txBurn env txHash) (L.txFee env txHash) b' := by
  unfold applyFileFee at h ⊢
  split at h
  · rename_i happ
    rw [if_pos happ]
    cases h
    simpa [txBurn, txFee, happ] using Batch.Moves.same b
  rename_i happ
  rw [if_neg happ]
  simp only [bind_eq_ok, Except.ok.injEq] at h
  obtain ⟨r, hr, b₂, h₂, rfl⟩ := h
  obtain ⟨hr', hsum, hsplit⟩ := applyFileFeeToBalanceMap_moves hs.sum_le hr
  have hsup := hs.sum
  rw [show L.txBurn env txHash = (fileFeeSplit fee).burnMicro by simp [txBurn, happ, he],
    show L.txFee env txHash = fee by simp [txFee, happ, he]]
  rw [hsplit] at h₂
  obtain ⟨hc, h3, h4, h5⟩ := countFee_moves h₂ (by simp only; omega)
  refine ⟨fun hroom => by simp only [hr', ok_bind, hsplit, hc hroom], ⟨?_, h4, h5⟩⟩
  simp only [Batch.putMeta, h3]
  exact hsum

theorem applyInitialAirdropToBalanceMap_none {A A' : Arith} {m : Tree Str Nat} {w : Str}
    {count : Nat} (h : applyInitialAirdropToBalanceMap A W m w count = .ok none) :
    applyInitialAirdropToBalanceMap A' W m w count = .ok none := by
  simp only [applyInitialAirdropToBalanceMap, bind_eq_ok, require_eq_ok] at h ⊢
  obtain ⟨_, hhex, _, hres, h⟩ := h
  refine ⟨(), hhex, (), hres, ?_⟩
  split at h
  · rw [if_pos ‹_›]
  rw [if_neg ‹_›]
  split at h
  · rw [if_pos ‹_›]
  · simp only [bind_eq_ok, Except.ok.injEq, reduceCtorEq, and_false, exists_false] at h

/-- An airdrop moves its amount from the pool to another wallet. -/
theorem applyInitialAirdropToBalanceMap_moves {m m' : Tree Str Nat} {w : Str} {count count' : Nat}
    (hmax : sumOf m ≤ maxSupplyMicro)
    (h : applyInitialAirdropToBalanceMap .saturating W m w count = .ok (some (m', count'))) :
    applyInitialAirdropToBalanceMap .checked W m w count = .ok (some (m', count')) ∧
      sumOf m' = sumOf m := by
  simp only [applyInitialAirdropToBalanceMap, bind_eq_ok, require_eq_ok] at h
  obtain ⟨_, hhex, _, hres, h⟩ := h
  simp only [applyInitialAirdropToBalanceMap, require_of hhex, require_of hres, ok_bind]
  split at h
  · cases h
  rename_i hcap
  split at h
  · cases h
  rename_i hpool
  rw [if_neg hcap, if_neg hpool]
  have hle : faucetInitialAirdropMicroPerUser ≤ amountAt m walletWorkerPool := by omega
  have hu := maxSupply_le_u64Max
  have hcount : count + 1 ≤ u64Max := by
    have : faucetInitialAirdropMaxRecipients ≤ u64Max := by decide
    omega
  have hdeb := debit_sum hle
  simp only [Arith.saturating_sub, Arith.saturating_add, ok_bind, bind_eq_ok,
    satAdd_of_le hcount] at h
  obtain ⟨m₁, hm₁, h⟩ := h
  obtain ⟨hcc, hcs⟩ := credit_sum hm₁ (by omega)
  rw [Arith.checked_sub hle, ok_bind, hcc, ok_bind, Arith.checked_add hcount, ok_bind]
  cases h
  exact ⟨rfl, by omega⟩

theorem applyInitialAirdrop_moves {w : Str} (he : env.tx = .initialAirdrop w) (hs : b.Sound)
    (h : applyInitialAirdrop .saturating W L b txHash w = .ok b') :
    applyInitialAirdrop .checked W L b txHash w = .ok b' ∧
      b.Moves (L.txBurn env txHash) (L.txFee env txHash) b' := by
  have h0 : L.txBurn env txHash = 0 ∧ L.txFee env txHash = 0 := by
    simp [txBurn, txFee, he]
  rw [h0.1, h0.2]
  unfold applyInitialAirdrop at h ⊢
  split at h
  · rw [if_pos ‹_›]
    cases h
    exact ⟨rfl, Batch.Moves.same b⟩
  rw [if_neg ‹_›]
  rw [bind_eq_ok] at h
  obtain ⟨r, hr, h⟩ := h
  cases r with
  | none =>
    cases h
    rw [applyInitialAirdropToBalanceMap_none hr, ok_bind]
    exact ⟨rfl, Batch.Moves.same b⟩
  | some p =>
    obtain ⟨m, count⟩ := p
    obtain ⟨hc, hsum⟩ := applyInitialAirdropToBalanceMap_moves hs.sum_le hr
    cases h
    rw [hc, ok_bind]
    exact ⟨rfl, ⟨hsum, rfl, fun _ => ⟨rfl, rfl⟩⟩⟩

/-- A part of the apply that leaves balances and counters alone. -/
theorem moves_of_eq (h1 : b'.balances = b.balances) (h2 : b'.totalSupply = b.totalSupply)
    (h3 : b'.totalBurned = b.totalBurned) (h4 : b'.feeTotal = b.feeTotal) : b.Moves 0 0 b' :=
  ⟨by rw [h1, Nat.add_zero], h2, fun _ => ⟨h3, h4⟩⟩

theorem applyVerifyZkProof_moves {signer taskId journal receipt : Str} {imageId : List Nat}
    (h : applyVerifyZkProof W L nowMs b signer taskId imageId journal receipt = .ok b') :
    b.Moves 0 0 b' := by
  simp only [applyVerifyZkProof, bind_eq_ok, require_eq_ok] at h
  obtain ⟨_, -, h⟩ := h
  have hzk : ∀ (c : Bool) (k : MetaKey) (v : MetaVal),
      b.Moves 0 0 (if c then b.putMeta k v else b) := by
    intro c k v
    cases c <;> exact moves_of_eq rfl rfl rfl rfl
  split at h
  · cases h
    exact hzk _ _ _
  · split at h
    · cases h
    · split at h <;> cases h
      · exact hzk _ _ _
      · exact ⟨(hzk _ _ _).sum, (hzk _ _ _).supply, (hzk _ _ _).counters⟩
    · cases h

theorem applyWorkerRegisterTx_moves {w hw hp : Str} {caps : List Str} {tf : F64}
    (h : applyWorkerRegisterTx L nowMs height b txHash w hw hp caps tf = .ok b') :
    b.Moves 0 0 b' := by
  unfold applyWorkerRegisterTx at h
  split at h
  · cases h
    exact Batch.Moves.same b
  · simp only [bind_eq_ok, Except.ok.injEq] at h
    obtain ⟨row, -, rfl⟩ := h
    exact moves_of_eq rfl rfl rfl rfl

/-- **One transaction** takes its burn out of the balances and the supply, and nothing clamps. -/
theorem applyTx_moves (hs : b.Sound)
    (h : applyTx .saturating W L nowMs height b env txHash = .ok b') :
    (b.Room (L.txBurn env txHash) (L.txFee env txHash) →
        applyTx .checked W L nowMs height b env txHash = .ok b') ∧
      b.Moves (L.txBurn env txHash) (L.txFee env txHash) b' := by
  simp only [applyTx, bind_eq_ok, require_eq_ok] at h
  obtain ⟨_, hsig, h⟩ := h
  rw [applyTx, require_of hsig, ok_bind]
  cases he : env.tx with
  | transfer f t amount bps => rw [he] at h; exact applyTransfer_moves he hs h
  | fileFee f s fid fee => rw [he] at h; exact applyFileFee_moves he hs h
  | initialAirdrop w =>
    rw [he] at h
    obtain ⟨hc, hm⟩ := applyInitialAirdrop_moves he hs h
    exact ⟨fun _ => hc, hm⟩
  | verifyZkProof tid img j r =>
    rw [he] at h
    exact ⟨fun _ => h, by simpa [txBurn, txFee, he] using applyVerifyZkProof_moves h⟩
  | enterpriseInference w p m amount nonce ph flag att =>
    rw [he] at h
    refine ⟨fun _ => h, ?_⟩
    cases h
    have : b.Moves 0 0 (applyEnterpriseInference L b txHash
        (newAiWorkloadTask txHash height w p m amount ph flag)) := by
      simp only [applyEnterpriseInference]
      split <;> exact moves_of_eq rfl rfl rfl rfl
    simpa [txBurn, txFee, he] using this
  | workerRegister w hw hp caps tf =>
    rw [he] at h
    exact ⟨fun _ => h, by simpa [txBurn, txFee, he] using applyWorkerRegisterTx_moves h⟩
  | signerLink w => rw [he] at h; cases h
  | foundingMemberEnroll w => rw [he] at h; cases h
  | genesisBridge f t amount => rw [he] at h; cases h

end Arms

/-! ## Whole blocks -/

section Blocks

variable {W : World} {L L' : Ledger} {nowMs height : Nat} {b b' : Batch}

theorem Batch.Moves.trans {burn fee burn' fee' : Nat} {b b' b'' : Batch}
    (h : b.Moves burn fee b') (h' : b'.Moves burn' fee' b'') :
    b.Moves (burn + burn') (fee + fee') b'' := by
  have h1 := h.sum
  have h2 := h.supply
  have h1' := h'.sum
  have h2' := h'.supply
  refine ⟨by omega, by omega, fun ⟨hb, hf⟩ => ?_⟩
  obtain ⟨h3, h4⟩ := h.counters ⟨by omega, by omega⟩
  obtain ⟨h3', h4'⟩ := h'.counters ⟨by omega, by omega⟩
  omega

/-- Room for two parts is room for the first, and for the second after it. -/
theorem Batch.Room.split {burn fee burn' fee' : Nat} {b b' : Batch}
    (hr : b.Room (burn + burn') (fee + fee')) (h : b.Moves burn fee b') :
    b.Room burn fee ∧ b'.Room burn' fee' := by
  obtain ⟨hb, hf⟩ := hr
  have hr₁ : b.Room burn fee := ⟨by omega, by omega⟩
  obtain ⟨h3, h4⟩ := h.counters hr₁
  exact ⟨hr₁, by omega, by omega⟩

theorem Batch.Moves.sound {burn fee : Nat} {b b' : Batch} (h : b.Moves burn fee b')
    (hs : b.Sound) : b'.Sound := by
  have h1 := h.sum
  have h2 := h.supply
  have := hs.sum
  have := hs.max
  exact ⟨by omega, by omega⟩

/-- The loop: the burns and fees add up. -/
theorem applyTxs_moves : ∀ (l : List (SignedTxEnvelopeV1 × Str)) {b b' : Batch}, b.Sound →
    applyTxs .saturating W L nowMs height l b = .ok b' →
    (b.Room (L.blockBurn l) (L.blockFees l) →
        applyTxs .checked W L nowMs height l b = .ok b') ∧
      b.Moves (L.blockBurn l) (L.blockFees l) b'
  | [], b, b', _, h => by
    cases h
    exact ⟨fun _ => rfl, Batch.Moves.same b⟩
  | (env, txHash) :: l, b, b', hs, h => by
    simp only [applyTxs, bind_eq_ok] at h
    obtain ⟨b₁, h₁, h₂⟩ := h
    have hb : L.blockBurn ((env, txHash) :: l) = L.txBurn env txHash + L.blockBurn l := by
      simp [blockBurn]
    have hf : L.blockFees ((env, txHash) :: l) = L.txFee env txHash + L.blockFees l := by
      simp [blockFees]
    rw [hb, hf]
    obtain ⟨hc, hm⟩ := applyTx_moves hs h₁
    obtain ⟨hc', hm'⟩ := applyTxs_moves l (hm.sound hs) h₂
    refine ⟨fun hr => ?_, hm.trans hm'⟩
    obtain ⟨hr₁, hr₂⟩ := hr.split hm
    rw [applyTxs, hc hr₁, ok_bind, hc' hr₂]

/-- The reward moves from the pool to a producer that is not the pool. -/
theorem applyBlockRewardToBalanceMap_moves {m m' : Tree Str Nat} {producer : Str} {reward : Nat}
    (hmax : sumOf m ≤ maxSupplyMicro)
    (h : applyBlockRewardToBalanceMap .saturating m producer reward = .ok m') :
    applyBlockRewardToBalanceMap .checked m producer reward = .ok m' ∧ sumOf m' = sumOf m := by
  unfold applyBlockRewardToBalanceMap at h ⊢
  split at h
  · rw [if_pos ‹_›]
    cases h
    exact ⟨rfl, rfl⟩
  rw [if_neg ‹_›]
  simp only [bind_eq_ok, require_eq_ok, Arith.saturating_sub, Arith.saturating_add,
    Except.ok.injEq, exists_eq_left'] at h
  obtain ⟨_, hne, _, hres, _, hle, rfl⟩ := h
  have hpool : walletWorkerPool ≠ trimLower producer := by
    intro e
    rw [← e] at hres
    exact absurd hres (by decide)
  have hu := maxSupply_le_u64Max
  have hpsum := amountAt_le_sumOf m walletWorkerPool
  have hdeb := debit_sum hle
  have hqsum := amountAt_le_sumOf
    (m.insert walletWorkerPool (amountAt m walletWorkerPool - reward)) (trimLower producer)
  rw [amountAt_insert, if_neg hpool] at hqsum
  have hfit : amountAt m (trimLower producer) + reward ≤ u64Max := by omega
  have hins := sumOf_insert (m.insert walletWorkerPool (amountAt m walletWorkerPool - reward))
    (trimLower producer) (amountAt m (trimLower producer) + reward)
  rw [amountAt_insert, if_neg hpool] at hins
  simp only [require_of hne, require_of hres, require_of hle, Arith.checked_sub hle,
    Arith.checked_add hfit, satAdd_of_le hfit, ok_bind]
  exact ⟨trivial, by omega⟩

theorem closeAirdrop_moves (b : Batch) : b.Moves 0 0 b.closeAirdrop := by
  unfold Batch.closeAirdrop
  split <;> exact moves_of_eq rfl rfl rfl rfl

theorem payReward_moves {producer : Str} {reward : Nat} (hmax : sumOf b.balances ≤ maxSupplyMicro)
    (h : b.payReward .saturating producer reward = .ok b') :
    b.payReward .checked producer reward = .ok b' ∧ b.Moves 0 0 b' := by
  simp only [Batch.payReward, bind_eq_ok, Except.ok.injEq] at h
  obtain ⟨m, hm, rfl⟩ := h
  obtain ⟨hc, hsum⟩ := applyBlockRewardToBalanceMap_moves hmax hm
  simp only [Batch.payReward, hc, ok_bind]
  exact ⟨trivial, ⟨hsum, rfl, fun _ => ⟨rfl, rfl⟩⟩⟩

/-- The batch of a block under the supply bound. -/
theorem blockBatch_moves {txs : List SignedTxEnvelopeV1} {txHashes : List Str} {producer : Str}
    {reward : Nat} (hs : (startBatch L).Sound)
    (h : blockBatch .saturating W L nowMs height txs txHashes producer reward = .ok b) :
    ((startBatch L).Room (L.blockBurn (txs.zip txHashes)) (L.blockFees (txs.zip txHashes)) →
        blockBatch .checked W L nowMs height txs txHashes producer reward = .ok b) ∧
      (startBatch L).Moves (L.blockBurn (txs.zip txHashes)) (L.blockFees (txs.zip txHashes)) b := by
  simp only [blockBatch, bind_eq_ok, require_eq_ok, Except.ok.injEq] at h
  obtain ⟨_, hlen, b₀, h₀, b₁, h₁, rfl⟩ := h
  obtain ⟨hc, hm⟩ := applyTxs_moves _ hs h₀
  have hm₁ := hm.trans (closeAirdrop_moves b₀)
  obtain ⟨hc₂, hm₂⟩ := payReward_moves (hm₁.sound hs).sum_le h₁
  have hput : b₁.Moves 0 0 (b₁.putCounters height) := moves_of_eq rfl rfl rfl rfl
  refine ⟨fun hr => ?_, (hm₁.trans hm₂).trans hput⟩
  rw [blockBatch, require_of hlen, ok_bind, hc hr, ok_bind, hc₂, ok_bind]

/-- The counters of a committed block are its batch's. -/
theorem commit_counters {b₁ : Batch} (h : b = b₁.putCounters height) :
    (b.commit L).metaU64OrZero .totalSupply = b.totalSupply ∧
      (b.commit L).metaU64OrZero .totalBurned = b.totalBurned ∧
      (b.commit L).metaU64OrZero .feeTotal = b.feeTotal ∧ (b.commit L).blockHeight = height := by
  subst h
  simp only [metaU64OrZero, blockHeight, Batch.commit, get_putCounters]
  exact ⟨rfl, rfl, rfl, rfl⟩

/-- **Block apply conserves value.** On a ledger whose balances sum to its supply, within the cap,
and whose lifetime counters have room for the block's burn and fees: the burn leaves the balances
and the supply and joins the burned total, the fee total grows by the fees, and the same block run
with checked arithmetic gives the same root and ledger, so that no operation clamped. -/
theorem apply_conserves {txs : List SignedTxEnvelopeV1} {txHashes : List Str}
    {producer root : Str} {reward : Nat}
    (hmax : sumOf L.balances ≤ maxSupplyMicro)
    (hsup : sumOf L.balances = L.metaU64OrZero .totalSupply)
    (hburn : L.metaU64OrZero .totalBurned + L.blockBurn (txs.zip txHashes) ≤ u64Max)
    (hfee : L.metaU64OrZero .feeTotal + L.blockFees (txs.zip txHashes) ≤ u64Max)
    (h : applyConsensusBlockBatch W nowMs height txs txHashes producer reward L = .ok (root, L')) :
    sumOf L'.balances + L.blockBurn (txs.zip txHashes) = sumOf L.balances ∧
      L'.metaU64OrZero .totalSupply + L.blockBurn (txs.zip txHashes) =
        L.metaU64OrZero .totalSupply ∧
      L'.metaU64OrZero .totalBurned =
        L.metaU64OrZero .totalBurned + L.blockBurn (txs.zip txHashes) ∧
      L'.metaU64OrZero .feeTotal = L.metaU64OrZero .feeTotal + L.blockFees (txs.zip txHashes) ∧
      applyConsensusBlockBatchWith .checked W nowMs height txs txHashes producer reward L =
        .ok (root, L') := by
  simp only [applyConsensusBlockBatch, applyConsensusBlockBatchWith, bind_eq_ok, Except.ok.injEq,
    Prod.mk.injEq] at h
  obtain ⟨b, hb, rfl, rfl⟩ := h
  have hcap : L.metaU64OrZero .totalSupply ≤ maxSupplyMicro := by
    rw [← hsup]
    exact hmax
  obtain ⟨hc, hm⟩ := blockBatch_moves ⟨le_of_eq hsup, hcap⟩ hb
  obtain ⟨-, b₁, hb₁, hg⟩ := blockBatch_grows hb
  obtain ⟨h1, h2, h3, -⟩ := commit_counters (L := L) hb₁
  have hbal : (b.commit L).balances = b.balances := by
    have := commit_balances hg
    rw [hb₁]
    exact this
  rw [h1, h2, h3, hbal]
  obtain ⟨hcb, hcf⟩ := hm.counters ⟨hburn, hfee⟩
  refine ⟨hm.sum, hm.supply, hcb, hcf, ?_⟩
  rw [applyConsensusBlockBatchWith, hc ⟨hburn, hfee⟩, ok_bind]

/-- A block of one transfer on the sample ledger. -/
theorem apply_conserves_transfer :
    ∃ root L', applyConsensusBlockBatch (World.sample 0) 0 1 [Sample.transfer] ["0x1".toList]
        Sample.node 0 Sample.ledger = .ok (root, L') ∧
      sumOf L'.balances + 50000 = sumOf Sample.ledger.balances ∧
      L'.metaU64OrZero .feeTotal = 100000 ∧
      applyConsensusBlockBatchWith .checked (World.sample 0) 0 1 [Sample.transfer] ["0x1".toList]
        Sample.node 0 Sample.ledger = .ok (root, L') := by
  obtain ⟨⟨root, L'⟩, h⟩ : ∃ r, applyConsensusBlockBatch (World.sample 0) 0 1 [Sample.transfer]
      ["0x1".toList] Sample.node 0 Sample.ledger = .ok r := exists_ok (by decide +kernel)
  have hb : Sample.ledger.blockBurn ([Sample.transfer].zip ["0x1".toList]) = 50000 := by
    decide +kernel
  have hf : Sample.ledger.blockFees ([Sample.transfer].zip ["0x1".toList]) = 100000 := by
    decide +kernel
  obtain ⟨h1, -, -, h4, h5⟩ := apply_conserves (by decide +kernel) (by decide +kernel)
    (by decide +kernel) (by decide +kernel) h
  rw [hb] at h1
  rw [hf] at h4
  exact ⟨root, L', h, h1, h4, h5⟩

/-- Without that room the fee total clamps: at `u64::MAX` it does not grow at all. -/
theorem feeTotal_clamps :
    let L := { Sample.ledger with
      metaTree := Sample.ledger.metaTree.insert .feeTotal (.u64 u64Max) }
    sumOf L.balances ≤ maxSupplyMicro ∧ sumOf L.balances = L.metaU64OrZero .totalSupply ∧
      ∃ root L', applyConsensusBlockBatch (World.sample 0) 0 1 [Sample.transfer] ["0x1".toList]
          Sample.node 0 L = .ok (root, L') ∧
        L'.metaU64OrZero .feeTotal ≠
          L.metaU64OrZero .feeTotal + L.blockFees ([Sample.transfer].zip ["0x1".toList]) := by
  intro L
  refine ⟨by decide +kernel, by decide +kernel, ?_⟩
  obtain ⟨⟨root, L'⟩, h⟩ : ∃ r, applyConsensusBlockBatch (World.sample 0) 0 1 [Sample.transfer]
      ["0x1".toList] Sample.node 0 L = .ok r := exists_ok (by decide +kernel)
  refine ⟨root, L', h, ?_⟩
  have hfee : (applyConsensusBlockBatch (World.sample 0) 0 1 [Sample.transfer]
      ["0x1".toList] Sample.node 0 L).toOption.map (fun r => r.2.metaU64OrZero .feeTotal) =
        some u64Max := by decide +kernel
  rw [h] at hfee
  have hclamp : L'.metaU64OrZero .feeTotal = u64Max := Option.some.inj hfee
  rw [hclamp]
  decide +kernel

end Blocks

end Ledger

end TetCore
