import TetCore.Ledger.RootAgreement
import TetCore.Lib.Encoding

/-!
# What the state root commits to

`state_root_from_rows` hashes the sorted rows of the balance tree, the bytes of each key followed by
the eight bytes of its amount, with nothing between rows. A key is whatever a transfer names as its
recipient, so the bytes of an amount can be the middle of a longer key and one text can be cut into
rows in several ways (`stateRoot_ambiguous`). Where no key is a proper prefix of another, as with
wallet ids of 64 hex digits, the first key of the text is determined and so is every row
(`stateRoot_commits`).
-/

namespace TetCore

open TetCore.Lib

namespace Ledger

variable {W : World} {L L' : Ledger} {nowMs height : Nat}

/-! ## Amounts stay in range -/

/-- Every amount is a `u64`. -/
def Bounded (m : Tree Str Nat) : Prop := ∀ k v, m.get k = some v → v ≤ u64Max

theorem satAdd_le (a b : Nat) : satAdd a b ≤ u64Max := Nat.min_le_right _ _

theorem Bounded.amountAt {m : Tree Str Nat} (h : Bounded m) (k : Str) : amountAt m k ≤ u64Max := by
  unfold Ledger.amountAt
  cases hk : m.get k with
  | none => exact Nat.zero_le _
  | some v => exact h k v hk

theorem Bounded.insert {m : Tree Str Nat} (h : Bounded m) (k : Str) {n : Nat} (hn : n ≤ u64Max) :
    Bounded (m.insert k n) := by
  intro a v ha
  rw [Tree.get_insert] at ha
  by_cases hk : k = a
  · rw [if_pos hk, Option.some.injEq] at ha
    omega
  · rw [if_neg hk] at ha
    exact h a v ha

theorem Bounded.credit {m m' : Tree Str Nat} (h : Bounded m) {k : Str} {a : Nat}
    (hc : credit .saturating m k a = .ok m') : Bounded m' := by
  rw [credit_saturating, Except.ok.injEq] at hc
  subst hc
  exact h.insert k (satAdd_le _ _)

theorem Bounded.debit {m : Tree Str Nat} (h : Bounded m) (k : Str) (a : Nat) :
    Bounded (m.insert k (Ledger.amountAt m k - a)) := by
  have := h.amountAt k
  exact h.insert k (by omega)

theorem previewTransfer_bounded {m m' : Tree Str Nat} {f t : Str} {amount bps : Nat}
    (hm : Bounded m)
    (h : previewTransfer .saturating L nowMs m f t amount bps = .ok m') : Bounded m' := by
  simp only [previewTransfer, bind_eq_ok, require_eq_ok, Arith.saturating_sub,
    Except.ok.injEq] at h
  obtain ⟨_, -, _, -, split, -, locked, -, _, -, _, -, _, rfl, m₁, h₁, h⟩ := h
  have hm₁ := (hm.debit (trimLower f) amount).credit h₁
  split at h
  · exact hm₁.credit h
  · rw [Except.ok.injEq] at h
    rw [← h]
    exact hm₁

theorem applyFileFeeToBalanceMap_bounded {m : Tree Str Nat} {f s : Str} {fee : Nat}
    {r : FileFeeEffect × Tree Str Nat} (hm : Bounded m)
    (h : applyFileFeeToBalanceMap .saturating W L nowMs m f s fee = .ok r) : Bounded r.2 := by
  simp only [applyFileFeeToBalanceMap, bind_eq_ok, require_eq_ok, Arith.saturating_sub,
    Except.ok.injEq] at h
  obtain ⟨_, -, _, -, t, -, _, -, _, -, _, -, _, rfl, m₁, h₁, m₂, h₂, rfl⟩ := h
  exact ((hm.debit (trimLower f) fee).credit h₁).credit h₂

theorem applyInitialAirdropToBalanceMap_bounded {m m' : Tree Str Nat} {w : Str}
    {count count' : Nat} (hm : Bounded m)
    (h : applyInitialAirdropToBalanceMap .saturating W m w count = .ok (some (m', count'))) :
    Bounded m' := by
  simp only [applyInitialAirdropToBalanceMap, bind_eq_ok, require_eq_ok] at h
  obtain ⟨_, -, _, -, h⟩ := h
  split at h
  · cases h
  split at h
  · cases h
  simp only [Arith.saturating_sub, bind_eq_ok, Except.ok.injEq, Option.some.injEq,
    Prod.mk.injEq] at h
  obtain ⟨_, rfl, m₁, h₁, _, -, rfl, -⟩ := h
  exact (hm.debit walletWorkerPool _).credit h₁

theorem applyBlockRewardToBalanceMap_bounded {m m' : Tree Str Nat} {p : Str} {reward : Nat}
    (hm : Bounded m) (h : applyBlockRewardToBalanceMap .saturating m p reward = .ok m') :
    Bounded m' := by
  unfold applyBlockRewardToBalanceMap at h
  split at h
  · cases h
    exact hm
  · simp only [bind_eq_ok, require_eq_ok, Arith.saturating_sub, Arith.saturating_add,
      Except.ok.injEq] at h
    obtain ⟨_, -, _, -, _, -, _, rfl, _, rfl, rfl⟩ := h
    exact (hm.debit walletWorkerPool reward).insert _ (satAdd_le _ _)

theorem previewTx_bounded {acc acc' : Tree Str Nat × Nat} {env : SignedTxEnvelopeV1}
    (hm : Bounded acc.1) (h : previewTx .saturating W L nowMs acc env = .ok acc') :
    Bounded acc'.1 := by
  simp only [previewTx, bind_eq_ok, require_eq_ok] at h
  obtain ⟨_, -, h⟩ := h
  cases he : env.tx with
  | transfer f t amount bps =>
    simp only [he, bind_eq_ok, Except.ok.injEq] at h
    obtain ⟨m, hp, rfl⟩ := h
    exact previewTransfer_bounded hm hp
  | verifyZkProof tid img j r =>
    simp only [he, Except.ok.injEq] at h
    exact h ▸ hm
  | enterpriseInference w p m amount nonce ph flag att =>
    simp only [he, Except.ok.injEq] at h
    exact h ▸ hm
  | initialAirdrop w =>
    simp only [he, bind_eq_ok, Except.ok.injEq] at h
    obtain ⟨r, hr, rfl⟩ := h
    cases r with
    | none => exact hm
    | some p => exact applyInitialAirdropToBalanceMap_bounded hm hr
  | fileFee f s fid fee =>
    simp only [he, bind_eq_ok, Except.ok.injEq] at h
    obtain ⟨r, hr, rfl⟩ := h
    exact applyFileFeeToBalanceMap_bounded hm hr
  | workerRegister w hw hpr caps tf =>
    simp only [he, bind_eq_ok, Except.ok.injEq] at h
    obtain ⟨_, -, rfl⟩ := h
    exact hm
  | signerLink w => simp [he, invalid] at h
  | foundingMemberEnroll w => simp [he, invalid] at h
  | genesisBridge f t amount => simp [he, invalid] at h

theorem previewTxs_bounded : ∀ {txs : List SignedTxEnvelopeV1} {acc acc' : Tree Str Nat × Nat},
    Bounded acc.1 → previewTxs .saturating W L nowMs txs acc = .ok acc' → Bounded acc'.1 := by
  intro txs
  induction txs with
  | nil =>
    intro acc acc' hm h
    cases h
    exact hm
  | cons env txs ih =>
    intro acc acc' hm h
    simp only [previewTxs, bind_eq_ok] at h
    obtain ⟨acc₁, h₁, h₂⟩ := h
    exact ih (previewTx_bounded hm h₁) h₂

/-- **Block apply keeps the amounts in range.** -/
theorem apply_bounded {txs : List SignedTxEnvelopeV1} {hashes : List Str} {producer root : Str}
    {reward : Nat} (hm : Bounded L.balances)
    (ha : applyConsensusBlockBatch W nowMs height txs hashes producer reward L = .ok (root, L')) :
    Bounded L'.balances := by
  obtain ⟨acc, hacc, hreward, -⟩ := apply_balances_eq_preview ha
  exact applyBlockRewardToBalanceMap_bounded (previewTxs_bounded hm hacc) hreward

/-! ## Runs of blocks -/

/-- The ledgers that blocks lead to from `G`, where the blocks name balance keys of `K` only. -/
inductive BlockRun (W : World) (K : Str → Prop) (G : Ledger) : Ledger → Prop where
  | genesis : BlockRun W K G G
  | block {nowMs height reward : Nat} {txs : List SignedTxEnvelopeV1} {hashes : List Str}
      {producer root : Str} {L L' : Ledger} (before : BlockRun W K G L)
      (named : ∀ k ∈ (blockUndoKeys W txs hashes producer reward).balances, K k)
      (applies : applyConsensusBlockBatch W nowMs height txs hashes producer reward L =
        .ok (root, L')) : BlockRun W K G L'

/-- The balance keys are of `K` and the amounts are `u64`s. -/
structure Named (K : Str → Prop) (L : Ledger) : Prop where
  keys : ∀ k v, L.balances.get k = some v → K k
  bounded : Bounded L.balances

theorem BlockRun.named {K : Str → Prop} {G : Ledger} (hG : Named K G) (h : BlockRun W K G L) :
    Named K L := by
  induction h with
  | genesis => exact hG
  | @block nowMs height reward txs hashes producer root L L' before named applies ih =>
    refine ⟨fun k v hk => ?_, apply_bounded ih.bounded applies⟩
    by_cases hmem : k ∈ (blockUndoKeys W txs hashes producer reward).balances
    · exact named k hmem
    · rw [(apply_frame applies).balances k hmem] at hk
      exact ih.keys k v hk

/-- No name is a proper prefix of another, as bytes. -/
def PrefixFreeNames (K : Str → Prop) : Prop := ∀ k l, K k → K l → utf8 k <+: utf8 l → k = l

/-- The rows as they are hashed. -/
def rowBytes (rows : List (Str × Nat)) : Bytes := rows.flatMap fun r => utf8 r.1 ++ leBytes 8 r.2

theorem rowBytes_injective {K : Str → Prop} (hK : PrefixFreeNames K) (h : Named K L)
    (h' : Named K L') (hrows : rowBytes L.balances.iter = rowBytes L'.balances.iter) :
    L.balances.iter = L'.balances.iter := by
  have hu64 : u64Max < 256 ^ 8 := by decide
  let enc : Str × Nat → Bytes × Nat := fun r => (utf8 r.1, r.2)
  have henc : Function.Injective enc := by
    intro r s hrs
    obtain ⟨hkey, hval⟩ := Prod.mk.inj hrs
    exact Prod.ext (utf8_injective hkey) hval
  have hbound : ∀ {M : Ledger}, Named K M → ∀ r ∈ M.balances.iter.map enc, r.2 < 256 ^ 8 := by
    intro M hM r hr
    obtain ⟨⟨k, v⟩, hs, rfl⟩ := List.mem_map.mp hr
    exact lt_of_le_of_lt (hM.bounded k v (Tree.mem_iter.mp hs)) hu64
  refine List.map_injective_iff.mpr henc (rows_injective (by decide) ?_ (hbound h) (hbound h') ?_)
  · -- keys of the two maps are names
    intro a ha b hb hab
    rw [List.map_map] at ha hb
    obtain ⟨⟨k, v⟩, hk, rfl⟩ := List.mem_map.mp ha
    obtain ⟨⟨l, w⟩, hl, rfl⟩ := List.mem_map.mp hb
    have hKk := h.keys k v (Tree.mem_iter.mp hk)
    have hKl := h'.keys l w (Tree.mem_iter.mp hl)
    rcases hab with hkl | hlk
    · exact congrArg utf8 (hK k l hKk hKl hkl)
    · exact congrArg utf8 (hK l k hKl hKk hlk).symm
  · rw [List.flatMap_map, List.flatMap_map]
    exact hrows

/-- **The state root commits to the balances** of runs whose blocks, like the ledgers they start
from, name balance keys none of which is a proper prefix of another. -/
theorem stateRoot_commits {K : Str → Prop} {G G' : Ledger} (hK : PrefixFreeNames K)
    (hG : Named K G) (hG' : Named K G') (h : BlockRun W K G L) (h' : BlockRun W K G' L')
    (hsha : W.sha256 (rowBytes L.balances.iter) = W.sha256 (rowBytes L'.balances.iter) →
      rowBytes L.balances.iter = rowBytes L'.balances.iter)
    (hroot : computeStateRoot W L = computeStateRoot W L') : L.balances = L'.balances := by
  have hhex : W.sha256Hex (rowBytes L.balances.iter) = W.sha256Hex (rowBytes L'.balances.iter) := by
    rw [computeStateRoot, computeStateRoot, Except.ok.injEq, stateRootFromRows, stateRootFromRows,
      List.cons.injEq, List.cons.injEq] at hroot
    exact hroot.2.2
  have hrows := rowBytes_injective hK (h.named hG) (h'.named hG') (hsha (hexEncode_injective hhex))
  refine Tree.ext fun k => ?_
  refine Option.ext fun v => ?_
  rw [← Tree.mem_iter, ← Tree.mem_iter, hrows]

/-! ## Names of wallets -/

/-- A wallet id of 64 hex digits, or the treasury account. -/
def WalletName (k : Str) : Prop := isHex64 k = true ∨ k = walletDexTreasury

theorem hexdigit_not_colon {c : Char} (hc : isAsciiHexdigit c = true) :
    (58 : UInt8) ∉ String.utf8EncodeChar c := by
  have hrange : c.toNat ≤ 102 ∧ c.toNat ≠ 58 := by
    simp only [isAsciiHexdigit, Bool.or_eq_true, Bool.and_eq_true, decide_eq_true_eq] at hc
    omega
  exact ascii_byte_notMem (by omega) hrange.2

theorem walletName_prefixFree : PrefixFreeNames WalletName := by
  have hdex : (58 : UInt8) ∈ utf8 walletDexTreasury ∧ (utf8 walletDexTreasury).length = 12 := by
    decide
  have hchars : ∀ {k : Str}, isHex64 k = true →
      (utf8 k).length = 64 ∧ k.all isAsciiHexdigit = true := by
    intro k hk
    simpa only [isHex64, byteLen, Bool.and_eq_true, beq_iff_eq] using hk
  rintro k l (hk | rfl) (hl | rfl) hpre
  · refine utf8_injective (hpre.eq_of_length ?_)
    rw [(hchars hk).1, (hchars hl).1]
  · have hlen := hpre.length_le
    rw [(hchars hk).1, hdex.2] at hlen
    omega
  · -- the colon of the treasury's name is no hex digit
    obtain ⟨c, hc, hbyte⟩ := List.mem_flatMap.mp (hpre.subset hdex.1)
    exact absurd hbyte (hexdigit_not_colon (List.all_eq_true.mp (hchars hl).2 c hc))
  · rfl

end Ledger

/-! ## Two runs with one root -/

namespace Sample

/-- The eight bytes of the amount 97, as characters. -/
def amountText : Str := 'a' :: List.replicate 7 (Char.ofNat 0)

/-- `alice` sends 97 µTET, on which there is no fee, to any name. -/
def pay (recipient : Str) : SignedTxEnvelopeV1 := signed (.transfer alice recipient 97 100)

/-- The ledger after a block of these transactions, with their hashes, without a reward. -/
def paid (W : World) (txs : List SignedTxEnvelopeV1) : Except LedgerError (Str × Ledger) :=
  Ledger.applyConsensusBlockBatch W 0 1 txs
    (txs.map fun env => '0' :: 'x' :: W.sha256Hex (valueOr (W.verifyEnvelopeV1 env) [])) node 0 ledger

end Sample

namespace Ledger

/-- Two payments to `x` and to a name that holds the amount's bytes, or to `x` followed by these
bytes and to a shorter name: the rows are written as the same bytes. -/
theorem stateRoot_ambiguous :
    let W := World.sample 0
    let txs := [Sample.pay "x".toList, Sample.pay ("yy".toList ++ Sample.amountText ++ "z".toList)]
    let txs' := [Sample.pay ("x".toList ++ Sample.amountText ++ "yy".toList), Sample.pay "z".toList]
    (∀ env ∈ txs ++ txs', (W.verifyEnvelopeV1 env).isOk = true) ∧
    ∃ root L L', Sample.paid W txs = .ok (root, L) ∧ Sample.paid W txs' = .ok (root, L') ∧
      BlockRun W (fun _ => True) Sample.ledger L ∧ BlockRun W (fun _ => True) Sample.ledger L' ∧
      computeStateRoot W L = computeStateRoot W L' ∧ L.balances ≠ L'.balances := by
  intro W txs txs'
  obtain ⟨⟨root, L⟩, hL⟩ : ∃ r, Sample.paid W txs = .ok r := exists_ok (by decide +kernel)
  obtain ⟨⟨root', L'⟩, hL'⟩ : ∃ r, Sample.paid W txs' = .ok r := exists_ok (by decide +kernel)
  have hall : (Sample.paid W txs).map (·.1) = (Sample.paid W txs').map (·.1) ∧
      (Sample.paid W txs).map (·.2.balances.get "x".toList) ≠
        (Sample.paid W txs').map (·.2.balances.get "x".toList) := by decide +kernel
  rw [hL, hL'] at hall
  obtain ⟨hroot, hx⟩ := hall
  have hroot' : root = root' := Except.ok.inj hroot
  subst hroot'
  refine ⟨by decide +kernel, root, L, L', hL, hL', .block .genesis (fun _ _ => trivial) hL,
    .block .genesis (fun _ _ => trivial) hL', ?_, fun heq => hx ?_⟩
  · rw [(apply_root_eq_preview hL).2, (apply_root_eq_preview hL').2]
  · change Except.ok (L.balances.get _) = Except.ok (L'.balances.get _)
    rw [heq]

/-- The same two payments in either order. -/
theorem stateRoot_commits_reordered :
    let W := World.sample 0
    ∃ root L L', Sample.paid W [Sample.pay Sample.bob, Sample.pay Sample.carol] = .ok (root, L) ∧
      Sample.paid W [Sample.pay Sample.carol, Sample.pay Sample.bob] = .ok (root, L') ∧
      L.balances = L'.balances := by
  intro W
  let txs := [Sample.pay Sample.bob, Sample.pay Sample.carol]
  let txs' := [Sample.pay Sample.carol, Sample.pay Sample.bob]
  obtain ⟨⟨root, L⟩, hL⟩ : ∃ r, Sample.paid W txs = .ok r := exists_ok (by decide +kernel)
  obtain ⟨⟨root', L'⟩, hL'⟩ : ∃ r, Sample.paid W txs' = .ok r := exists_ok (by decide +kernel)
  have hall : (Sample.paid W txs).map (·.1) = (Sample.paid W txs').map (·.1) ∧
      (Sample.paid W txs).map (rowBytes ·.2.balances.iter) =
        (Sample.paid W txs').map (rowBytes ·.2.balances.iter) := by decide +kernel
  rw [hL, hL'] at hall
  have hroot : root = root' := Except.ok.inj hall.1
  have hrows : rowBytes L.balances.iter = rowBytes L'.balances.iter := Except.ok.inj hall.2
  subst hroot
  have hG : Named WalletName Sample.ledger := by
    have hrow : ∀ r ∈ Sample.ledger.balances.iter, isHex64 r.1 = true ∧ r.2 ≤ u64Max := by
      decide +kernel
    exact ⟨fun k v hk => Or.inl (hrow (k, v) (Tree.mem_iter.mpr hk)).1,
      fun k v hk => (hrow (k, v) (Tree.mem_iter.mpr hk)).2⟩
  have hnamed : ∀ (ts : List SignedTxEnvelopeV1) (hashes : List Str),
      (∀ k ∈ (blockUndoKeys W ts hashes Sample.node 0).balances, isHex64 k = true) →
      ∀ k ∈ (blockUndoKeys W ts hashes Sample.node 0).balances, WalletName k :=
    fun _ _ h k hk => Or.inl (h k hk)
  refine ⟨root, L, L', hL, hL', stateRoot_commits walletName_prefixFree hG hG
    (.block .genesis (hnamed _ _ (by decide +kernel)) hL)
    (.block .genesis (hnamed _ _ (by decide +kernel)) hL') (fun _ => hrows) ?_⟩
  rw [(apply_root_eq_preview hL).2, (apply_root_eq_preview hL').2]

end Ledger

end TetCore
