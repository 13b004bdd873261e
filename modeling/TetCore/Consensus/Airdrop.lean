import TetCore.Auth
import TetCore.Consensus.Calls
import TetCore.Ledger.Markers

/-!
# Welcome airdrops along a chain

The applied marker is what keeps an airdrop from being credited again, and a marker belongs to a
transaction hash: no hash is credited twice on any chain (`AppliedChain.creditedOnce`). The hash is
over the signed bytes, which hold the wallet id as it was written and the claimant's ML-DSA key, so
it is one hash per wallet only for claims that agree in both (`airdrop_once`). Another spelling of
the wallet or another key is credited again (`airdrop_twice`).
-/

namespace TetCore

open TetCore.Lib

namespace Ledger

variable {W : World} {L L' : Ledger} {nowMs height : Nat} {b b' : Batch}

/-- Does the transaction credit an airdrop on this batch? -/
def creditsAirdrop (W : World) (L : Ledger) (b : Batch) (env : SignedTxEnvelopeV1) (txHash : Str) :
    Bool :=
  match env.tx with
  | .initialAirdrop walletId =>
    !L.isTxApplied txHash &&
      match applyInitialAirdropToBalanceMap .saturating W b.balances walletId b.airdropCount with
      | .ok (some _) => true
      | _ => false
  | _ => false

/-- The transactions of a block that credit an airdrop, with their hashes. -/
def creditedAirdrops (W : World) (L : Ledger) (nowMs blockHeight : Nat) :
    List (SignedTxEnvelopeV1 × Str) → Batch → List (SignedTxEnvelopeV1 × Str)
  | [], _ => []
  | (env, txHash) :: txs, b =>
    match applyTx .saturating W L nowMs blockHeight b env txHash with
    | .error _ => []
    | .ok b' =>
      let rest := creditedAirdrops W L nowMs blockHeight txs b'
      if creditsAirdrop W L b env txHash then (env, txHash) :: rest else rest

/-- The balance of a wallet after a debit of another and a credit of its own. -/
theorem amountAt_transfer (t : Tree Str Nat) {pool w : Str} (h : pool ≠ w) (rest amt : Nat) :
    amountAt ((t.insert pool rest).insert w (satAdd (amountAt (t.insert pool rest) w) amt)) w =
      satAdd (amountAt t w) amt := by
  unfold amountAt
  rw [Tree.get_insert_self, Tree.get_insert_ne h, Option.getD_some]

theorem isReservedSystemWallet_pool : isReservedSystemWallet walletWorkerPool = true := by
  decide +kernel

/-- A credited airdrop had no marker and puts one, and pays the wallet. -/
theorem creditsAirdrop_spec {env : SignedTxEnvelopeV1} {h : Str}
    (ha : applyTx .saturating W L nowMs height b env h = .ok b')
    (hc : creditsAirdrop W L b env h = true) :
    L.isTxApplied h = false ∧ (remoteTxAppliedMetaKey h, MetaVal.mark) ∈ b'.metaBatch ∧
      ∃ w, env.tx = .initialAirdrop w ∧ amountAt b'.balances (trimLower w) =
        satAdd (amountAt b.balances (trimLower w)) faucetInitialAirdropMicroPerUser := by
  simp only [applyTx, bind_eq_ok, require_eq_ok] at ha
  obtain ⟨_, -, ha⟩ := ha
  unfold creditsAirdrop at hc
  cases he : env.tx with
  | initialAirdrop w =>
    simp only [he, Bool.and_eq_true, Bool.not_eq_true'] at ha hc
    obtain ⟨hfresh, hc⟩ := hc
    simp only [applyInitialAirdrop, hfresh, Bool.false_eq_true, if_false, bind_eq_ok] at ha
    obtain ⟨r, hr, ha⟩ := ha
    cases r with
    | none =>
      rw [hr] at hc
      cases hc
    | some r =>
      cases ha
      refine ⟨hfresh, List.mem_append_right _ (List.mem_singleton.mpr rfl), w, rfl, ?_⟩
      simp only [applyInitialAirdropToBalanceMap, bind_eq_ok, require_eq_ok] at hr
      obtain ⟨_, -, _, ⟨hsys, -⟩, hr⟩ := hr
      have hpool : walletWorkerPool ≠ trimLower w := by
        intro heq
        rw [← heq] at hsys
        exact absurd hsys (by rw [isReservedSystemWallet_pool]; exact Bool.noConfusion)
      split at hr
      · cases hr
      split at hr
      · cases hr
      simp only [credit, Arith.saturating_add, Arith.saturating_sub, ok_bind, Except.ok.injEq,
        Option.some.injEq] at hr
      subst hr
      exact amountAt_transfer b.balances hpool _ _
  | _ =>
    rw [he] at hc
    cases hc

theorem creditedAirdrops_sublist : ∀ {l : List (SignedTxEnvelopeV1 × Str)} {b : Batch},
    (creditedAirdrops W L nowMs height l b).Sublist l := by
  intro l
  induction l with
  | nil => exact fun {_} => List.Sublist.slnil
  | cons p l ih =>
    intro b
    unfold creditedAirdrops
    split
    · exact List.nil_sublist _
    · split
      · exact ih.cons_cons p
      · exact ih.cons p

theorem creditedAirdrops_marks : ∀ {l : List (SignedTxEnvelopeV1 × Str)} {b b' : Batch},
    applyTxs .saturating W L nowMs height l b = .ok b' →
      ∀ p ∈ creditedAirdrops W L nowMs height l b, (∃ w, p.1.tx = .initialAirdrop w) ∧
        L.isTxApplied p.2 = false ∧ (remoteTxAppliedMetaKey p.2, MetaVal.mark) ∈ b'.metaBatch := by
  intro l
  induction l with
  | nil => exact fun _ p hp => absurd hp List.not_mem_nil
  | cons q l ih =>
    intro b b' ha p hp
    obtain ⟨env, h⟩ := q
    simp only [applyTxs, bind_eq_ok] at ha
    obtain ⟨b₁, ha₁, ha₂⟩ := ha
    simp only [creditedAirdrops, ha₁] at hp
    split at hp
    · rename_i hc
      rcases List.mem_cons.mp hp with rfl | hp
      · obtain ⟨hfresh, hmark, w, hw, -⟩ := creditsAirdrop_spec ha₁ hc
        exact ⟨⟨w, hw⟩, hfresh, applyTxs_metaBatch ha₂ hmark⟩
      · exact ih ha₂ p hp
    · exact ih ha₂ p hp

end Ledger

namespace Consensus

open TetCore.Ledger (creditedAirdrops startBatch)

variable {W : World} {A : Auth} {L L' : Ledger}

/-- The normalized wallet of an airdrop claim. -/
def airdropWallet (env : SignedTxEnvelopeV1) : Option Str :=
  match env.tx with
  | .initialAirdrop walletId => some (trimLower walletId)
  | _ => none

/-- Chains of applied blocks: the transactions so far, the credited airdrops with their hashes, and
the ledger. What happens between blocks may change anything, but leaves the markers set. -/
inductive AppliedChain (W : World) : List SignedTxEnvelopeV1 → List (SignedTxEnvelopeV1 × Str) →
    Ledger → Prop where
  | start (L : Ledger) : AppliedChain W [] [] L
  | between {txs : List SignedTxEnvelopeV1} {credited : List (SignedTxEnvelopeV1 × Str)}
      {L L' : Ledger} (h : AppliedChain W txs credited L)
      (hmarks : ∀ x, L.isTxApplied x = true → L'.isTxApplied x = true) :
      AppliedChain W txs credited L'
  | block {txs block : List SignedTxEnvelopeV1} {credited : List (SignedTxEnvelopeV1 × Str)}
      {L L' : Ledger} {nowMs height reward : Nat} {hashes : List Str} {producer root : Str}
      (h : AppliedChain W txs credited L) (hhash : Hashed W block hashes)
      (happly : Ledger.applyConsensusBlockBatch W nowMs height block hashes producer reward L =
        .ok (root, L')) :
      AppliedChain W (txs ++ block)
        (credited ++ creditedAirdrops W L nowMs height (block.zip hashes) (startBatch L)) L'

/-- All claims of one wallet spell its id in the same way and use the same ML-DSA key. -/
def OneForm (txs : List SignedTxEnvelopeV1) : Prop :=
  ∀ a ∈ txs, ∀ c ∈ txs, ∀ w v, a.tx = .initialAirdrop w → c.tx = .initialAirdrop v →
    trimLower w = trimLower v → w = v ∧ trim a.sig.mldsaPubkeyB64 = trim c.sig.mldsaPubkeyB64

/-- The credited claims are transactions of the chain under their hashes, which are distinct and
marked. -/
structure CreditedOnce (W : World) (txs : List SignedTxEnvelopeV1)
    (credited : List (SignedTxEnvelopeV1 × Str)) (L : Ledger) : Prop where
  mem : ∀ p ∈ credited, p.1 ∈ txs ∧ txHashForEnv W p.1 = .ok p.2
  claim : ∀ p ∈ credited, ∃ w, p.1.tx = .initialAirdrop w
  marked : ∀ p ∈ credited, L.isTxApplied p.2 = true
  nodup : (credited.map Prod.snd).Nodup

/-- A transaction stands beside its hash. -/
theorem hash_of_mem_zip : ∀ {block : List SignedTxEnvelopeV1} {hashes : List Str},
    block.mapM (txHashForEnv W) = .ok hashes → ∀ p ∈ block.zip hashes,
      txHashForEnv W p.1 = .ok p.2 := by
  intro block
  induction block with
  | nil => exact fun _ p hp => absurd hp List.not_mem_nil
  | cons env block ih =>
    intro hashes hm p hp
    simp only [List.mapM_cons, bind_eq_ok, pure_eq_ok, Except.ok.injEq] at hm
    obtain ⟨x, hx, xs, hxs, rfl⟩ := hm
    rw [List.zip_cons_cons] at hp
    rcases List.mem_cons.mp hp with rfl | hp
    · exact hx
    · exact ih hxs p hp

/-- **One block** credits only hashes without a marker, and marks them. -/
theorem CreditedOnce.block {txs block : List SignedTxEnvelopeV1}
    {credited : List (SignedTxEnvelopeV1 × Str)} {nowMs height reward : Nat} {hashes : List Str}
    {producer root : Str} (h : CreditedOnce W txs credited L) (hhash : Hashed W block hashes)
    (happly : Ledger.applyConsensusBlockBatch W nowMs height block hashes producer reward L =
      .ok (root, L')) :
    CreditedOnce W (txs ++ block)
      (credited ++ creditedAirdrops W L nowMs height (block.zip hashes) (startBatch L)) L' := by
  obtain ⟨b, hb, -⟩ := Ledger.apply_meta happly
  have hsub : (creditedAirdrops W L nowMs height (block.zip hashes) (startBatch L)).Sublist
      (block.zip hashes) := Ledger.creditedAirdrops_sublist
  have hnew := Ledger.creditedAirdrops_marks hb
  refine ⟨fun p hp => ?_, fun p hp => ?_, fun p hp => ?_, ?_⟩
  · rcases List.mem_append.mp hp with hp | hp
    · exact ⟨List.mem_append_left _ (h.mem p hp).1, (h.mem p hp).2⟩
    · have hz := hsub.subset hp
      exact ⟨List.mem_append_right _ (List.of_mem_zip hz).1, hash_of_mem_zip hhash.eq p hz⟩
  · rcases List.mem_append.mp hp with hp | hp
    · exact h.claim p hp
    · exact (hnew p hp).1
  · rcases List.mem_append.mp hp with hp | hp
    · exact Ledger.apply_keeps_marks happly (h.marked p hp)
    · refine Ledger.apply_marks_of_batch happly fun b' hb' => ?_
      rw [hb] at hb'
      cases hb'
      exact (hnew p hp).2.2
  · rw [List.map_append]
    refine List.Nodup.append h.nodup ?_ ?_
    · have hdistinct : ((block.zip hashes).map Prod.snd).Nodup := by
        rw [List.map_snd_zip (by rw [length_of_mapM hhash.eq])]
        exact hhash.distinct
      exact (hsub.map Prod.snd).nodup hdistinct
    · -- the old hashes are marked, the new ones were not
      intro x hold hnewx
      obtain ⟨p, hp, rfl⟩ := List.mem_map.mp hold
      obtain ⟨q, hq, heq⟩ := List.mem_map.mp hnewx
      have hfresh := (hnew q hq).2.1
      rw [heq, h.marked p hp] at hfresh
      cases hfresh

/-- **No hash is credited twice**, on any chain. -/
theorem AppliedChain.creditedOnce {txs : List SignedTxEnvelopeV1}
    {credited : List (SignedTxEnvelopeV1 × Str)} (h : AppliedChain W txs credited L) :
    CreditedOnce W txs credited L := by
  induction h with
  | start L => exact ⟨nofun, nofun, nofun, List.nodup_nil⟩
  | between h hmarks ih => 
    exact ⟨ih.mem, ih.claim, fun p hp => hmarks _ (ih.marked p hp), ih.nodup⟩
  | block h hhash happly ih => exact ih.block hhash happly

/-- The hash is that of the transaction and the ML-DSA key. -/
theorem txHash_signing {a : SignedTxEnvelopeV1} {x : Str}
    (h : txHashForEnv (W.signing A) a = .ok x) :
    x = '0' :: 'x' :: W.sha256Hex (A.txV1AuthMessageBytes a.tx a.sig.mldsaPubkeyB64) := by
  simp only [txHashForEnv, bind_eq_ok, Except.ok.injEq] at h
  obtain ⟨bytes, hbytes, rfl⟩ := h
  rw [(Auth.verifyEnvelopeV1_ok hbytes).1]
  rfl

/-- **One airdrop per wallet.** On every chain whose claims of one wallet agree in the spelling of
the wallet id and in the ML-DSA key, no normalized wallet is credited twice. -/
theorem airdrop_once {txs : List SignedTxEnvelopeV1} {credited : List (SignedTxEnvelopeV1 × Str)}
    (h : AppliedChain (W.signing A) txs credited L) (hone : OneForm txs) :
    (credited.map fun p => airdropWallet p.1).Nodup := by
  have hinv := h.creditedOnce
  have hhash := hinv.nodup
  unfold List.Nodup at hhash ⊢
  rw [List.pairwise_map] at hhash ⊢
  refine hhash.imp_of_mem ?_
  intro p q hp hq hne hsame
  -- two credited claims of one wallet are over the same bytes
  obtain ⟨w, hw⟩ := hinv.claim p hp
  obtain ⟨v, hv⟩ := hinv.claim q hq
  simp only [airdropWallet, hw, hv, Option.some.injEq] at hsame
  obtain ⟨hpm, hph⟩ := hinv.mem p hp
  obtain ⟨hqm, hqh⟩ := hinv.mem q hq
  obtain ⟨htext, hkey⟩ := hone p.1 hpm q.1 hqm w v hw hv hsame
  refine hne ?_
  rw [txHash_signing hph, txHash_signing hqh, hw, hv, htext, Auth.txV1AuthMessageBytes,
    Auth.txV1AuthMessageBytes, A.txV1AuthMessage_trim _ hkey]

end Consensus

namespace Sample

/-- A wallet's airdrop claim, spelled and keyed as given, signed by the wallet. -/
def claim (walletId mldsa : Str) : SignedTxEnvelopeV1 :=
  signedWith (.initialAirdrop walletId) (trimLower walletId) mldsa

/-- The sample world with the envelope check. -/
def signingWorld : World := (World.sample 0).signing auth

/-- A worker pool that pays for several airdrops. -/
def faucet : Ledger :=
  { Ledger.empty with
    balances := Tree.empty.insert walletWorkerPool (5000 * stevemon)
    metaTree := Tree.empty.insert .totalSupply (.u64 (5000 * stevemon)) }

def hashesOf (block : List SignedTxEnvelopeV1) : List Str :=
  valueOr (block.mapM (txHashForEnv signingWorld)) []

/-- The block applied without a reward. -/
def runBlock (L : Ledger) (block : List SignedTxEnvelopeV1) : Except LedgerError (Str × Ledger) :=
  Ledger.applyConsensusBlockBatch signingWorld 0 1 block (hashesOf block) node 0 L

/-- The ledger after the block, which must apply. -/
def afterBlock (L : Ledger) (block : List SignedTxEnvelopeV1) : Ledger :=
  (valueOr (runBlock L block) ([], L)).2

/-- The airdrops the block credits. -/
def creditedBy (L : Ledger) (block : List SignedTxEnvelopeV1) : List (SignedTxEnvelopeV1 × Str) :=
  Ledger.creditedAirdrops signingWorld L 0 1 (block.zip (hashesOf block)) (Ledger.startBatch L)

/-- The transactions verify, no two have one hash, and the block applies. -/
def BlockRuns (L : Ledger) (block : List SignedTxEnvelopeV1) : Prop :=
  block.mapM (txHashForEnv signingWorld) = .ok (hashesOf block) ∧ (hashesOf block).Nodup ∧
    (runBlock L block).isOk = true

instance (L : Ledger) (block : List SignedTxEnvelopeV1) : Decidable (BlockRuns L block) :=
  inferInstanceAs (Decidable (_ ∧ _ ∧ _))

theorem chain_block {txs block : List SignedTxEnvelopeV1}
    {credited : List (SignedTxEnvelopeV1 × Str)} {L : Ledger}
    (h : Consensus.AppliedChain signingWorld txs credited L) (hrun : BlockRuns L block) :
    Consensus.AppliedChain signingWorld (txs ++ block) (credited ++ creditedBy L block)
      (afterBlock L block) := by
  obtain ⟨hm, hnd, hok⟩ := hrun
  obtain ⟨r, hr⟩ := exists_ok hok
  have hafter : afterBlock L block = r.2 := by
    unfold afterBlock
    rw [hr]
    rfl
  rw [hafter]
  exact h.block ⟨hm, hnd⟩ hr

theorem chain_twoBlocks {a c : SignedTxEnvelopeV1} (h₁ : BlockRuns faucet [a, c])
    (h₂ : BlockRuns (afterBlock faucet [a, c]) [a]) :
    Consensus.AppliedChain signingWorld [a, c, a]
      (creditedBy faucet [a, c] ++ creditedBy (afterBlock faucet [a, c]) [a])
      (afterBlock (afterBlock faucet [a, c]) [a]) :=
  chain_block (chain_block (.start faucet) h₁) h₂

/-- Claims in lower case, each with the wallet's own key. -/
theorem oneForm_of_own {txs : List SignedTxEnvelopeV1}
    (h : ∀ x ∈ txs, ∃ w, x = claim w w ∧ trimLower w = w) : Consensus.OneForm txs := by
  intro x hx y hy w v hw hv hsame
  obtain ⟨w', rfl, hwl⟩ := h x hx
  obtain ⟨v', rfl, hvl⟩ := h y hy
  cases hw
  cases hv
  rw [hwl, hvl] at hsame
  subst hsame
  exact ⟨rfl, rfl⟩

end Sample

namespace Consensus

/-- Two wallets claim, and the first one claims again: two airdrops. -/
theorem airdrop_once_twoWallets :
    let a := Sample.claim Sample.alice Sample.alice
    let c := Sample.claim Sample.bob Sample.bob
    ∃ credited L, AppliedChain Sample.signingWorld [a, c, a] credited L ∧
      credited.map (fun p => airdropWallet p.1) = [some Sample.alice, some Sample.bob] ∧
      (credited.map fun p => airdropWallet p.1).Nodup := by
  intro a c
  let L₁ := Sample.afterBlock Sample.faucet [a, c]
  have hall : Sample.BlockRuns Sample.faucet [a, c] ∧ Sample.BlockRuns L₁ [a] ∧
      ((Sample.creditedBy Sample.faucet [a, c] ++ Sample.creditedBy L₁ [a]).map
        fun p => airdropWallet p.1) = [some Sample.alice, some Sample.bob] ∧
      trimLower Sample.alice = Sample.alice ∧ trimLower Sample.bob = Sample.bob := by
    decide +kernel
  obtain ⟨h₁, h₂, hcredited, hlower⟩ := hall
  have hchain := Sample.chain_twoBlocks h₁ h₂
  have hone : OneForm [a, c, a] := by
    refine Sample.oneForm_of_own fun x hx => ?_
    rcases List.mem_cons.mp hx with rfl | hx
    · exact ⟨_, rfl, hlower.1⟩
    rcases List.mem_cons.mp hx with rfl | hx
    · exact ⟨_, rfl, hlower.2⟩
    · exact ⟨_, List.mem_singleton.mp hx, hlower.1⟩
  exact ⟨_, _, hchain, hcredited, airdrop_once hchain hone⟩

/-- Another ML-DSA key and another spelling: `alice` is credited three times. -/
theorem airdrop_twice : ¬ ∀ (W : World) (A : Auth) (txs : List SignedTxEnvelopeV1)
    (credited : List (SignedTxEnvelopeV1 × Str)) (L : Ledger),
    AppliedChain (W.signing A) txs credited L →
      (credited.map fun p => airdropWallet p.1).Nodup := by
  intro h
  let b₁ := [Sample.claim Sample.alice "key1".toList]
  let b₂ := [Sample.claim Sample.alice "key2".toList]
  let b₃ := [Sample.claim (Sample.wallet 'A') "key1".toList]
  let L₁ := Sample.afterBlock Sample.faucet b₁
  let L₂ := Sample.afterBlock L₁ b₂
  have hall : Sample.BlockRuns Sample.faucet b₁ ∧ Sample.BlockRuns L₁ b₂ ∧
      Sample.BlockRuns L₂ b₃ ∧
      ((Sample.creditedBy Sample.faucet b₁ ++ Sample.creditedBy L₁ b₂ ++
        Sample.creditedBy L₂ b₃).map fun p => airdropWallet p.1) =
        List.replicate 3 (some Sample.alice) := by
    decide +kernel
  obtain ⟨h₁, h₂, h₃, hcredited⟩ := hall
  have hchain := Sample.chain_block (Sample.chain_block (Sample.chain_block
    (.start Sample.faucet) h₁) h₂) h₃
  have hnodup := h (World.sample 0) Sample.auth _ _ _ hchain
  rw [List.nil_append, hcredited] at hnodup
  exact absurd hnodup (by decide)

end Consensus

end TetCore
