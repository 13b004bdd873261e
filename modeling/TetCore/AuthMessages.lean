import TetCore.Payouts.Grants
import TetCore.Sites.Store

/-!
# The messages wallets sign

Model of the builders of signed bytes: those of `wallet.rs`, `stake_hybrid_auth_message_bytes`
(`rest/handlers/wallet.rs`), `listing_auth_message_bytes` (`search.rs`) and
`agent_payload_auth_message_bytes` (`agent.rs`). The builders of inference requests and of
serialized transactions are in `TetCore.Auth`, the one of site edits is in `TetCore.Sites.Store`.

* A message of `wallet.rs` is one line: what it is for, the chain, and the fields, separated by
  bars. The fields are not escaped.
* A message of `pae` has the length before each field, so a field may hold any bytes.
* An `AuthMessage` is a builder with the values of its fields, `AuthMessage.bytes` what it builds.
  An inference request in `tx_v1_auth_message_bytes` counts as one of its own builder.
* The message of a stake does not name the chain.

Results: `purposes_apart` says that builders have different starts, and `auth_messages_apart` that
messages of different builders differ, and that the messages of a builder name the chain exactly
when it is not the one of stakes.
-/

namespace TetCore

open TetCore.Lib TetCore.Payouts TetCore.Sites TetCore.Tmail

/-! ## The builders -/

/-- A line that starts with what it is for and the chain it is for. -/
def Auth.hybridMessage (A : Auth) (purpose : Str) (fields : List Str) : Str :=
  A.header purpose ++ fields.flatMap fun f => '|' :: f

section Builders

variable (A : Auth) (W : World)

/-- `transfer_hybrid_auth_message_bytes`. -/
def transferHybridAuthMessageBytes (toWallet : Str) (amountMicro nonce : Nat)
    (mldsaPubkeyB64 : Str) : Bytes :=
  utf8 (A.hybridMessage "tet xfer hybrid v1".toList
    [trimLower toWallet, Json.decimal amountMicro, Json.decimal nonce, trim mldsaPubkeyB64])

/-- `founder_genesis_hybrid_auth_message_bytes`. -/
def founderGenesisHybridAuthMessageBytes (founderWalletId mldsaPubkeyB64 : Str) : Bytes :=
  utf8 (A.hybridMessage "tet founder genesis hybrid v1".toList
    [trimLower founderWalletId, trim mldsaPubkeyB64])

/-- `genesis_1k_claim_hybrid_auth_message_bytes`. -/
def genesis1kClaimHybridAuthMessageBytes (walletId mldsaPubkeyB64 : Str) : Bytes :=
  utf8 (A.hybridMessage "tet genesis1k claim hybrid v1".toList
    [trimLower walletId, trim mldsaPubkeyB64])

/-- `initial_airdrop_claim_hybrid_auth_message_bytes`. -/
def initialAirdropClaimHybridAuthMessageBytes (walletId mldsaPubkeyB64 : Str) : Bytes :=
  utf8 (A.hybridMessage "tet initial airdrop claim hybrid v1".toList
    [trimLower walletId, trim mldsaPubkeyB64])

/-- `founder_withdraw_treasury_hybrid_auth_message_bytes`. -/
def founderWithdrawTreasuryHybridAuthMessageBytes (founderWalletId : Str)
    (amountMicro nonce : Nat) (mldsaPubkeyB64 : Str) : Bytes :=
  utf8 (A.hybridMessage "tet founder withdraw treasury hybrid v1".toList
    [trimLower founderWalletId, Json.decimal amountMicro, Json.decimal nonce, trim mldsaPubkeyB64])

/-- `caac_complete_hybrid_auth_message_bytes`. -/
def caacCompleteHybridAuthMessageBytes (walletIdHex seedHex : Str) (clientLatencyMs : Nat)
    (mldsaPubkeyB64 : Str) : Bytes :=
  utf8 (A.hybridMessage "tet caac complete v1".toList
    [trimLower walletIdHex, trimLower seedHex, Json.decimal clientLatencyMs, trim mldsaPubkeyB64])

/-- `zkcourt_challenge_hybrid_auth_message_bytes`. -/
def zkcourtChallengeHybridAuthMessageBytes (challengerWalletIdHex inferenceId : Str)
    (nonce : Nat) (mldsaPubkeyB64 : Str) : Bytes :=
  utf8 (A.hybridMessage "tet zk-court challenge v1".toList
    [trimLower challengerWalletIdHex, trim inferenceId, Json.decimal nonce, trim mldsaPubkeyB64])

/-- `worker_bond_stake_hybrid_auth_message_bytes`. -/
def workerBondStakeHybridAuthMessageBytes (walletIdHex : Str) (amountMicro nonce : Nat)
    (mldsaPubkeyB64 : Str) : Bytes :=
  utf8 (A.hybridMessage "tet worker bond stake v1".toList
    [trimLower walletIdHex, Json.decimal amountMicro, Json.decimal nonce, trim mldsaPubkeyB64])

/-- `worker_bond_unstake_hybrid_auth_message_bytes`. -/
def workerBondUnstakeHybridAuthMessageBytes (walletIdHex : Str) (amountMicro nonce : Nat)
    (mldsaPubkeyB64 : Str) : Bytes :=
  utf8 (A.hybridMessage "tet worker bond unstake v1".toList
    [trimLower walletIdHex, Json.decimal amountMicro, Json.decimal nonce, trim mldsaPubkeyB64])

/-- `ai_infer_hybrid_auth_message_bytes`. -/
def aiInferHybridAuthMessageBytes (walletIdHex prompt : Str) (flops nonce : Nat) : Bytes :=
  utf8 (A.hybridMessage "tet ai infer hybrid v1".toList
    [trimLower walletIdHex, Json.decimal flops, Json.decimal nonce, W.sha256Hex (utf8 prompt)])

/-- `stake_hybrid_auth_message_bytes`: no chain is named. -/
def stakeHybridAuthMessageBytes (walletIdHex : Str) (amountMicro nonce : Nat)
    (mldsaPubkeyB64 : Str) : Bytes :=
  utf8 ("tet stake hybrid v1|".toList ++ (trimLower walletIdHex ++ '|' ::
    (Json.decimal amountMicro ++ '|' :: (Json.decimal nonce ++ '|' :: trim mldsaPubkeyB64))))

structure SearchListingV1 where
  v : Nat
  kind : Str
  siteWalletId : Str
  memberWalletId : Str
  listedAtMs : Nat
  memberSig : TmailHybridSig
  siteSig : TmailHybridSig
  deriving DecidableEq

/-- `listing_auth_message_bytes`. -/
def listingAuthMessageBytes (l : SearchListingV1) (mldsaPubkeyB64 : Str) : Bytes :=
  pae "tet search list v1".toList [utf8 A.chainId, utf8 A.genesisHash,
    utf8 (trimLower l.siteWalletId), utf8 (trimLower l.memberWalletId),
    utf8 (Json.decimal l.listedAtMs), utf8 (trim mldsaPubkeyB64)]

/-- `AGENT_PAYLOAD_DOMAIN_V1`. -/
def agentPayloadDomainV1 : Str := "tet agent payload v1".toList

/-- `agent_payload_auth_message_bytes`. -/
def agentPayloadAuthMessageBytes (payloadType : Str) (payload : Bytes) : Bytes :=
  pae agentPayloadDomainV1 [utf8 A.chainId, utf8 A.genesisHash, utf8 (trim payloadType), payload]

end Builders

/-! ## All of them -/

/-- The builders. -/
inductive Builder where
  | transfer
  | founderGenesis
  | genesis1kClaim
  | initialAirdropClaim
  | founderWithdrawTreasury
  | enterpriseInference
  | caacComplete
  | zkcourtChallenge
  | workerBondStake
  | workerBondUnstake
  | aiInfer
  | txV1
  | stake
  | siteEdit
  | listing
  | agentPayload
  deriving DecidableEq

namespace Builder

/-- All of them. -/
def all : List Builder :=
  [.transfer, .founderGenesis, .genesis1kClaim, .initialAirdropClaim, .founderWithdrawTreasury,
    .enterpriseInference, .caacComplete, .zkcourtChallenge, .workerBondStake, .workerBondUnstake,
    .aiInfer, .txV1, .stake, .siteEdit, .listing, .agentPayload]

theorem mem_all (b : Builder) : b ∈ all := by
  cases b <;> decide

/-- The builders whose messages are a line that names the chain. -/
def isLine : Builder → Bool
  | .stake => false
  | .listing => false
  | .agentPayload => false
  | _ => true

/-- The builders whose messages are encoded by `pae`. -/
def isPae : Builder → Bool
  | .listing => true
  | .agentPayload => true
  | _ => false

/-- What the messages of a builder start with. -/
def purpose : Builder → Str
  | .transfer => "tet xfer hybrid v1".toList
  | .founderGenesis => "tet founder genesis hybrid v1".toList
  | .genesis1kClaim => "tet genesis1k claim hybrid v1".toList
  | .initialAirdropClaim => "tet initial airdrop claim hybrid v1".toList
  | .founderWithdrawTreasury => "tet founder withdraw treasury hybrid v1".toList
  | .enterpriseInference => "tet enterprise inference v1".toList
  | .caacComplete => "tet caac complete v1".toList
  | .zkcourtChallenge => "tet zk-court challenge v1".toList
  | .workerBondStake => "tet worker bond stake v1".toList
  | .workerBondUnstake => "tet worker bond unstake v1".toList
  | .aiInfer => "tet ai infer hybrid v1".toList
  | .txV1 => "tet tx v1".toList
  | .stake => "tet stake hybrid v1".toList
  | .siteEdit => "tet site edit v1".toList
  | .listing => "tet search list v1".toList
  | .agentPayload => agentPayloadDomainV1

end Builder

/-- A call of a builder. -/
inductive AuthMessage where
  | transfer (toWallet : Str) (amountMicro nonce : Nat) (mldsaPubkeyB64 : Str)
  | founderGenesis (founderWalletId mldsaPubkeyB64 : Str)
  | genesis1kClaim (walletId mldsaPubkeyB64 : Str)
  | initialAirdropClaim (walletId mldsaPubkeyB64 : Str)
  | founderWithdrawTreasury (founderWalletId : Str) (amountMicro nonce : Nat)
    (mldsaPubkeyB64 : Str)
  | enterpriseInference (enterpriseWalletId : Str) (nonce amountMicro : Nat)
    (promptSha256Hex model : Str) (attestationRequired : Bool) (mldsaPubkeyB64 : Str)
  | caacComplete (walletIdHex seedHex : Str) (clientLatencyMs : Nat) (mldsaPubkeyB64 : Str)
  | zkcourtChallenge (challengerWalletIdHex inferenceId : Str) (nonce : Nat)
    (mldsaPubkeyB64 : Str)
  | workerBondStake (walletIdHex : Str) (amountMicro nonce : Nat) (mldsaPubkeyB64 : Str)
  | workerBondUnstake (walletIdHex : Str) (amountMicro nonce : Nat) (mldsaPubkeyB64 : Str)
  | aiInfer (walletIdHex prompt : Str) (flops nonce : Nat)
  | txV1 (tx : TxV1) (mldsaPubkeyB64 : Str)
  | stake (walletIdHex : Str) (amountMicro nonce : Nat) (mldsaPubkeyB64 : Str)
  | siteEdit (e : SiteEditV1) (mldsaPubkeyB64 : Str)
  | listing (l : SearchListingV1) (mldsaPubkeyB64 : Str)
  | agentPayload (payloadType : Str) (payload : Bytes)

namespace AuthMessage

/-- The builder of a message. `tx_v1_auth_message_bytes` hands an inference request on. -/
def builder : AuthMessage → Builder
  | .transfer _ _ _ _ => .transfer
  | .founderGenesis _ _ => .founderGenesis
  | .genesis1kClaim _ _ => .genesis1kClaim
  | .initialAirdropClaim _ _ => .initialAirdropClaim
  | .founderWithdrawTreasury _ _ _ _ => .founderWithdrawTreasury
  | .enterpriseInference _ _ _ _ _ _ _ => .enterpriseInference
  | .caacComplete _ _ _ _ => .caacComplete
  | .zkcourtChallenge _ _ _ _ => .zkcourtChallenge
  | .workerBondStake _ _ _ _ => .workerBondStake
  | .workerBondUnstake _ _ _ _ => .workerBondUnstake
  | .aiInfer _ _ _ _ => .aiInfer
  | .txV1 tx _ => if tx.isEnterprise then .enterpriseInference else .txV1
  | .stake _ _ _ _ => .stake
  | .siteEdit _ _ => .siteEdit
  | .listing _ _ => .listing
  | .agentPayload _ _ => .agentPayload

/-- The bytes that are signed. -/
def bytes (A : Auth) (W : World) : AuthMessage → Bytes
  | .transfer t amount nonce p => transferHybridAuthMessageBytes A t amount nonce p
  | .founderGenesis w p => founderGenesisHybridAuthMessageBytes A w p
  | .genesis1kClaim w p => genesis1kClaimHybridAuthMessageBytes A w p
  | .initialAirdropClaim w p => initialAirdropClaimHybridAuthMessageBytes A w p
  | .founderWithdrawTreasury w amount nonce p =>
    founderWithdrawTreasuryHybridAuthMessageBytes A w amount nonce p
  | .enterpriseInference w nonce amount h m att p =>
    utf8 (A.enterpriseInferenceHybridAuthMessage w nonce amount h m att p)
  | .caacComplete w seed latency p => caacCompleteHybridAuthMessageBytes A w seed latency p
  | .zkcourtChallenge w i nonce p => zkcourtChallengeHybridAuthMessageBytes A w i nonce p
  | .workerBondStake w amount nonce p => workerBondStakeHybridAuthMessageBytes A w amount nonce p
  | .workerBondUnstake w amount nonce p =>
    workerBondUnstakeHybridAuthMessageBytes A w amount nonce p
  | .aiInfer w prompt flops nonce => aiInferHybridAuthMessageBytes A W w prompt flops nonce
  | .txV1 tx p => A.txV1AuthMessageBytes tx p
  | .stake w amount nonce p => stakeHybridAuthMessageBytes w amount nonce p
  | .siteEdit e p => siteEditAuthMessageBytes A W e p
  | .listing l p => listingAuthMessageBytes A l p
  | .agentPayload ty payload => agentPayloadAuthMessageBytes A ty payload

end AuthMessage

/-! ## Builders have different starts -/

/-- **Purposes**: no builder's messages can go on like another's start. -/
theorem purposes_apart : ∀ b b' : Builder, utf8 b.purpose <+: utf8 b'.purpose → b = b' := by
  intro b b' h
  have hall : ∀ c ∈ Builder.all, ∀ c' ∈ Builder.all,
      (utf8 c.purpose).isPrefixOf (utf8 c'.purpose) = true → c = c' := by
    decide +kernel
  exact hall b b.mem_all b' b'.mem_all (List.isPrefixOf_iff_prefix.mpr h)

namespace AuthMessage

variable {A A' : Auth} {W : World} {m m' : AuthMessage}

/-- A line names the chain after its purpose. -/
theorem bytes_line (h : m.builder.isLine = true) :
    ∃ r, m.bytes A W = utf8 (A.header m.builder.purpose ++ '|' :: r) := by
  cases m with
  | txV1 tx p =>
    by_cases htx : tx.isEnterprise = true
    · obtain ⟨w, prompt, model, amount, nonce, ph, flag, att, rfl⟩ := TxV1.eq_enterprise htx
      exact ⟨_, rfl⟩
    · rw [Bool.not_eq_true] at htx
      simp only [builder, htx, bytes, Auth.txV1AuthMessageBytes]
      rw [Auth.txV1AuthMessage_serialized htx]
      exact ⟨_, rfl⟩
  | siteEdit e p => exact ⟨(e.position W).tail ++ _, rfl⟩
  | stake w amount nonce p => cases h
  | listing l p => cases h
  | agentPayload ty payload => cases h
  | _ => exact ⟨_, rfl⟩

/-- A message of `pae` has the chain as its first fields. -/
theorem bytes_pae (h : m.builder.isPae = true) :
    ∃ fields, m.bytes A W =
      pae m.builder.purpose (utf8 A.chainId :: utf8 A.genesisHash :: fields) := by
  cases m with
  | listing l p => exact ⟨_, rfl⟩
  | agentPayload ty payload => exact ⟨_, rfl⟩
  | txV1 tx p =>
    simp only [builder] at h
    split at h <;> cases h
  | _ => cases h

/-- Every message starts with what it is for. -/
theorem bytes_start (m : AuthMessage) : ∃ r, m.bytes A W = utf8 m.builder.purpose ++ r := by
  rcases hb : m.builder with _ | _ | _ | _ | _ | _ | _ | _ | _ | _ | _ | _ | _ | _ | _ | _
  case stake =>
    cases m with
    | stake w amount nonce p =>
      exact ⟨_, utf8_append "tet stake hybrid v1".toList ('|' :: _)⟩
    | txV1 tx p =>
      simp only [builder] at hb
      split at hb <;> cases hb
    | _ => cases hb
  case listing | agentPayload =>
    obtain ⟨fields, h⟩ := bytes_pae (A := A) (W := W) (m := m) (by rw [hb]; rfl)
    rw [h, hb]
    exact ⟨_, List.append_assoc _ _ _⟩
  all_goals
    obtain ⟨r, h⟩ := bytes_line (A := A) (W := W) (m := m) (by rw [hb]; rfl)
    rw [h, hb]
    simp only [Auth.header, utf8_append, List.append_assoc]
    exact ⟨_, rfl⟩

/-- **Messages of different builders differ**, whatever the chains. -/
theorem bytes_ne (h : m.builder ≠ m'.builder) : m.bytes A W ≠ m'.bytes A' W := by
  intro heq
  obtain ⟨r, hr⟩ := bytes_start (A := A) (W := W) m
  obtain ⟨r', hr'⟩ := bytes_start (A := A') (W := W) m'
  have hpre : utf8 m.builder.purpose <+: m.bytes A W := ⟨r, hr.symm⟩
  have hpre' : utf8 m'.builder.purpose <+: m.bytes A W := ⟨r', by rw [heq, hr']⟩
  rcases List.prefix_or_prefix_of_prefix hpre hpre' with hle | hle
  · exact h (purposes_apart _ _ hle)
  · exact h (purposes_apart _ _ hle).symm

end AuthMessage

/-! ## Messages name the chain -/

/-- The chain an `Auth` is set up for. -/
structure Auth.Configured (A : Auth) : Prop where
  /-- `TET_CHAIN_ID` holds no bar. -/
  chainId_plain : '|' ∉ A.chainId
  /-- The genesis hash is `0x` and 64 hex digits. -/
  genesisHash_hex : ∃ s, isHex64 s = true ∧ A.genesisHash = '0' :: 'x' :: s

/-- The genesis hash holds no bar. -/
theorem Auth.Configured.genesisHash_plain {A : Auth} (h : A.Configured) :
    '|' ∉ A.genesisHash := by
  obtain ⟨s, hs, heq⟩ := h.genesisHash_hex
  rw [isHex64, Bool.and_eq_true] at hs
  rw [heq, List.mem_cons, List.mem_cons]
  rintro (h0 | hx | hmem)
  · cases h0
  · cases hx
  · exact notMem_of_hexdigit (by decide) hs.2 hmem

/-- A header with a bar after it determines the chain. -/
theorem Auth.header_chain {A A' : Auth} {purpose r r' : Str} (hA : A.Configured)
    (hA' : A'.Configured) (h : A.header purpose ++ '|' :: r = A'.header purpose ++ '|' :: r') :
    A.chainId = A'.chainId ∧ A.genesisHash = A'.genesisHash := by
  have hcut : ∀ B : Auth, ∀ s : Str, B.header purpose ++ '|' :: s =
      purpose ++ ("|chain_id=".toList ++ (B.chainId ++ '|' :: ("genesis_hash=".toList ++
        (B.genesisHash ++ '|' :: s)))) := by
    intro B s
    simp only [Auth.header, List.append_assoc]
    rfl
  rw [hcut, hcut] at h
  obtain ⟨hchain, hrest⟩ := Auth.header_cut _ hA.chainId_plain hA'.chainId_plain h
  obtain ⟨hgenesis, -⟩ := cut_unique hA.genesisHash_plain hA'.genesisHash_plain
    (List.append_cancel_left hrest)
  exact ⟨hchain, hgenesis⟩

/-- The digits of a number are no blank. -/
theorem space_notMem_decimal (n : Nat) : (32 : UInt8) ∉ utf8 (Json.decimal n) := by
  intro hmem
  obtain ⟨c, hc, hbyte⟩ := List.mem_flatMap.mp hmem
  have hdigit := Json.decimal_digits c hc
  have hrange : 48 ≤ c.toNat ∧ c.toNat ≤ 57 := by
    simp only [Char.isDigit, Bool.and_eq_true, decide_eq_true_eq, ge_iff_le] at hdigit
    exact hdigit
  refine ascii_byte_notMem (by omega) ?_ hbyte
  have hblank : (32 : UInt8).toNat = 32 := rfl
  omega

/-- A field of `pae` determines its bytes and where it ends. -/
theorem paeField_cut {f g r s : Bytes}
    (h : utf8 (Json.decimal f.length) ++ utf8 [' '] ++ f ++ utf8 [' '] ++ r =
      utf8 (Json.decimal g.length) ++ utf8 [' '] ++ g ++ utf8 [' '] ++ s) : f = g ∧ r = s := by
  have hblank : utf8 [' '] = [32] := rfl
  simp only [hblank, List.append_assoc, List.singleton_append] at h
  obtain ⟨hlen, hrest⟩ := cut_unique (space_notMem_decimal _) (space_notMem_decimal _) h
  have hlen : f.length = g.length := Json.decimal_injective (utf8_injective hlen)
  obtain ⟨hfield, hrest⟩ := List.append_inj hrest hlen
  exact ⟨hfield, (List.cons.inj hrest).2⟩

/-- The first fields of two messages of `pae` for one domain agree when the messages do. -/
theorem pae_head {domain : Str} {f g : Bytes} {fs gs : List Bytes}
    (h : pae domain (f :: fs) = pae domain (g :: gs)) :
    f = g ∧ pae domain fs = pae domain gs := by
  simp only [pae, List.flatMap_cons] at h
  obtain ⟨hfield, hrest⟩ := paeField_cut (List.append_cancel_left h)
  exact ⟨hfield, congrArg (utf8 domain ++ utf8 [' '] ++ ·) hrest⟩

/-- The messages of a builder name the chain: two chains, two messages. -/
def Builder.NamesChain (W : World) (b : Builder) : Prop :=
  ∀ A A' : Auth, A.Configured → A'.Configured →
    (A.chainId ≠ A'.chainId ∨ A.genesisHash ≠ A'.genesisHash) →
    ∀ m m' : AuthMessage, m.builder = b → m'.builder = b → m.bytes A W ≠ m'.bytes A' W

theorem Builder.namesChain_of_line {W : World} {b : Builder} (h : b.isLine = true) :
    b.NamesChain W := by
  rintro A A' hA hA' hne m m' rfl hb heq
  obtain ⟨r, hr⟩ := AuthMessage.bytes_line (A := A) (W := W) h
  obtain ⟨r', hr'⟩ := AuthMessage.bytes_line (A := A') (W := W) (m := m') (by rw [hb, h])
  rw [hr, hr', hb] at heq
  obtain ⟨hchain, hgenesis⟩ := Auth.header_chain hA hA' (utf8_injective heq)
  rcases hne with hne | hne
  · exact hne hchain
  · exact hne hgenesis

theorem Builder.namesChain_of_pae {W : World} {b : Builder} (h : b.isPae = true) :
    b.NamesChain W := by
  rintro A A' - - hne m m' rfl hb heq
  obtain ⟨fields, hr⟩ := AuthMessage.bytes_pae (A := A) (W := W) h
  obtain ⟨fields', hr'⟩ := AuthMessage.bytes_pae (A := A') (W := W) (m := m') (by rw [hb, h])
  rw [hr, hr', hb] at heq
  obtain ⟨hchain, heq⟩ := pae_head heq
  obtain ⟨hgenesis, -⟩ := pae_head heq
  rcases hne with hne | hne
  · exact hne (utf8_injective hchain)
  · exact hne (utf8_injective hgenesis)

/-- The message of a stake is the same on every chain. -/
theorem AuthMessage.stake_bytes (A A' : Auth) (W : World) (w : Str) (amount nonce : Nat) (p : Str) :
    (AuthMessage.stake w amount nonce p).bytes A W =
      (AuthMessage.stake w amount nonce p).bytes A' W := rfl

theorem stake_not_namesChain (W : World) : ¬ Builder.NamesChain W .stake := by
  intro h
  refine h { Sample.auth with genesisHash := '0' :: 'x' :: Sample.alice }
    { Sample.auth with genesisHash := '0' :: 'x' :: Sample.bob } ?_ ?_ (Or.inr (by decide))
    (.stake [] 0 0 []) (.stake [] 0 0 []) rfl rfl (AuthMessage.stake_bytes _ _ W _ _ _ _)
  · exact ⟨by decide, _, by decide, rfl⟩
  · exact ⟨by decide, _, by decide, rfl⟩

/-- **Messages are kept apart** by what they are for, and by the chain unless they are of stakes. -/
theorem auth_messages_apart (W : World) :
    (∀ A A' : Auth, ∀ m m' : AuthMessage, m.builder ≠ m'.builder →
      m.bytes A W ≠ m'.bytes A' W) ∧
      ∀ b : Builder, b.NamesChain W ↔ b ≠ .stake := by
  refine ⟨fun A A' m m' => AuthMessage.bytes_ne, fun b => ⟨?_, fun hne => ?_⟩⟩
  · rintro h rfl
    exact stake_not_namesChain W h
  · by_cases hpae : b.isPae = true
    · exact Builder.namesChain_of_pae hpae
    · refine Builder.namesChain_of_line ?_
      cases b with
      | stake => exact absurd rfl hne
      | listing => exact absurd rfl hpae
      | agentPayload => exact absurd rfl hpae
      | _ => rfl

namespace Sample

/-- A test network and the main network. -/
def testnetAuth : Auth :=
  { auth with chainId := "tet-testnet-1".toList, genesisHash := '0' :: 'x' :: wallet '1' }

def mainnetAuth : Auth :=
  { auth with chainId := "tet-mainnet-1".toList, genesisHash := '0' :: 'x' :: wallet '2' }

end Sample

/-- What `alice` signs to stake on the test network is what she signs on the main network. -/
theorem stake_message_replayed :
    Sample.testnetAuth.Configured ∧ Sample.mainnetAuth.Configured ∧
      Sample.testnetAuth.chainId ≠ Sample.mainnetAuth.chainId ∧
      Sample.testnetAuth.genesisHash ≠ Sample.mainnetAuth.genesisHash ∧
      (AuthMessage.stake Sample.alice 1000 1 "bWxkc2E".toList).bytes Sample.testnetAuth
          (World.sample 0) =
        (AuthMessage.stake Sample.alice 1000 1 "bWxkc2E".toList).bytes Sample.mainnetAuth
          (World.sample 0) := by
  refine ⟨⟨by decide, _, ?_, rfl⟩, ⟨by decide, _, ?_, rfl⟩, by decide, by decide,
    AuthMessage.stake_bytes _ _ _ _ _ _ _⟩
  · decide
  · decide

end TetCore
