import TetCore.Consensus.Block
import TetCore.Mempool.Admission
import TetCore.Tmail.Membership
import TetCore.Tmail.Shelter

/-!
# The welcome grant

`GrantPayer` of `grants.rs`: `decide` checks a claim and signs the transfer, `commit` records it once
it is in the mempool. A claim carries a membership proof made out to the grant, so a registered member
has one nullifier; the transfer goes to the wallet the claim names.

What the payer takes from outside is in `GrantPayer`: the signature and proof checks, the signing key.

* `decide_ok`: what a claim that is granted has passed.
-/

namespace TetCore.Payouts

open TetCore.Lib TetCore.Tmail

/-- `WELCOME_AMOUNT_MICRO`: 100 TET. -/
def welcomeAmountMicro : Nat := 100000000

/-- `WELCOME_CAP`. -/
def welcomeCap : Nat := 1000

/-- `PAYER_FLOOR_MICRO`: 10 TET. -/
def payerFloorMicro : Nat := 10000000

/-- `CLAIM_SKEW_MS`. -/
def claimSkewMs : Nat := 10 * 60000

/-- What arrives of a transfer at the lowest rate. -/
def transferNet (amountMicro : Nat) : Nat :=
  match charge (.transfer transferFeeBpsMin) amountMicro with
  | .ok s => s.netMicro
  | .error _ => 0

/-- The loop of `welcome_transfer_micro`. -/
def welcomeTransferLoop : Nat → Nat → Nat
  | 0, g => g
  | fuel + 1, g => if welcomeAmountMicro ≤ transferNet g then g else welcomeTransferLoop fuel (g + 1)

/-- `welcome_transfer_micro`: the smallest amount from the quotient on of which the grant arrives. -/
def welcomeTransferMicro : Nat :=
  welcomeTransferLoop 1 (welcomeAmountMicro * 10000 / (10000 - transferFeeBpsMin))

/-- The loop ends at its first amount, and the grant arrives. -/
theorem welcomeTransferMicro_net :
    welcomeTransferMicro = welcomeAmountMicro * 10000 / (10000 - transferFeeBpsMin) ∧
      transferNet welcomeTransferMicro = welcomeAmountMicro := by decide +kernel

/-- `GrantClaimV1`. -/
structure GrantClaimV1 where
  v : Nat
  kind : Str
  grant : Str
  payoutWallet : Str
  receiptSha256Hex : Str
  journalB64 : Str
  imageIdHex : Str
  claimedAtMs : Nat
  hybridSig : TmailHybridSig
  deriving DecidableEq

/-- `GrantRefusal`. -/
inductive GrantRefusal where
  | off
  | badRequest (why : String)
  | badSignature
  | stale
  | noReceipt
  | proofFailed (why : String)
  | notThisGrant
  | rootUnknown
  | alreadyClaimed
  | walletAlreadyGranted
  | capReached
  | payerLow
  | submit (why : String)
  deriving DecidableEq

/-- `Claimed`. -/
structure Claimed where
  payoutWallet : Str
  txHash : Option Str
  grantedAtMs : Nat
  deriving DecidableEq

/-- The trees of the payer: nullifiers, paid wallets, and the counter of `grants_meta_v1`. -/
structure GrantRecords where
  claims : Tree Str Claimed
  paid : Tree Str Str
  granted : Nat

/-- A new database. -/
def GrantRecords.new : GrantRecords := ⟨Tree.empty, Tree.empty, 0⟩

/-- `GrantCommit`. -/
structure GrantCommit where
  nullifierHex : Str
  payoutWallet : Str
  txHash : Option Str
  nowMs : Nat
  deriving DecidableEq

/-- The grant wallet, and what the payer takes from outside. -/
structure GrantPayer where
  auth : Auth
  world : World
  walletId : Str
  /-- `sign_transfer`: the signatures of the grant wallet on a transaction. -/
  sign : TxV1 → Except String HybridSigV1
  /-- `STANDARD.encode`. -/
  b64Encode : Bytes → Str
  /-- `anon_program_accepted`, on the words of an image id. -/
  anonProgramAccepted : List Nat → Bool
  /-- `verify_tx_receipt_and_journal`: the membership journal, if the receipt proves one. -/
  verifyTmailAnon : List Nat → Str → Str → Except String (Option TmailAnonMembershipV1)

/-- What a decision reads of the Tmail store: the deposited receipts and the anonymity set. -/
structure GrantStore where
  vars : Vars
  anonReceipts : Tree Str Bytes
  anon : AnonStore

/-- `pae` (`agent.rs`). -/
def pae (domain : Str) (fields : List Bytes) : Bytes :=
  utf8 domain ++ utf8 [' '] ++
    fields.flatMap fun f => utf8 (Json.decimal f.length) ++ utf8 [' '] ++ f ++ utf8 [' ']

/-- `claim_auth_message_bytes`. -/
def claimAuthMessageBytes (A : Auth) (c : GrantClaimV1) (mldsaPubkeyB64 : Str) : Bytes :=
  pae "tet grant claim v1".toList [utf8 A.chainId, utf8 A.genesisHash, utf8 c.grant,
    utf8 (trimLower c.payoutWallet), utf8 (trimLower c.receiptSha256Hex),
    utf8 (Json.decimal c.claimedAtMs), utf8 (trim mldsaPubkeyB64)]

/-- `welcome_receiver_hex`. -/
def welcomeReceiverHex (W : World) : Str := W.sha256Hex (utf8 "tet grant welcome v1".toList)

/-- `u32::from_le_bytes` on each four bytes. -/
def leWords : Bytes → List Nat
  | a :: b :: c :: d :: rest =>
    (a.toNat + 256 * b.toNat + 65536 * c.toNat + 16777216 * d.toNat) :: leWords rest
  | _ => []

/-- `decode_image_id_hex`. -/
def decodeImageIdHex (s : Str) : Option (List Nat) :=
  ((hexDecode (trim s)).filter fun b => b.length == 32).map leWords

section Payer

variable (P : GrantPayer)

/-- `sign_transfer`. -/
def GrantPayer.signTransfer (payout : Str) : Except String SignedTxEnvelopeV1 := do
  let sig ← P.sign (.transfer P.walletId payout welcomeTransferMicro transferFeeBpsMin)
  .ok ⟨1, .transfer P.walletId payout welcomeTransferMicro transferFeeBpsMin, sig, ⟨[], []⟩⟩

/-- `decide_journal`. -/
def GrantPayer.decideJournal (G : GrantRecords) (journal : TmailAnonMembershipV1)
    (signer payout : Str) (store : GrantStore) (nowMs payerSpendableMicro : Nat) :
    Except GrantRefusal (SignedTxEnvelopeV1 × GrantCommit) := do
  require (hexEncode journal.ephemeralPubkeyBytes = signer) .badSignature
  require (hexEncode journal.receiverWalletBytes = welcomeReceiverHex P.world ∧
    journal.bucketIndex = 0) .notThisGrant
  require ((acceptsAnonRoot store.vars P.world nowMs journal.merkleRoot (bucketIndex nowMs)
    store.anon).1 = true) .rootUnknown
  let nullifierHex := hexEncode journal.nullifier
  require ((G.claims.get nullifierHex).isSome = false) .alreadyClaimed
  require ((G.paid.get payout).isSome = false) .walletAlreadyGranted
  require (G.granted < welcomeCap) .capReached
  require (satAdd payerFloorMicro welcomeTransferMicro ≤ payerSpendableMicro) .payerLow
  let env ← (P.signTransfer payout).mapError .submit
  .ok (env, ⟨nullifierHex, payout, (txHashForEnv P.world env).toOption, nowMs⟩)

/-- `GrantPayer::decide`. -/
def GrantPayer.decide (G : GrantRecords) (c : GrantClaimV1) (store : GrantStore)
    (nowMs payerSpendableMicro : Nat) :
    Except GrantRefusal (SignedTxEnvelopeV1 × GrantCommit) := do
  require (c.v = 1 ∧ c.kind = "tet_grant_claim_v1".toList ∧ c.grant = "welcome".toList)
    (.badRequest "unsupported claim")
  let payout := trimLower c.payoutWallet
  require (isHex64 payout = true) (.badRequest "payout_wallet must be 64 hex")
  require (payout ≠ P.walletId) (.badRequest "the grant wallet can't pay itself")
  let signer := trimLower c.hybridSig.ed25519PubkeyHex
  (verifyHybrid P.auth signer c.hybridSig
    (claimAuthMessageBytes P.auth c c.hybridSig.mldsaPubkeyB64)).mapError fun _ => .badSignature
  require (absDiff c.claimedAtMs nowMs ≤ claimSkewMs) .stale
  match store.anonReceipts.get (trimLower c.receiptSha256Hex) with
  | none => .error .noReceipt
  | some receipt => do
    require (eqIgnoreAsciiCase (P.world.sha256Hex receipt) (trim c.receiptSha256Hex) = true)
      (.proofFailed "the receipt doesn't match its hash")
    match decodeImageIdHex c.imageIdHex with
    | none => .error (.proofFailed "malformed image id")
    | some imageId => do
      require (P.anonProgramAccepted imageId = true)
        (.proofFailed "proof from an unrecognised proving program")
      match P.verifyTmailAnon imageId (trim c.journalB64) (P.b64Encode receipt) with
      | .error e => .error (.proofFailed e)
      | .ok none => .error (.proofFailed "the receipt proves something else")
      | .ok (some journal) =>
        P.decideJournal G journal signer payout store nowMs payerSpendableMicro

end Payer

/-- `GrantPayer::commit`. -/
def GrantRecords.commit (G : GrantRecords) (g : GrantCommit) : GrantRecords where
  claims := G.claims.insert g.nullifierHex ⟨g.payoutWallet, g.txHash, g.nowMs⟩
  paid := G.paid.insert g.payoutWallet g.nullifierHex
  granted := satAdd G.granted 1

section Decisions

variable {P : GrantPayer} {G : GrantRecords} {c : GrantClaimV1} {store : GrantStore}
  {nowMs spendable : Nat} {env : SignedTxEnvelopeV1} {g : GrantCommit}

/-- What a grant has passed: the nullifier and the wallet are new, the cap is not reached, the payer
stays above its floor; and the transfer is the grant to that wallet. -/
structure Granted (P : GrantPayer) (G : GrantRecords) (spendable : Nat) (env : SignedTxEnvelopeV1)
    (g : GrantCommit) : Prop where
  nullifier : G.claims.get g.nullifierHex = none
  wallet : G.paid.get g.payoutWallet = none
  cap : G.granted < welcomeCap
  floor : payerFloorMicro + welcomeTransferMicro ≤ spendable
  transfer : env.tx = .transfer P.walletId g.payoutWallet welcomeTransferMicro transferFeeBpsMin

theorem signTransfer_tx {payout : Str} (h : P.signTransfer payout = .ok env) :
    env.tx = .transfer P.walletId payout welcomeTransferMicro transferFeeBpsMin := by
  simp only [GrantPayer.signTransfer, bind_eq_ok] at h
  obtain ⟨sig, -, h⟩ := h
  cases h
  rfl

theorem decideJournal_ok {journal : TmailAnonMembershipV1} {signer payout : Str}
    (h : P.decideJournal G journal signer payout store nowMs spendable = .ok (env, g)) :
    Granted P G spendable env g := by
  simp only [GrantPayer.decideJournal, bind_eq_ok, require_eq_ok] at h
  obtain ⟨-, -, -, -, -, -, -, hclaims, -, hpaid, -, hcap, -, hfloor, env', hsign, h⟩ := h
  cases h
  have hsum : satAdd payerFloorMicro welcomeTransferMicro =
      payerFloorMicro + welcomeTransferMicro := by decide +kernel
  rw [hsum] at hfloor
  refine ⟨Option.isSome_eq_false_iff.mp hclaims |> Option.isNone_iff_eq_none.mp,
    Option.isSome_eq_false_iff.mp hpaid |> Option.isNone_iff_eq_none.mp, hcap, hfloor, ?_⟩
  cases hs : P.signTransfer payout with
  | error e =>
    rw [hs] at hsign
    cases hsign
  | ok env' =>
    rw [hs] at hsign
    cases hsign
    exact signTransfer_tx hs

/-- **A claim that is granted** has passed every check. -/
theorem decide_ok (h : P.decide G c store nowMs spendable = .ok (env, g)) :
    Granted P G spendable env g := by
  simp only [GrantPayer.decide, bind_eq_ok, require_eq_ok] at h
  obtain ⟨-, -, -, -, -, -, -, -, -, -, h⟩ := h
  split at h
  · cases h
  · simp only [bind_eq_ok, require_eq_ok] at h
    obtain ⟨-, -, h⟩ := h
    split at h
    · cases h
    · simp only [bind_eq_ok, require_eq_ok] at h
      obtain ⟨-, -, h⟩ := h
      split at h
      · cases h
      · cases h
      · exact decideJournal_ok h

end Decisions

end TetCore.Payouts
