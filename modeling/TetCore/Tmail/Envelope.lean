import TetCore.Tmail.Membership
import TetCore.Tmail.Runs
import TetCore.Tmail.Shelter

/-!
# Envelopes and what their signature covers

Model of `tmail/envelope.rs`: the whole envelope as it travels, the pre-image of its hybrid signature
and `verify_tmail_envelope_v1`. The pre-image is a text of fields separated by bars. Its message id is
free text, so the fields after it are read from the end.

The signature fixes the fields in the pre-image and leaves the others open. `Verified.altered` says
which changes to a verified envelope leave it verified, `Verified.sameSigned` what two verified
envelopes with one pre-image have in common; `signature_fixes` puts them together.

`Decoders` has what the checks take from outside: base64, and the decoding of a proof's journal.
-/

namespace TetCore.Tmail

open TetCore.Lib

/-! ## Envelopes -/

@[ext] structure TmailFlags where
  basic : Bool
  timeLock : Bool
  burnAfterRead : Bool
  anonymous : Bool
  deriving DecidableEq

structure TmailE2eeBlock where
  v : Nat
  scheme : Str
  clientEphemeralPubB64 : Str
  clientMlkemPubB64 : Str
  receiverX25519PubB64 : Str
  receiverMlkemPubB64 : Str
  mlkemCiphertextB64 : Str
  nonceB64 : Str
  ciphertextB64 : Str
  deriving DecidableEq

structure TmailTimeLock where
  releaseAtMs : Nat
  vdfProofB64 : Option Str
  deriving DecidableEq

structure TmailBurn where
  burnAfterRead : Bool
  maxReads : Option Nat
  deriving DecidableEq

/-- `TmailEnvelopeV1`, whole. -/
structure WireEnvelope where
  v : Nat
  kind : Str
  msgId : Str
  flags : TmailFlags
  senderWalletId : Str
  receiverWalletId : Str
  sentAtMs : Nat
  releaseAtMs : Nat
  ttlMs : Nat
  feePaidMicro : Nat
  pinStakeMicro : Nat
  e2ee : TmailE2eeBlock
  hybridSig : TmailHybridSig
  anonymous : Option TmailAnonymous
  timeLock : Option TmailTimeLock
  burn : Option TmailBurn
  plaintextCommitmentSha256 : Option Str
  deriving DecidableEq

/-- What the checks take from outside. -/
structure Decoders where
  /-- `STANDARD.decode`. -/
  b64Decode : Str → Option Bytes
  /-- `risc0_zkvm::serde::from_slice`: the kind of a journal and its other fields. -/
  journalFromSlice : Bytes → Option (Nat × TmailAnonMembershipV1)

inductive TmailEnvelopeError where
  | unsupportedVersion (v : Nat)
  | kind (kind : Str)
  | unsupportedFlags
  | inconsistentBurnBlock
  | invalidReleaseTime
  | unexpectedReleaseTime
  | inconsistentTimeLockBlock
  | malformedAnonymous
  | ephemeralSignerMismatch
  | inconsistentAnchorProof (what : String)
  | signerMismatch
  | invalidWalletId
  | encoding (field : String)
  | signature (e : String)

/-- `TMAIL_ENVELOPE_KIND`. -/
def tmailEnvelopeKind : Str := "tmail_envelope_v1".toList

/-- `ANONYMOUS_SENTINEL`. -/
def anonymousSentinel : Str := "anonymous".toList

/-- `TMAIL_ANON_JOURNAL_KIND`: "TAM1", little endian. -/
def tmailAnonJournalKind : Nat := 0x314D4154

/-- `SENT_AT_SKEW_MS`. -/
def sentAtSkewMs : Nat := 5 * 60000

/-! ## The pre-image -/

/-- A flag in the pre-image. -/
def flagDigit (v : Bool) : Char := if v then '1' else '0'

/-- `TmailFlags::canonical`. -/
def TmailFlags.canonical (f : TmailFlags) : Str :=
  "basic=".toList ++ flagDigit f.basic :: (",time_lock=".toList ++ flagDigit f.timeLock ::
    (",burn_after_read=".toList ++ flagDigit f.burnAfterRead ::
      (",anonymous=".toList ++ [flagDigit f.anonymous])))

section Checks

variable (A : Auth) (W : World) (D : Decoders)

/-- The ciphertext of an envelope. -/
def WireEnvelope.ciphertext (env : WireEnvelope) : Option Bytes :=
  D.b64Decode (trim env.e2ee.ciphertextB64)

/-- `payload_sha256_hex`. -/
def WireEnvelope.payloadSha256Hex (env : WireEnvelope) : Except TmailEnvelopeError Str :=
  match env.ciphertext D with
  | none => .error (.encoding "e2ee.ciphertext_b64")
  | some ct => .ok (W.sha256Hex ct)

/-- The fields of the pre-image after the message id. -/
def WireEnvelope.signedFields (env : WireEnvelope) (payload mldsaPubkeyB64 : Str) :
    List (Str × Str) :=
  [("flags=".toList, env.flags.canonical),
    ("sender=".toList, trimLower env.senderWalletId),
    ("receiver=".toList, trimLower env.receiverWalletId),
    ("release_at_ms=".toList, Json.decimal env.releaseAtMs),
    ("fee_micro=".toList, Json.decimal env.feePaidMicro),
    ("payload_sha256=".toList, payload),
    ("mldsa_pk=".toList, trim mldsaPubkeyB64)]

/-- `tmail_envelope_auth_message_bytes`. -/
def tmailEnvelopeAuthMessageBytes (env : WireEnvelope) (mldsaPubkeyB64 : Str) :
    Except TmailEnvelopeError Bytes :=
  match env.payloadSha256Hex W D with
  | .error e => .error e
  | .ok payload => .ok (utf8 (A.header "tet tmail envelope v1".toList ++ ("|msg_id=".toList ++
      joinFields '|' (trim env.msgId) (env.signedFields payload mldsaPubkeyB64))))

/-- The bytes both signatures of an envelope are over. -/
def WireEnvelope.signedBytes (env : WireEnvelope) : Except TmailEnvelopeError Bytes :=
  tmailEnvelopeAuthMessageBytes A W D env env.hybridSig.mldsaPubkeyB64

/-! ## The checks -/

/-- `verify_anchor_proof_consistency`. -/
def verifyAnchorProofConsistency (env : WireEnvelope) (proof : TmailAnchorProof)
    (ephemeral receiver : Str) : Except TmailEnvelopeError Unit :=
  match D.b64Decode (trim proof.journalB64) with
  | none => .error (.encoding "anonymous.anchor_proof.journal_b64")
  | some bytes => match D.journalFromSlice bytes with
    | none => .error (.inconsistentAnchorProof "journal does not decode")
    | some (journalKind, journal) =>
      if journalKind ≠ tmailAnonJournalKind then
        .error (.inconsistentAnchorProof "wrong journal kind")
      else match (hexDecode ephemeral).filter (·.length = 32) with
        | none => .error .invalidWalletId
        | some eph =>
          if journal.ephemeralPubkeyBytes ≠ eph then
            .error (.inconsistentAnchorProof "journal ephemeral does not match the signer")
          else match (hexDecode receiver).filter (·.length = 32) with
            | none => .error .invalidWalletId
            | some rx =>
              if journal.receiverWalletBytes ≠ rx then
                .error (.inconsistentAnchorProof "journal receiver does not match the envelope")
              else if journal.bucketIndex ≠ bucketIndex env.sentAtMs then
                .error (.inconsistentAnchorProof "journal bucket does not match sent_at_ms")
              else if ((hexDecode (trim proof.receiptSha256Hex)).filter (·.length = 32)).isNone then
                .error (.inconsistentAnchorProof "receipt_sha256_hex must be 32 bytes of hex")
              else .ok ()

/-- Who signs an envelope: the posting key of an anonymous one, else the sender. -/
def verifySigner (env : WireEnvelope) (signer : Str) : Except TmailEnvelopeError Unit :=
  match env.anonymous with
  | some anon =>
    let ephemeral := trimLower anon.ephemeralWalletId
    if trimLower env.senderWalletId ≠ anonymousSentinel then .error .malformedAnonymous
    else if !isHex64 ephemeral then .error .invalidWalletId
    else if signer ≠ ephemeral then .error .ephemeralSignerMismatch
    else match anon.anchorProof with
      | some proof =>
        verifyAnchorProofConsistency D env proof ephemeral (trimLower env.receiverWalletId)
      | none => .ok ()
  | none =>
    if !isHex64 (trimLower env.senderWalletId) then .error .invalidWalletId
    else if signer ≠ trimLower env.senderWalletId then .error .signerMismatch
    else .ok ()

/-- The flags, the schedule and the blocks of an envelope agree. -/
def verifyFeatures (env : WireEnvelope) : Except TmailEnvelopeError Unit :=
  if !env.flags.basic then .error .unsupportedFlags
  else if env.flags.anonymous ≠ env.anonymous.isSome then .error .malformedAnonymous
  else if env.flags.timeLock && env.releaseAtMs ≤ env.sentAtMs then .error .invalidReleaseTime
  else if !env.flags.timeLock && env.releaseAtMs ≠ 0 then .error .unexpectedReleaseTime
  else if env.timeLock.any fun tl =>
      tl.releaseAtMs ≠ env.releaseAtMs || tl.vdfProofB64.isSome then
    .error .inconsistentTimeLockBlock
  else if env.burn.any fun burn =>
      burn.burnAfterRead ≠ env.flags.burnAfterRead || burn.maxReads.isSome then
    .error .inconsistentBurnBlock
  else .ok ()

/-- The error of a signature check. -/
def signatureError : Except String Unit → Except TmailEnvelopeError Unit
  | .error e => .error (.signature e)
  | .ok () => .ok ()

/-- `verify_tmail_envelope_v1`. -/
def verifyTmailEnvelopeV1 (env : WireEnvelope) : Except TmailEnvelopeError Unit :=
  let signer := trimLower env.hybridSig.ed25519PubkeyHex
  if env.v ≠ 1 then .error (.unsupportedVersion env.v)
  else if env.kind ≠ tmailEnvelopeKind then .error (.kind env.kind)
  else do
    verifyFeatures env
    if !isHex64 (trimLower env.receiverWalletId) then .error .invalidWalletId
    verifySigner D env signer
    let msg ← env.signedBytes A W D
    signatureError (verifyHybrid A signer env.hybridSig msg)

end Checks

inductive SentAtRefusal where
  | clockOff
  | anonDayChanged
  deriving DecidableEq

/-- `check_sent_at`. -/
def checkSentAt (flagAnonymous : Bool) (sentAtMs nowMs : Nat) : Except SentAtRefusal Unit :=
  if sentAtSkewMs < (sentAtMs - nowMs) + (nowMs - sentAtMs) then .error .clockOff
  else if flagAnonymous && bucketIndex sentAtMs ≠ bucketIndex nowMs then .error .anonDayChanged
  else .ok ()

/-! ## A verified envelope -/

theorem bind_eq_ok {ε α β : Type} {x : Except ε α} {f : α → Except ε β} {b : β} :
    (x >>= f) = .ok b ↔ ∃ a, x = .ok a ∧ f a = .ok b := by
  cases x with
  | error e =>
    constructor
    · intro h
      cases h
    · rintro ⟨a, ha, -⟩
      cases ha
  | ok a =>
    constructor
    · exact fun h => ⟨a, rfl, h⟩
    · rintro ⟨a', ha, h⟩
      cases ha
      exact h

theorem eq_ok_of_isOk {ε : Type} {x : Except ε Unit} (h : x.isOk = true) : x = .ok () := by
  cases x with
  | error e => cases h
  | ok u => rfl

section Verified

variable {A : Auth} {W : World} {D : Decoders} {env env' : WireEnvelope} {msg : Bytes}

/-- What the checks ask of an envelope whose pre-image is `msg`. -/
structure Verified (A : Auth) (W : World) (D : Decoders) (env : WireEnvelope) (msg : Bytes) :
    Prop where
  version : env.v = 1
  kind : env.kind = tmailEnvelopeKind
  features : verifyFeatures env = .ok ()
  receiver : isHex64 (trimLower env.receiverWalletId) = true
  signer : verifySigner D env (trimLower env.hybridSig.ed25519PubkeyHex) = .ok ()
  message : env.signedBytes A W D = .ok msg
  signed : verifyHybrid A (trimLower env.hybridSig.ed25519PubkeyHex) env.hybridSig msg = .ok ()

theorem verifyTmailEnvelopeV1_ok :
    verifyTmailEnvelopeV1 A W D env = .ok () ↔ ∃ msg, Verified A W D env msg := by
  unfold verifyTmailEnvelopeV1
  simp only
  constructor
  · intro h
    by_cases hv : env.v = 1
    case neg =>
      rw [if_pos hv] at h
      cases h
    rw [if_neg (not_not_intro hv)] at h
    by_cases hkind : env.kind = tmailEnvelopeKind
    case neg =>
      rw [if_pos hkind] at h
      cases h
    rw [if_neg (not_not_intro hkind)] at h
    obtain ⟨⟨⟩, hfeatures, h⟩ := bind_eq_ok.mp h
    by_cases hreceiver : isHex64 (trimLower env.receiverWalletId) = true
    case neg =>
      rw [Bool.not_eq_true] at hreceiver
      rw [hreceiver] at h
      cases h
    rw [hreceiver] at h
    obtain ⟨⟨⟩, hsigner, h⟩ := bind_eq_ok.mp h
    obtain ⟨msg, hmsg, h⟩ := bind_eq_ok.mp h
    cases hsig : verifyHybrid A (trimLower env.hybridSig.ed25519PubkeyHex) env.hybridSig msg with
    | error e =>
      rw [hsig] at h
      cases h
    | ok u => exact ⟨msg, hv, hkind, hfeatures, hreceiver, hsigner, hmsg, hsig⟩
  · rintro ⟨msg, h⟩
    rw [if_neg (not_not_intro h.version), if_neg (not_not_intro h.kind), h.features, h.receiver,
      h.signer, h.message]
    show signatureError (verifyHybrid A _ env.hybridSig msg) = .ok ()
    rw [h.signed]
    rfl

/-! ## What the signature leaves open -/

/-- The envelope with another time, lifetime and key material for its ciphertext. -/
def WireEnvelope.altered (env : WireEnvelope) (sentAtMs ttlMs : Nat) (e2ee : TmailE2eeBlock) :
    WireEnvelope :=
  { env with sentAtMs := sentAtMs, ttlMs := ttlMs, e2ee := e2ee }

/-- The time goes with the schedule, and with the day of a proof. -/
def WireEnvelope.Allows (env : WireEnvelope) (sentAtMs : Nat) : Prop :=
  (env.flags.timeLock = true → sentAtMs < env.releaseAtMs) ∧
    (bucketIndex sentAtMs = bucketIndex env.sentAtMs ∨ env.anonymous.bind (·.anchorProof) = none)

theorem verifyFeatures_altered {sentAtMs ttlMs : Nat} {e2ee : TmailE2eeBlock}
    (hallows : env.Allows sentAtMs) (h : verifyFeatures env = .ok ()) :
    verifyFeatures (env.altered sentAtMs ttlMs e2ee) = .ok () := by
  have hlock : (env.flags.timeLock && decide (env.releaseAtMs ≤ sentAtMs)) = false := by
    cases htl : env.flags.timeLock with
    | false => rfl
    | true => simpa using hallows.1 htl
  unfold verifyFeatures at h
  unfold verifyFeatures WireEnvelope.altered
  simp only [hlock, Bool.false_eq_true, if_false]
  by_cases hbasic : (!env.flags.basic) = true
  · rw [if_pos hbasic] at h
    cases h
  rw [if_neg hbasic] at h ⊢
  by_cases hanon : env.flags.anonymous ≠ env.anonymous.isSome
  · rw [if_pos hanon] at h
    cases h
  rw [if_neg hanon] at h ⊢
  by_cases hnow : (env.flags.timeLock && decide (env.releaseAtMs ≤ env.sentAtMs)) = true
  · rw [if_pos hnow] at h
    cases h
  rw [if_neg hnow] at h
  exact h

theorem verifyAnchorProofConsistency_altered {sentAtMs ttlMs : Nat} {e2ee : TmailE2eeBlock}
    (hday : bucketIndex sentAtMs = bucketIndex env.sentAtMs) (proof : TmailAnchorProof)
    (ephemeral receiver : Str) :
    verifyAnchorProofConsistency D (env.altered sentAtMs ttlMs e2ee) proof ephemeral receiver =
      verifyAnchorProofConsistency D env proof ephemeral receiver := by
  have hsent : (env.altered sentAtMs ttlMs e2ee).sentAtMs = sentAtMs := rfl
  unfold verifyAnchorProofConsistency
  rw [hsent, hday]

theorem verifySigner_altered {sentAtMs ttlMs : Nat} {e2ee : TmailE2eeBlock} {signer : Str}
    (hallows : env.Allows sentAtMs) (h : verifySigner D env signer = .ok ()) :
    verifySigner D (env.altered sentAtMs ttlMs e2ee) signer = .ok () := by
  have hsender : (env.altered sentAtMs ttlMs e2ee).senderWalletId = env.senderWalletId := rfl
  have hreceiver : (env.altered sentAtMs ttlMs e2ee).receiverWalletId = env.receiverWalletId := rfl
  have hsame : (env.altered sentAtMs ttlMs e2ee).anonymous = env.anonymous := rfl
  rw [← h]
  unfold verifySigner
  rw [hsame, hsender, hreceiver]
  cases hanon : env.anonymous with
  | none => rfl
  | some anon =>
    cases hproof : anon.anchorProof with
    | none => simp only [hproof]
    | some proof =>
      have hday : bucketIndex sentAtMs = bucketIndex env.sentAtMs := by
        refine hallows.2.resolve_right ?_
        rw [hanon, Option.bind_some, hproof]
        exact Option.some_ne_none proof
      simp only [hproof, verifyAnchorProofConsistency_altered hday]

/-- **What is left open**: a verified envelope may come with any lifetime and key material, and any
time its schedule and its proof allow. -/
theorem Verified.altered (h : Verified A W D env msg) {sentAtMs ttlMs : Nat}
    {e2ee : TmailE2eeBlock} (hallows : env.Allows sentAtMs)
    (hct : e2ee.ciphertextB64 = env.e2ee.ciphertextB64) :
    Verified A W D (env.altered sentAtMs ttlMs e2ee) msg := by
  refine ⟨h.version, h.kind, verifyFeatures_altered hallows h.features, h.receiver,
    verifySigner_altered hallows h.signer, ?_, h.signed⟩
  rw [← h.message]
  unfold WireEnvelope.signedBytes tmailEnvelopeAuthMessageBytes WireEnvelope.payloadSha256Hex WireEnvelope.ciphertext
    WireEnvelope.altered
  rw [hct]
  rfl

/-! ## What the signature fixes -/

theorem flagDigit_injective {v w : Bool} (h : flagDigit v = flagDigit w) : v = w := by
  cases v <;> cases w <;> first | rfl | cases h

theorem canonical_injective {f g : TmailFlags} (h : f.canonical = g.canonical) : f = g := by
  obtain ⟨hbasic, h⟩ := List.cons.inj (List.append_cancel_left h)
  obtain ⟨hlock, h⟩ := List.cons.inj (List.append_cancel_left h)
  obtain ⟨hburn, h⟩ := List.cons.inj (List.append_cancel_left h)
  obtain ⟨hanon, -⟩ := List.cons.inj (List.append_cancel_left h)
  exact TmailFlags.ext (flagDigit_injective hbasic) (flagDigit_injective hlock)
    (flagDigit_injective hburn) (flagDigit_injective hanon)

theorem notMem_canonical (f : TmailFlags) : '|' ∉ f.canonical := by
  have hall : ∀ a b c d, '|' ∉ (TmailFlags.mk a b c d).canonical := by decide
  exact hall _ _ _ _

theorem notMem_trimLower {s : Str} (h : isHex64 (trimLower s) = true) : '|' ∉ trimLower s :=
  notMem_of_hexdigit rfl (Bool.and_eq_true_iff.mp h).2

/-- The sender of a verified envelope is a wallet or the sentinel. -/
theorem Verified.sender (h : Verified A W D env msg) : '|' ∉ trimLower env.senderWalletId := by
  have hsigner := h.signer
  unfold verifySigner at hsigner
  cases hanon : env.anonymous with
  | none =>
    rw [hanon] at hsigner
    simp only at hsigner
    by_cases hhex : isHex64 (trimLower env.senderWalletId) = true
    · exact notMem_trimLower hhex
    · rw [if_pos (by simpa using hhex)] at hsigner
      cases hsigner
  | some anon =>
    rw [hanon] at hsigner
    simp only at hsigner
    by_cases hsentinel : trimLower env.senderWalletId = anonymousSentinel
    · rw [hsentinel]
      decide
    · rw [if_pos hsentinel] at hsigner
      cases hsigner

/-- The pre-image of a verified envelope. -/
theorem Verified.preimage (h : Verified A W D env msg) : ∃ ct, env.ciphertext D = some ct ∧
    msg = utf8 (A.header "tet tmail envelope v1".toList ++ ("|msg_id=".toList ++
      joinFields '|' (trim env.msgId)
        (env.signedFields (W.sha256Hex ct) env.hybridSig.mldsaPubkeyB64))) := by
  have hmsg := h.message
  unfold WireEnvelope.signedBytes tmailEnvelopeAuthMessageBytes WireEnvelope.payloadSha256Hex at hmsg
  cases hct : env.ciphertext D with
  | none =>
    rw [hct] at hmsg
    cases hmsg
  | some ct =>
    rw [hct] at hmsg
    exact ⟨ct, rfl, (Except.ok.inj hmsg).symm⟩

/-- No field after the message id has the separator. -/
theorem Verified.plain (hA : A.Lawful) (h : Verified A W D env msg) (b : Bytes) :
    ∀ f ∈ env.signedFields (W.sha256Hex b) env.hybridSig.mldsaPubkeyB64, '|' ∉ f.2 := by
  have hkey : '|' ∉ trim env.hybridSig.mldsaPubkeyB64 := by
    obtain ⟨⟨⟩, -, hmldsa⟩ := bind_eq_ok.mp h.signed
    exact hA.mldsa_base64 _ _ _ hmldsa
  have hdecimal : ∀ n, '|' ∉ Json.decimal n := fun n => Json.notMem_decimal rfl
  intro f hf
  unfold WireEnvelope.signedFields at hf
  simp only [List.mem_cons, List.not_mem_nil, or_false] at hf
  rcases hf with rfl | rfl | rfl | rfl | rfl | rfl | rfl
  · exact notMem_canonical _
  · exact h.sender
  · exact notMem_trimLower h.receiver
  · exact hdecimal _
  · exact hdecimal _
  · exact notMem_of_hexdigit rfl (hexEncode_all _)
  · exact hkey

/-- The fields the signature covers. -/
structure SameSigned (D : Decoders) (env env' : WireEnvelope) : Prop where
  msgId : trim env.msgId = trim env'.msgId
  flags : env.flags = env'.flags
  sender : trimLower env.senderWalletId = trimLower env'.senderWalletId
  receiver : trimLower env.receiverWalletId = trimLower env'.receiverWalletId
  releaseAtMs : env.releaseAtMs = env'.releaseAtMs
  feePaidMicro : env.feePaidMicro = env'.feePaidMicro
  ciphertext : env.ciphertext D = env'.ciphertext D

/-- The block with which a receiver decrypts the ciphertext, but for the ciphertext. -/
def TmailE2eeBlock.keys (e2ee : TmailE2eeBlock) : TmailE2eeBlock := { e2ee with ciphertextB64 := [] }

/-- The fields the signature leaves open. -/
structure SameOpen (env env' : WireEnvelope) : Prop where
  sentAtMs : env.sentAtMs = env'.sentAtMs
  ttlMs : env.ttlMs = env'.ttlMs
  keys : env.e2ee.keys = env'.e2ee.keys

/-- What nodes act on, and what a receiver decrypts. -/
structure SameActedOn (D : Decoders) (env env' : WireEnvelope) : Prop
    extends SameSigned D env env' where
  sentAtMs : env.sentAtMs = env'.sentAtMs
  ttlMs : env.ttlMs = env'.ttlMs
  keys : env.e2ee.keys = env'.e2ee.keys

/-- **What is fixed**: verified envelopes with one pre-image agree in the signed fields, when SHA-256
has no collision between their ciphertexts. -/
theorem Verified.sameSigned (hA : A.Lawful) (h : Verified A W D env msg)
    (h' : Verified A W D env' msg)
    (hsha : ∀ ct ct', env.ciphertext D = some ct → env'.ciphertext D = some ct' →
      W.sha256 ct = W.sha256 ct' → ct = ct') : SameSigned D env env' := by
  obtain ⟨ct, hct, hmsg⟩ := h.preimage
  obtain ⟨ct', hct', hmsg'⟩ := h'.preimage
  have htext := utf8_injective (hmsg.symm.trans hmsg')
  have hfields := List.append_cancel_left (List.append_cancel_left htext)
  have htags : ∀ tag ∈ ["flags=".toList, "sender=".toList, "receiver=".toList,
      "release_at_ms=".toList, "fee_micro=".toList, "payload_sha256=".toList, "mldsa_pk=".toList],
      '|' ∉ tag := by decide
  have hsame : (env.signedFields (W.sha256Hex ct) env.hybridSig.mldsaPubkeyB64).map Prod.fst =
      (env'.signedFields (W.sha256Hex ct') env'.hybridSig.mldsaPubkeyB64).map Prod.fst := rfl
  obtain ⟨hid, hlist⟩ := lastFields_unique hsame
    (fun f hf => htags f.1 (List.mem_map_of_mem hf)) (h.plain hA ct) (h'.plain hA ct') hfields
  unfold WireEnvelope.signedFields at hlist
  simp only [List.cons.injEq, Prod.mk.injEq, true_and, and_true] at hlist
  obtain ⟨hflags, hsender, hreceiver, hrelease, hfee, hpayload, -⟩ := hlist
  refine ⟨hid, canonical_injective hflags, hsender, hreceiver, Json.decimal_injective hrelease,
    Json.decimal_injective hfee, ?_⟩
  rw [hct, hct', hsha ct ct' hct hct' (hexEncode_injective hpayload)]

/-- The envelopes of a pre-image that act alike are those that agree in the open fields. -/
theorem Verified.sameActedOn_iff (hA : A.Lawful) (h : Verified A W D env msg)
    (h' : Verified A W D env' msg)
    (hsha : ∀ ct ct', env.ciphertext D = some ct → env'.ciphertext D = some ct' →
      W.sha256 ct = W.sha256 ct' → ct = ct') : SameActedOn D env env' ↔ SameOpen env env' := by
  constructor
  · exact fun hsame => ⟨hsame.sentAtMs, hsame.ttlMs, hsame.keys⟩
  · exact fun hopen => ⟨h.sameSigned hA h' hsha, hopen.sentAtMs, hopen.ttlMs, hopen.keys⟩

/-- A lifetime other than the given one. -/
def otherTtl (ttlMs : Nat) : Nat := if ttlMs = 0 then 1 else 0

theorem otherTtl_ne (ttlMs : Nat) : otherTtl ttlMs ≠ ttlMs := by
  unfold otherTtl
  by_cases h : ttlMs = 0
  · rw [if_pos h]
    omega
  · rw [if_neg h]
    exact fun heq => h heq.symm

/-- Every verified envelope has another, under the same signatures, with another lifetime. -/
theorem Verified.malleable (h : Verified A W D env msg) : ∃ env', Verified A W D env' msg ∧
    env'.hybridSig = env.hybridSig ∧ env'.ttlMs ≠ env.ttlMs := by
  have hallows : env.Allows env.sentAtMs := by
    refine ⟨fun hlock => ?_, Or.inl rfl⟩
    -- the schedule was checked with the time the envelope has
    have hfeatures := h.features
    unfold verifyFeatures at hfeatures
    by_contra hle
    have hbad : (env.flags.timeLock && decide (env.releaseAtMs ≤ env.sentAtMs)) = true := by
      rw [hlock, Bool.true_and]
      exact decide_eq_true (Nat.not_lt.mp hle)
    rw [if_pos hbad] at hfeatures
    split_ifs at hfeatures
  exact ⟨env.altered env.sentAtMs (otherTtl env.ttlMs) env.e2ee, h.altered hallows rfl, rfl,
    otherTtl_ne env.ttlMs⟩

end Verified

end TetCore.Tmail

namespace TetCore.Sample

open TetCore.Lib TetCore.Tmail

/-- One ciphertext decodes, no journal does. -/
def decoders : Decoders where
  b64Decode s := if s = "AA==".toList then some [0] else none
  journalFromSlice _ := none

/-- A letter before it is signed. -/
def unsignedLetter : WireEnvelope where
  v := 1
  kind := tmailEnvelopeKind
  msgId := "m|1".toList
  flags := ⟨true, false, false, false⟩
  senderWalletId := wallet 'a'
  receiverWalletId := wallet 'b'
  sentAtMs := 1000
  releaseAtMs := 0
  ttlMs := 0
  feePaidMicro := 0
  pinStakeMicro := 0
  e2ee := ⟨1, "tet-e2ee-hybrid-v1".toList, [], [], [], [], [], "AA==".toList, "AA==".toList⟩
  hybridSig := ⟨wallet 'a', [], "key".toList, []⟩
  anonymous := none
  timeLock := none
  burn := none
  plaintextCommitmentSha256 := none

/-- An envelope with the signatures of its pre-image. -/
def signEnvelope (env : WireEnvelope) : WireEnvelope :=
  let msg := (env.signedBytes auth (World.sample 0) decoders).toOption.getD []
  { env with hybridSig := ⟨env.hybridSig.ed25519PubkeyHex,
    sign (trimLower env.hybridSig.ed25519PubkeyHex) msg, env.hybridSig.mldsaPubkeyB64,
    sign (trim env.hybridSig.mldsaPubkeyB64) msg⟩ }

def signedLetter : WireEnvelope := signEnvelope unsignedLetter

/-- The letter as a peer passes it on: another time, another lifetime and another nonce. -/
def redatedLetter : WireEnvelope :=
  signedLetter.altered 2000 5 { signedLetter.e2ee with nonceB64 := "AQ==".toList }

end TetCore.Sample

namespace TetCore.Tmail

/-- **What an envelope's signature fixes**: envelopes that verify with its pre-image agree with it in
what nodes act on exactly if they agree in time, lifetime and key material, and there always is one
with the same signatures that does not. -/
theorem signature_fixes {A : Auth} {W : World} {D : Decoders} {env : WireEnvelope} (hA : A.Lawful)
    (h : verifyTmailEnvelopeV1 A W D env = .ok ()) :
    (∀ env', verifyTmailEnvelopeV1 A W D env' = .ok () →
      env'.signedBytes A W D = env.signedBytes A W D →
      (∀ ct ct', env.ciphertext D = some ct → env'.ciphertext D = some ct' →
        W.sha256 ct = W.sha256 ct' → ct = ct') →
      (SameActedOn D env env' ↔ SameOpen env env')) ∧
    ∃ env', verifyTmailEnvelopeV1 A W D env' = .ok () ∧
      env'.signedBytes A W D = env.signedBytes A W D ∧ env'.hybridSig = env.hybridSig ∧
      ¬ SameActedOn D env env' := by
  obtain ⟨msg, hver⟩ := verifyTmailEnvelopeV1_ok.mp h
  constructor
  · intro env' h' hbytes hsha
    obtain ⟨msg', hver'⟩ := verifyTmailEnvelopeV1_ok.mp h'
    have hmsg : msg' = msg :=
      Except.ok.inj (hver'.message.symm.trans (hbytes.trans hver.message))
    rw [hmsg] at hver'
    exact hver.sameActedOn_iff hA hver' hsha
  · obtain ⟨env', hver', hsig, hne⟩ := hver.malleable
    exact ⟨env', verifyTmailEnvelopeV1_ok.mpr ⟨msg, hver'⟩, hver'.message.trans hver.message.symm,
      hsig, fun hsame => hne hsame.ttlMs.symm⟩

/-- A letter under whose signatures another verifies. -/
theorem signature_fixes_letter :
    ∃ env', verifyTmailEnvelopeV1 Sample.auth (World.sample 0) Sample.decoders env' = .ok () ∧
      env'.signedBytes Sample.auth (World.sample 0) Sample.decoders =
        Sample.signedLetter.signedBytes Sample.auth (World.sample 0) Sample.decoders ∧
      env'.hybridSig = Sample.signedLetter.hybridSig ∧
      ¬ SameActedOn Sample.decoders Sample.signedLetter env' := by
  have hok : (verifyTmailEnvelopeV1 Sample.auth (World.sample 0) Sample.decoders
      Sample.signedLetter).isOk = true := by
    decide +kernel
  exact (signature_fixes Sample.auth_lawful (eq_ok_of_isOk hok)).2

/-- The letter and its re-dated copy verify with one pre-image. -/
theorem signature_fixes_redated :
    ¬ ∀ A W D env env', Auth.Lawful A → verifyTmailEnvelopeV1 A W D env = .ok () →
      verifyTmailEnvelopeV1 A W D env' = .ok () →
      env'.signedBytes A W D = env.signedBytes A W D → SameActedOn D env env' := by
  intro h
  have hall : (verifyTmailEnvelopeV1 Sample.auth (World.sample 0) Sample.decoders
      Sample.signedLetter).isOk = true ∧
      (verifyTmailEnvelopeV1 Sample.auth (World.sample 0) Sample.decoders
        Sample.redatedLetter).isOk = true := by
    decide +kernel
  have hsame := h Sample.auth (World.sample 0) Sample.decoders Sample.signedLetter
    Sample.redatedLetter Sample.auth_lawful (eq_ok_of_isOk hall.1) (eq_ok_of_isOk hall.2) rfl
  have hne : Sample.signedLetter.sentAtMs ≠ Sample.redatedLetter.sentAtMs := by decide
  exact hne hsame.sentAtMs

end TetCore.Tmail
