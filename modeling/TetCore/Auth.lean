import TetCore.Ledger.Sample
import TetCore.Lib.Json

/-!
# Signed bytes and the envelope check

Model of `tx_v1_auth_message_bytes` (`wallet.rs`) and of `verify_envelope_v1` (`rest/helpers.rs`):
the bytes both signatures of an envelope are over, and the checks that give them out.

* An `EnterpriseInference` transaction has a message of its own, built field by field from
  normalized values. Every other kind is serialized with `serde_json`; the derived `Serialize` of
  `TxV1` is `TxV1.json`.
* The ML-DSA key is in every message, the Ed25519 key is in none.
* `Auth` holds what the check takes from elsewhere: the chain's name, the two signature schemes,
  the attestation check and the decimal text of an `f64`. `Auth.Lawful` says what is relied on.
* `World.signing` is a world whose envelope check is this one.

Results: `Auth.verifyEnvelopeV1_ok` takes a verified envelope apart. `TxV1.json_injective` reads a
serialized transaction back, `Auth.serialized_injective` and `Auth.enterprise_injective` read the
signed text back.
-/

namespace TetCore

open TetCore.Lib

/-- What the envelope check takes from outside. -/
structure Auth where
  /-- `chain_id_from_env`. -/
  chainId : Str
  /-- `expected_genesis_hash_from_env`. -/
  genesisHash : Str
  /-- The text `serde_json` writes for a finite `f64`. -/
  ryu : F64 → Str
  /-- `quantum_shield::verify_ed25519` on key, signature and message. -/
  verifyEd25519 : Str → Str → Bytes → Except String Unit
  /-- `wallet::verify_mldsa_b64` on key, signature and message. -/
  verifyMldsaB64 : Str → Str → Bytes → Except String Unit
  /-- `TET_ATTESTATION_ALLOW_STUB` is set. -/
  attestationAllowStub : Bool
  /-- `verify_attestation_report` on the report and the signed bytes. -/
  verifyAttestationReport : AttestationV1 → Bytes → Except String Unit

namespace Auth

/-- The number of a finite `f64`, `null` for the others. -/
def f64 (A : Auth) (x : F64) : Str := if x.isFinite then A.ryu x else "null".toList

/-- What is relied on: the shortest decimal text of a finite `f64` determines it and has no
character that ends a JSON value, and a verified ML-DSA key is a base64 text. -/
structure Lawful (A : Auth) : Prop where
  ryu_injective : ∀ x y : F64, x.isFinite = true → y.isFinite = true → A.ryu x = A.ryu y → x = y
  ryu_plain : ∀ x : F64, x.isFinite = true → ∀ c ∈ A.ryu x, Json.isStop c = false
  mldsa_base64 : ∀ pk sig msg, A.verifyMldsaB64 pk sig msg = .ok () → '|' ∉ trim pk

end Auth

/-- The fields of a transaction, in the order of their declaration. -/
def TxV1.jsonMembers (A : Auth) : TxV1 → List (Str × Str)
  | .signerLink w => [("wallet_id".toList, Json.quote w)]
  | .foundingMemberEnroll w => [("member_wallet".toList, Json.quote w)]
  | .transfer fromWallet toWallet amount feeBps =>
    [("from_wallet".toList, Json.quote fromWallet), ("to_wallet".toList, Json.quote toWallet),
      ("amount_micro".toList, Json.decimal amount), ("fee_bps".toList, Json.decimal feeBps)]
  | .genesisBridge founder toWallet amount =>
    [("founder_wallet".toList, Json.quote founder), ("to_wallet".toList, Json.quote toWallet),
      ("amount_micro".toList, Json.decimal amount)]
  | .initialAirdrop w => [("wallet_id".toList, Json.quote w)]
  | .fileFee fromWallet storage fileId fee =>
    [("from_wallet".toList, Json.quote fromWallet), ("storage_wallet".toList, Json.quote storage),
      ("file_id".toList, Json.quote fileId), ("fee_micro".toList, Json.decimal fee)]
  | .workerRegister w hardwareId profile capabilities tflops =>
    [("wallet_id".toList, Json.quote w), ("hardware_id_hex".toList, Json.quote hardwareId),
      ("hardware_profile".toList, Json.quote profile),
      ("capabilities".toList, Json.array Json.quote capabilities),
      ("tflops_declared".toList, A.f64 tflops)]
  | .enterpriseInference w prompt model amount nonce promptHash flag att =>
    [("enterprise_wallet_id".toList, Json.quote w), ("prompt".toList, Json.quote prompt),
      ("model".toList, Json.quote model), ("amount_micro".toList, Json.decimal amount),
      ("nonce".toList, Json.decimal nonce), ("prompt_sha256_hex".toList, Json.quote promptHash),
      ("workload_flag".toList, Json.decimal flag), ("attestation_required".toList, Json.bool att)]
  | .verifyZkProof taskId imageId journal receipt =>
    [("task_id".toList, Json.quote taskId), ("image_id".toList, Json.array Json.decimal imageId),
      ("journal_b64".toList, Json.quote journal), ("receipt_b64".toList, Json.quote receipt)]

/-- `serde_json::to_string` on a `TxV1`. -/
def TxV1.json (A : Auth) (tx : TxV1) : Str := Json.object tx.kind.toList (tx.jsonMembers A)

/-- The start of every message: what it is for, and the chain it is for. -/
def Auth.header (A : Auth) (purpose : Str) : Str :=
  purpose ++ "|chain_id=".toList ++ A.chainId ++ "|genesis_hash=".toList ++ A.genesisHash

/-- `enterprise_inference_hybrid_auth_message_bytes`, as text. -/
def Auth.enterpriseInferenceHybridAuthMessage (A : Auth) (enterpriseWalletId : Str)
    (nonce amountMicro : Nat) (promptSha256Hex model : Str) (attestationRequired : Bool)
    (mldsaPubkeyB64 : Str) : Str :=
  let w := trimLower enterpriseWalletId
  let p := trim mldsaPubkeyB64
  let h := trimLower promptSha256Hex
  let m := trim model
  let att := if attestationRequired then '1' else '0'
  A.header "tet enterprise inference v1".toList ++ '|' :: (w ++ '|' :: (Json.decimal nonce ++
    '|' :: (Json.decimal amountMicro ++ '|' :: (h ++ '|' :: (m ++ '|' :: att :: '|' :: p)))))

/-- `tx_v1_auth_message_bytes`, as text. The serialization of a `TxV1` does not fail. -/
def Auth.txV1AuthMessage (A : Auth) (tx : TxV1) (mldsaPubkeyB64 : Str) : Str :=
  match tx with
  | .enterpriseInference w _ model amountMicro nonce promptSha256Hex _ attestationRequired =>
    A.enterpriseInferenceHybridAuthMessage w nonce amountMicro promptSha256Hex model
      attestationRequired mldsaPubkeyB64
  | tx => A.header "tet tx v1".toList ++ ("|mldsa=".toList ++ (trim mldsaPubkeyB64 ++
      ("|tx=".toList ++ tx.json A)))

/-- `tx_v1_auth_message_bytes`. -/
def Auth.txV1AuthMessageBytes (A : Auth) (tx : TxV1) (mldsaPubkeyB64 : Str) : Bytes :=
  utf8 (A.txV1AuthMessage tx mldsaPubkeyB64)

/-- A signature check, its error replaced. -/
def orSignatureError (x : Except String Unit) : Except String Unit :=
  match x with
  | .ok _ => .ok ()
  | .error _ => .error "invalid signature or missing chain_id/genesis_hash binding"

/-- `verify_envelope_v1`. -/
def Auth.verifyEnvelopeV1 (A : Auth) (mainnetStrict attestationRequired : Bool)
    (env : SignedTxEnvelopeV1) : Except String Bytes := do
  require (env.v = 1) "unsupported envelope version"
  let txBytes := A.txV1AuthMessageBytes env.tx env.sig.mldsaPubkeyB64
  require (¬ (mainnetStrict ∧ A.attestationAllowStub)) "attestation stubs are forbidden on mainnet"
  orSignatureError (A.verifyEd25519 env.sig.ed25519PubkeyHex env.sig.ed25519SigB64 txBytes)
  orSignatureError (A.verifyMldsaB64 env.sig.mldsaPubkeyB64 env.sig.mldsaSigB64 txBytes)
  require (signerActsForItself env = true) "signer must be the wallet the transaction acts for"
  if mainnetStrict || attestationRequired then do
    require (env.attestation.platform ≠ [] ∧ env.attestation.reportB64 ≠ []) "attestation required"
    A.verifyAttestationReport env.attestation txBytes
    .ok txBytes
  else .ok txBytes

/-- A world whose envelope check is `verify_envelope_v1`. -/
def World.signing (W : World) (A : Auth) : World :=
  { W with verifyEnvelopeV1 := A.verifyEnvelopeV1 W.mainnet W.attestationRequired }

/-! ## A verified envelope -/

theorem orSignatureError_eq_ok {x : Except String Unit} {u : Unit} :
    orSignatureError x = .ok u ↔ x = .ok () := by
  cases x with
  | ok v => exact ⟨fun _ => rfl, fun _ => rfl⟩
  | error e => exact ⟨nofun, nofun⟩

/-- **What a verified envelope is**: the bytes are those of its transaction and ML-DSA key, both
keys signed them, and the signer acts for itself. -/
theorem Auth.verifyEnvelopeV1_ok {A : Auth} {m a : Bool} {env : SignedTxEnvelopeV1} {bytes : Bytes}
    (h : A.verifyEnvelopeV1 m a env = .ok bytes) :
    bytes = A.txV1AuthMessageBytes env.tx env.sig.mldsaPubkeyB64 ∧
      A.verifyMldsaB64 env.sig.mldsaPubkeyB64 env.sig.mldsaSigB64 bytes = .ok () ∧
      signerActsForItself env = true := by
  simp only [Auth.verifyEnvelopeV1, bind_eq_ok, require_eq_ok, orSignatureError_eq_ok] at h
  obtain ⟨_, -, _, -, _, -, _, hm, _, hs, h⟩ := h
  have hbytes : bytes = A.txV1AuthMessageBytes env.tx env.sig.mldsaPubkeyB64 := by
    split at h
    · simp only [bind_eq_ok, require_eq_ok, Except.ok.injEq] at h
      obtain ⟨_, -, _, -, rfl⟩ := h
      rfl
    · cases h
      rfl
  exact ⟨hbytes, hbytes ▸ hm, hs⟩

/-- The ML-DSA key counts without the blanks around it. -/
theorem Auth.txV1AuthMessage_trim (A : Auth) (tx : TxV1) {p q : Str} (h : trim p = trim q) :
    A.txV1AuthMessage tx p = A.txV1AuthMessage tx q := by
  unfold txV1AuthMessage enterpriseInferenceHybridAuthMessage
  rw [h]

/-! ## Reading the serialized transaction back -/

/-- A transaction whose numbers are all finite. -/
def TxV1.finite : TxV1 → Bool
  | .workerRegister _ _ _ _ tflops => tflops.isFinite
  | _ => true

/-- The number of a worker registration, its last field. -/
theorem Auth.Lawful.f64_cut {A : Auth} (hA : A.Lawful) {x y : F64} (hx : x.isFinite = true)
    (hy : y.isFinite = true) {name : Str} {ms ns : List (Str × Str)}
    (h : Json.members ((name, A.f64 x) :: ms) = Json.members ((name, A.f64 y) :: ns)) : x = y := by
  have hval := Json.members_value h
  rw [f64, f64, if_pos hx, if_pos hy] at hval
  obtain ⟨hxy, -⟩ := Json.span_unique (hA.ryu_plain x hx) (hA.ryu_plain y hy)
    (Json.stops_members ms) (Json.stops_members ns) hval
  exact hA.ryu_injective x y hx hy hxy

/-- **A serialized transaction determines the transaction.** -/
theorem TxV1.json_injective {A : Auth} (hA : A.Lawful) {tx tx' : TxV1} (hf : tx.finite = true)
    (hf' : tx'.finite = true) (h : tx.json A = tx'.json A) : tx = tx' := by
  obtain ⟨hkind, h⟩ := Json.object_kind h
  have hkind := String.toList_injective hkind
  -- one case for each kind is left: the kind comes first in the text
  cases tx <;> cases tx' <;> first | exact absurd hkind (by simp only [kind]; decide) | skip
  case signerLink.signerLink =>
    obtain ⟨h₁, -⟩ := Json.members_cut Json.quote_valueCode h
    rw [h₁]
  case foundingMemberEnroll.foundingMemberEnroll =>
    obtain ⟨h₁, -⟩ := Json.members_cut Json.quote_valueCode h
    rw [h₁]
  case transfer.transfer =>
    obtain ⟨h₁, h⟩ := Json.members_cut Json.quote_valueCode h
    obtain ⟨h₂, h⟩ := Json.members_cut Json.quote_valueCode h
    obtain ⟨h₃, h⟩ := Json.members_cut Json.decimal_valueCode h
    obtain ⟨h₄, -⟩ := Json.members_cut Json.decimal_valueCode h
    rw [h₁, h₂, h₃, h₄]
  case genesisBridge.genesisBridge =>
    obtain ⟨h₁, h⟩ := Json.members_cut Json.quote_valueCode h
    obtain ⟨h₂, h⟩ := Json.members_cut Json.quote_valueCode h
    obtain ⟨h₃, -⟩ := Json.members_cut Json.decimal_valueCode h
    rw [h₁, h₂, h₃]
  case initialAirdrop.initialAirdrop =>
    obtain ⟨h₁, -⟩ := Json.members_cut Json.quote_valueCode h
    rw [h₁]
  case fileFee.fileFee =>
    obtain ⟨h₁, h⟩ := Json.members_cut Json.quote_valueCode h
    obtain ⟨h₂, h⟩ := Json.members_cut Json.quote_valueCode h
    obtain ⟨h₃, h⟩ := Json.members_cut Json.quote_valueCode h
    obtain ⟨h₄, -⟩ := Json.members_cut Json.decimal_valueCode h
    rw [h₁, h₂, h₃, h₄]
  case workerRegister.workerRegister =>
    obtain ⟨h₁, h⟩ := Json.members_cut Json.quote_valueCode h
    obtain ⟨h₂, h⟩ := Json.members_cut Json.quote_valueCode h
    obtain ⟨h₃, h⟩ := Json.members_cut Json.quote_valueCode h
    obtain ⟨h₄, h⟩ := Json.members_cut (Json.array_valueCode Json.quote_valueCode) h
    rw [h₁, h₂, h₃, h₄, hA.f64_cut hf hf' h]
  case enterpriseInference.enterpriseInference =>
    obtain ⟨h₁, h⟩ := Json.members_cut Json.quote_valueCode h
    obtain ⟨h₂, h⟩ := Json.members_cut Json.quote_valueCode h
    obtain ⟨h₃, h⟩ := Json.members_cut Json.quote_valueCode h
    obtain ⟨h₄, h⟩ := Json.members_cut Json.decimal_valueCode h
    obtain ⟨h₅, h⟩ := Json.members_cut Json.decimal_valueCode h
    obtain ⟨h₆, h⟩ := Json.members_cut Json.quote_valueCode h
    obtain ⟨h₇, h⟩ := Json.members_cut Json.decimal_valueCode h
    obtain ⟨h₈, -⟩ := Json.members_cut Json.bool_valueCode h
    rw [h₁, h₂, h₃, h₄, h₅, h₆, h₇, h₈]
  case verifyZkProof.verifyZkProof =>
    obtain ⟨h₁, h⟩ := Json.members_cut Json.quote_valueCode h
    obtain ⟨h₂, h⟩ := Json.members_cut (Json.array_valueCode Json.decimal_valueCode) h
    obtain ⟨h₃, h⟩ := Json.members_cut Json.quote_valueCode h
    obtain ⟨h₄, -⟩ := Json.members_cut Json.quote_valueCode h
    rw [h₁, h₂, h₃, h₄]

/-! ## Reading the signed text back -/

/-- The kind with a message of its own. -/
def TxV1.isEnterprise : TxV1 → Bool
  | .enterpriseInference _ _ _ _ _ _ _ _ => true
  | _ => false

theorem TxV1.eq_enterprise {tx : TxV1} (h : tx.isEnterprise = true) :
    ∃ w p m amount nonce ph flag att,
      tx = .enterpriseInference w p m amount nonce ph flag att := by
  cases tx with
  | enterpriseInference w p m amount nonce ph flag att => exact ⟨w, p, m, _, _, ph, _, att, rfl⟩
  | _ => cases h

namespace Auth

variable {A : Auth} {tx tx' : TxV1} {p p' : Str}

theorem txV1AuthMessage_serialized (h : tx.isEnterprise = false) :
    A.txV1AuthMessage tx p = A.header "tet tx v1".toList ++ ("|mldsa=".toList ++ (trim p ++
      '|' :: ("tx=".toList ++ tx.json A))) := by
  cases tx with
  | enterpriseInference w prompt m amount nonce ph flag att => cases h
  | _ => rfl

/-- A text after the start of a message, cut at the first separator. -/
theorem header_cut {start x x' r r' : Str} (tag : Str) (hx : '|' ∉ x) (hx' : '|' ∉ x')
    (h : start ++ (tag ++ (x ++ '|' :: r)) = start ++ (tag ++ (x' ++ '|' :: r'))) :
    x = x' ∧ r = r' :=
  cut_unique hx hx' (List.append_cancel_left (List.append_cancel_left h))

/-- Messages for different purposes differ. -/
theorem header_ne {a b x y : Str} {c d : Char} {n : Nat} (ha : a[n]? = some c)
    (hb : b[n]? = some d) (hcd : c ≠ d) : A.header a ++ x ≠ A.header b ++ y := by
  intro h
  have hchar := congrArg (fun s : Str => s[n]?) h
  simp only [header, List.append_assoc] at hchar
  rw [List.getElem?_append_left (List.getElem?_eq_some_iff.mp ha).1,
    List.getElem?_append_left (List.getElem?_eq_some_iff.mp hb).1, ha, hb] at hchar
  exact hcd (Option.some.inj hchar)

/-- A message of an inference request is no message of another kind. -/
theorem txV1AuthMessage_ne (h : tx.isEnterprise = true) (h' : tx'.isEnterprise = false) :
    A.txV1AuthMessage tx p ≠ A.txV1AuthMessage tx' p' := by
  rw [txV1AuthMessage_serialized h']
  cases tx with
  | enterpriseInference w prompt m amount nonce ph flag att =>
    exact header_ne (n := 4) rfl rfl (by decide)
  | _ => cases h

/-- **A message of a serialized kind** determines the transaction. -/
theorem serialized_injective (hA : A.Lawful) (he : tx.isEnterprise = false)
    (he' : tx'.isEnterprise = false) (hf : tx.finite = true) (hf' : tx'.finite = true)
    (hp : '|' ∉ trim p) (hp' : '|' ∉ trim p')
    (h : A.txV1AuthMessage tx p = A.txV1AuthMessage tx' p') : tx = tx' := by
  rw [txV1AuthMessage_serialized he, txV1AuthMessage_serialized he'] at h
  obtain ⟨-, hrest⟩ := header_cut _ hp hp' h
  exact TxV1.json_injective hA hf hf' (List.append_cancel_left hrest)

/-- **A message of an inference request** determines the normalized fields. The model may hold the
separator, the fields before and after it do not. -/
theorem enterprise_injective {w w' h h' m m' : Str} {nonce nonce' amount amount' : Nat}
    {att att' : Bool} (hw : '|' ∉ trimLower w) (hw' : '|' ∉ trimLower w')
    (hh : '|' ∉ trimLower h) (hh' : '|' ∉ trimLower h') (hp : '|' ∉ trim p) (hp' : '|' ∉ trim p')
    (heq : A.enterpriseInferenceHybridAuthMessage w nonce amount h m att p =
      A.enterpriseInferenceHybridAuthMessage w' nonce' amount' h' m' att' p') :
    trimLower w = trimLower w' ∧ nonce = nonce' ∧ amount = amount' ∧ trimLower h = trimLower h' ∧
      trim m = trim m' := by
  unfold enterpriseInferenceHybridAuthMessage at heq
  have hdigit : ∀ n, '|' ∉ Json.decimal n := fun n => Json.notMem_decimal rfl
  obtain ⟨h₁, heq⟩ := header_cut ['|'] hw hw' heq
  obtain ⟨h₂, heq⟩ := cut_unique (hdigit _) (hdigit _) heq
  obtain ⟨h₃, heq⟩ := cut_unique (hdigit _) (hdigit _) heq
  obtain ⟨h₄, heq⟩ := cut_unique hh hh' heq
  -- the key and the flag are cut off from the end
  have hsplit : ∀ (m : Str) (c : Char) (q : Str),
      m ++ '|' :: c :: '|' :: q = (m ++ ['|', c]) ++ '|' :: q := fun m c q => by
    rw [List.append_assoc]
    rfl
  rw [hsplit, hsplit] at heq
  obtain ⟨hleft, -⟩ := cut_last_unique hp hp' heq
  exact ⟨h₁, Json.decimal_injective h₂, Json.decimal_injective h₃, h₄,
    (List.append_inj' hleft rfl).1⟩

end Auth

namespace Sample

/-- A stand-in for a signature: a digest of key and message. -/
def sign (key : Str) (msg : Bytes) : Str := hexEncode (digest (utf8 key ++ msg))

/-- A base64 text without its alphabet's symbols. -/
def isKeyText (s : Str) : Bool := !s.isEmpty && s.all fun c => c.isAlphanum

/-- The key is a text, and the signature is its own. -/
def verifyMldsa (pk sig : Str) (msg : Bytes) : Except String Unit :=
  if isKeyText (trim pk) && sig == sign (trim pk) msg then .ok ()
  else .error "invalid ml-dsa signature"

/-- A local chain. Finite numbers are written as their bits. -/
def auth : Auth where
  chainId := "tet-local-dev".toList
  genesisHash := wallet '0'
  ryu x := Json.decimal x.bits.toNat
  verifyEd25519 pk sig msg :=
    if isHex64 pk && sig == sign pk msg then .ok () else .error "ed25519 signature invalid"
  verifyMldsaB64 := verifyMldsa
  attestationAllowStub := false
  verifyAttestationReport _ _ := .error "unsupported attestation platform"

theorem auth_lawful : auth.Lawful where
  ryu_injective x y _ _ h := by
    have hbits : x.bits.toNat = y.bits.toNat := Json.decimal_injective h
    exact congrArg F64.mk (UInt64.toNat_inj.mp hbits)
  ryu_plain x _ := Json.decimal_plain x.bits.toNat
  mldsa_base64 pk sig msg h := by
    have hok : verifyMldsa pk sig msg = .ok () := h
    unfold verifyMldsa at hok
    split_ifs at hok with hkey
    rw [Bool.and_eq_true, isKeyText, Bool.and_eq_true, List.all_eq_true] at hkey
    exact fun hmem => absurd (hkey.1.2 '|' hmem) (by decide)

/-- A transaction signed with the two keys. -/
def signedWith (tx : TxV1) (ed25519 mldsa : Str) : SignedTxEnvelopeV1 :=
  let msg := auth.txV1AuthMessageBytes tx mldsa
  ⟨1, tx, ⟨ed25519, sign ed25519 msg, mldsa, sign (trim mldsa) msg⟩, ⟨[], []⟩⟩

end Sample

end TetCore
