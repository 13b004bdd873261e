import TetCore.Agent
import TetCore.Page.VerifyRecord

/-!
# A manifest in the browser

`verify_anything.mjs`, `agentManifestAuthMessageBytes` and `verifyAgentManifest`, beside a node's
`agent_manifest_auth_message_bytes` and `verify_agent_manifest_v1`. The page makes the node's checks in the
node's order; what differs is how a text is read: which blanks are dropped, how letters are lowered, and
which base64 is taken.

What either reads off a manifest is a `Statement` (`PageReads`, `NodeReads`); what both want of it is
`Valid`.

* `verifyAgentManifest_isOk`, `verifyAgentManifestV1_isOk`: each takes exactly the manifests off which it
  reads something valid.
* `manifest_verifiers_iff`: the signed bytes are the same exactly if the signed texts are read alike
  (`SignedAlike`); the verdicts are the same exactly if a manifest off which either reads something valid
  is written plainly (`Plain`).
* `signature_with_newline`: a line feed after the Ed25519 signature is dropped by the page alone.
-/

namespace TetCore.Page.Manifests

open TetCore.Lib TetCore.Sigs TetCore.Agent

/-! ## The page -/

/-- `Number.isSafeInteger`, with the integer. -/
def safeInteger : JsValue → Option Int
  | .num ('-' :: digits) =>
    let n := Nat.ofDigitChars 10 digits 0
    if Json.decimal n = digits ∧ n < 2 ^ 53 then some (-n) else none
  | .num digits =>
    let n := Nat.ofDigitChars 10 digits 0
    if Json.decimal n = digits ∧ n < 2 ^ 53 then some n else none
  | _ => none

/-- `typeof v === "object"`, of a value that is not `null`. -/
def isObjectLike : JsValue → Bool
  | .arr _ | .obj _ => true
  | _ => false

/-- A refusal that shows a value in a template string. -/
def refusalShowing (v : JsValue) (reason : Str → Str) : Refusal :=
  match v.toText with
  | some s => .no (reason s)
  | none => .threw

/-- `m.capabilities`, of `MAX_CAPS` at most. -/
def capabilitiesOf (v : JsValue) : Except Refusal (List JsValue) :=
  match v.asArray with
  | some cs =>
    if cs.length > agentManifestMaxCapabilities then .error (.no "too many capabilities".toList)
    else .ok cs
  | none => .error (.no "too many capabilities".toList)

/-- The loop over the capabilities. -/
def checkCapabilities : List JsValue → Except Refusal Unit
  | [] => .ok ()
  | c :: cs => do
    let s ← coerce c
    require (c.asStr.isSome = true ∧ byteLen s ≠ 0 ∧ byteLen s ≤ agentManifestMaxCapabilityLen)
      (.no "a capability is empty or too long".toList)
    checkCapabilities cs

/-- `typeof v !== "boolean"`. -/
def isBoolean : JsValue → Bool
  | .bool _ => true
  | _ => false

/-- The two times. -/
def timesOf (created expires : JsValue) : Except Refusal (Int × Int) :=
  match safeInteger created, safeInteger expires with
  | some c, some e => .ok (c, e)
  | _, _ => .error (.no "created_at_ms and expires_at_ms must be integers".toList)

/-- `len(b)`. -/
def decodedLength (v : JsValue) : Nat :=
  ((pageB64ToBytes (v.orElse (.str []))).map List.length).getD 0

/-- The largest time `toISOString` shows. -/
def maxDateMs : Int := 8640000000000000

section Scripts

variable (J : JsRuntime) (S : SigPrimitives) (chain : ChainBinding)
  -- `toISOString`
  (isoDate : Int → Str)

/-- `String(v ?? "").trim().toLowerCase()`. -/
def hexId (v : JsValue) : Except Refusal Str := do
  let s ← coerce (v.orElse (.str []))
  return J.toLowerCase (jsTrim s)

/-- `agentManifestAuthMessageBytes`. -/
def agentManifestAuthMessageBytes (m ownerMldsaPubB64 : JsValue) : Except Refusal Bytes := do
  let v ← coerce (m.get "v".toList)
  let kind ← coerce (m.get "kind".toList)
  let id ← coerce (m.get "agent_id".toList)
  let agentEd ← coerce (m.get "agent_ed25519_pubkey_hex".toList)
  let agentMl ← coerce (m.get "agent_mldsa44_pubkey_b64".toList)
  let owner ← coerce (m.get "owner_wallet_id".toList)
  let created ← coerce (m.get "created_at_ms".toList)
  let expires ← coerce (m.get "expires_at_ms".toList)
  let caps ← match (m.get "capabilities".toList).asArray with
    | some cs => cs.mapM coerce
    | none => throw .threw
  let ownerMl ← coerce ownerMldsaPubB64
  let fields := [v, jsTrim kind, id, J.toLowerCase (jsTrim agentEd), jsTrim agentMl,
    J.toLowerCase (jsTrim owner), created, expires,
    if (m.get "declared_automated".toList).truthy then ['1'] else ['0'],
    Json.decimal caps.length, jsTrim ownerMl] ++ caps
  return payloadAuthMessageBytes chain agentManifestPayloadType (paeFields (fields.map utf8))

/-- `verifyAgentManifest`. -/
def verifyAgentManifest (m : JsValue) (nowMs : Nat) : Except Refusal Unit := do
  require (isObjectLike m = true) (.no "the manifest is not a JSON object".toList)
  require ((m.get "v".toList).same (.ofNat 1) = true)
    (refusalShowing (m.get "v".toList) ("unsupported manifest version ".toList ++ ·))
  let kind ← coerce ((m.get "kind".toList).orElse (.str []))
  require (jsTrim kind = agentManifestKind)
    (.no ("not a manifest (kind ".toList ++ (m.get "kind".toList).stringify ++ [')']))
  let id ← coerce ((m.get "agent_id".toList).orElse (.str []))
  require ((m.get "agent_id".toList).asStr.isSome = true ∧ byteLen id ≠ 0 ∧
    byteLen id ≤ agentManifestMaxAgentIdLen) (.no "agent_id must be 1–128 bytes".toList)
  let caps ← capabilitiesOf (m.get "capabilities".toList)
  checkCapabilities caps
  let times ← timesOf (m.get "created_at_ms".toList) (m.get "expires_at_ms".toList)
  require (isBoolean (m.get "declared_automated".toList) = true)
    (.no "declared_automated must be true or false".toList)
  let agentEd ← hexId J (m.get "agent_ed25519_pubkey_hex".toList)
  require (isLowerHex64 agentEd = true) (.no "the agent's ed25519 key is not 64 hex".toList)
  let owner ← hexId J (m.get "owner_wallet_id".toList)
  require (isLowerHex64 owner = true) (.no "the owner wallet id is not 64 hex".toList)
  require (agentEd ≠ owner) (.no "the agent key is the owner's own key".toList)
  let sig := (m.get "hybrid_sig".toList).orElse (.obj [])
  require (decodedLength (m.get "agent_mldsa44_pubkey_b64".toList) = agentMldsa44PubkeyBytes)
    (.no "the agent's ml-dsa key is not ML-DSA-44".toList)
  require (decodedLength (sig.get "mldsa_pubkey_b64".toList) = agentMldsa44PubkeyBytes)
    (.no "the owner's ml-dsa key is not ML-DSA-44".toList)
  let signer ← hexId J (sig.get "ed25519_pubkey_hex".toList)
  require (signer = owner) (.no "the manifest is not signed by the owner it names".toList)
  let msg ← agentManifestAuthMessageBytes J chain m (sig.get "mldsa_pubkey_b64".toList)
  require (ed25519Verify S pageB64ToBytes owner (sig.get "ed25519_sig_b64".toList) msg = true)
    (.no "the owner's ed25519 signature does not verify".toList)
  let mlKey ← coerce (sig.get "mldsa_pubkey_b64".toList)
  let mlSig ← coerce ((sig.get "mldsa_sig_b64".toList).orElse (.str []))
  require (mldsa44Verify S (jsTrim mlKey) (jsTrim mlSig) msg = true)
    (.no "the owner's ml-dsa-44 signature does not verify".toList)
  require (times.1 < times.2) (.no "the manifest expires before it starts".toList)
  require ((nowMs : Int) ≤ times.2)
    (if times.2 ≤ maxDateMs then .no ("the manifest expired at ".toList ++ isoDate times.2)
    else .threw)

end Scripts

/-! ## What is read off a manifest -/

/-- A JSON value that is typed as this manifest, its times safe integers. -/
structure Typed (j : JsValue) (m : AgentManifestV1) : Prop where
  object : isObjectLike j = true
  v : j.get "v".toList = .ofNat m.v
  kind : j.get "kind".toList = .str m.kind
  agentId : j.get "agent_id".toList = .str m.agentId
  agentEd25519 : j.get "agent_ed25519_pubkey_hex".toList = .str m.agentEd25519PubkeyHex
  agentMldsa44 : j.get "agent_mldsa44_pubkey_b64".toList = .str m.agentMldsa44PubkeyB64
  owner : j.get "owner_wallet_id".toList = .str m.ownerWalletId
  createdAtMs : j.get "created_at_ms".toList = .ofNat m.createdAtMs
  expiresAtMs : j.get "expires_at_ms".toList = .ofNat m.expiresAtMs
  declaredAutomated : j.get "declared_automated".toList = .bool m.declaredAutomated
  capabilities : j.get "capabilities".toList = .arr (m.capabilities.map .str)
  sigEd25519 : (j.get "hybrid_sig".toList).get "ed25519_pubkey_hex".toList =
    .str m.hybridSig.ed25519PubkeyHex
  sigEd25519Sig : (j.get "hybrid_sig".toList).get "ed25519_sig_b64".toList =
    .str m.hybridSig.ed25519SigB64
  sigMldsa : (j.get "hybrid_sig".toList).get "mldsa_pubkey_b64".toList =
    .str m.hybridSig.mldsaPubkeyB64
  sigMldsaSig : (j.get "hybrid_sig".toList).get "mldsa_sig_b64".toList = .str m.hybridSig.mldsaSigB64
  createdSafe : m.createdAtMs < 2 ^ 53
  expiresSafe : m.expiresAtMs < 2 ^ 53

/-- The texts and the signatures that are read off a manifest. -/
structure Statement where
  agentEd : Str
  owner : Str
  agentKey : Str
  ownerKey : Str
  edSig : Bytes
  mldsaSig : Bytes

/-- The fields that are signed, with these texts. -/
def fieldsOf (m : AgentManifestV1) (kind agentEd agentKey owner ownerKey : Str) : List Bytes :=
  [utf8 (Json.decimal m.v), utf8 kind, utf8 m.agentId, utf8 agentEd, utf8 agentKey, utf8 owner,
    utf8 (Json.decimal m.createdAtMs), utf8 (Json.decimal m.expiresAtMs),
    utf8 (if m.declaredAutomated then ['1'] else ['0']),
    utf8 (Json.decimal m.capabilities.length), utf8 ownerKey] ++ m.capabilities.map utf8

/-- The signed bytes of a statement. -/
def Statement.message (A : Auth) (m : AgentManifestV1) (r : Statement) : Bytes :=
  agentPayloadAuthMessageBytes A agentManifestPayloadType
    (paeFields (fieldsOf m agentManifestKind r.agentEd r.agentKey r.owner r.ownerKey))

/-- What page and node want of a manifest once its texts are read. -/
structure Valid (A : Auth) (S : SigPrimitives) (m : AgentManifestV1) (nowMs : Nat) (r : Statement) :
    Prop where
  version : m.v = 1
  agentId : byteLen m.agentId ≠ 0 ∧ byteLen m.agentId ≤ agentManifestMaxAgentIdLen
  capabilityCount : m.capabilities.length ≤ agentManifestMaxCapabilities
  capabilities : ∀ c ∈ m.capabilities, byteLen c ≠ 0 ∧ byteLen c ≤ agentManifestMaxCapabilityLen
  agentEd : SignedRecord.is64hexLower r.agentEd = true
  owner : SignedRecord.is64hexLower r.owner = true
  apart : r.agentEd ≠ r.owner
  edSize : r.edSig.length = 64
  ed25519 : ∃ pk, hexDecode r.owner = some pk ∧ S.ed25519 pk r.edSig (r.message A m) = true
  mldsa : ∃ pk, stdDecode r.ownerKey = some pk ∧ pk.length = 1312 ∧
    S.mldsa .mldsa44 pk r.mldsaSig (r.message A m) = true
  schedule : m.createdAtMs < m.expiresAtMs
  unexpired : nowMs ≤ m.expiresAtMs

/-- What the page reads. -/
structure PageReads (J : JsRuntime) (m : AgentManifestV1) (r : Statement) : Prop where
  kind : jsTrim m.kind = agentManifestKind
  agentEd : J.toLowerCase (jsTrim m.agentEd25519PubkeyHex) = r.agentEd
  owner : J.toLowerCase (jsTrim m.ownerWalletId) = r.owner
  signer : J.toLowerCase (jsTrim m.hybridSig.ed25519PubkeyHex) = r.owner
  agentKey : jsTrim m.agentMldsa44PubkeyB64 = r.agentKey
  agentLevel : isBase64Shape r.agentKey = true ∧ ∃ b, atob r.agentKey = some b ∧ b.length = 1312
  ownerKey : jsTrim m.hybridSig.mldsaPubkeyB64 = r.ownerKey
  edSig : isBase64Shape (jsTrim m.hybridSig.ed25519SigB64) = true ∧
    atob (jsTrim m.hybridSig.ed25519SigB64) = some r.edSig
  mldsaSig : stdDecode (trim (jsTrim m.hybridSig.mldsaSigB64)) = some r.mldsaSig

/-- What the node reads. -/
structure NodeReads (m : AgentManifestV1) (r : Statement) : Prop where
  kind : trim m.kind = agentManifestKind
  agentEd : trimLower m.agentEd25519PubkeyHex = r.agentEd
  owner : trimLower m.ownerWalletId = r.owner
  signer : trimLower m.hybridSig.ed25519PubkeyHex = r.owner
  agentKey : trim m.agentMldsa44PubkeyB64 = r.agentKey
  agentLevel : ∃ b, stdDecode r.agentKey = some b ∧ b.length = 1312
  ownerKey : trim m.hybridSig.mldsaPubkeyB64 = r.ownerKey
  edSig : stdDecode m.hybridSig.ed25519SigB64 = some r.edSig
  mldsaSig : stdDecode (trim m.hybridSig.mldsaSigB64) = some r.mldsaSig
  mldsaSize : r.mldsaSig.length = 2420

/-! ## What is written plainly -/

/-- The blanks around a text are blanks to both: no `U+FEFF`, a blank of JavaScript alone, and no
`U+0085`, a blank of Rust alone. -/
def PlainMargins (s : Str) : Prop := ∀ c ∈ margins isJsBlank isWhitespace s, isJsBlank c = isWhitespace c

/-- A hex id is trimmed and lowered alike. -/
def LowersAlike (J : JsRuntime) (s : Str) : Prop := J.toLowerCase (jsTrim s) = trimLower s

/-- The signed texts are read alike. -/
structure SignedAlike (J : JsRuntime) (m : AgentManifestV1) (ownerKey : Str) : Prop where
  kind : PlainMargins m.kind
  agentEd : LowersAlike J m.agentEd25519PubkeyHex
  agentKey : PlainMargins m.agentMldsa44PubkeyB64
  owner : LowersAlike J m.ownerWalletId
  ownerKey : PlainMargins ownerKey

/-- A manifest that is written plainly: its texts are read alike, the unused bits of the agent's key and
of the Ed25519 signature are zero, around that signature there is no blank, and the ML-DSA signature has
its size, which the page leaves to the signature scheme. -/
structure Plain (J : JsRuntime) (m : AgentManifestV1) : Prop extends
    SignedAlike J m m.hybridSig.mldsaPubkeyB64 where
  signer : LowersAlike J m.hybridSig.ed25519PubkeyHex
  agentBits : (stdDecode (trim m.agentMldsa44PubkeyB64)).isSome = true
  edSig : (stdDecode m.hybridSig.ed25519SigB64).isSome = true
  mldsaSig : trim (jsTrim m.hybridSig.mldsaSigB64) = trim m.hybridSig.mldsaSigB64
  mldsaSize : ∀ b, stdDecode (trim m.hybridSig.mldsaSigB64) = some b → b.length = 2420

section Specs

variable {J : JsRuntime} {S : SigPrimitives} {A : Auth} {isoDate : Int → Str} {j : JsValue}
  {m : AgentManifestV1} {nowMs : Nat} {r : Statement}

theorem plainMargins_iff {s : Str} : PlainMargins s ↔ jsTrim s = trim s := by
  rw [jsTrim_eq_strip, trim_eq_strip, strip_eq_strip_iff]
  rfl

/-! ## The signed bytes -/

theorem typeFacts : jsTrim agentManifestPayloadType = agentManifestPayloadType ∧
    trim agentManifestPayloadType = agentManifestPayloadType := by
  decide +kernel

/-- Page and node put the same bytes around the fields. -/
theorem payloadAuthMessageBytes_eq (A : Auth) (payload : Bytes) :
    payloadAuthMessageBytes (chainOf A) agentManifestPayloadType payload =
      agentPayloadAuthMessageBytes A agentManifestPayloadType payload := by
  unfold payloadAuthMessageBytes agentPayloadAuthMessageBytes
  rw [typeFacts.1, typeFacts.2]
  rfl

theorem toText_ofNat (n : Nat) : (JsValue.ofNat n).toText = some (Json.decimal n) := by
  simp [JsValue.ofNat, JsValue.toText]

theorem mapM_coerce_str (cs : List Str) : (cs.map JsValue.str).mapM coerce = .ok cs := by
  induction cs with
  | nil => rfl
  | cons c cs ih =>
    rw [List.map_cons, List.mapM_cons, ih, coerce_ok.mpr (toText_str c)]
    rfl

/-- The page's bytes of a manifest that is typed. -/
theorem agentManifestAuthMessageBytes_typed (h : Typed j m) (key : Str) :
    agentManifestAuthMessageBytes J (chainOf A) j (.str key) =
      .ok (agentPayloadAuthMessageBytes A agentManifestPayloadType
        (paeFields (fieldsOf m (jsTrim m.kind) (J.toLowerCase (jsTrim m.agentEd25519PubkeyHex))
          (jsTrim m.agentMldsa44PubkeyB64) (J.toLowerCase (jsTrim m.ownerWalletId)) (jsTrim key)))) := by
  unfold agentManifestAuthMessageBytes
  rw [h.v, h.kind, h.agentId, h.agentEd25519, h.agentMldsa44, h.owner, h.createdAtMs, h.expiresAtMs,
    h.declaredAutomated, h.capabilities, coerce_ok.mpr (toText_ofNat m.v),
    coerce_ok.mpr (toText_str m.kind), coerce_ok.mpr (toText_str m.agentId),
    coerce_ok.mpr (toText_str m.agentEd25519PubkeyHex), coerce_ok.mpr (toText_str m.agentMldsa44PubkeyB64),
    coerce_ok.mpr (toText_str m.ownerWalletId), coerce_ok.mpr (toText_ofNat m.createdAtMs),
    coerce_ok.mpr (toText_ofNat m.expiresAtMs), coerce_ok.mpr (toText_str key)]
  simp only [ok_bind, JsValue.asArray, mapM_coerce_str]
  rw [← payloadAuthMessageBytes_eq]
  rfl

/-- The signed fields give back the texts. -/
theorem fieldsOf_eq_iff {kind agentEd agentKey owner ownerKey kind' agentEd' agentKey' owner'
    ownerKey' : Str} :
    fieldsOf m kind agentEd agentKey owner ownerKey =
        fieldsOf m kind' agentEd' agentKey' owner' ownerKey' ↔
      kind = kind' ∧ agentEd = agentEd' ∧ agentKey = agentKey' ∧ owner = owner' ∧
        ownerKey = ownerKey' := by
  constructor
  · intro h
    simp only [fieldsOf, List.cons_append, List.nil_append, List.cons.injEq] at h
    obtain ⟨-, hkind, -, hed, hkey, howner, -, -, -, -, hownerKey, -⟩ := h
    exact ⟨utf8_injective hkind, utf8_injective hed, utf8_injective hkey, utf8_injective howner,
      utf8_injective hownerKey⟩
  · rintro ⟨rfl, rfl, rfl, rfl, rfl⟩
    rfl

/-- **The signed bytes are the same** exactly if the signed texts are read alike. -/
theorem messages_eq_iff (h : Typed j m) (key : Str) :
    agentManifestAuthMessageBytes J (chainOf A) j (.str key) =
        .ok (Agent.agentManifestAuthMessageBytes A m key) ↔ SignedAlike J m key := by
  rw [agentManifestAuthMessageBytes_typed h, Except.ok.injEq, Agent.agentManifestAuthMessageBytes,
    agentPayloadAuthMessageBytes_inj, and_iff_right rfl, paeFields_injective.eq_iff,
    show manifestFields m key = fieldsOf m (trim m.kind) (trimLower m.agentEd25519PubkeyHex)
      (trim m.agentMldsa44PubkeyB64) (trimLower m.ownerWalletId) (trim key) from rfl, fieldsOf_eq_iff]
  constructor
  · rintro ⟨hkind, hed, hkey, howner, hownerKey⟩
    exact ⟨plainMargins_iff.mpr hkind, hed, plainMargins_iff.mpr hkey, howner,
      plainMargins_iff.mpr hownerKey⟩
  · intro h
    exact ⟨plainMargins_iff.mp h.kind, h.agentEd, plainMargins_iff.mp h.agentKey, h.owner,
      plainMargins_iff.mp h.ownerKey⟩

/-! ## The page's verdict -/

theorem safeInteger_ofNat {n : Nat} (hn : n < 2 ^ 53) : safeInteger (.ofNat n) = some (n : Int) := by
  have hsign : ∀ digits, Json.decimal n ≠ '-' :: digits := by
    intro digits h
    have hdigit := Json.decimal_digits (n := n) '-' (h ▸ List.mem_cons_self)
    revert hdigit
    decide
  have hback : Nat.ofDigitChars 10 (Json.decimal n) 0 = n := Nat.ofDigitChars_ten_toDigits
  unfold JsValue.ofNat safeInteger
  split
  · rename_i digits h
    rw [JsValue.num.injEq] at h
    exact absurd h (hsign digits)
  · rename_i digits _ h
    rw [JsValue.num.injEq] at h
    subst h
    simp only [hback]
    rw [if_pos ⟨trivial, hn⟩]
  · rename_i hnum
    exact absurd rfl (hnum _)

theorem capabilitiesOf_ok {v : JsValue} {cs : List JsValue} :
    capabilitiesOf v = .ok cs ↔ v.asArray = some cs ∧ cs.length ≤ agentManifestMaxCapabilities := by
  unfold capabilitiesOf
  cases v.asArray with
  | none => simp
  | some l =>
    simp only
    by_cases hlen : l.length > agentManifestMaxCapabilities
    · rw [if_pos hlen, Option.some.injEq]
      constructor
      · intro h
        cases h
      · rintro ⟨rfl, hle⟩
        omega
    · rw [if_neg hlen, Except.ok.injEq, Option.some.injEq]
      constructor
      · rintro rfl
        exact ⟨rfl, Nat.le_of_not_gt hlen⟩
      · exact fun h => h.1

theorem checkCapabilities_str {cs : List Str} {u : Unit} :
    checkCapabilities (cs.map .str) = .ok u ↔
      ∀ c ∈ cs, byteLen c ≠ 0 ∧ byteLen c ≤ agentManifestMaxCapabilityLen := by
  induction cs with
  | nil => simp [checkCapabilities]
  | cons c cs ih =>
    rw [List.map_cons, checkCapabilities, coerce_ok.mpr (toText_str c)]
    simp only [ok_bind, bind_eq_ok, require_eq_ok, exists_const, ih, List.forall_mem_cons,
      JsValue.asStr, Option.isSome_some, true_and]

theorem decodedLength_str {t : Str} : decodedLength (.str t) = agentMldsa44PubkeyBytes ↔
    isBase64Shape (jsTrim t) = true ∧ ∃ b, atob (jsTrim t) = some b ∧ b.length = 1312 := by
  unfold decodedLength pageB64ToBytes
  rw [show (JsValue.str t).orElse (.str []) = .str t from rfl, toText_str, Option.bind_some]
  cases isBase64Shape (jsTrim t) with
  | false => simp [agentMldsa44PubkeyBytes]
  | true =>
    cases hb : atob (jsTrim t) with
    | none => simp [agentMldsa44PubkeyBytes]
    | some b => simp [agentMldsa44PubkeyBytes]

theorem hexId_str {t s : Str} : hexId J (.str t) = .ok s ↔ J.toLowerCase (jsTrim t) = s := by
  unfold hexId
  rw [show (JsValue.str t).orElse (.str []) = .str t from rfl, coerce_ok.mpr (toText_str t), ok_bind]
  simp only [pure, Except.pure, Except.ok.injEq]

theorem typed_sig (h : Typed j m) :
    (j.get "hybrid_sig".toList).orElse (.obj []) = j.get "hybrid_sig".toList := by
  have hobj : (j.get "hybrid_sig".toList).isObject = true := by
    refine JsValue.exists_obj_of_get "ed25519_pubkey_hex".toList ?_
    rw [h.sigEd25519]
    simp
  generalize j.get "hybrid_sig".toList = v at hobj
  cases v with
  | obj ms => rfl
  | undefined | null | bool | num | str | arr => cases hobj

theorem hexToBytes_of_some {s : Str} {pk : Bytes} (h : hexDecode s = some pk) : hexToBytes s = pk := by
  unfold hexToBytes
  rw [h]
  rfl

theorem same_version {n : Nat} : (JsValue.ofNat n).same (.ofNat 1) = true ↔ n = 1 := by
  rw [same_ofNat]
  constructor
  · intro h
    exact Json.decimal_injective (JsValue.num.inj h)
  · rintro rfl
    rfl

/-- The bytes that the page puts together are those of the statement it reads. -/
theorem PageReads.message (h : PageReads J m r) :
    agentPayloadAuthMessageBytes A agentManifestPayloadType
      (paeFields (fieldsOf m (jsTrim m.kind) (J.toLowerCase (jsTrim m.agentEd25519PubkeyHex))
        (jsTrim m.agentMldsa44PubkeyB64) (J.toLowerCase (jsTrim m.ownerWalletId))
        (jsTrim m.hybridSig.mldsaPubkeyB64))) = r.message A m := by
  rw [h.kind, h.agentEd, h.agentKey, h.owner, h.ownerKey]
  rfl

/-- **The page takes** exactly the manifests off which it reads something valid. -/
theorem verifyAgentManifest_isOk (h : Typed j m) :
    (verifyAgentManifest J S (chainOf A) isoDate j nowMs).isOk = true ↔
      ∃ r, PageReads J m r ∧ Valid A S m nowMs r := by
  have hstr : ∀ t : Str, (JsValue.str t).orElse (.str []) = .str t := fun _ => rfl
  have htimes : timesOf (.ofNat m.createdAtMs) (.ofNat m.expiresAtMs) =
      .ok ((m.createdAtMs : Int), (m.expiresAtMs : Int)) := by
    rw [timesOf, safeInteger_ofNat h.createdSafe, safeInteger_ofNat h.expiresSafe]
  rw [isOk_iff]
  unfold verifyAgentManifest
  simp only [typed_sig h, h.v, h.kind, h.agentId, h.agentEd25519, h.agentMldsa44, h.owner,
    h.createdAtMs, h.expiresAtMs, h.declaredAutomated, h.capabilities, h.sigEd25519, h.sigEd25519Sig,
    h.sigMldsa, h.sigMldsaSig, hstr, htimes, agentManifestAuthMessageBytes_typed h, ok_bind,
    bind_eq_ok, require_eq_ok, exists_const, coerce_ok, toText_str, Option.some.injEq, exists_eq_left',
    capabilitiesOf_ok, JsValue.asArray, JsValue.asStr, Option.isSome_some, hexId_str,
    decodedLength_str, isLowerHex64_eq, ed25519Verify_eq_true, mldsa44Verify_eq_true, same_version,
    h.object, true_and, Nat.cast_lt, Nat.cast_le]
  constructor
  · rintro ⟨hv, hkind, hid, _, ⟨rfl, hcount⟩, _, hcaps, -, hagentEd, howner, hapart, hlevel,
      ⟨-, key, hkey, hkeySize⟩, hsigner, ⟨edSig, hedSig, hedSize, hed⟩, ⟨pk, mlSig, hpk, hmlSig, hml⟩,
      hschedule, hunexpired⟩
    obtain ⟨hshape, hatob⟩ := pageB64ToBytes_some.mp hedSig
    obtain ⟨t, ht, hatob⟩ := offlineB64ToBytes_some.mp hatob
    obtain rfl := Option.some.inj ((toText_str _).symm.trans ht)
    have hstrict := stdDecode_of_both (jsTrim_jsTrim _) hkey hpk
    obtain ⟨ownerBytes, hownerBytes, -⟩ := exists_hexDecode_of_is64hexLower howner
    let r : Statement := ⟨J.toLowerCase (jsTrim m.agentEd25519PubkeyHex),
      J.toLowerCase (jsTrim m.ownerWalletId), jsTrim m.agentMldsa44PubkeyB64,
      jsTrim m.hybridSig.mldsaPubkeyB64, edSig, mlSig⟩
    have hreads : PageReads J m r :=
      ⟨hkind, rfl, rfl, hsigner, rfl, hlevel, rfl, ⟨hshape _ (toText_str _), hatob⟩, hmlSig⟩
    rw [trim_of_stdDecode hstrict, hstrict] at hpk
    obtain rfl := Option.some.inj hpk
    rw [hreads.message, hexToBytes_of_some hownerBytes] at hed
    rw [hreads.message] at hml
    rw [List.length_map] at hcount
    exact ⟨r, hreads, hv, hid, hcount, checkCapabilities_str.mp hcaps, hagentEd, howner, hapart, hedSize,
      ⟨ownerBytes, hownerBytes, hed⟩, ⟨key, hstrict, hkeySize, hml⟩, hschedule, hunexpired⟩
  · rintro ⟨r, hreads, hvalid⟩
    obtain ⟨ownerBytes, hownerBytes, hed⟩ := hvalid.ed25519
    obtain ⟨key, hkey, hkeySize, hml⟩ := hvalid.mldsa
    have hedSig : pageB64ToBytes (.str m.hybridSig.ed25519SigB64) = some r.edSig := by
      refine pageB64ToBytes_some.mpr ⟨?_, offlineB64ToBytes_some.mpr ⟨_, toText_str _, hreads.edSig.2⟩⟩
      intro t ht
      obtain rfl := Option.some.inj ((toText_str _).symm.trans ht)
      exact hreads.edSig.1
    rw [hreads.message, hreads.agentEd, hreads.owner, hreads.signer, hreads.agentKey, hreads.ownerKey,
      trim_of_stdDecode hkey, hexToBytes_of_some hownerBytes]
    exact ⟨hvalid.version, hreads.kind, hvalid.agentId, _, ⟨rfl, by
      rw [List.length_map]
      exact hvalid.capabilityCount⟩, (), checkCapabilities_str.mpr hvalid.capabilities, rfl,
      hvalid.agentEd, hvalid.owner, hvalid.apart, hreads.agentLevel,
      ⟨isBase64Shape_of_stdDecode hkey, key, atob_eq hkey, hkeySize⟩, rfl,
      ⟨r.edSig, hedSig, hvalid.edSize, hed⟩, ⟨key, r.mldsaSig, hkey, hreads.mldsaSig, hml⟩,
      hvalid.schedule, hvalid.unexpired⟩

/-! ## The node's verdict -/

theorem agentCheckCapabilities_ok {cs : List Str} {index : Nat} {u : Unit} :
    Agent.checkCapabilities index cs = .ok u ↔
      ∀ c ∈ cs, byteLen c ≠ 0 ∧ byteLen c ≤ agentManifestMaxCapabilityLen := by
  have hempty : ∀ c : Str, c.isEmpty = true ↔ byteLen c = 0 := by
    intro c
    rw [List.isEmpty_iff]
    constructor
    · rintro rfl
      rfl
    · exact fun h => utf8_injective (List.length_eq_zero_iff.mp h)
  induction cs generalizing index with
  | nil => simp [Agent.checkCapabilities]
  | cons c cs ih =>
    rw [Agent.checkCapabilities, ite_error_eq_ok, List.forall_mem_cons, not_or, hempty, Nat.not_lt]
    exact and_congr_right' ih

theorem decodedLen_eq {t : Str} : decodedLen t = agentMldsa44PubkeyBytes ↔
    ∃ b, stdDecode (trim t) = some b ∧ b.length = 1312 := by
  unfold decodedLen
  cases stdDecode (trim t) with
  | none => simp [agentMldsa44PubkeyBytes]
  | some b => simp [agentMldsa44PubkeyBytes]

/-- The bytes that the node puts together are those of the statement it reads. -/
theorem NodeReads.message (h : NodeReads m r) :
    Agent.agentManifestAuthMessageBytes A m m.hybridSig.mldsaPubkeyB64 = r.message A m := by
  unfold Agent.agentManifestAuthMessageBytes manifestFields Statement.message fieldsOf
  rw [h.kind, h.agentEd, h.agentKey, h.owner, h.ownerKey]

/-- **The node takes** exactly the manifests off which it reads something valid. -/
theorem verifyAgentManifestV1_isOk :
    (verifyAgentManifestV1 A S m nowMs).isOk = true ↔ ∃ r, NodeReads m r ∧ Valid A S m nowMs r := by
  rw [isOk_iff]
  unfold verifyAgentManifestV1
  simp only [throw, throwThe, MonadExceptOf.throw, error_bind, ite_error_eq_ok, bind_eq_ok, mapError_eq_ok,
    pure_eq_ok, exists_const, and_true, not_not, not_or, Nat.not_lt, Nat.not_le, Bool.not_eq_false,
    trim_trimLower, decodedLen_eq, agentCheckCapabilities_ok, gt_iff_lt]
  constructor
  · rintro ⟨hv, hkind, hid, hcount, hcaps, hagentEd, howner, hapart, hlevel, -, hsigner, ⟨⟩,
      hsigs, hschedule, hunexpired⟩
    obtain ⟨hed, hml⟩ := verifyAgentHybridSig_ok.mp hsigs
    obtain ⟨ownerBytes, edSig, hownerBytes, -, hedSig, hedSize, hed⟩ :=
      SigPrimitives.verifyEd25519_ok.mp hed
    obtain ⟨key, mlSig, hkey, hkeySize, hmlSig, hmlSize, hml⟩ := SigPrimitives.verifyMldsa44B64_ok.mp hml
    let r : Statement := ⟨trimLower m.agentEd25519PubkeyHex, trimLower m.ownerWalletId,
      trim m.agentMldsa44PubkeyB64, trim m.hybridSig.mldsaPubkeyB64, edSig, mlSig⟩
    have hreads : NodeReads m r := ⟨hkind, rfl, rfl, hsigner, rfl, hlevel, rfl, hedSig, hmlSig, hmlSize⟩
    rw [hreads.message] at hed hml
    exact ⟨r, hreads, hv, hid, hcount, hcaps, hagentEd, howner, hapart, hedSize,
      ⟨ownerBytes, hownerBytes, hed⟩, ⟨key, hkey, hkeySize, hml⟩, hschedule, hunexpired⟩
  · rintro ⟨r, hreads, hvalid⟩
    obtain ⟨ownerBytes, hownerBytes, hed⟩ := hvalid.ed25519
    obtain ⟨pk, hpk, hsize⟩ := exists_hexDecode_of_is64hexLower hvalid.owner
    obtain rfl := Option.some.inj (hownerBytes.symm.trans hpk)
    obtain ⟨key, hkey, hkeySize, hml⟩ := hvalid.mldsa
    have hsigs : verifyAgentHybridSig S r.owner m.hybridSig (r.message A m) = .ok () :=
      verifyAgentHybridSig_ok.mpr ⟨SigPrimitives.verifyEd25519_ok.mpr
        ⟨ownerBytes, r.edSig, hownerBytes, hsize, hreads.edSig, hvalid.edSize, hed⟩,
        SigPrimitives.verifyMldsa44B64_ok.mpr ⟨key, r.mldsaSig, hreads.ownerKey.symm ▸ hkey, hkeySize,
          hreads.mldsaSig, hreads.mldsaSize, hml⟩⟩
    rw [hreads.message, hreads.agentEd, hreads.owner, hreads.signer, hreads.agentKey, hreads.ownerKey]
    exact ⟨hvalid.version, hreads.kind, hvalid.agentId, hvalid.capabilityCount, hvalid.capabilities,
      hvalid.agentEd, hvalid.owner, hvalid.apart, hreads.agentLevel, ⟨key, hkey, hkeySize⟩, rfl, (),
      hsigs, hvalid.schedule, hvalid.unexpired⟩

/-! ## Texts that are read alike -/

/-- A blank of neither language. -/
def isInk (c : Char) : Bool := !isWhitespace c && !isJsBlank c

theorem isInk_of_blankless {c : Char} (h : isWhitespace c = false) (hjs : isJsBlank c = false) :
    isInk c = true := by
  rw [isInk, h, hjs]
  rfl

theorem filter_isInk_trim (s : Str) : (trim s).filter isInk = s.filter isInk := by
  rw [trim_eq_strip]
  refine filter_strip (fun c hc => ?_) s
  rw [isInk, hc]
  rfl

theorem filter_isInk_jsTrim (s : Str) : (jsTrim s).filter isInk = s.filter isInk := by
  rw [jsTrim_eq_strip]
  refine filter_strip (fun c hc => ?_) s
  rw [isInk, hc, Bool.not_true, Bool.and_false]

theorem jsTrim_append_blanks {s after : Str} (hs : ∀ c ∈ s, isJsBlank c = false)
    (hafter : ∀ c ∈ after, isJsBlank c = true) : jsTrim (s ++ after) = s :=
  @dropWhile_around isJsBlank [] s after (List.forall_mem_nil _) hs hafter

/-- Texts without blanks are the same if they are it up to blanks. -/
theorem eq_of_filter_isInk {s t : Str} (h : s.filter isInk = t.filter isInk)
    (hs : ∀ c ∈ s, isInk c = true) (ht : ∀ c ∈ t, isInk c = true) : s = t := by
  rw [← List.filter_eq_self.mpr hs, h, List.filter_eq_self.mpr ht]

theorem isInk_of_lower {c : Char} (h : isAsciiHexdigit (asciiLower c) = true) : isInk c = true := by
  have hrange : 48 ≤ c.toNat ∧ c.toNat < 128 := by
    rcases asciiLower_cases c with heq | ⟨hlow, hhigh, -⟩
    · rw [heq] at h
      unfold isAsciiHexdigit at h
      simp at h
      omega
    · omega
  refine isInk_of_blankless ?_ ?_
  · unfold isWhitespace
    simp
    omega
  · unfold isJsBlank
    simp
    omega

theorem lower_digits {s : Str} (h : SignedRecord.is64hexLower (toAsciiLowercase s) = true) :
    ∀ c ∈ s, isAsciiHexdigit (asciiLower c) = true := by
  simp only [SignedRecord.is64hexLower, Bool.and_eq_true, List.all_eq_true] at h
  intro c hc
  exact (h.2 _ (List.mem_map_of_mem hc)).1

/-- A text that both read as 64 hex digits they read alike. -/
theorem lowersAlike_of_hex {s : Str} (hjs : SignedRecord.is64hexLower (J.toLowerCase (jsTrim s)) = true)
    (h : SignedRecord.is64hexLower (trimLower s) = true) : LowersAlike J s := by
  have hdigits := lower_digits h
  have hplain : ∀ c ∈ s, isCasePlain c = true := by
    obtain ⟨before, after, hs, hb, ha⟩ := exists_trim s
    have hblank : ∀ c, isWhitespace c = true → isCasePlain c = true := by
      intro c hc
      rw [isCasePlain, hc, Bool.or_true, Bool.true_or]
    intro c hc
    rw [hs] at hc
    rcases List.mem_append.mp hc with hc | hc
    · exact hblank c (hb c hc)
    · rcases List.mem_append.mp hc with hc | hc
      · exact isCasePlain_of_lower (hdigits c hc)
      · exact hblank c (ha c hc)
  have hsub : ∀ c ∈ jsTrim s, c ∈ s := by
    intro c hc
    obtain ⟨before, after, hs, -, -⟩ := exists_strip isJsBlank s
    rw [hs]
    exact List.mem_append_right _ (List.mem_append_left _ hc)
  have hlower : J.toLowerCase (jsTrim s) = toAsciiLowercase (jsTrim s) :=
    JsRuntime.toLowerCase_of_plain fun c hc => hplain c (hsub c hc)
  rw [hlower] at hjs
  have hsame : jsTrim s = trim s :=
    eq_of_filter_isInk ((filter_isInk_jsTrim s).trans (filter_isInk_trim s).symm)
      (fun c hc => isInk_of_lower (lower_digits hjs c hc)) fun c hc => isInk_of_lower (hdigits c hc)
  unfold LowersAlike trimLower
  rw [hlower, hsame]

theorem isInk_of_stdDecode {s : Str} {b : Bytes} (h : stdDecode s = some b) : ∀ c ∈ s, isInk c = true := by
  intro c hc
  exact isInk_of_blankless (not_blank_of_stdDecode h hc).1 (not_jsBlank_of_stdDecode h c hc)

/-- Off a manifest that is written plainly page and node read the same. -/
theorem reads_of_plain (h : Plain J m) : PageReads J m r ↔ NodeReads m r := by
  obtain ⟨agentBytes, hagent⟩ := Option.isSome_iff_exists.mp h.agentBits
  obtain ⟨edSig, hedSig⟩ := Option.isSome_iff_exists.mp h.edSig
  have hkind := plainMargins_iff.mp h.kind
  have hagentKey := plainMargins_iff.mp h.agentKey
  have hownerKey := plainMargins_iff.mp h.ownerKey
  constructor
  · intro hpage
    have hkey : trim m.agentMldsa44PubkeyB64 = r.agentKey := hagentKey ▸ hpage.agentKey
    obtain ⟨-, b, hb, hsize⟩ := hpage.agentLevel
    rw [hkey] at hagent
    obtain rfl := Option.some.inj (hb.symm.trans (atob_eq hagent))
    have hatob := hpage.edSig.2
    rw [jsTrim_of_stdDecode hedSig, atob_eq hedSig] at hatob
    have hsig := hpage.mldsaSig
    rw [h.mldsaSig] at hsig
    exact ⟨hkind ▸ hpage.kind, h.agentEd ▸ hpage.agentEd, h.owner ▸ hpage.owner, h.signer ▸ hpage.signer,
      hkey, ⟨b, hagent, hsize⟩, hownerKey ▸ hpage.ownerKey, hedSig.trans hatob, hsig,
      h.mldsaSize _ hsig⟩
  · intro hnode
    obtain ⟨b, hb, hsize⟩ := hnode.agentLevel
    refine ⟨hkind.trans hnode.kind, h.agentEd.trans hnode.agentEd, h.owner.trans hnode.owner,
      h.signer.trans hnode.signer, hagentKey.trans hnode.agentKey,
      ⟨isBase64Shape_of_stdDecode hb, b, atob_eq hb, hsize⟩, hownerKey.trans hnode.ownerKey, ?_,
      h.mldsaSig ▸ hnode.mldsaSig⟩
    rw [jsTrim_of_stdDecode hnode.edSig]
    exact ⟨isBase64Shape_of_stdDecode hnode.edSig, atob_eq hnode.edSig⟩

/-- A manifest off which both read something valid is written plainly. -/
theorem plain_of_reads {r' : Statement} (hpage : PageReads J m r) (hnode : NodeReads m r')
    (hvalid : Valid A S m nowMs r) (hvalid' : Valid A S m nowMs r') : Plain J m := by
  obtain ⟨agentBytes, hagent, -⟩ := hnode.agentLevel
  obtain ⟨-, agentBytes', hagent', -⟩ := hpage.agentLevel
  obtain ⟨key, hkey, -⟩ := hvalid.mldsa
  obtain ⟨key', hkey', -⟩ := hvalid'.mldsa
  have hsigs : trim (jsTrim m.hybridSig.mldsaSigB64) = trim m.hybridSig.mldsaSigB64 := by
    refine eq_of_filter_isInk ?_ (isInk_of_stdDecode hpage.mldsaSig) (isInk_of_stdDecode hnode.mldsaSig)
    rw [filter_isInk_trim, filter_isInk_jsTrim, filter_isInk_trim]
  refine ⟨⟨?kind, ?agentEd, ?agentKey, ?owner, ?ownerKey⟩, ?signer, ?agentBits, ?edSig, hsigs, ?mldsaSize⟩
  case kind => exact plainMargins_iff.mpr (hpage.kind.trans hnode.kind.symm)
  case agentEd =>
    exact lowersAlike_of_hex (hpage.agentEd.symm ▸ hvalid.agentEd) (hnode.agentEd.symm ▸ hvalid'.agentEd)
  case agentKey =>
    rw [← hpage.agentKey] at hagent'
    rw [← hnode.agentKey] at hagent
    exact plainMargins_iff.mpr (jsTrim_eq_of_decodes hagent hagent')
  case owner =>
    exact lowersAlike_of_hex (hpage.owner.symm ▸ hvalid.owner) (hnode.owner.symm ▸ hvalid'.owner)
  case ownerKey =>
    rw [← hpage.ownerKey] at hkey
    rw [← hnode.ownerKey] at hkey'
    exact plainMargins_iff.mpr (jsTrim_eq_of_decodes hkey' (atob_eq hkey))
  case signer =>
    exact lowersAlike_of_hex (hpage.signer.symm ▸ hvalid.owner) (hnode.signer.symm ▸ hvalid'.owner)
  case agentBits =>
    rw [hnode.agentKey, hagent]
    rfl
  case edSig =>
    rw [hnode.edSig]
    rfl
  case mldsaSize =>
    intro b hb
    obtain rfl := Option.some.inj (hnode.mldsaSig.symm.trans hb)
    exact hnode.mldsaSize

/-- **Browser and node agree on manifests exactly where they are written plainly.** The signed bytes are
the same for an owner key exactly if the signed texts are read alike; and at any time both give one verdict
exactly if a manifest off which either reads something valid is written plainly. -/
theorem manifest_verifiers_iff (J : JsRuntime) (S : SigPrimitives) (A : Auth) (isoDate : Int → Str)
    (j : JsValue) (m : AgentManifestV1) (h : Typed j m) :
    (∀ key : Str, agentManifestAuthMessageBytes J (chainOf A) j (.str key) =
        .ok (Agent.agentManifestAuthMessageBytes A m key) ↔ SignedAlike J m key) ∧
    ∀ nowMs : Nat, ((verifyAgentManifest J S (chainOf A) isoDate j nowMs).isOk = true ↔
        (verifyAgentManifestV1 A S m nowMs).isOk = true) ↔
      ∀ r, Valid A S m nowMs r → PageReads J m r ∨ NodeReads m r → Plain J m := by
  refine ⟨messages_eq_iff h, fun nowMs => ?_⟩
  rw [verifyAgentManifest_isOk h, verifyAgentManifestV1_isOk]
  constructor
  · intro hagree r hvalid hreads
    rcases hreads with hpage | hnode
    · obtain ⟨r', hnode, hvalid'⟩ := hagree.mp ⟨r, hpage, hvalid⟩
      exact plain_of_reads hpage hnode hvalid hvalid'
    · obtain ⟨r', hpage, hvalid'⟩ := hagree.mpr ⟨r, hnode, hvalid⟩
      exact plain_of_reads hpage hnode hvalid' hvalid
  · intro hplain
    constructor
    · rintro ⟨r, hpage, hvalid⟩
      exact ⟨r, (reads_of_plain (hplain r hvalid (Or.inl hpage))).mp hpage, hvalid⟩
    · rintro ⟨r, hnode, hvalid⟩
      exact ⟨r, (reads_of_plain (hplain r hvalid (Or.inr hnode))).mpr hnode, hvalid⟩

end Specs

/-! ## Manifests as JSON -/

/-- The members of a manifest's signatures. -/
def signatureMembers (sig : HybridSigV1) : List (Str × JsValue) :=
  [("ed25519_pubkey_hex".toList, .str sig.ed25519PubkeyHex),
    ("ed25519_sig_b64".toList, .str sig.ed25519SigB64),
    ("mldsa_pubkey_b64".toList, .str sig.mldsaPubkeyB64),
    ("mldsa_sig_b64".toList, .str sig.mldsaSigB64)]

/-- The members of a manifest, as a node writes it. -/
def manifestMembers (m : AgentManifestV1) : List (Str × JsValue) :=
  [("v".toList, .ofNat m.v), ("kind".toList, .str m.kind), ("agent_id".toList, .str m.agentId),
    ("agent_ed25519_pubkey_hex".toList, .str m.agentEd25519PubkeyHex),
    ("agent_mldsa44_pubkey_b64".toList, .str m.agentMldsa44PubkeyB64),
    ("owner_wallet_id".toList, .str m.ownerWalletId),
    ("created_at_ms".toList, .ofNat m.createdAtMs), ("expires_at_ms".toList, .ofNat m.expiresAtMs),
    ("declared_automated".toList, .bool m.declaredAutomated),
    ("capabilities".toList, .arr (m.capabilities.map .str)),
    ("hybrid_sig".toList, .obj (signatureMembers m.hybridSig))]

theorem memberNames : (∀ m, ((manifestMembers m).map Prod.fst).Nodup) ∧
    ∀ sig, ((signatureMembers sig).map Prod.fst).Nodup := by
  constructor
  · intro m
    simp only [manifestMembers, List.map_cons, List.map_nil]
    decide +kernel
  · intro sig
    simp only [signatureMembers, List.map_cons, List.map_nil]
    decide +kernel

/-- A manifest as a node writes it is typed. -/
theorem typed_manifestMembers (m : AgentManifestV1) (hcreated : m.createdAtMs < 2 ^ 53)
    (hexpires : m.expiresAtMs < 2 ^ 53) : Typed (.obj (manifestMembers m)) m := by
  have hm := memberNames.1 m
  have hs := memberNames.2 m.hybridSig
  have hsig : (JsValue.obj (manifestMembers m)).get "hybrid_sig".toList =
      .obj (signatureMembers m.hybridSig) := JsValue.get_of_position 10 hm rfl
  exact {
    object := rfl
    v := JsValue.get_of_position 0 hm rfl
    kind := JsValue.get_of_position 1 hm rfl
    agentId := JsValue.get_of_position 2 hm rfl
    agentEd25519 := JsValue.get_of_position 3 hm rfl
    agentMldsa44 := JsValue.get_of_position 4 hm rfl
    owner := JsValue.get_of_position 5 hm rfl
    createdAtMs := JsValue.get_of_position 6 hm rfl
    expiresAtMs := JsValue.get_of_position 7 hm rfl
    declaredAutomated := JsValue.get_of_position 8 hm rfl
    capabilities := JsValue.get_of_position 9 hm rfl
    sigEd25519 := hsig ▸ JsValue.get_of_position 0 hs rfl
    sigEd25519Sig := hsig ▸ JsValue.get_of_position 1 hs rfl
    sigMldsa := hsig ▸ JsValue.get_of_position 2 hs rfl
    sigMldsaSig := hsig ▸ JsValue.get_of_position 3 hs rfl
    createdSafe := hcreated
    expiresSafe := hexpires }

end TetCore.Page.Manifests

namespace TetCore.Sample

open TetCore.Lib TetCore.Sigs TetCore.Agent TetCore.Page TetCore.Page.Manifests

/-- What the owner signs of the manifest. -/
def ownerMessage : Bytes :=
  Statement.message auth (manifest ⟨[], [], [], []⟩)
    ⟨wallet 'a', wallet 'b', b64Encode (List.replicate 1312 7), b64Encode siteMldsaKey, [], []⟩

/-- The manifest, signed. -/
def ownerStatement : Statement :=
  ⟨wallet 'a', wallet 'b', b64Encode (List.replicate 1312 7), b64Encode siteMldsaKey,
    checkByte ((hexDecode (wallet 'b')).getD []) ownerMessage :: List.replicate 63 0,
    checkByte siteMldsaKey ownerMessage :: List.replicate 2419 0⟩

/-- It, with something after the Ed25519 signature. -/
def ownerManifest (after : Str) : AgentManifestV1 :=
  manifest ⟨wallet 'b', b64Encode ownerStatement.edSig ++ after, b64Encode siteMldsaKey,
    b64Encode ownerStatement.mldsaSig⟩

/-- What is evaluated of it. -/
theorem manifestFacts :
    (jsTrim agentManifestKind = agentManifestKind ∧ trim agentManifestKind = agentManifestKind) ∧
    (∀ w ∈ [wallet 'a', wallet 'b'], SignedRecord.is64hexLower w = true ∧ jsTrim w = w ∧ trim w = w ∧
      toAsciiLowercase w = w ∧ JsRuntime.ascii.toLowerCase w = w) ∧
    wallet 'a' ≠ wallet 'b' ∧
    (∀ s ∈ ["agent".toList, "post".toList], byteLen s ≠ 0 ∧ byteLen s ≤ 64) := by
  decide +kernel

theorem ownerStatement_valid (after : Str) :
    Valid auth sitePrimitives (ownerManifest after) 1500 ownerStatement := by
  obtain ⟨-, hwallets, hapart, htexts⟩ := manifestFacts
  have ha := hwallets (wallet 'a') List.mem_cons_self
  have hb := hwallets (wallet 'b') (List.mem_cons_of_mem _ List.mem_cons_self)
  have hid := htexts "agent".toList List.mem_cons_self
  have hcap := htexts "post".toList (List.mem_cons_of_mem _ List.mem_cons_self)
  have hmessage : ownerStatement.message auth (ownerManifest after) = ownerMessage := rfl
  obtain ⟨pk, hpk, -⟩ := exists_hexDecode_of_is64hexLower hb.1
  refine ⟨rfl, ⟨hid.1, hid.2.trans (by decide)⟩,
    show 1 ≤ agentManifestMaxCapabilities by decide, ?_, ha.1, hb.1, hapart, ?_, ⟨pk, hpk, ?_⟩,
    ⟨siteMldsaKey, stdDecode_encode _, siteMldsaKey_length, ?_⟩, show 1000 < 2000 by decide,
    show 1500 ≤ 2000 by decide⟩
  · intro c hc
    rw [List.mem_singleton.mp hc]
    exact hcap
  · exact (List.length_cons ..).trans (congrArg (· + 1) List.length_replicate)
  · rw [hmessage]
    show (some (checkByte ((hexDecode (wallet 'b')).getD []) ownerMessage) ==
      some (checkByte pk ownerMessage)) = true
    rw [hpk]
    exact beq_self_eq_true _
  · rw [hmessage]
    exact beq_self_eq_true _

/-- The page reads it, also with a line feed after the signature. -/
theorem ownerManifest_page {after : Str} (h : ∀ c ∈ after, isJsBlank c = true) :
    PageReads .ascii (ownerManifest after) ownerStatement := by
  obtain ⟨hkind, hwallets, -, -⟩ := manifestFacts
  obtain ⟨-, htrimA, -, -, hlowerA⟩ := hwallets (wallet 'a') List.mem_cons_self
  obtain ⟨-, htrimB, -, -, hlowerB⟩ := hwallets (wallet 'b') (List.mem_cons_of_mem _ List.mem_cons_self)
  have hstd : ∀ b, jsTrim (b64Encode b) = b64Encode b := fun b => jsTrim_of_stdDecode (stdDecode_encode b)
  have hshape : ∀ b, isBase64Shape (b64Encode b) = true :=
    fun b => isBase64Shape_of_stdDecode (stdDecode_encode b)
  have hed : jsTrim (b64Encode ownerStatement.edSig ++ after) = b64Encode ownerStatement.edSig :=
    jsTrim_append_blanks (not_jsBlank_of_stdDecode (stdDecode_encode _)) h
  have hlowA : JsRuntime.ascii.toLowerCase (jsTrim (wallet 'a')) = wallet 'a' := by
    rw [htrimA, hlowerA]
  have hlowB : JsRuntime.ascii.toLowerCase (jsTrim (wallet 'b')) = wallet 'b' := by
    rw [htrimB, hlowerB]
  refine ⟨hkind.1, hlowA, hlowB, hlowB, hstd _, ⟨hshape _, _, atob_eq (stdDecode_encode _),
    List.length_replicate⟩, hstd _, ?_, ?_⟩
  · show isBase64Shape (jsTrim (b64Encode ownerStatement.edSig ++ after)) = true ∧
      atob (jsTrim (b64Encode ownerStatement.edSig ++ after)) = some ownerStatement.edSig
    rw [hed]
    exact ⟨hshape _, atob_eq (stdDecode_encode _)⟩
  · show stdDecode (trim (jsTrim (b64Encode ownerStatement.mldsaSig))) = some ownerStatement.mldsaSig
    rw [hstd, stdDecode_trim_encode]

/-- The node reads it without one. -/
theorem ownerManifest_node : NodeReads (ownerManifest []) ownerStatement := by
  obtain ⟨hkind, hwallets, -, -⟩ := manifestFacts
  obtain ⟨-, -, htrimA, hlowerA, -⟩ := hwallets (wallet 'a') List.mem_cons_self
  obtain ⟨-, -, htrimB, hlowerB, -⟩ := hwallets (wallet 'b') (List.mem_cons_of_mem _ List.mem_cons_self)
  have hstd : ∀ b, trim (b64Encode b) = b64Encode b := fun b => trim_of_stdDecode (stdDecode_encode b)
  have hlowA : trimLower (wallet 'a') = wallet 'a' := by
    rw [trimLower, htrimA, hlowerA]
  have hlowB : trimLower (wallet 'b') = wallet 'b' := by
    rw [trimLower, htrimB, hlowerB]
  refine ⟨hkind.2, hlowA, hlowB, hlowB, hstd _, ⟨_, stdDecode_encode _, List.length_replicate⟩, hstd _, ?_,
    stdDecode_trim_encode _, (List.length_cons ..).trans (congrArg (· + 1) List.length_replicate)⟩
  show stdDecode (b64Encode ownerStatement.edSig ++ []) = some ownerStatement.edSig
  rw [List.append_nil, stdDecode_encode]

end TetCore.Sample

namespace TetCore.Page.Manifests

open TetCore.Lib TetCore.Sigs TetCore.Agent

/-- With a line feed after the Ed25519 signature a manifest is taken by the page and not by the node. -/
theorem signature_with_newline :
    ¬ ∀ (J : JsRuntime) (S : SigPrimitives) (A : Auth) (isoDate : Int → Str) (j : JsValue)
      (m : AgentManifestV1), Typed j m →
      agentManifestAuthMessageBytes J (chainOf A) j (.str m.hybridSig.mldsaPubkeyB64) =
        .ok (Agent.agentManifestAuthMessageBytes A m m.hybridSig.mldsaPubkeyB64) ∧
      ∀ nowMs : Nat, (verifyAgentManifest J S (chainOf A) isoDate j nowMs).isOk = true ↔
        (verifyAgentManifestV1 A S m nowMs).isOk = true := by
  intro hclaim
  let m := Sample.ownerManifest ['\n']
  have htyped : Typed (.obj (manifestMembers m)) m :=
    typed_manifestMembers m (show 1000 < 2 ^ 53 by decide) (show 2000 < 2 ^ 53 by decide)
  have hpage : (verifyAgentManifest .ascii Sample.sitePrimitives (chainOf Sample.auth) (fun _ => [])
      (.obj (manifestMembers m)) 1500).isOk = true := by
    refine (verifyAgentManifest_isOk htyped).mpr
      ⟨_, Sample.ownerManifest_page ?_, Sample.ownerStatement_valid _⟩
    intro c hc
    rw [List.mem_singleton.mp hc]
    decide
  have hnode := ((hclaim .ascii Sample.sitePrimitives Sample.auth (fun _ => []) _ m htyped).2 1500).mp hpage
  obtain ⟨r, hreads, -⟩ := verifyAgentManifestV1_isOk.mp hnode
  have hnewline := (not_blank_of_stdDecode hreads.edSig (c := '\n')
    (List.mem_append_right _ List.mem_cons_self)).1
  exact absurd hnewline (by decide)

/-- Page and node agree on the manifest without the line feed. -/
theorem manifest_verifiers_plain :
    agentManifestAuthMessageBytes .ascii (chainOf Sample.auth)
        (.obj (manifestMembers (Sample.ownerManifest []))) (.str (b64Encode Sample.siteMldsaKey)) =
      .ok (Agent.agentManifestAuthMessageBytes Sample.auth (Sample.ownerManifest [])
        (b64Encode Sample.siteMldsaKey)) ∧
    ((verifyAgentManifest .ascii Sample.sitePrimitives (chainOf Sample.auth) (fun _ => [])
        (.obj (manifestMembers (Sample.ownerManifest []))) 1500).isOk = true ↔
      (verifyAgentManifestV1 Sample.auth Sample.sitePrimitives (Sample.ownerManifest []) 1500).isOk = true) := by
  have hplain : Plain .ascii (Sample.ownerManifest []) :=
    plain_of_reads (Sample.ownerManifest_page (List.forall_mem_nil _)) Sample.ownerManifest_node
      (Sample.ownerStatement_valid []) (Sample.ownerStatement_valid [])
  obtain ⟨hbytes, hverdict⟩ := manifest_verifiers_iff .ascii Sample.sitePrimitives Sample.auth
    (fun _ => []) (.obj (manifestMembers (Sample.ownerManifest []))) (Sample.ownerManifest [])
    (typed_manifestMembers _ (show 1000 < 2 ^ 53 by decide) (show 2000 < 2 ^ 53 by decide))
  exact ⟨(hbytes _).mpr hplain.toSignedAlike, (hverdict 1500).mpr fun _ _ _ => hplain⟩

end TetCore.Page.Manifests
