import TetCore.Sigs
import TetCore.Page.AnonPoster
import TetCore.Page.SiteReader

/-!
# Three verifiers of a record

`verify_anything.mjs`, `verifyEnvelope`, and `offline_verify.mjs`, `verifyRecordOffline`, beside a node's
`verify_record`. The two scripts make the same checks up to the decoding of base64 (`readParts`): the page
wants padded text (`isBase64Shape`), the offline verifier takes what `atob` takes.

What a script reads off an envelope is `BrowserSays`; `verifyEnvelope_isOk` and `verifyRecordOffline_isOk`
say that each takes exactly what is signed.

* `verifiers_agree`: node, page and offline verifier agree on a record exactly if, whenever a signed SHA-256
  can be read off it, it is written plainly (`PlainRecord`); page and offline verifier agree on an envelope and
  a file exactly if, whenever a signature of the file can be read off it, its payload and its Ed25519
  signature are padded base64.
* `verifiers_differ`: a record with a field `note` is taken by the node and refused by the scripts, and one
  without its padding is taken by the offline verifier alone.
-/

namespace TetCore.Page

open TetCore.Lib TetCore.Sigs

/-! ## The checks of both scripts -/

/-- How a verifier ends without a pass: `{ ok: false, reason }`, or an exception. -/
inductive Refusal where
  | no (reason : Str)
  | threw
  deriving DecidableEq

/-- `String(v)`. -/
def coerce (v : JsValue) : Except Refusal Str :=
  match v.toText with
  | some s => .ok s
  | none => .error .threw

/-- The first member that is none of these is refused. -/
def checkKeys (names : List Str) (reason : Str → Str) (v : JsValue) : Except Refusal Unit :=
  match v.keys.find? fun k => !names.contains k with
  | some k => .error (.no (reason k))
  | none => .ok ()

/-- A string that is not blank. -/
def nonBlank (reason : Str) (v : JsValue) : Except Refusal Str :=
  match v with
  | .str s => if jsTrim s = [] then .error (.no reason) else .ok s
  | _ => .error (.no reason)

/-- Two entries. -/
def twoEntries (v : JsValue) : Except Refusal (List JsValue) :=
  match v.asArray with
  | some sigs => if sigs.length = 2 then .ok sigs else refuse v
  | none => refuse v
where
  /-- The refusal shows the length, whatever `length` is. -/
  refuse (v : JsValue) : Except Refusal (List JsValue) := do
    let n ← coerce (v.lengthOf.orElse (.ofNat 0))
    .error (.no ("expected exactly 2 signatures, got ".toList ++ n))

/-- The entries whose key id starts so. -/
def pick (start : Str) (sigs : List JsValue) : List JsValue :=
  sigs.filter fun s => (s.get "keyid".toList).asStr.any start.isPrefixOf

/-- The one entry there is. -/
def onlyOne (reason : Str) (sigs : List JsValue) : Except Refusal JsValue :=
  match sigs with
  | [s] => .ok s
  | _ => .error (.no reason)

/-- What the two scripts go on with. -/
structure Parts where
  payloadType : Str
  payload : JsValue
  edHex : Str
  mlPub : Str
  mlKeyid : JsValue
  edSig : JsValue
  mlSig : JsValue

/-- The checks of an object up to the first base64 text. -/
def readParts (e : JsValue) : Except Refusal Parts := do
  let tet := e.get "tet".toList
  require (tet.truthy = true ∧ (tet.get "v".toList).same (.ofNat 1) = true)
    (.no "unsupported envelope version".toList)
  require ((tet.get "pae".toList).same (.str agentPayloadDomainV1) = true)
    (.no ("unknown pre-image encoding ".toList ++ (tet.get "pae".toList).stringify))
  checkKeys envelopeNames (fun k => "unexpected field ".toList ++ Json.quote k) e
  checkKeys tetNames (fun k => "unexpected field tet.".toList ++ k) tet
  let payloadType ← nonBlank "payloadType is missing".toList (e.get "payloadType".toList)
  let sigs ← twoEntries (e.get "signatures".toList)
  let ed ← onlyOne "missing or duplicated ed25519 signature".toList (pick edPrefix sigs)
  let ml ← onlyOne "missing or duplicated ml-dsa-44 signature".toList (pick mlPrefix sigs)
  let edHex ← coerce ((tet.get "agent_ed25519_pubkey_hex".toList).orElse (.str []))
  let mlPub ← coerce ((tet.get "agent_mldsa44_pubkey_b64".toList).orElse (.str []))
  require (isLowerHex64 edHex = true) (.no "the ed25519 key is not 64 lowercase hex".toList)
  require ((ed.get "keyid".toList).same (.str (edPrefix ++ edHex)) = true)
    (.no "ed25519 keyid does not match the key it names".toList)
  .ok ⟨payloadType, (e.get "payload".toList).orElse (.str []), edHex, jsTrim mlPub,
    ml.get "keyid".toList, ed.get "sig".toList, ml.get "sig".toList⟩

/-- `agentPayloadAuthMessageBytes`, `payloadAuthMessageBytes`. -/
def payloadAuthMessageBytes (chain : ChainBinding) (payloadType : Str) (payload : Bytes) : Bytes :=
  Payouts.pae agentPayloadDomainV1
    [utf8 chain.chainId, utf8 chain.genesisHash, utf8 (jsTrim payloadType), payload]

/-- `hexToBytes`, of pairs of hex digits. -/
def hexToBytes (h : Str) : Bytes := (hexDecode h).getD []

/-- `/^[A-Za-z0-9+/]*={0,2}$/`, and a length of whole groups. -/
def isBase64Shape (s : Str) : Bool :=
  let rest := s.dropWhile fun c => (sextet c).isSome
  (rest == [] || rest == ['='] || rest == ['=', '=']) && s.length % 4 == 0

/-- `b64ToBytes` of the page; nothing where it throws. -/
def pageB64ToBytes (v : JsValue) : Option Bytes :=
  v.toText.bind fun s => if isBase64Shape (jsTrim s) then atob (jsTrim s) else none

/-- `b64ToBytes` of the offline verifier. -/
def offlineB64ToBytes (v : JsValue) : Option Bytes := v.toText.bind fun s => atob (jsTrim s)

/-- `ed25519Verify`, with the decoder of either script. -/
def ed25519Verify (S : SigPrimitives) (b64ToBytes : JsValue → Option Bytes) (pubHex : Str)
    (sigB64 : JsValue) (msg : Bytes) : Bool :=
  match b64ToBytes sigB64 with
  | none => false
  | some sig => if sig.length ≠ 64 then false else S.ed25519 (hexToBytes pubHex) sig msg

/-- `CROCKFORD`. -/
def crockford : Str := "0123456789ABCDEFGHJKMNPQRSTVWXYZ".toList

section Scripts

variable (W : World) (S : SigPrimitives) (chain : ChainBinding)

/-- `proofCode`: 40 bits of the record's SHA-256. -/
def proofCode (bytes : Bytes) : Str :=
  let bits := ofBeBytes ((W.sha256 bytes).take 5)
  let out := (List.range 8).map fun i => crockford.getD (bits / 32 ^ (7 - i) % 32) '0'
  "TET-".toList ++ out.take 4 ++ '-' :: out.drop 4

/-- The content check of `verifyEnvelope`. -/
def pageContentCheck (content : Bytes) (recordOnly : Bool) (type : Str) (payload : Bytes) :
    Except Refusal Unit :=
  if recordOnly then do
    require (type = hashPayloadType)
      (.no "only a hash-only record can be checked without its file".toList)
    require (payload.length = 32)
      (.no "a hash-only signature must carry exactly 32 bytes".toList)
  else if type = hashPayloadType then do
    require (payload.length = 32)
      (.no "a hash-only signature must carry exactly 32 bytes".toList)
    require (payload = W.sha256 content)
      (.no "the file's SHA-256 differs from the one that was signed".toList)
  else
    require (payload = content)
      (.no ("the content differs from what was signed (signed ".toList ++
        Json.decimal payload.length ++ " bytes, given ".toList ++ Json.decimal content.length ++
        " bytes)".toList))

/-- The content check of `verifyRecordOffline`. -/
def offlineContentCheck (file : Option Bytes) (type : Str) (payload : Bytes) : Except Refusal Unit :=
  if type = hashPayloadType then do
    require (payload.length = 32)
      (.no "a hash-only signature must carry exactly 32 bytes".toList)
    match file with
    | none => .ok ()
    | some f =>
      require (payload = W.sha256 f)
        (.no "the file's SHA-256 differs from the one that was signed".toList)
  else
    match file with
    | none => .error (.no "this record signs its content, not a hash: give the file too".toList)
    | some f =>
      require (payload = f)
        (.no ("the content differs from what was signed (signed ".toList ++
          Json.decimal payload.length ++ " bytes, given ".toList ++ Json.decimal f.length ++
          " bytes)".toList))

/-- What `verifyEnvelope` reports of a pass. -/
structure EnvelopePass where
  edHex : Str
  mldsaPubB64 : Str
  mldsaKeyId : Str
  payloadType : Str

/-- `verifyEnvelope`, from the first base64 text on. -/
def Parts.verifyEnvelope (p : Parts) (content : Bytes) (recordOnly : Bool) :
    Except Refusal EnvelopePass :=
  match pageB64ToBytes (.str p.mlPub), pageB64ToBytes p.payload, pageB64ToBytes p.mlSig with
  | some mlKey, some payload, some mlSig => do
    let mlKeyId := mlPrefix ++ W.sha256Hex mlKey
    require (p.mlKeyid.same (.str mlKeyId) = true)
      (.no "ml-dsa-44 keyid does not match the key it names".toList)
    require (mlKey.length = 1312) (.no "ml-dsa key is not ML-DSA-44".toList)
    require (mlSig.length = 2420) (.no "ml-dsa signature is not ML-DSA-44".toList)
    pageContentCheck W content recordOnly (jsTrim p.payloadType) payload
    let msg := payloadAuthMessageBytes chain p.payloadType payload
    require (ed25519Verify S pageB64ToBytes p.edHex p.edSig msg = true)
      (.no "ed25519 signature does not verify (on this chain binding)".toList)
    let mlSigText ← coerce p.mlSig
    require (mldsa44Verify S p.mlPub (jsTrim mlSigText) msg = true)
      (.no "ml-dsa-44 signature does not verify (on this chain binding)".toList)
    .ok ⟨p.edHex, p.mlPub, mlKeyId, jsTrim p.payloadType⟩
  | _, _, _ => .error (.no "envelope is not valid base64".toList)

/-- `verifyEnvelope`. -/
def verifyEnvelope (envelope : JsValue) (content : Bytes) (recordOnly : Bool) :
    Except Refusal EnvelopePass := do
  require (envelope.isObject = true) (.no "the .sig.json is not a JSON object".toList)
  let p ← readParts envelope
  p.verifyEnvelope W S chain content recordOnly

/-- What `verifyRecordOffline` reports of a pass. -/
structure OfflinePass where
  signer : Str
  mldsaKeyId : Str
  payloadType : Str
  signedSha256 : Option Str
  fileMatches : Option Bool
  proofCode : Str

/-- `verifyRecordOffline`, from the first base64 text on. -/
def Parts.verifyRecordOffline (p : Parts) (recordBytes : Bytes) (file : Option Bytes) :
    Except Refusal OfflinePass :=
  match offlineB64ToBytes p.payload, offlineB64ToBytes p.mlSig, offlineB64ToBytes (.str p.mlPub) with
  | some payload, some mlSig, some mlPubBytes => do
    let mlKeyId := mlPrefix ++ W.sha256Hex mlPubBytes
    require (p.mlKeyid.same (.str mlKeyId) = true)
      (.no "ml-dsa-44 keyid does not match the key it names".toList)
    require (mlPubBytes.length = 1312) (.no "ml-dsa key is not ML-DSA-44".toList)
    require (mlSig.length = 2420) (.no "ml-dsa signature is not ML-DSA-44".toList)
    let type := jsTrim p.payloadType
    offlineContentCheck W file type payload
    let msg := payloadAuthMessageBytes chain p.payloadType payload
    require (ed25519Verify S offlineB64ToBytes p.edHex p.edSig msg = true)
      (.no "ed25519 signature does not verify (on this chain binding)".toList)
    let mlSigText ← coerce p.mlSig
    require (mldsa44Verify S p.mlPub (jsTrim mlSigText) msg = true)
      (.no "ml-dsa-44 signature does not verify (on this chain binding)".toList)
    .ok ⟨p.edHex, mlKeyId, type, if type = hashPayloadType then some (hexEncode payload) else none,
      file.map fun _ => true, proofCode W recordBytes⟩
  | _, _, _ => .error (.no "envelope is not valid base64".toList)

/-- `verifyRecordOffline`. -/
def verifyRecordOffline (parse : Bytes → Option JsValue) (recordBytes : Bytes) (file : Option Bytes) :
    Except Refusal OfflinePass :=
  match parse recordBytes with
  | none => .error (.no "the record is not JSON".toList)
  | some e => do
    require (e.isObject = true) (.no "the record is not a JSON object".toList)
    let p ← readParts e
    p.verifyRecordOffline W S chain recordBytes file

end Scripts

/-! ## What a script reads off an envelope -/

/-- What an envelope says as the scripts read it: only the known members, texts by `String`, blanks
around them dropped except around the signer. -/
structure BrowserSays (e : JsValue) (r : SignedRecord) : Prop where
  object : e.isObject = true
  known : ∀ k ∈ e.keys, k ∈ envelopeNames
  tetKnown : ∀ k ∈ (e.get "tet".toList).keys, k ∈ tetNames
  version : (e.get "tet".toList).get "v".toList = .ofNat 1
  pae : (e.get "tet".toList).get "pae".toList = .str agentPayloadDomainV1
  payloadType : ∃ t, e.get "payloadType".toList = .str t ∧ jsTrim t = r.payloadType ∧ r.payloadType ≠ []
  payload : ∃ t, ((e.get "payload".toList).orElse (.str [])).toText = some t ∧
    atob (jsTrim t) = some r.payload
  signer : (((e.get "tet".toList).get "agent_ed25519_pubkey_hex".toList).orElse (.str [])).toText =
    some r.signer
  mldsaKey : ∃ t,
    (((e.get "tet".toList).get "agent_mldsa44_pubkey_b64".toList).orElse (.str [])).toText = some t ∧
    stdDecode (jsTrim t) = some r.mldsaKey
  entries : ∃ sigs ed ml, e.get "signatures".toList = .arr sigs ∧ sigs.length = 2 ∧
    pick edPrefix sigs = [ed] ∧ pick mlPrefix sigs = [ml] ∧
    ed.get "keyid".toList = .str r.edKeyid ∧ ml.get "keyid".toList = .str r.mlKeyid ∧
    (∃ t, (ed.get "sig".toList).toText = some t ∧ atob (jsTrim t) = some r.ed25519Sig) ∧
    ∃ t, (ml.get "sig".toList).toText = some t ∧ stdDecode (jsTrim t) = some r.mldsaSig

/-- A text of it is padded base64. -/
def Shaped (v : JsValue) : Prop := ∀ t, v.toText = some t → isBase64Shape (jsTrim t) = true

/-- Its payload and its Ed25519 signature are padded base64. -/
structure Padded (e : JsValue) : Prop where
  payload : Shaped ((e.get "payload".toList).orElse (.str []))
  edSig : ∀ sigs, e.get "signatures".toList = .arr sigs → ∀ ed ∈ pick edPrefix sigs,
    Shaped (ed.get "sig".toList)

/-- The payload is about the file; without a file, it is a SHA-256. -/
def Covers (W : World) (file : Option Bytes) (type : Str) (payload : Bytes) : Prop :=
  match file with
  | none => type = hashPayloadType ∧ payload.length = 32
  | some f =>
    if type = hashPayloadType then payload.length = 32 ∧ payload = W.sha256 f else payload = f

section Specs

variable {W : World} {S : SigPrimitives} {chain : ChainBinding} {e v : JsValue} {p : Parts}
  {r : SignedRecord} {s : Str}

theorem coerce_ok : coerce v = .ok s ↔ v.toText = some s := by
  unfold coerce
  cases v.toText <;> simp

theorem checkKeys_ok {names : List Str} {reason : Str → Str} {u : Unit} :
    checkKeys names reason v = .ok u ↔ ∀ k ∈ v.keys, k ∈ names := by
  unfold checkKeys
  cases hfind : v.keys.find? fun k => !names.contains k with
  | none =>
    rw [List.find?_eq_none] at hfind
    simpa using hfind
  | some k =>
    have hk := List.find?_some hfind
    have hmem := List.mem_of_find?_eq_some hfind
    simp only [reduceCtorEq, false_iff]
    intro hall
    have hmember := hall k hmem
    simp [hmember] at hk

theorem nonBlank_ok {reason : Str} : nonBlank reason v = .ok s ↔ v = .str s ∧ jsTrim s ≠ [] := by
  unfold nonBlank
  cases v with
  | str t =>
    by_cases hblank : jsTrim t = []
    · simp only [hblank, if_true, reduceCtorEq, false_iff]
      rintro ⟨heq, hne⟩
      cases heq
      exact hne hblank
    · simp only [hblank, if_false, Except.ok.injEq, JsValue.str.injEq]
      constructor
      · rintro rfl
        exact ⟨rfl, hblank⟩
      · rintro ⟨rfl, -⟩
        rfl
  | undefined | null | bool | num | arr | obj => simp

theorem twoEntries_ok {sigs : List JsValue} :
    twoEntries v = .ok sigs ↔ v = .arr sigs ∧ sigs.length = 2 := by
  have hrefuse : ∀ l, twoEntries.refuse v ≠ .ok l := by
    intro l h
    unfold twoEntries.refuse at h
    rw [bind_eq_ok] at h
    obtain ⟨n, -, h⟩ := h
    cases h
  unfold twoEntries
  cases v with
  | arr items =>
    simp only [JsValue.asArray, JsValue.arr.injEq]
    split
    · rename_i hlen
      constructor
      · intro h
        cases h
        exact ⟨rfl, hlen⟩
      · rintro ⟨rfl, -⟩
        rfl
    · rename_i hlen
      constructor
      · intro h
        exact absurd h (hrefuse _)
      · rintro ⟨rfl, h⟩
        exact absurd h hlen
  | undefined | null | bool | num | str | obj =>
    simp only [JsValue.asArray, reduceCtorEq, false_and, iff_false]
    exact hrefuse _

theorem onlyOne_ok {reason : Str} {sigs : List JsValue} :
    onlyOne reason sigs = .ok v ↔ sigs = [v] := by
  unfold onlyOne
  split
  · simp [eq_comm]
  · rename_i hne
    simp only [reduceCtorEq, false_iff]
    intro h
    exact hne v h

theorem same_str : v.same (.str s) = true ↔ v = .str s := by
  cases v <;> simp [JsValue.same]

theorem same_ofNat {n : Nat} : v.same (.ofNat n) = true ↔ v = .ofNat n := by
  cases v <;> simp [JsValue.same, JsValue.ofNat]

/-- What the two scripts go on with says this. -/
structure Parts.Says (p : Parts) (r : SignedRecord) : Prop where
  payloadType : r.payloadType = jsTrim p.payloadType
  payload : offlineB64ToBytes p.payload = some r.payload
  signer : r.signer = p.edHex
  mlKeyid : p.mlKeyid = .str r.mlKeyid
  mldsaKey : stdDecode p.mlPub = some r.mldsaKey
  ed25519Sig : offlineB64ToBytes p.edSig = some r.ed25519Sig
  mldsaSig : ∃ t, p.mlSig.toText = some t ∧ stdDecode (jsTrim t) = some r.mldsaSig

/-- The shared checks, taken apart. -/
theorem readParts_ok : readParts e = .ok p ↔
    ((e.get "tet".toList).get "v".toList = .ofNat 1 ∧
      (e.get "tet".toList).get "pae".toList = .str agentPayloadDomainV1 ∧
      (∀ k ∈ e.keys, k ∈ envelopeNames) ∧ (∀ k ∈ (e.get "tet".toList).keys, k ∈ tetNames)) ∧
    ∃ t k sigs ed ml, (e.get "payloadType".toList = .str t ∧ jsTrim t ≠ []) ∧
      (e.get "signatures".toList = .arr sigs ∧ sigs.length = 2) ∧
      pick edPrefix sigs = [ed] ∧ pick mlPrefix sigs = [ml] ∧
      (((e.get "tet".toList).get "agent_ed25519_pubkey_hex".toList).orElse (.str [])).toText =
        some p.edHex ∧
      (((e.get "tet".toList).get "agent_mldsa44_pubkey_b64".toList).orElse (.str [])).toText = some k ∧
      isLowerHex64 p.edHex = true ∧ ed.get "keyid".toList = .str (edPrefix ++ p.edHex) ∧
      p = ⟨t, (e.get "payload".toList).orElse (.str []), p.edHex, jsTrim k, ml.get "keyid".toList,
        ed.get "sig".toList, ml.get "sig".toList⟩ := by
  have htruthy : ∀ v : JsValue, v.get "v".toList = .ofNat 1 → v.truthy = true := by
    intro v hv
    have hobj : v.isObject = true := by
      refine JsValue.exists_obj_of_get "v".toList ?_
      rw [hv]
      simp [JsValue.ofNat]
    cases v with
    | obj ms => rfl
    | undefined | null | bool | num | str | arr => cases hobj
  unfold readParts
  simp only [bind_eq_ok, require_eq_ok, same_ofNat, same_str, checkKeys_ok, nonBlank_ok,
    twoEntries_ok, onlyOne_ok, coerce_ok, exists_const]
  constructor
  · rintro ⟨⟨-, hv⟩, hpae, hkeys, htet, t, ht, sigs, hsigs, ed, hed, ml, hml, x, hx, k, hk, hhex, hid,
      hp⟩
    obtain rfl := Except.ok.inj hp
    exact ⟨⟨hv, hpae, hkeys, htet⟩, t, k, sigs, ed, ml, ht, hsigs, hed, hml, hx, hk, hhex, hid, rfl⟩
  · rintro ⟨⟨hv, hpae, hkeys, htet⟩, t, k, sigs, ed, ml, ht, hsigs, hed, hml, hx, hk, hhex, hid, hp⟩
    exact ⟨⟨htruthy _ hv, hv⟩, hpae, hkeys, htet, t, ht, sigs, hsigs, ed, hed, ml, hml, _, hx, k, hk,
      hhex, hid, congrArg Except.ok hp.symm⟩

theorem isLowerHex64_eq (s : Str) : isLowerHex64 s = SignedRecord.is64hexLower s := by
  have hchar : ∀ c : Char, isLowerHexdigit c =
      (isAsciiHexdigit c && !(65 ≤ c.toNat && c.toNat ≤ 90)) := by
    intro c
    unfold isLowerHexdigit isAsciiHexdigit
    rw [Bool.eq_iff_iff]
    simp
    omega
  have hall : s.all isLowerHexdigit =
      s.all fun c => isAsciiHexdigit c && !(65 ≤ c.toNat && c.toNat ≤ 90) :=
    congrArg s.all (funext hchar)
  unfold isLowerHex64 SignedRecord.is64hexLower
  rw [← hall]
  cases hdigits : s.all isLowerHexdigit with
  | false => rw [Bool.and_false, Bool.and_false]
  | true =>
    rw [byteLen_of_ascii]
    intro c hc
    have hc := List.all_eq_true.mp hdigits c hc
    unfold isLowerHexdigit at hc
    simp at hc
    omega

theorem jsTrim_jsTrim (s : Str) : jsTrim (jsTrim s) = jsTrim s := strip_strip isJsBlank s

theorem mem_jsTrim {c : Char} (h : c ∈ s) (hc : isJsBlank c = false) : c ∈ jsTrim s := by
  have hdrop : ∀ {t : Str}, c ∈ t → c ∈ t.dropWhile isJsBlank := by
    intro t ht
    rw [← List.takeWhile_append_dropWhile (p := isJsBlank) (l := t)] at ht
    rcases List.mem_append.mp ht with hmem | hmem
    · rw [List.mem_takeWhile_imp hmem] at hc
      cases hc
    · exact hmem
  unfold jsTrim
  rw [List.mem_reverse]
  exact hdrop (List.mem_reverse.mpr (hdrop h))

/-- What strict base64 is: a text the page's decoder takes as well. -/
theorem isBase64Shape_of_stdDecode {b : Bytes} (h : stdDecode s = some b) : isBase64Shape s = true := by
  have hlen : s.length % 4 = 0 := by
    unfold stdDecode at h
    split at h
    · cases h
    · rename_i hlen
      omega
  have hbody : ∀ c ∈ stripPadding s, (sextet c).isSome = true := by
    unfold stdDecode at h
    rw [if_neg (by omega)] at h
    cases hxs : (stripPadding s).mapM sextet with
    | none =>
      rw [hxs] at h
      cases h
    | some xs => exact isSome_of_mapM hxs
  have hpad : (sextet '=').isSome = false := by decide
  have hrest : s.dropWhile (fun c => (sextet c).isSome) = [] ∨
      s.dropWhile (fun c => (sextet c).isSome) = ['='] ∨
      s.dropWhile (fun c => (sextet c).isSome) = ['=', '='] := by
    have hdrop : ∀ pad : Str, (stripPadding s ++ pad).dropWhile (fun c => (sextet c).isSome) =
        pad.dropWhile fun c => (sextet c).isSome := by
      intro pad
      rw [List.dropWhile_append, List.dropWhile_eq_nil_iff.mpr hbody]
      rfl
    rcases stripPadding_cases s with heq | heq | heq
    · left
      rw [← heq]
      exact List.dropWhile_eq_nil_iff.mpr hbody
    · right
      left
      rw [heq, hdrop]
      exact List.dropWhile_cons_of_neg (by simp [hpad])
    · right
      right
      rw [heq, hdrop]
      exact List.dropWhile_cons_of_neg (by simp [hpad])
  unfold isBase64Shape
  simp only [hlen, beq_self_eq_true, Bool.and_true, Bool.or_eq_true, beq_iff_eq]
  rw [or_assoc]
  exact hrest

/-- A text the node decodes once trimmed, and the browser once trimmed its way, has blanks around it that
both trim. -/
theorem jsTrim_eq_of_decodes {b b' : Bytes} (h : stdDecode (trim s) = some b)
    (hjs : atob (jsTrim s) = some b') : jsTrim s = trim s := by
  refine jsTrim_eq_trim h ?_
  intro c hc hw
  by_contra hblank
  rw [Bool.not_eq_true] at hblank
  rcases alphabet_of_atob hjs c (mem_jsTrim hc hblank) with hatob | hsextet | rfl
  · rw [isJsBlank_of_atobBlank hatob] at hblank
    cases hblank
  · rw [(not_blank_of_sextet hsextet).1] at hw
    cases hw
  · revert hw
    decide

theorem trim_of_stdDecode {b : Bytes} (h : stdDecode s = some b) : trim s = s :=
  trim_of_forall fun _ hc => (not_blank_of_stdDecode h hc).1

theorem jsTrim_of_stdDecode {b : Bytes} (h : stdDecode s = some b) : jsTrim s = s := by
  have htrim := trim_of_stdDecode h
  have hself : jsTrim s = trim s := by
    refine jsTrim_eq_trim (htrim.symm ▸ h) ?_
    intro c hc hw
    rw [(not_blank_of_stdDecode h hc).1] at hw
    cases hw
  rw [hself, htrim]

/-- Of a text without blanks around it, the browser's decoder and the verifier's together are the strict
one. -/
theorem stdDecode_of_both {b b' : Bytes} (hs : jsTrim s = s) (h : atob s = some b)
    (hstd : stdDecode (trim s) = some b') : stdDecode s = some b := by
  have htrim := jsTrim_eq_of_decodes hstd (hs.symm ▸ h)
  rw [hs] at htrim
  rw [← htrim] at hstd
  rw [hstd, ← h, atob_eq hstd]

theorem isOk_iff {ε α : Type} {x : Except ε α} : x.isOk = true ↔ ∃ a, x = .ok a := by
  cases x with
  | error e => simp [Except.isOk, Except.toBool]
  | ok a => simp [Except.isOk, Except.toBool]

theorem offlineB64ToBytes_some {b : Bytes} :
    offlineB64ToBytes v = some b ↔ ∃ t, v.toText = some t ∧ atob (jsTrim t) = some b := by
  unfold offlineB64ToBytes
  exact Option.bind_eq_some_iff

theorem pageB64ToBytes_some {b : Bytes} :
    pageB64ToBytes v = some b ↔ Shaped v ∧ offlineB64ToBytes v = some b := by
  unfold pageB64ToBytes offlineB64ToBytes Shaped
  cases v.toText with
  | none => simp
  | some t =>
    simp only [Option.bind_some, Option.some.injEq, forall_eq']
    cases isBase64Shape (jsTrim t) <;> simp

theorem ed25519Verify_eq_true {b64ToBytes : JsValue → Option Bytes} {msg : Bytes} :
    ed25519Verify S b64ToBytes s v msg = true ↔ ∃ sig, b64ToBytes v = some sig ∧ sig.length = 64 ∧
      S.ed25519 (hexToBytes s) sig msg = true := by
  unfold ed25519Verify
  cases b64ToBytes v with
  | none => simp
  | some sig => by_cases hlen : sig.length = 64 <;> simp [hlen]

theorem mldsa44Verify_eq_true {key sig : Str} {msg : Bytes} :
    mldsa44Verify S key sig msg = true ↔ ∃ pk b, stdDecode (trim key) = some pk ∧
      stdDecode (trim sig) = some b ∧ S.mldsa .mldsa44 pk b msg = true := by
  unfold mldsa44Verify
  cases stdDecode (trim key) with
  | none => simp
  | some pk => cases stdDecode (trim sig) <;> simp

/-- What both scripts find once the base64 is decoded. -/
structure Parts.Judged (W : World) (S : SigPrimitives) (chain : ChainBinding) (p : Parts)
    (r : SignedRecord) : Prop where
  payloadType : r.payloadType = jsTrim p.payloadType
  signer : r.signer = p.edHex
  edKeyid : r.edKeyid = edPrefix ++ p.edHex
  mlKeyid : p.mlKeyid = .str r.mlKeyid
  mlKeyidOf : r.mlKeyid = mlPrefix ++ W.sha256Hex r.mldsaKey
  payload : offlineB64ToBytes p.payload = some r.payload
  mldsaKey : offlineB64ToBytes (.str p.mlPub) = some r.mldsaKey
  mldsaSig : offlineB64ToBytes p.mlSig = some r.mldsaSig
  ed25519Sig : offlineB64ToBytes p.edSig = some r.ed25519Sig
  keySize : r.mldsaKey.length = 1312
  mlSize : r.mldsaSig.length = 2420
  edSize : r.ed25519Sig.length = 64
  ed25519 : S.ed25519 (hexToBytes p.edHex) r.ed25519Sig
    (payloadAuthMessageBytes chain p.payloadType r.payload) = true
  mldsa : ∃ t, p.mlSig.toText = some t ∧ mldsa44Verify S p.mlPub (jsTrim t)
    (payloadAuthMessageBytes chain p.payloadType r.payload) = true

/-- That is: what they go on with says something signed. -/
theorem Parts.judged_iff (hpub : jsTrim p.mlPub = p.mlPub) (hhex : isLowerHex64 p.edHex = true) :
    p.Judged W S chain r ↔ p.Says r ∧ r.Signed W S chain.chainId chain.genesisHash := by
  have hmessage : r.payloadType = jsTrim p.payloadType →
      payloadAuthMessageBytes chain p.payloadType r.payload =
        r.message chain.chainId chain.genesisHash := by
    intro h
    unfold payloadAuthMessageBytes SignedRecord.message
    rw [h]
  rw [isLowerHex64_eq] at hhex
  obtain ⟨pk, hpk, -⟩ := exists_hexDecode_of_is64hexLower hhex
  have hbytes : hexToBytes p.edHex = pk := by
    unfold hexToBytes
    rw [hpk]
    rfl
  have htext : ∀ {t : Str}, (JsValue.str t).toText = some t := by
    intro t
    simp [JsValue.toText]
  constructor
  · intro h
    obtain ⟨t, ht, hverify⟩ := h.mldsa
    obtain ⟨key, sig, hkey, hsig, hvalid⟩ := mldsa44Verify_eq_true.mp hverify
    obtain ⟨u, hu, hkeyAtob⟩ := offlineB64ToBytes_some.mp h.mldsaKey
    rw [htext] at hu
    obtain rfl := Option.some.inj hu
    rw [hpub] at hkeyAtob
    have hkeyStd := stdDecode_of_both hpub hkeyAtob hkey
    obtain ⟨u, hu, hsigAtob⟩ := offlineB64ToBytes_some.mp h.mldsaSig
    obtain rfl := Option.some.inj (ht.symm.trans hu)
    have hsigStd := stdDecode_of_both (jsTrim_jsTrim t) hsigAtob hsig
    rw [trim_of_stdDecode hkeyStd, hkeyStd] at hkey
    rw [trim_of_stdDecode hsigStd, hsigStd] at hsig
    obtain rfl := Option.some.inj hkey
    obtain rfl := Option.some.inj hsig
    have hed := h.ed25519
    rw [hmessage h.payloadType] at hed hvalid
    rw [hbytes] at hed
    exact ⟨⟨h.payloadType, h.payload, h.signer, h.mlKeyid, hkeyStd, h.ed25519Sig, t, ht, hsigStd⟩,
      ⟨h.signer ▸ hhex, h.signer.symm ▸ h.edKeyid, h.mlKeyidOf, h.edSize, h.keySize, h.mlSize,
        ⟨pk, h.signer.symm ▸ hpk, hed⟩, hvalid⟩⟩
  · rintro ⟨hsaid, hsigned⟩
    obtain ⟨t, ht, hsig⟩ := hsaid.mldsaSig
    obtain ⟨pk', hpk', hed⟩ := hsigned.ed25519
    rw [hsaid.signer, hpk] at hpk'
    obtain rfl := Option.some.inj hpk'
    have hkey := hsaid.mldsaKey
    refine ⟨hsaid.payloadType, hsaid.signer, hsaid.signer ▸ hsigned.edKeyid, hsaid.mlKeyid,
      hsigned.mlKeyid, hsaid.payload, ?_, ?_, hsaid.ed25519Sig, hsigned.keySize, hsigned.mlSize,
      hsigned.edSize, ?_, t, ht, ?_⟩
    · refine offlineB64ToBytes_some.mpr ⟨p.mlPub, htext, ?_⟩
      rw [hpub]
      exact atob_eq hkey
    · exact offlineB64ToBytes_some.mpr ⟨t, ht, atob_eq hsig⟩
    · rw [hbytes, hmessage hsaid.payloadType]
      exact hed
    · rw [hmessage hsaid.payloadType]
      refine mldsa44Verify_eq_true.mpr ⟨r.mldsaKey, r.mldsaSig, ?_, ?_, hsigned.mldsa⟩
      · rw [trim_of_stdDecode hkey]
        exact hkey
      · rw [trim_of_stdDecode hsig]
        exact hsig

theorem pageContentCheck_ok {recordOnly : Bool} {content payload : Bytes} {u : Unit} :
    pageContentCheck W content recordOnly s payload = .ok u ↔
      Covers W (if recordOnly then none else some content) s payload := by
  unfold pageContentCheck
  cases recordOnly with
  | true =>
    rw [if_pos rfl, if_pos rfl]
    simp only [bind_eq_ok, require_eq_ok, exists_const, Covers]
  | false =>
    rw [if_neg Bool.false_ne_true, if_neg Bool.false_ne_true]
    unfold Covers
    by_cases htype : s = hashPayloadType
    · simp only [if_pos htype, bind_eq_ok, require_eq_ok, exists_const]
    · simp only [if_neg htype, require_eq_ok]

theorem offlineContentCheck_ok {file : Option Bytes} {payload : Bytes} {u : Unit} :
    offlineContentCheck W file s payload = .ok u ↔ Covers W file s payload := by
  unfold offlineContentCheck Covers
  by_cases htype : s = hashPayloadType
  · simp only [if_pos htype, bind_eq_ok, require_eq_ok, exists_const]
    cases file with
    | none =>
      constructor
      · exact fun h => ⟨htype, h.1⟩
      · exact fun h => ⟨h.2, rfl⟩
    | some f =>
      rw [require_eq_ok]
  · simp only [if_neg htype]
    cases file with
    | none =>
      constructor
      · intro h
        cases h
      · exact fun h => absurd h.1 htype
    | some f =>
      rw [require_eq_ok]

/-- The rest of the page's check. -/
theorem Parts.verifyEnvelope_isOk {content : Bytes} {recordOnly : Bool}
    (hpub : jsTrim p.mlPub = p.mlPub) (hhex : isLowerHex64 p.edHex = true) :
    (p.verifyEnvelope W S chain content recordOnly).isOk = true ↔
      (Shaped p.payload ∧ Shaped p.edSig) ∧ ∃ r, p.Judged W S chain r ∧
        Covers W (if recordOnly then none else some content) r.payloadType r.payload := by
  rw [isOk_iff]
  constructor
  · rintro ⟨pass, h⟩
    unfold Parts.verifyEnvelope at h
    split at h
    · rename_i mlKey payload mlSig hkey hpayload hsig
      simp only [bind_eq_ok, require_eq_ok, same_str, pageContentCheck_ok, ed25519Verify_eq_true,
        coerce_ok, exists_const] at h
      obtain ⟨hid, hkeySize, hmlSize, hcovers, ⟨edSig, hed, hedSize, hedValid⟩, t, ht, hvalid, -⟩ := h
      obtain ⟨hshape, hpayload⟩ := pageB64ToBytes_some.mp hpayload
      obtain ⟨hedShape, hed⟩ := pageB64ToBytes_some.mp hed
      exact ⟨⟨hshape, hedShape⟩, ⟨jsTrim p.payloadType, payload, p.edHex, mlKey, edPrefix ++ p.edHex,
        mlPrefix ++ W.sha256Hex mlKey, edSig, mlSig⟩, ⟨rfl, rfl, rfl, hid, rfl, hpayload,
        (pageB64ToBytes_some.mp hkey).2, (pageB64ToBytes_some.mp hsig).2, hed, hkeySize, hmlSize,
        hedSize, hedValid, t, ht, hvalid⟩, hcovers⟩
    · cases h
  · rintro ⟨⟨hshape, hedShape⟩, r, hjudged, hcovers⟩
    have hsaid := ((Parts.judged_iff hpub hhex).mp hjudged).1
    obtain ⟨t, ht, hverify⟩ := hjudged.mldsa
    have hkey : pageB64ToBytes (.str p.mlPub) = some r.mldsaKey := by
      refine pageB64ToBytes_some.mpr ⟨?_, hjudged.mldsaKey⟩
      intro u hu
      have htext : some p.mlPub = some u := by simpa [JsValue.toText] using hu
      rw [← Option.some.inj htext, hpub]
      exact isBase64Shape_of_stdDecode hsaid.mldsaKey
    have hsig : pageB64ToBytes p.mlSig = some r.mldsaSig := by
      refine pageB64ToBytes_some.mpr ⟨?_, hjudged.mldsaSig⟩
      intro u hu
      obtain ⟨t', ht', hstd⟩ := hsaid.mldsaSig
      obtain rfl := Option.some.inj (ht'.symm.trans hu)
      exact isBase64Shape_of_stdDecode hstd
    have hpayload := pageB64ToBytes_some.mpr ⟨hshape, hjudged.payload⟩
    have hed := pageB64ToBytes_some.mpr ⟨hedShape, hjudged.ed25519Sig⟩
    refine ⟨⟨p.edHex, p.mlPub, mlPrefix ++ W.sha256Hex r.mldsaKey, jsTrim p.payloadType⟩, ?_⟩
    unfold Parts.verifyEnvelope
    rw [hkey, hpayload, hsig]
    simp only [bind_eq_ok, require_eq_ok, same_str, pageContentCheck_ok, ed25519Verify_eq_true,
      coerce_ok, exists_const]
    rw [hjudged.payloadType] at hcovers
    exact ⟨hjudged.mlKeyidOf ▸ hjudged.mlKeyid, hjudged.keySize, hjudged.mlSize, hcovers,
      ⟨r.ed25519Sig, hed, hjudged.edSize, hjudged.ed25519⟩, t, ht, hverify, trivial⟩

/-- The rest of the offline check. -/
theorem Parts.verifyRecordOffline_isOk {bytes : Bytes} {file : Option Bytes} :
    (p.verifyRecordOffline W S chain bytes file).isOk = true ↔ ∃ r, p.Judged W S chain r ∧
      Covers W file r.payloadType r.payload := by
  rw [isOk_iff]
  constructor
  · rintro ⟨pass, h⟩
    unfold Parts.verifyRecordOffline at h
    split at h
    · rename_i payload mlSig mlKey hpayload hsig hkey
      simp only [bind_eq_ok, require_eq_ok, same_str, offlineContentCheck_ok, ed25519Verify_eq_true,
        coerce_ok, exists_const] at h
      obtain ⟨hid, hkeySize, hmlSize, hcovers, ⟨edSig, hed, hedSize, hedValid⟩, t, ht, hvalid, -⟩ := h
      exact ⟨⟨jsTrim p.payloadType, payload, p.edHex, mlKey, edPrefix ++ p.edHex,
        mlPrefix ++ W.sha256Hex mlKey, edSig, mlSig⟩, ⟨rfl, rfl, rfl, hid, rfl, hpayload, hkey, hsig,
        hed, hkeySize, hmlSize, hedSize, hedValid, t, ht, hvalid⟩, hcovers⟩
    · cases h
  · rintro ⟨r, hjudged, hcovers⟩
    obtain ⟨t, ht, hverify⟩ := hjudged.mldsa
    unfold Parts.verifyRecordOffline
    rw [hjudged.payload, hjudged.mldsaSig, hjudged.mldsaKey]
    simp only [bind_eq_ok, require_eq_ok, same_str, offlineContentCheck_ok, ed25519Verify_eq_true,
      coerce_ok, exists_const]
    rw [hjudged.payloadType] at hcovers
    exact ⟨_, hjudged.mlKeyidOf ▸ hjudged.mlKeyid, hjudged.keySize, hjudged.mlSize, hcovers,
      ⟨r.ed25519Sig, hjudged.ed25519Sig, hjudged.edSize, hjudged.ed25519⟩, t, ht, hverify, rfl⟩

theorem readParts_plain (h : readParts e = .ok p) :
    jsTrim p.mlPub = p.mlPub ∧ isLowerHex64 p.edHex = true := by
  obtain ⟨-, t, k, sigs, ed, ml, -, -, -, -, -, -, hhex, -, hp⟩ := readParts_ok.mp h
  rw [hp]
  exact ⟨jsTrim_jsTrim k, hhex⟩

/-- What the scripts go on with says what the envelope says. -/
theorem browserSays_iff (hhex : isLowerHex64 r.signer = true)
    (hid : r.edKeyid = edPrefix ++ r.signer) :
    BrowserSays e r ↔ e.isObject = true ∧ ∃ p, readParts e = .ok p ∧ p.Says r := by
  constructor
  · intro h
    obtain ⟨t, ht, htype, hblank⟩ := h.payloadType
    obtain ⟨k, hk, hkey⟩ := h.mldsaKey
    obtain ⟨sigs, ed, ml, hsigs, htwo, hed, hml, hedId, hmlId, hedSig, hmlSig⟩ := h.entries
    refine ⟨h.object, ⟨t, (e.get "payload".toList).orElse (.str []), r.signer, jsTrim k,
      ml.get "keyid".toList, ed.get "sig".toList, ml.get "sig".toList⟩, ?_, ?_⟩
    · rw [readParts_ok]
      exact ⟨⟨h.version, h.pae, h.known, h.tetKnown⟩, t, k, sigs, ed, ml, ⟨ht, htype ▸ hblank⟩,
        ⟨hsigs, htwo⟩, hed, hml, h.signer, hk, hhex, hid ▸ hedId, rfl⟩
    · exact ⟨htype.symm, offlineB64ToBytes_some.mpr h.payload, rfl, hmlId, hkey,
        offlineB64ToBytes_some.mpr hedSig, hmlSig⟩
  · rintro ⟨hobj, p, hp, hsaid⟩
    obtain ⟨⟨hv, hpae, hkeys, htet⟩, t, k, sigs, ed, ml, ⟨ht, hblank⟩, ⟨hsigs, htwo⟩, hed, hml, hx, hk, -,
      hedId, heq⟩ := readParts_ok.mp hp
    have hsigner := hsaid.signer
    rw [heq] at hsaid
    refine ⟨hobj, hkeys, htet, hv, hpae, ⟨t, ht, hsaid.payloadType.symm, ?_⟩,
      offlineB64ToBytes_some.mp hsaid.payload, ?_, ⟨k, hk, hsaid.mldsaKey⟩, sigs, ed, ml, hsigs, htwo,
      hed, hml, ?_, hsaid.mlKeyid, offlineB64ToBytes_some.mp hsaid.ed25519Sig, hsaid.mldsaSig⟩
    · rw [hsaid.payloadType]
      exact hblank
    · rw [hsigner]
      exact hx
    · rw [hid, hsigner]
      exact hedId

theorem padded_iff (h : readParts e = .ok p) : Padded e ↔ Shaped p.payload ∧ Shaped p.edSig := by
  obtain ⟨-, t, k, sigs, ed, ml, -, ⟨hsigs, -⟩, hed, -, -, -, -, -, hp⟩ := readParts_ok.mp h
  rw [hp]
  constructor
  · intro hpadded
    exact ⟨hpadded.payload, hpadded.edSig sigs hsigs ed (hed ▸ List.mem_singleton_self ed)⟩
  · rintro ⟨hpayload, hedSig⟩
    refine ⟨hpayload, ?_⟩
    intro sigs' hsigs' ed' hed'
    rw [hsigs] at hsigs'
    cases hsigs'
    rw [hed] at hed'
    rw [List.mem_singleton.mp hed']
    exact hedSig

/-- The page passes exactly what says something its keys signed, of the file, in padded base64. -/
theorem verifyEnvelope_isOk {content : Bytes} {recordOnly : Bool} :
    (verifyEnvelope W S chain e content recordOnly).isOk = true ↔ Padded e ∧ ∃ r, BrowserSays e r ∧
      r.Signed W S chain.chainId chain.genesisHash ∧
      Covers W (if recordOnly then none else some content) r.payloadType r.payload := by
  have hstart : (verifyEnvelope W S chain e content recordOnly).isOk = true ↔ e.isObject = true ∧
      ∃ p, readParts e = .ok p ∧ (p.verifyEnvelope W S chain content recordOnly).isOk = true := by
    simp only [isOk_iff, verifyEnvelope, bind_eq_ok, require_eq_ok, exists_const]
    tauto
  rw [hstart]
  constructor
  · rintro ⟨hobj, p, hp, hok⟩
    obtain ⟨hpub, hhex⟩ := readParts_plain hp
    obtain ⟨hshaped, r, hjudged, hcovers⟩ := (Parts.verifyEnvelope_isOk hpub hhex).mp hok
    obtain ⟨hsaid, hsigned⟩ := (Parts.judged_iff hpub hhex).mp hjudged
    have hsigner := hsaid.signer ▸ hhex
    exact ⟨(padded_iff hp).mpr hshaped, r, (browserSays_iff hsigner hsigned.edKeyid).mpr
      ⟨hobj, p, hp, hsaid⟩, hsigned, hcovers⟩
  · rintro ⟨hpadded, r, hbrowser, hsigned, hcovers⟩
    have hsigner := (isLowerHex64_eq r.signer).trans hsigned.signer
    obtain ⟨hobj, p, hp, hsaid⟩ := (browserSays_iff hsigner hsigned.edKeyid).mp hbrowser
    obtain ⟨hpub, hhex⟩ := readParts_plain hp
    exact ⟨hobj, p, hp, (Parts.verifyEnvelope_isOk hpub hhex).mpr
      ⟨(padded_iff hp).mp hpadded, r, (Parts.judged_iff hpub hhex).mpr ⟨hsaid, hsigned⟩, hcovers⟩⟩

/-- The offline verifier passes exactly what says something its keys signed, of the file. -/
theorem verifyRecordOffline_isOk {parse : Bytes → Option JsValue} {bytes : Bytes}
    {file : Option Bytes} :
    (verifyRecordOffline W S chain parse bytes file).isOk = true ↔ ∃ e r, parse bytes = some e ∧
      BrowserSays e r ∧ r.Signed W S chain.chainId chain.genesisHash ∧
      Covers W file r.payloadType r.payload := by
  unfold verifyRecordOffline
  cases parse bytes with
  | none => simp [Except.isOk, Except.toBool]
  | some e =>
    simp only [Option.some.injEq]
    have hstart : (do
        require (e.isObject = true) (Refusal.no "the record is not a JSON object".toList)
        let p ← readParts e
        p.verifyRecordOffline W S chain bytes file).isOk = true ↔ e.isObject = true ∧
          ∃ p, readParts e = .ok p ∧ (p.verifyRecordOffline W S chain bytes file).isOk = true := by
      simp only [isOk_iff, bind_eq_ok, require_eq_ok, exists_const]
      tauto
    rw [hstart]
    constructor
    · rintro ⟨hobj, p, hp, hok⟩
      obtain ⟨hpub, hhex⟩ := readParts_plain hp
      obtain ⟨r, hjudged, hcovers⟩ := Parts.verifyRecordOffline_isOk.mp hok
      obtain ⟨hsaid, hsigned⟩ := (Parts.judged_iff hpub hhex).mp hjudged
      have hsigner := hsaid.signer ▸ hhex
      exact ⟨e, r, rfl, (browserSays_iff hsigner hsigned.edKeyid).mpr ⟨hobj, p, hp, hsaid⟩, hsigned,
        hcovers⟩
    · rintro ⟨e', r, rfl, hbrowser, hsigned, hcovers⟩
      have hsigner := (isLowerHex64_eq r.signer).trans hsigned.signer
      obtain ⟨hobj, p, hp, hsaid⟩ := (browserSays_iff hsigner hsigned.edKeyid).mp hbrowser
      obtain ⟨hpub, hhex⟩ := readParts_plain hp
      exact ⟨hobj, p, hp, Parts.verifyRecordOffline_isOk.mpr
        ⟨r, (Parts.judged_iff hpub hhex).mpr ⟨hsaid, hsigned⟩, hcovers⟩⟩

/-! ## Records written plainly -/

/-- An entry of two strings. An Ed25519 signature is strict base64; around an ML-DSA signature there are
only blanks that both trims take away. -/
structure PlainEntry (s : JsValue) : Prop where
  object : s.isObject = true
  keyid : ∃ k, s.get "keyid".toList = .str k
  sig : ∃ t, s.get "sig".toList = .str t
  ed25519 : ∀ k t, s.get "keyid".toList = .str k → s.get "sig".toList = .str t →
    edPrefix.isPrefixOf k = true → (stdDecode t).isSome = true
  mldsa : ∀ k t, s.get "keyid".toList = .str k → s.get "sig".toList = .str t →
    mlPrefix.isPrefixOf k = true → jsTrim t = trim t

/-- A record without other members, of strings, whose blanks are ones that both trims take away (around
the signer, none), and whose payload is strict base64. -/
structure PlainRecord (e : JsValue) : Prop where
  object : e.isObject = true
  known : ∀ k ∈ e.keys, k ∈ envelopeNames
  tetObject : (e.get "tet".toList).isObject = true
  tetKnown : ∀ k ∈ (e.get "tet".toList).keys, k ∈ tetNames
  payloadType : ∃ t, e.get "payloadType".toList = .str t ∧ jsTrim t = trim t
  payload : ∃ t, e.get "payload".toList = .str t ∧ jsTrim t = trim t ∧
    (stdDecode (trim t)).isSome = true
  signer : ∃ t, (e.get "tet".toList).get "agent_ed25519_pubkey_hex".toList = .str t ∧ trim t = t
  mldsaKey : ∃ t, (e.get "tet".toList).get "agent_mldsa44_pubkey_b64".toList = .str t ∧
    jsTrim t = trim t
  entries : ∃ sigs, e.get "signatures".toList = .arr sigs ∧ ∀ s ∈ sigs, PlainEntry s

/-- What a node reads off a record. -/
def NodeSays (e : JsValue) (r : SignedRecord) : Prop := ∃ x, Envelope.read e = some x ∧ x.Says r

/-- The entry a node reads off a plain one. -/
def entryOf (s : JsValue) : SigEntry :=
  ⟨(s.get "keyid".toList).asStr.getD [], (s.get "sig".toList).asStr.getD []⟩

theorem read_of_plain {s : JsValue} (h : PlainEntry s) : SigEntry.read s = some (entryOf s) := by
  obtain ⟨k, hk⟩ := h.keyid
  obtain ⟨t, ht⟩ := h.sig
  rw [SigEntry.read_some, structField_of_object h.object, structField_of_object h.object]
  unfold entryOf
  rw [hk, ht]
  exact ⟨rfl, rfl⟩

theorem entryOf_of_read {s : JsValue} {x : SigEntry} (hobj : s.isObject = true)
    (h : SigEntry.read s = some x) : entryOf s = x := by
  rw [SigEntry.read_some, structField_of_object hobj, structField_of_object hobj] at h
  unfold entryOf
  rw [h.1, h.2]
  rfl

theorem mapM_read_of_object : ∀ {sigs : List JsValue}, (∀ s ∈ sigs, s.isObject = true) →
    ∀ {xs : List SigEntry}, sigs.mapM SigEntry.read = some xs → xs = sigs.map entryOf
  | [], _, xs, h => by
    cases h
    rfl
  | s :: sigs, hobj, xs, h => by
    rw [List.mapM_cons] at h
    simp only [Option.bind_eq_bind, Option.bind_eq_some_iff, Option.pure_def, Option.some.injEq] at h
    obtain ⟨x, hx, ys, hys, rfl⟩ := h
    rw [List.map_cons, entryOf_of_read (hobj s List.mem_cons_self) hx,
      mapM_read_of_object (fun t ht => hobj t (List.mem_cons_of_mem s ht)) hys]

theorem mapM_read_of_plain : ∀ {sigs : List JsValue}, (∀ s ∈ sigs, PlainEntry s) →
    sigs.mapM SigEntry.read = some (sigs.map entryOf)
  | [], _ => rfl
  | s :: sigs, h => by
    rw [List.mapM_cons, read_of_plain (h s List.mem_cons_self),
      mapM_read_of_plain fun t ht => h t (List.mem_cons_of_mem s ht)]
    rfl

/-- A node and a script pick the same entries, of entries whose key ids are strings. -/
theorem filter_entryOf {sigs : List JsValue} {start : Str}
    (h : ∀ s ∈ sigs, ∃ k, s.get "keyid".toList = .str k) :
    (sigs.map entryOf).filter (fun x => start.isPrefixOf x.keyid) = (pick start sigs).map entryOf := by
  unfold pick
  rw [List.filter_map]
  congr 1
  refine List.filter_congr ?_
  intro s hs
  obtain ⟨k, hk⟩ := h s hs
  show start.isPrefixOf ((s.get "keyid".toList).asStr.getD []) =
    (s.get "keyid".toList).asStr.any start.isPrefixOf
  rw [hk]
  rfl

theorem mem_pick {sigs : List JsValue} {start : Str} {s : JsValue} (h : s ∈ pick start sigs) :
    s ∈ sigs ∧ ∃ k, s.get "keyid".toList = .str k ∧ start.isPrefixOf k = true := by
  obtain ⟨hs, hany⟩ := List.mem_filter.mp h
  refine ⟨hs, ?_⟩
  rw [Option.any_eq_true] at hany
  obtain ⟨k, hk, hstart⟩ := hany
  exact ⟨k, asStr_some.mp hk, hstart⟩

theorem toText_str (t : Str) : (JsValue.str t).toText = some t := by
  simp [JsValue.toText]

/-- Of a plain record, the node and the scripts read the same. -/
theorem PlainRecord.says_iff (h : PlainRecord e) (hne : r.payloadType ≠ []) : NodeSays e r ↔ BrowserSays e r := by
  obtain ⟨ty, hty, htyTrim⟩ := h.payloadType
  obtain ⟨payload, hpayload, hpayloadTrim, hpayloadStd⟩ := h.payload
  obtain ⟨signer, hsigner, hsignerTrim⟩ := h.signer
  obtain ⟨key, hkey, hkeyTrim⟩ := h.mldsaKey
  obtain ⟨sigs, hsigs, hentries⟩ := h.entries
  obtain ⟨b, hb⟩ := Option.isSome_iff_exists.mp hpayloadStd
  have hkeyids : ∀ s ∈ sigs, ∃ k, s.get "keyid".toList = .str k := fun s hs => (hentries s hs).keyid
  have horElse : ∀ t : Str, ((JsValue.str t).orElse (.str [])).toText = some t := toText_str
  constructor
  · rintro ⟨x, hread, hsaid⟩
    rw [Envelope.read_some, TetBlock.read_some, structField_of_object h.object,
      structField_of_object h.object, structField_of_object h.object, structField_of_object h.object,
      structField_of_object h.tetObject, structField_of_object h.tetObject,
      structField_of_object h.tetObject, structField_of_object h.tetObject] at hread
    obtain ⟨hxty, hxpayload, ⟨sigs', hxsigs, hxentries⟩, hxv, hxpae, hxed, hxml⟩ := hread
    rw [hty, JsValue.str.injEq] at hxty
    rw [hpayload, JsValue.str.injEq] at hxpayload
    rw [hsigner, JsValue.str.injEq] at hxed
    rw [hkey, JsValue.str.injEq] at hxml
    rw [hsigs, JsValue.arr.injEq] at hxsigs
    subst hxsigs
    rw [mapM_read_of_plain hentries, Option.some.injEq] at hxentries
    obtain ⟨ed, ml, hed, hml, hedId, hmlId, hedSig, hmlSig⟩ := hsaid.entries
    rw [← hxentries, filter_entryOf hkeyids, List.map_eq_singleton_iff] at hed hml
    obtain ⟨edv, hed, rfl⟩ := hed
    obtain ⟨mlv, hml, rfl⟩ := hml
    obtain ⟨hedMem, edk, hedk, hedStart⟩ := mem_pick (hed ▸ List.mem_singleton_self edv)
    obtain ⟨hmlMem, mlk, hmlk, hmlStart⟩ := mem_pick (hml ▸ List.mem_singleton_self mlv)
    obtain ⟨edt, hedt⟩ := (hentries edv hedMem).sig
    obtain ⟨mlt, hmlt⟩ := (hentries mlv hmlMem).sig
    have hmlTrim := (hentries mlv hmlMem).mldsa mlk mlt hmlk hmlt hmlStart
    simp only [entryOf, hedk, hedt, JsValue.asStr, Option.getD_some] at hedId hedSig
    simp only [entryOf, hmlk, hmlt, JsValue.asStr, Option.getD_some] at hmlId hmlSig
    have hversion := hsaid.version
    refine ⟨h.object, h.known, h.tetKnown, asU32_one.mp (hversion ▸ hxv), ?_, ⟨ty, hty, ?_, hne⟩,
      ⟨payload, ?_, ?_⟩, ?_, ⟨key, ?_, ?_⟩, sigs, edv, mlv, hsigs, ?_, hed, hml, ?_, ?_,
      ⟨edt, hedt ▸ toText_str edt, ?_⟩, mlt, hmlt ▸ toText_str mlt, ?_⟩
    · rw [hxpae, hsaid.pae]
    · rw [htyTrim, hxty, hsaid.payloadType]
    · rw [hpayload, horElse]
    · rw [hpayloadTrim, hxpayload]
      exact atob_eq hsaid.payload
    · rw [hsigner, horElse, hsaid.signer, ← hxed, hsignerTrim]
    · rw [hkey, horElse]
    · rw [hkeyTrim, hxml]
      exact hsaid.mldsaKey
    · rw [← hsaid.two, ← hxentries, List.length_map]
    · rw [hedId, hedk]
    · rw [hmlId, hmlk]
    · rw [jsTrim_of_stdDecode hedSig]
      exact atob_eq hedSig
    · rw [hmlTrim]
      exact hmlSig
  · intro hsaid
    obtain ⟨ty', hty', htype, -⟩ := hsaid.payloadType
    obtain ⟨payload', hpayload', hpayloadAtob⟩ := hsaid.payload
    obtain ⟨key', hkey', hkeyStd⟩ := hsaid.mldsaKey
    obtain ⟨sigs', edv, mlv, hsigs', htwo, hed, hml, hedId, hmlId, ⟨edt, hedt, hedAtob⟩, mlt, hmlt,
      hmlStd⟩ := hsaid.entries
    rw [hty, JsValue.str.injEq] at hty'
    rw [hpayload, horElse, Option.some.injEq] at hpayload'
    rw [hkey, horElse, Option.some.injEq] at hkey'
    rw [hsigs, JsValue.arr.injEq] at hsigs'
    subst hty' hpayload' hkey' hsigs'
    have hxsigner := hsaid.signer
    rw [hsigner, horElse, Option.some.injEq] at hxsigner
    obtain ⟨hedMem, edk, hedk, hedStart⟩ := mem_pick (hed ▸ List.mem_singleton_self edv)
    obtain ⟨hmlMem, mlk, hmlk, hmlStart⟩ := mem_pick (hml ▸ List.mem_singleton_self mlv)
    obtain ⟨edt', hedt'⟩ := (hentries edv hedMem).sig
    obtain ⟨mlt', hmlt'⟩ := (hentries mlv hmlMem).sig
    rw [hedt', toText_str, Option.some.injEq] at hedt
    rw [hmlt', toText_str, Option.some.injEq] at hmlt
    subst hedt hmlt
    obtain ⟨edb, hedStd⟩ := Option.isSome_iff_exists.mp
      ((hentries edv hedMem).ed25519 edk edt' hedk hedt' hedStart)
    have hmlTrim := (hentries mlv hmlMem).mldsa mlk mlt' hmlk hmlt' hmlStart
    rw [jsTrim_of_stdDecode hedStd, atob_eq hedStd] at hedAtob
    rw [hpayloadTrim, atob_eq hb] at hpayloadAtob
    refine ⟨⟨ty, payload, sigs.map entryOf, ⟨1, agentPayloadDomainV1, signer, key⟩⟩, ?_, ?_⟩
    · rw [Envelope.read_some, TetBlock.read_some, structField_of_object h.object,
        structField_of_object h.object, structField_of_object h.object, structField_of_object h.object,
        structField_of_object h.tetObject, structField_of_object h.tetObject,
        structField_of_object h.tetObject, structField_of_object h.tetObject]
      exact ⟨hty, hpayload, ⟨sigs, hsigs, mapM_read_of_plain hentries⟩, asU32_one.mpr hsaid.version,
        hsaid.pae, hsigner, hkey⟩
    · refine ⟨rfl, rfl, ?_, ?_, ?_, ?_, ?_, entryOf edv, entryOf mlv, ?_, ?_, ?_, ?_, ?_, ?_⟩
      · rw [← htype, htyTrim]
      · rw [hb]
        exact hpayloadAtob
      · rw [← hxsigner, hsignerTrim]
      · rw [← hkeyTrim]
        exact hkeyStd
      · rw [List.length_map]
        exact htwo
      · rw [filter_entryOf hkeyids, hed]
        rfl
      · rw [filter_entryOf hkeyids, hml]
        rfl
      · unfold entryOf
        rw [hedId]
        rfl
      · unfold entryOf
        rw [hmlId]
        rfl
      · simp only [entryOf, hedt', JsValue.asStr, Option.getD_some]
        rw [hedStd]
        exact hedAtob
      · simp only [entryOf, hmlt', JsValue.asStr, Option.getD_some]
        rw [← hmlTrim]
        exact hmlStd

theorem PlainRecord.padded (h : PlainRecord e) : Padded e := by
  obtain ⟨payload, hpayload, hpayloadTrim, hpayloadStd⟩ := h.payload
  obtain ⟨sigs, hsigs, hentries⟩ := h.entries
  obtain ⟨b, hb⟩ := Option.isSome_iff_exists.mp hpayloadStd
  constructor
  · intro t ht
    rw [hpayload] at ht
    obtain rfl := Option.some.inj ((toText_str payload).symm.trans ht)
    rw [hpayloadTrim]
    exact isBase64Shape_of_stdDecode hb
  · intro sigs' hsigs' ed hed t ht
    rw [hsigs, JsValue.arr.injEq] at hsigs'
    subst hsigs'
    obtain ⟨hmem, k, hk, hstart⟩ := mem_pick hed
    obtain ⟨u, hu⟩ := (hentries ed hmem).sig
    rw [hu] at ht
    obtain rfl := Option.some.inj ((toText_str u).symm.trans ht)
    obtain ⟨edb, hedStd⟩ := Option.isSome_iff_exists.mp ((hentries ed hmem).ed25519 k u hk hu hstart)
    rw [jsTrim_of_stdDecode hedStd]
    exact isBase64Shape_of_stdDecode hedStd

/-- Two entries, one of each kind: there are no others. -/
theorem mem_pick_of_two {sigs : List JsValue} {ed ml : JsValue} (htwo : sigs.length = 2)
    (hed : pick edPrefix sigs = [ed]) (hml : pick mlPrefix sigs = [ml]) {s : JsValue} (hs : s ∈ sigs) :
    s = ed ∨ s = ml := by
  have hapart : ∀ x ∈ sigs, ¬ (x ∈ pick edPrefix sigs ∧ x ∈ pick mlPrefix sigs) := by
    rintro x - ⟨hxed, hxml⟩
    obtain ⟨-, k, hk, hedStart⟩ := mem_pick hxed
    obtain ⟨-, k', hk', hmlStart⟩ := mem_pick hxml
    rw [hk, JsValue.str.injEq] at hk'
    subst hk'
    rw [List.isPrefixOf_iff_prefix] at hedStart hmlStart
    have hsame := List.prefix_of_prefix_length_le hedStart hmlStart (by decide)
    revert hsame
    decide
  obtain ⟨x, y, rfl⟩ : ∃ x y, sigs = [x, y] := List.length_eq_two.mp htwo
  have hxy : ∀ {z : JsValue} {start : Str}, pick start [x, y] = [z] → z = x ∨ z = y := by
    intro z start hz
    have hmem := (mem_pick (hz ▸ List.mem_singleton_self z)).1
    simpa using hmem
  have hs' : s = x ∨ s = y := by simpa using hs
  have hedMem : ed ∈ pick edPrefix [x, y] := hed ▸ List.mem_singleton_self ed
  have hmlMem : ml ∈ pick mlPrefix [x, y] := hml ▸ List.mem_singleton_self ml
  rcases hxy hed with rfl | rfl
  · rcases hxy hml with rfl | rfl
    · exact absurd ⟨hedMem, hmlMem⟩ (hapart ml (by simp))
    · exact hs'
  · rcases hxy hml with rfl | rfl
    · exact hs'.symm
    · exact absurd ⟨hedMem, hmlMem⟩ (hapart ml (by simp))

/-- What a node and a script both read off a record, it says plainly. -/
theorem plainRecord_of_both {r r' : SignedRecord} (hnode : NodeSays e r) (hbrowser : BrowserSays e r')
    (htype : r.payloadType = r'.payloadType)
    (hhex : SignedRecord.is64hexLower r'.signer = true) : PlainRecord e := by
  obtain ⟨x, hread, hsaid⟩ := hnode
  have hobj := hbrowser.object
  have htetObj : (e.get "tet".toList).isObject = true := by
    refine JsValue.exists_obj_of_get "v".toList ?_
    rw [hbrowser.version]
    simp [JsValue.ofNat]
  rw [Envelope.read_some, TetBlock.read_some, structField_of_object hobj, structField_of_object hobj,
    structField_of_object hobj, structField_of_object hobj, structField_of_object htetObj,
    structField_of_object htetObj, structField_of_object htetObj, structField_of_object htetObj]
    at hread
  obtain ⟨hty, hpayload, ⟨sigs, hsigs, hentries⟩, -, -, hed, hml⟩ := hread
  have horElse : ∀ t : Str, ((JsValue.str t).orElse (.str [])).toText = some t := toText_str
  obtain ⟨ty, hty', htypeJs, -⟩ := hbrowser.payloadType
  rw [hty, JsValue.str.injEq] at hty'
  obtain ⟨payload, hpayload', hpayloadAtob⟩ := hbrowser.payload
  rw [hpayload, horElse, Option.some.injEq] at hpayload'
  have hsigner := hbrowser.signer
  rw [hed, horElse, Option.some.injEq] at hsigner
  obtain ⟨key, hkey, hkeyStd⟩ := hbrowser.mldsaKey
  rw [hml, horElse, Option.some.injEq] at hkey
  obtain ⟨sigs', edv, mlv, hsigs', htwo, hedPick, hmlPick, hedId, hmlId, -, mlt, hmlt, hmlStd⟩ :=
    hbrowser.entries
  rw [hsigs, JsValue.arr.injEq] at hsigs'
  subst hty' hpayload' hkey hsigs'
  have hkeyids : ∀ s ∈ sigs, ∃ k, s.get "keyid".toList = .str k := by
    intro s hs
    rcases mem_pick_of_two htwo hedPick hmlPick hs with rfl | rfl
    · exact ⟨_, hedId⟩
    · exact ⟨_, hmlId⟩
  have hobjects : ∀ s ∈ sigs, s.isObject = true := by
    intro s hs
    obtain ⟨k, hk⟩ := hkeyids s hs
    refine JsValue.exists_obj_of_get "keyid".toList ?_
    rw [hk]
    simp
  have hmap := mapM_read_of_object hobjects hentries
  obtain ⟨ed, ml, hedFilter, hmlFilter, -, -, hedSig, hmlSig⟩ := hsaid.entries
  rw [hmap, filter_entryOf hkeyids, hedPick, List.map_singleton, List.singleton_inj] at hedFilter
  rw [hmap, filter_entryOf hkeyids, hmlPick, List.map_singleton, List.singleton_inj] at hmlFilter
  have hsigs' : ∀ s ∈ sigs, ∃ t, s.get "sig".toList = .str t := by
    intro s hs
    obtain ⟨y, hy⟩ := Option.isSome_iff_exists.mp (isSome_of_mapM hentries s hs)
    rw [SigEntry.read_some, structField_of_object (hobjects s hs),
      structField_of_object (hobjects s hs)] at hy
    exact ⟨_, hy.2⟩
  refine ⟨hobj, hbrowser.known, htetObj, hbrowser.tetKnown, ⟨_, hty, ?_⟩, ⟨_, hpayload, ?_, ?_⟩,
    ⟨_, hed, ?_⟩, ⟨_, hml, ?_⟩, sigs, hsigs, ?_⟩
  · rw [htypeJs, ← htype, hsaid.payloadType]
  · exact jsTrim_eq_of_decodes hsaid.payload hpayloadAtob
  · rw [hsaid.payload]
    rfl
  · rw [hsigner]
    exact (trimLower_of_is64hexLower hhex).1
  · exact jsTrim_eq_of_decodes hsaid.mldsaKey (atob_eq hkeyStd)
  · intro s hs
    refine ⟨hobjects s hs, hkeyids s hs, hsigs' s hs, ?_, ?_⟩
    · intro k t hk ht hstart
      have hboth : s ∈ pick edPrefix sigs := by
        refine List.mem_filter.mpr ⟨hs, ?_⟩
        rw [hk]
        exact hstart
      rw [hedPick, List.mem_singleton] at hboth
      rw [hboth] at ht
      rw [← hedFilter] at hedSig
      simp only [entryOf, ht, JsValue.asStr, Option.getD_some] at hedSig
      rw [hedSig]
      rfl
    · intro k t hk ht hstart
      have hboth : s ∈ pick mlPrefix sigs := by
        refine List.mem_filter.mpr ⟨hs, ?_⟩
        rw [hk]
        exact hstart
      rw [hmlPick, List.mem_singleton] at hboth
      subst hboth
      rw [← hmlFilter] at hmlSig
      simp only [entryOf, ht, JsValue.asStr, Option.getD_some] at hmlSig
      rw [ht, toText_str, Option.some.injEq] at hmlt
      subst hmlt
      exact jsTrim_eq_of_decodes hmlSig (atob_eq hmlStd)

/-! ## Verdicts -/

/-- How a verifier ends. -/
inductive Verdict where
  | passes
  | refuses
  | throws
  deriving DecidableEq

/-- The verdict of a check. -/
def verdict {α : Type} : Except Refusal α → Verdict
  | .ok _ => .passes
  | .error (.no _) => .refuses
  | .error .threw => .throws

/-- It does not throw. -/
def Calm {α : Type} (x : Except Refusal α) : Prop := x ≠ .error .threw

theorem Calm.bind {α β : Type} {x : Except Refusal α} {f : α → Except Refusal β} (hx : Calm x)
    (hf : ∀ a, x = .ok a → Calm (f a)) : Calm (x >>= f) := by
  cases x with
  | error y =>
    intro h
    rw [error_bind, Except.error.injEq] at h
    exact hx (congrArg Except.error h)
  | ok a => exact hf a rfl

theorem calm_no {α : Type} (reason : Str) : Calm (.error (.no reason) : Except Refusal α) := by
  intro h
  cases h

theorem calm_require {c : Prop} [Decidable c] {reason : Str} : Calm (require c (.no reason)) := by
  unfold require
  split
  · intro h
    cases h
  · exact calm_no reason

theorem calm_pageContentCheck {content payload : Bytes} {recordOnly : Bool} :
    Calm (pageContentCheck W content recordOnly s payload) := by
  unfold pageContentCheck
  split
  · exact calm_require.bind fun _ _ => calm_require
  split
  · exact calm_require.bind fun _ _ => calm_require
  · exact calm_require

theorem calm_offlineContentCheck {payload : Bytes} {file : Option Bytes} :
    Calm (offlineContentCheck W file s payload) := by
  unfold offlineContentCheck
  split
  · refine calm_require.bind ?_
    intro _ _
    cases file with
    | none =>
      intro h
      cases h
    | some f => exact calm_require
  · cases file with
    | none => exact calm_no _
    | some f => exact calm_require

/-- A text that was decoded can be shown again. -/
theorem calm_coerce {b : Bytes} (h : offlineB64ToBytes v = some b) : Calm (coerce v) := by
  obtain ⟨t, ht, -⟩ := offlineB64ToBytes_some.mp h
  rw [coerce_ok.mpr ht]
  intro h
  cases h

theorem Parts.calm_verifyEnvelope {content : Bytes} {recordOnly : Bool} :
    Calm (p.verifyEnvelope W S chain content recordOnly) := by
  unfold Parts.verifyEnvelope
  split
  · rename_i hsig
    refine calm_require.bind fun _ _ => calm_require.bind fun _ _ => calm_require.bind fun _ _ =>
      calm_pageContentCheck.bind fun _ _ => calm_require.bind fun _ _ =>
        (calm_coerce (pageB64ToBytes_some.mp hsig).2).bind fun _ _ => calm_require.bind fun _ _ => ?_
    intro h
    cases h
  · exact calm_no _

theorem Parts.calm_verifyRecordOffline {bytes : Bytes} {file : Option Bytes} :
    Calm (p.verifyRecordOffline W S chain bytes file) := by
  unfold Parts.verifyRecordOffline
  split
  · rename_i hsig _
    refine calm_require.bind fun _ _ => calm_require.bind fun _ _ => calm_require.bind fun _ _ =>
      calm_offlineContentCheck.bind fun _ _ => calm_require.bind fun _ _ =>
        (calm_coerce hsig).bind fun _ _ => calm_require.bind fun _ _ => ?_
    intro h
    cases h
  · exact calm_no _

/-- The page and the offline verifier throw on the same records: in the checks they share. -/
theorem verdict_eq_iff {parse : Bytes → Option JsValue} {bytes content : Bytes} {recordOnly : Bool}
    {file : Option Bytes} :
    verdict (verifyEnvelope W S chain ((parse bytes).getD .null) content recordOnly) =
        verdict (verifyRecordOffline W S chain parse bytes file) ↔
      ((verifyEnvelope W S chain ((parse bytes).getD .null) content recordOnly).isOk = true ↔
        (verifyRecordOffline W S chain parse bytes file).isOk = true) := by
  have hcalm : ∀ {α β : Type} {x : Except Refusal α} {y : Except Refusal β}, Calm x → Calm y →
      (verdict x = verdict y ↔ (x.isOk = true ↔ y.isOk = true)) := by
    intro α β x y hx hy
    rcases x with (_ | _) | _
    · rcases y with (_ | _) | _
      · simp [verdict, Except.isOk, Except.toBool]
      · exact absurd rfl hy
      · simp [verdict, Except.isOk, Except.toBool]
    · exact absurd rfl hx
    · rcases y with (_ | _) | _
      · simp [verdict, Except.isOk, Except.toBool]
      · exact absurd rfl hy
      · simp [verdict, Except.isOk, Except.toBool]
  unfold verifyRecordOffline
  cases parse bytes with
  | none => exact hcalm (calm_require.bind fun _ h => by cases h) (calm_no _)
  | some e =>
    unfold verifyEnvelope
    simp only [Option.getD_some]
    by_cases hobj : e.isObject = true
    · rw [require_of hobj, require_of hobj, ok_bind, ok_bind]
      cases readParts e with
      | ok p => exact hcalm Parts.calm_verifyEnvelope Parts.calm_verifyRecordOffline
      | error y =>
        rw [error_bind, error_bind]
        cases y <;> simp [verdict, Except.isOk, Except.toBool]
    · have hrefused : ∀ {α : Type} {f : Unit → Except Refusal α} {reason : Str},
          Calm (require (e.isObject = true) (Refusal.no reason) >>= f) := by
        intro α f reason
        refine calm_require.bind ?_
        intro _ h
        exact absurd (require_eq_ok.mp h) hobj
      exact hcalm hrefused hrefused

end Specs

section Agreement

variable (A : Auth) (W : World) (S : SigPrimitives) (parse : Bytes → Option JsValue) (bytes : Bytes)

/-- The binding of the node's chain. -/
def chainOf (A : Auth) : ChainBinding := ⟨A.chainId, A.genesisHash⟩

/-- Node, page and offline verifier take the same record, without its file. -/
def RecordVerdictsAgree (content : Bytes) : Prop :=
  ((verifyRecord A W S parse bytes).isOk = true ↔
    (verifyEnvelope W S (chainOf A) ((parse bytes).getD .null) content true).isOk = true) ∧
  ((verifyEnvelope W S (chainOf A) ((parse bytes).getD .null) content true).isOk = true ↔
    (verifyRecordOffline W S (chainOf A) parse bytes none).isOk = true)

/-- Page and offline verifier have one verdict on an envelope and a file. -/
def FileVerdictsAgree (file : Bytes) : Prop :=
  verdict (verifyEnvelope W S (chainOf A) ((parse bytes).getD .null) file false) =
    verdict (verifyRecordOffline W S (chainOf A) parse bytes (some file))

/-- The three verifiers agree on a record exactly if it is written plainly or nothing signed can be read
off it; page and offline verifier agree on an envelope and a file exactly if its base64 is padded or
nothing signed about the file can be read off it. -/
theorem verifiers_agree :
    (bytes.length ≤ recordMaxBytes →
      ((∀ content, RecordVerdictsAgree A W S parse bytes content) ↔
        ∀ e, parse bytes = some e → ∀ r, NodeSays e r ∨ BrowserSays e r → r.HashOnly →
          r.Signed W S A.chainId A.genesisHash → PlainRecord e)) ∧
    ∀ file, FileVerdictsAgree A W S parse bytes file ↔
      ∀ e, parse bytes = some e → ∀ r, BrowserSays e r → r.Signed W S A.chainId A.genesisHash →
        Covers W (some file) r.payloadType r.payload → Padded e := by
  constructor
  · intro hsize
    cases hparse : parse bytes with
    | none =>
      have hnode : (verifyRecord A W S parse bytes).isOk = false := by
        rw [Bool.eq_false_iff, Ne, verifyRecord_isOk]
        rintro ⟨-, x, r, hread, -⟩
        rw [hparse] at hread
        cases hread
      have hpage : ∀ content, (verifyEnvelope W S (chainOf A) .null content true).isOk = false := by
        intro content
        rw [Bool.eq_false_iff, Ne, verifyEnvelope_isOk]
        rintro ⟨-, r, hsaid, -⟩
        cases hsaid.object
      have hoffline : (verifyRecordOffline W S (chainOf A) parse bytes none).isOk = false := by
        rw [Bool.eq_false_iff, Ne, verifyRecordOffline_isOk]
        rintro ⟨e, r, he, -⟩
        rw [hparse] at he
        cases he
      unfold RecordVerdictsAgree
      simp only [hparse, Option.getD_none, hnode, hpage, hoffline, iff_self, and_self, implies_true,
        true_iff]
      intro e he
      cases he
    | some e =>
      have hnode : (verifyRecord A W S parse bytes).isOk = true ↔
          ∃ r, NodeSays e r ∧ r.HashOnly ∧ r.Signed W S A.chainId A.genesisHash := by
        rw [verifyRecord_isOk, hparse]
        constructor
        · rintro ⟨-, x, r, hread, hsaid, hhash, hsigned⟩
          exact ⟨r, ⟨x, hread, hsaid⟩, hhash, hsigned⟩
        · rintro ⟨r, ⟨x, hread, hsaid⟩, hhash, hsigned⟩
          exact ⟨hsize, x, r, hread, hsaid, hhash, hsigned⟩
      have hpage : ∀ content, (verifyEnvelope W S (chainOf A) e content true).isOk = true ↔
          Padded e ∧ ∃ r, BrowserSays e r ∧ r.HashOnly ∧ r.Signed W S A.chainId A.genesisHash := by
        intro content
        rw [verifyEnvelope_isOk]
        constructor
        · rintro ⟨hpadded, r, hsaid, hsigned, hcovers⟩
          exact ⟨hpadded, r, hsaid, ⟨hcovers.1, hcovers.2⟩, hsigned⟩
        · rintro ⟨hpadded, r, hsaid, hhash, hsigned⟩
          exact ⟨hpadded, r, hsaid, hsigned, hhash.type, hhash.length⟩
      have hoffline : (verifyRecordOffline W S (chainOf A) parse bytes none).isOk = true ↔
          ∃ r, BrowserSays e r ∧ r.HashOnly ∧ r.Signed W S A.chainId A.genesisHash := by
        rw [verifyRecordOffline_isOk, hparse]
        constructor
        · rintro ⟨e', r, he, hsaid, hsigned, hcovers⟩
          cases he
          exact ⟨r, hsaid, ⟨hcovers.1, hcovers.2⟩, hsigned⟩
        · rintro ⟨r, hsaid, hhash, hsigned⟩
          exact ⟨e, r, rfl, hsaid, hsigned, hhash.type, hhash.length⟩
      unfold RecordVerdictsAgree
      simp only [hparse, Option.getD_some, hnode, hpage, hoffline, Option.some.injEq, forall_eq']
      constructor
      · intro hagree r hsaid hhash hsigned
        obtain ⟨hnp, hpo⟩ := hagree []
        have hall : (∃ r, NodeSays e r ∧ r.HashOnly ∧ r.Signed W S A.chainId A.genesisHash) ∧
            ∃ r, BrowserSays e r ∧ r.HashOnly ∧ r.Signed W S A.chainId A.genesisHash := by
          rcases hsaid with hsaid | hsaid
          · exact ⟨⟨r, hsaid, hhash, hsigned⟩, (hnp.mp ⟨r, hsaid, hhash, hsigned⟩).2⟩
          · exact ⟨hnp.mpr (hpo.mpr ⟨r, hsaid, hhash, hsigned⟩), r, hsaid, hhash, hsigned⟩
        obtain ⟨⟨rn, hn, hnHash, -⟩, rb, hb, hbHash, hbSigned⟩ := hall
        exact plainRecord_of_both hn hb (hnHash.type.trans hbHash.type.symm) hbSigned.signer
      · intro hplain _
        have hne : ∀ r : SignedRecord, r.HashOnly → r.payloadType ≠ [] := by
          intro r hhash
          rw [hhash.type]
          decide
        constructor
        · constructor
          · rintro ⟨r, hsaid, hhash, hsigned⟩
            have hp := hplain r (Or.inl hsaid) hhash hsigned
            exact ⟨hp.padded, r, (hp.says_iff (hne r hhash)).mp hsaid, hhash, hsigned⟩
          · rintro ⟨-, r, hsaid, hhash, hsigned⟩
            have hp := hplain r (Or.inr hsaid) hhash hsigned
            exact ⟨r, (hp.says_iff (hne r hhash)).mpr hsaid, hhash, hsigned⟩
        · constructor
          · rintro ⟨-, hsigned⟩
            exact hsigned
          · rintro ⟨r, hsaid, hhash, hsigned⟩
            exact ⟨(hplain r (Or.inr hsaid) hhash hsigned).padded, r, hsaid, hhash, hsigned⟩
  · intro file
    unfold FileVerdictsAgree
    rw [verdict_eq_iff, verifyEnvelope_isOk, verifyRecordOffline_isOk]
    cases parse bytes with
    | none =>
      have hnull : ∀ r, ¬ BrowserSays .null r := by
        intro r hsaid
        cases hsaid.object
      simp [hnull]
    | some e =>
      simp only [Option.getD_some, Option.some.injEq, forall_eq', if_false, Bool.false_eq_true]
      constructor
      · intro hagree r hsaid hsigned hcovers
        exact (hagree.mpr ⟨e, r, rfl, hsaid, hsigned, hcovers⟩).1
      · intro hpadded
        constructor
        · rintro ⟨-, r, hsaid, hsigned, hcovers⟩
          exact ⟨e, r, rfl, hsaid, hsigned, hcovers⟩
        · rintro ⟨e', r, rfl, hsaid, hsigned, hcovers⟩
          exact ⟨hpadded r hsaid hsigned hcovers, r, hsaid, hsigned, hcovers⟩

end Agreement

end TetCore.Page

namespace TetCore.Sample

open TetCore.Lib TetCore.Sigs TetCore.Page

/-- A file, and the SHA-256 that is signed of it. -/
def markedFile : Bytes := List.replicate 31 5

def markedHash : Bytes := siteWorld.sha256 markedFile

/-- What is signed of the file. -/
def recordMessage : Bytes :=
  Payouts.pae agentPayloadDomainV1
    [utf8 auth.chainId, utf8 auth.genesisHash, utf8 hashPayloadType, markedHash]

/-- A record of the file. -/
def signedRecord : SignedRecord :=
  ⟨hashPayloadType, markedHash, wallet 'a', siteMldsaKey, edPrefix ++ wallet 'a',
    mlPrefix ++ siteWorld.sha256Hex siteMldsaKey,
    checkByte ((hexDecode (wallet 'a')).getD []) recordMessage :: List.replicate 63 0,
    checkByte siteMldsaKey recordMessage :: List.replicate 2419 0⟩

/-- Its entries. -/
def recordEntries : List JsValue :=
  [.obj [("keyid".toList, .str signedRecord.edKeyid),
      ("sig".toList, .str (b64Encode signedRecord.ed25519Sig))],
    .obj [("keyid".toList, .str signedRecord.mlKeyid),
      ("sig".toList, .str (b64Encode signedRecord.mldsaSig))]]

/-- Its `tet`. -/
def recordTet : JsValue :=
  .obj [("v".toList, .ofNat 1), ("pae".toList, .str agentPayloadDomainV1),
    ("agent_ed25519_pubkey_hex".toList, .str (wallet 'a')),
    ("agent_mldsa44_pubkey_b64".toList, .str (b64Encode siteMldsaKey))]

/-- The envelope with this text of its payload, and more members. -/
def recordJson (payload : Str) (more : List (Str × JsValue)) : JsValue :=
  .obj ([("payloadType".toList, .str hashPayloadType), ("payload".toList, .str payload),
    ("signatures".toList, .arr recordEntries), ("tet".toList, recordTet)] ++ more)

/-- What is evaluated of the record. -/
theorem recordFacts :
    (SignedRecord.is64hexLower (wallet 'a') = true ∧ (hexDecode (wallet 'a')).isSome = true) ∧
    (envelopeNames.Nodup ∧ tetNames.Nodup ∧ "keyid".toList ≠ "sig".toList ∧
      "note".toList ∉ envelopeNames) ∧
    (trim hashPayloadType = hashPayloadType ∧ trim (wallet 'a') = wallet 'a' ∧
      jsTrim hashPayloadType = hashPayloadType ∧ hashPayloadType ≠ []) ∧
    atob (jsTrim (b64Encode markedHash).dropLast) = some markedHash ∧
    isBase64Shape (jsTrim (b64Encode markedHash).dropLast) = false := by
  decide +kernel

theorem signedRecord_signed :
    signedRecord.Signed siteWorld sitePrimitives auth.chainId auth.genesisHash := by
  obtain ⟨⟨hhex, hkey⟩, -⟩ := recordFacts
  obtain ⟨pk, hpk⟩ := Option.isSome_iff_exists.mp hkey
  refine ⟨hhex, rfl, rfl, ?_, siteMldsaKey_length, ?_, ⟨pk, hpk, ?_⟩, beq_self_eq_true _⟩
  · show (_ :: List.replicate 63 _).length = 64
    rw [List.length_cons, List.length_replicate]
  · show (_ :: List.replicate 2419 _).length = 2420
    rw [List.length_cons, List.length_replicate]
  · show (some (checkByte ((hexDecode (wallet 'a')).getD []) recordMessage) ==
      some (checkByte pk recordMessage)) = true
    rw [hpk]
    exact beq_self_eq_true _

theorem signedRecord_hashOnly : signedRecord.HashOnly := by
  constructor
  · rfl
  · decide

theorem recordJson_get (payload : Str) (more : List (Str × JsValue)) :
    (recordJson payload more).get "payloadType".toList = .str hashPayloadType ∧
    (recordJson payload more).get "payload".toList = .str payload ∧
    (recordJson payload more).get "signatures".toList = .arr recordEntries ∧
    (recordJson payload more).get "tet".toList = recordTet := by
  have hnames := recordFacts.2.1.1
  simp only [envelopeNames, List.nodup_cons, List.mem_cons, not_or] at hnames
  obtain ⟨⟨h12, h13, h14, -⟩, ⟨h23, h24, -⟩, ⟨h34, -⟩, -⟩ := hnames
  unfold recordJson
  simp only [List.cons_append]
  refine ⟨JsValue.get_cons_same _ _ _, ?_, ?_, ?_⟩
  · rw [JsValue.get_cons_ne h12, JsValue.get_cons_same]
  · rw [JsValue.get_cons_ne h13, JsValue.get_cons_ne h23, JsValue.get_cons_same]
  · rw [JsValue.get_cons_ne h14, JsValue.get_cons_ne h24, JsValue.get_cons_ne h34,
      JsValue.get_cons_same]

theorem recordTet_get :
    recordTet.get "v".toList = .ofNat 1 ∧ recordTet.get "pae".toList = .str agentPayloadDomainV1 ∧
    recordTet.get "agent_ed25519_pubkey_hex".toList = .str (wallet 'a') ∧
    recordTet.get "agent_mldsa44_pubkey_b64".toList = .str (b64Encode siteMldsaKey) := by
  have hnames := recordFacts.2.1.2.1
  exact ⟨JsValue.get_of_position 0 hnames rfl, JsValue.get_of_position 1 hnames rfl,
    JsValue.get_of_position 2 hnames rfl, JsValue.get_of_position 3 hnames rfl⟩

/-- The entries, and what is in them. -/
theorem recordEntries_pick : ∃ ed ml, recordEntries = [ed, ml] ∧ ed.isObject = true ∧
    ml.isObject = true ∧ pick edPrefix recordEntries = [ed] ∧ pick mlPrefix recordEntries = [ml] ∧
    ed.get "keyid".toList = .str signedRecord.edKeyid ∧
    ml.get "keyid".toList = .str signedRecord.mlKeyid ∧
    ed.get "sig".toList = .str (b64Encode signedRecord.ed25519Sig) ∧
    ml.get "sig".toList = .str (b64Encode signedRecord.mldsaSig) := by
  have hkinds : edPrefix.isPrefixOf signedRecord.edKeyid = true ∧
      edPrefix.isPrefixOf signedRecord.mlKeyid = false ∧
      mlPrefix.isPrefixOf signedRecord.edKeyid = false ∧
      mlPrefix.isPrefixOf signedRecord.mlKeyid = true := by
    refine ⟨?_, ?_, ?_, ?_⟩
    · exact List.isPrefixOf_iff_prefix.mpr (List.prefix_append _ _)
    · rfl
    · rfl
    · exact List.isPrefixOf_iff_prefix.mpr (List.prefix_append _ _)
  obtain ⟨h1, h2, h3, h4⟩ := hkinds
  have hnames := recordFacts.2.1.2.2.1
  refine ⟨_, _, rfl, rfl, rfl, ?_, ?_, ?_, ?_, ?_, ?_⟩
  · unfold pick recordEntries
    rw [List.filter_cons_of_pos (by rw [JsValue.get_cons_same]; exact h1),
      List.filter_cons_of_neg (by rw [JsValue.get_cons_same]; exact ne_of_eq_of_ne h2 (by decide)),
      List.filter_nil]
  · unfold pick recordEntries
    rw [List.filter_cons_of_neg (by rw [JsValue.get_cons_same]; exact ne_of_eq_of_ne h3 (by decide)),
      List.filter_cons_of_pos (by rw [JsValue.get_cons_same]; exact h4), List.filter_nil]
  · exact JsValue.get_cons_same _ _ _
  · exact JsValue.get_cons_same _ _ _
  · rw [JsValue.get_cons_ne hnames, JsValue.get_cons_same]
  · rw [JsValue.get_cons_ne hnames, JsValue.get_cons_same]

/-- With its payload in strict base64, a node reads it, whatever other members it has. -/
theorem recordJson_nodeSays (more : List (Str × JsValue)) :
    NodeSays (recordJson (b64Encode markedHash) more) signedRecord := by
  obtain ⟨hty, hpayload, hsigs, htet⟩ := recordJson_get (b64Encode markedHash) more
  obtain ⟨hv, hpae, hed, hml⟩ := recordTet_get
  obtain ⟨edv, mlv, hentries, hedObj, hmlObj, hedPick, hmlPick, hedId, hmlId, hedSig, hmlSig⟩ :=
    recordEntries_pick
  have hobj : (recordJson (b64Encode markedHash) more).isObject = true := rfl
  have htetObj : recordTet.isObject = true := rfl
  have hread : ∀ {s : JsValue} {k t : Str}, s.isObject = true → s.get "keyid".toList = .str k →
      s.get "sig".toList = .str t → SigEntry.read s = some ⟨k, t⟩ := by
    intro s k t hs hk ht
    rw [SigEntry.read_some, structField_of_object hs, structField_of_object hs]
    exact ⟨hk, ht⟩
  obtain ⟨-, -, ⟨hty', hwallet, -⟩, -⟩ := recordFacts
  let ed : SigEntry := ⟨signedRecord.edKeyid, b64Encode signedRecord.ed25519Sig⟩
  let ml : SigEntry := ⟨signedRecord.mlKeyid, b64Encode signedRecord.mldsaSig⟩
  refine ⟨⟨hashPayloadType, b64Encode markedHash, [ed, ml],
    ⟨1, agentPayloadDomainV1, wallet 'a', b64Encode siteMldsaKey⟩⟩, ?_, ?_⟩
  · rw [Envelope.read_some, structField_of_object hobj, structField_of_object hobj,
      structField_of_object hobj, structField_of_object hobj, hty, hpayload, hsigs, htet,
      TetBlock.read_some, structField_of_object htetObj, structField_of_object htetObj,
      structField_of_object htetObj, structField_of_object htetObj]
    refine ⟨rfl, rfl, ⟨recordEntries, rfl, ?_⟩, asU32_one.mpr hv, hpae, hed, hml⟩
    rw [hentries, List.mapM_cons, List.mapM_cons, hread hedObj hedId hedSig, hread hmlObj hmlId hmlSig]
    rfl
  · refine ⟨rfl, rfl, hty'.symm, stdDecode_trim_encode _, hwallet.symm, stdDecode_trim_encode _,
      rfl, ed, ml, ?_, ?_, rfl, rfl, stdDecode_encode _, stdDecode_trim_encode _⟩
    · rfl
    · rfl

/-- A script reads it if it has no other members and its payload is base64 as the browser takes it. -/
theorem recordJson_browserSays {payload : Str} (h : atob (jsTrim payload) = some markedHash) :
    BrowserSays (recordJson payload []) signedRecord := by
  obtain ⟨hty, hpayload, hsigs, htet⟩ := recordJson_get payload []
  obtain ⟨hv, hpae, hed, hml⟩ := recordTet_get
  obtain ⟨edv, mlv, hentries, -, -, hedPick, hmlPick, hedId, hmlId, hedSig, hmlSig⟩ :=
    recordEntries_pick
  have hstd : ∀ b, jsTrim (b64Encode b) = b64Encode b := fun b => jsTrim_of_stdDecode (stdDecode_encode b)
  have hnames : ["payloadType".toList, "payload".toList, "signatures".toList, "tet".toList] =
      envelopeNames ∧ (recordJson payload []).keys = envelopeNames ∧ recordTet.keys = tetNames :=
    ⟨rfl, rfl, rfl⟩
  have htype := recordFacts.2.2.1.2.2
  refine ⟨rfl, ?_, ?_, htet ▸ hv, htet ▸ hpae, ⟨_, hty, htype.1, htype.2⟩, ⟨payload, ?_, h⟩, ?_,
    ⟨b64Encode siteMldsaKey, ?_, ?_⟩, recordEntries, edv, mlv, hsigs, rfl, hedPick, hmlPick, hedId, hmlId,
    ⟨b64Encode signedRecord.ed25519Sig, ?_, ?_⟩, b64Encode signedRecord.mldsaSig, ?_, ?_⟩
  · rw [hnames.2.1]
    exact fun k hk => hk
  · rw [htet, hnames.2.2]
    exact fun k hk => hk
  · rw [hpayload]
    exact toText_str _
  · rw [htet, hed]
    exact toText_str _
  · rw [htet, hml]
    exact toText_str _
  · rw [hstd]
    exact stdDecode_encode _
  · rw [hedSig]
    exact toText_str _
  · rw [hstd]
    exact atob_eq (stdDecode_encode _)
  · rw [hmlSig]
    exact toText_str _
  · rw [hstd]
    exact stdDecode_encode _

end TetCore.Sample

namespace TetCore.Page

open TetCore.Lib TetCore.Sigs

/-- A record with a field more is taken by the node alone. One without the padding of its payload is taken
by the offline verifier, with its file or without, and not by the page. -/
theorem verifiers_differ :
    (let e := Sample.recordJson (b64Encode Sample.markedHash) [("note".toList, .str "x".toList)]
     (verifyRecord Sample.auth Sample.siteWorld Sample.sitePrimitives (fun _ => some e) []).isOk = true ∧
     (verifyEnvelope Sample.siteWorld Sample.sitePrimitives (chainOf Sample.auth) e [] true).isOk =
       false) ∧
    (let e := Sample.recordJson (b64Encode Sample.markedHash).dropLast []
     (verifyRecordOffline Sample.siteWorld Sample.sitePrimitives (chainOf Sample.auth)
       (fun _ => some e) [] none).isOk = true ∧
     (verifyEnvelope Sample.siteWorld Sample.sitePrimitives (chainOf Sample.auth) e [] true).isOk =
       false ∧
     (verifyRecordOffline Sample.siteWorld Sample.sitePrimitives (chainOf Sample.auth)
       (fun _ => some e) [] (some Sample.markedFile)).isOk = true ∧
     (verifyEnvelope Sample.siteWorld Sample.sitePrimitives (chainOf Sample.auth) e
       Sample.markedFile false).isOk = false) := by
  have hunpadded := Sample.recordFacts.2.2.2
  have hsigned := Sample.signedRecord_signed
  have hhash := Sample.signedRecord_hashOnly
  have hnote := Sample.recordFacts.2.1.2.2.2
  have hnotPadded : ¬ Padded (Sample.recordJson (b64Encode Sample.markedHash).dropLast []) := by
    intro hpadded
    have hshape := hpadded.payload (b64Encode Sample.markedHash).dropLast
      ((Sample.recordJson_get (b64Encode Sample.markedHash).dropLast []).2.1 ▸ toText_str _)
    rw [hunpadded.2] at hshape
    cases hshape
  have hbrowser := Sample.recordJson_browserSays hunpadded.1
  refine ⟨⟨?_, ?_⟩, ?_, ?_, ?_, ?_⟩
  · obtain ⟨x, hread, hsaid⟩ :=
      Sample.recordJson_nodeSays [("note".toList, JsValue.str "x".toList)]
    exact verifyRecord_isOk.mpr ⟨Nat.zero_le _, x, _, hread, hsaid, hhash, hsigned⟩
  · rw [Bool.eq_false_iff, Ne, verifyEnvelope_isOk]
    rintro ⟨-, r, hsaid, -⟩
    exact hnote (hsaid.known _ (by simp [Sample.recordJson, JsValue.keys]))
  · exact verifyRecordOffline_isOk.mpr ⟨_, _, rfl, hbrowser, hsigned, hhash.type, hhash.length⟩
  · rw [Bool.eq_false_iff, Ne, verifyEnvelope_isOk]
    exact fun h => hnotPadded h.1
  · refine verifyRecordOffline_isOk.mpr ⟨_, _, rfl, hbrowser, hsigned, ?_⟩
    unfold Covers
    simp only
    rw [if_pos hhash.type]
    exact ⟨hhash.length, rfl⟩
  · rw [Bool.eq_false_iff, Ne, verifyEnvelope_isOk]
    exact fun h => hnotPadded h.1

/-- The three verifiers agree on the plain record, whatever the file. -/
theorem verifiers_agree_plain :
    (∀ content, RecordVerdictsAgree Sample.auth Sample.siteWorld Sample.sitePrimitives
      (fun _ => some (Sample.recordJson (b64Encode Sample.markedHash) [])) [] content) ∧
    ∀ file, FileVerdictsAgree Sample.auth Sample.siteWorld Sample.sitePrimitives
      (fun _ => some (Sample.recordJson (b64Encode Sample.markedHash) [])) [] file := by
  have hatob : atob (jsTrim (b64Encode Sample.markedHash)) = some Sample.markedHash := by
    rw [jsTrim_of_stdDecode (stdDecode_encode _)]
    exact atob_eq (stdDecode_encode _)
  have hbrowser := Sample.recordJson_browserSays hatob
  have hplain := plainRecord_of_both (Sample.recordJson_nodeSays []) hbrowser rfl
    Sample.signedRecord_signed.signer
  obtain ⟨hrecord, hfile⟩ := verifiers_agree Sample.auth Sample.siteWorld Sample.sitePrimitives
    (fun _ => some (Sample.recordJson (b64Encode Sample.markedHash) [])) []
  constructor
  · refine (hrecord (Nat.zero_le _)).mpr ?_
    intro e he r _ _ _
    cases he
    exact hplain
  · intro file
    refine (hfile file).mpr ?_
    intro e he r _ _ _
    cases he
    exact hplain.padded

end TetCore.Page
