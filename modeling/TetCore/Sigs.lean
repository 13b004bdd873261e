import TetCore.AuthMessages
import TetCore.Signatures

/-!
# Signature records

`sigs.rs`, `verify_record`: a node's check of a hash-only record, from its bytes. `serde_json` reads the
envelope: a struct from an object, unknown members skipped, or from an array of as many values as it has
fields.

Over it, what a record says (`SignedRecord`) and when its two keys signed that (`SignedRecord.Signed`).

* `verifyRecord_isOk`: a node takes a record exactly if it is small enough and, as the node reads it
  (`Envelope.Says`), says a SHA-256 that its keys signed.
-/

namespace TetCore.Sigs

open TetCore.Lib

/-- `HASH_PAYLOAD_TYPE`. -/
def hashPayloadType : Str := "application/vnd.tet.sha256".toList

/-- `RECORD_MAX_BYTES`. -/
def recordMaxBytes : Nat := 16 * 1024

def edPrefix : Str := "tet-ed25519:".toList

def mlPrefix : Str := "tet-mldsa44:".toList

/-! ## What a record says -/

/-- What is signed, by which keys, and the signatures. -/
structure SignedRecord where
  payloadType : Str
  payload : Bytes
  signer : Str
  mldsaKey : Bytes
  edKeyid : Str
  mlKeyid : Str
  ed25519Sig : Bytes
  mldsaSig : Bytes

namespace SignedRecord

/-- The signed bytes, on a chain. -/
def message (chainId genesisHash : Str) (r : SignedRecord) : Bytes :=
  Payouts.pae agentPayloadDomainV1 [utf8 chainId, utf8 genesisHash, utf8 r.payloadType, r.payload]

/-- It is a file's SHA-256. -/
structure HashOnly (r : SignedRecord) : Prop where
  type : r.payloadType = hashPayloadType
  length : r.payload.length = 32

/-- 64 lowercase hex digits: the checks of `verify_envelope` and of `is_64hex_lower`. -/
def is64hexLower (s : Str) : Bool :=
  byteLen s == 64 && s.all fun c => isAsciiHexdigit c && !(65 ≤ c.toNat && c.toNat ≤ 90)

/-- The key ids name the keys, and both keys signed it on the chain. -/
structure Signed (W : World) (S : SigPrimitives) (chainId genesisHash : Str) (r : SignedRecord) :
    Prop where
  signer : is64hexLower r.signer = true
  edKeyid : r.edKeyid = edPrefix ++ r.signer
  mlKeyid : r.mlKeyid = mlPrefix ++ W.sha256Hex r.mldsaKey
  edSize : r.ed25519Sig.length = 64
  keySize : r.mldsaKey.length = 1312
  mlSize : r.mldsaSig.length = 2420
  ed25519 : ∃ pk, hexDecode r.signer = some pk ∧
    S.ed25519 pk r.ed25519Sig (r.message chainId genesisHash) = true
  mldsa : S.mldsa .mldsa44 r.mldsaKey r.mldsaSig (r.message chainId genesisHash) = true

end SignedRecord

/-! ## Reading an envelope -/

/-- A field of a derived struct with these fields: by name in an object, by position in an array. -/
def structField (names : List Str) (v : JsValue) (name : Str) : JsValue :=
  match v with
  | .obj _ => v.get name
  | .arr items =>
    if items.length = names.length then items.getD (names.idxOf name) .undefined else .undefined
  | _ => .undefined

/-- A `u32`. -/
def asU32 : JsValue → Option Nat
  | .num shown =>
    let n := shown.foldl (fun acc c => acc * 10 + (c.toNat - 48)) 0
    if shown = Json.decimal n ∧ n < 2 ^ 32 then some n else none
  | _ => none

/-- `SigEntry`. -/
structure SigEntry where
  keyid : Str
  sig : Str

/-- `TetBlock`. -/
structure TetBlock where
  v : Nat
  pae : Str
  agentEd25519PubkeyHex : Str
  agentMldsa44PubkeyB64 : Str

/-- `Envelope`. -/
structure Envelope where
  payloadType : Str
  payload : Str
  signatures : List SigEntry
  tet : TetBlock

/-- The members of an envelope. -/
def envelopeNames : List Str :=
  ["payloadType".toList, "payload".toList, "signatures".toList, "tet".toList]

/-- The members of its `tet`. -/
def tetNames : List Str :=
  ["v".toList, "pae".toList, "agent_ed25519_pubkey_hex".toList, "agent_mldsa44_pubkey_b64".toList]

/-- The derived `Deserialize` of `SigEntry`. -/
def SigEntry.read (v : JsValue) : Option SigEntry := do
  let names := ["keyid".toList, "sig".toList]
  let keyid ← (structField names v "keyid".toList).asStr
  let sig ← (structField names v "sig".toList).asStr
  return ⟨keyid, sig⟩

/-- The derived `Deserialize` of `TetBlock`. -/
def TetBlock.read (v : JsValue) : Option TetBlock := do
  let n ← asU32 (structField tetNames v "v".toList)
  let pae ← (structField tetNames v "pae".toList).asStr
  let ed ← (structField tetNames v "agent_ed25519_pubkey_hex".toList).asStr
  let ml ← (structField tetNames v "agent_mldsa44_pubkey_b64".toList).asStr
  return ⟨n, pae, ed, ml⟩

/-- The derived `Deserialize` of `Envelope`. -/
def Envelope.read (v : JsValue) : Option Envelope := do
  let payloadType ← (structField envelopeNames v "payloadType".toList).asStr
  let payload ← (structField envelopeNames v "payload".toList).asStr
  let signatures ← (structField envelopeNames v "signatures".toList).asArray
  let signatures ← signatures.mapM SigEntry.read
  let tet ← TetBlock.read (structField envelopeNames v "tet".toList)
  return ⟨payloadType, payload, signatures, tet⟩

/-! ## The check -/

/-- `AgentError`, of a payload. -/
inductive AgentError where
  | invalidAgentEd25519
  | signerMismatch
  | ed25519 (e : String)
  | mldsa44 (e : String)
  deriving DecidableEq

/-- `SigsError`, of a record. -/
inductive SigsError where
  | malformed (text : String)
  /-- `Malformed`, with the text of the JSON reader. -/
  | unreadable
  | notHashOnly
  | signature (e : AgentError)
  | tooBig
  deriving DecidableEq

end TetCore.Sigs

namespace TetCore

open TetCore.Lib

/-- `verify_mldsa44_b64`. The text for a key that is no base64 is the decoder's. -/
def SigPrimitives.verifyMldsa44B64 (S : SigPrimitives) (pubkeyB64 sigB64 : Str) (msg : Bytes) :
    Except String Unit :=
  match stdDecode (trim pubkeyB64) with
  | none => .error "invalid base64"
  | some pk =>
    if pk.length ≠ MldsaLevel.publicKeyBytes .mldsa44 then
      .error ("mldsa pubkey must be 1312 bytes (got " ++ toString pk.length ++ ")")
    else S.verifyMldsaB64 pubkeyB64 sigB64 msg

theorem SigPrimitives.verifyMldsa44B64_ok {S : SigPrimitives} {key sig : Str} {msg : Bytes} :
    S.verifyMldsa44B64 key sig msg = .ok () ↔ ∃ pk s, stdDecode (trim key) = some pk ∧
      pk.length = 1312 ∧ stdDecode (trim sig) = some s ∧ s.length = 2420 ∧
      S.mldsa .mldsa44 pk s msg = true := by
  unfold verifyMldsa44B64
  cases hkey : stdDecode (trim key) with
  | none => simp
  | some pk =>
    by_cases hlen : pk.length = 1312
    · have hmode := MldsaLevel.ofPubkey_44 hlen
      simp only [MldsaLevel.publicKeyBytes, hlen, ne_eq, not_true_eq_false, if_false]
      rw [verifyMldsaB64_ok]
      constructor
      · rintro ⟨pk', mode, s, hpk, hmode', hsig, hsize, hvalid⟩
        obtain rfl := Option.some.inj (hkey.symm.trans hpk)
        obtain rfl := Option.some.inj (hmode.symm.trans hmode')
        exact ⟨pk, s, rfl, hlen, hsig, hsize, hvalid⟩
      · rintro ⟨pk', s, hpk, -, hsig, hsize, hvalid⟩
        obtain rfl := Option.some.inj hpk
        exact ⟨pk, .mldsa44, s, hkey, hmode, hsig, hsize, hvalid⟩
    · simp only [MldsaLevel.publicKeyBytes, hlen, ne_eq, not_false_eq_true, if_true]
      constructor
      · intro h
        cases h
      · rintro ⟨pk', s, hpk, hlen', -⟩
        obtain rfl := Option.some.inj hpk
        exact absurd hlen' hlen

end TetCore

namespace TetCore.Sigs

open TetCore.Lib

section Check

variable (A : Auth) (W : World) (S : SigPrimitives) (parse : Bytes → Option JsValue)

/-- `verify_agent_hybrid_sig`. -/
def verifyAgentHybridSig (signerWalletId : Str) (sig : HybridSigV1) (msg : Bytes) :
    Except AgentError Unit :=
  match S.verifyEd25519 signerWalletId sig.ed25519SigB64 msg with
  | .error e => .error (.ed25519 e)
  | .ok _ =>
    match S.verifyMldsa44B64 sig.mldsaPubkeyB64 sig.mldsaSigB64 msg with
    | .error e => .error (.mldsa44 e)
    | .ok _ => .ok ()

/-- `verify_agent_payload`. -/
def verifyAgentPayload (agentEd25519PubkeyHex : Str) (sig : HybridSigV1) (payloadType : Str)
    (payload : Bytes) : Except AgentError Unit :=
  let signer := trimLower agentEd25519PubkeyHex
  if SignedRecord.is64hexLower (trim signer) = false then .error .invalidAgentEd25519
  else if trimLower sig.ed25519PubkeyHex ≠ signer then .error .signerMismatch
  else verifyAgentHybridSig S signer sig (agentPayloadAuthMessageBytes A payloadType payload)

/-- `verify_envelope`, after the envelope is read. -/
def Envelope.verify (e : Envelope) : Except SigsError (Str × Bytes × Str × Str) :=
  if e.tet.v ≠ 1 ∨ e.tet.pae ≠ agentPayloadDomainV1 then
    .error (.malformed "unsupported envelope version")
  else
    let payloadType := trim e.payloadType
    match stdDecode (trim e.payload) with
    | none => .error (.malformed "payload isn't base64")
    | some payload =>
      let signer := trim e.tet.agentEd25519PubkeyHex
      if SignedRecord.is64hexLower signer = false then
        .error (.malformed "the ed25519 key is not 64 lowercase hex")
      else
        let mlPub := trim e.tet.agentMldsa44PubkeyB64
        match stdDecode mlPub with
        | none => .error (.malformed "ml-dsa key isn't base64")
        | some mlPubBytes =>
          let mlKeyid := mlPrefix ++ W.sha256Hex mlPubBytes
          match e.signatures.length, e.signatures.filter fun s => edPrefix.isPrefixOf s.keyid,
            e.signatures.filter fun s => mlPrefix.isPrefixOf s.keyid with
          | 2, [ed], [ml] =>
            if ed.keyid ≠ edPrefix ++ signer ∨ ml.keyid ≠ mlKeyid then
              .error (.malformed "a keyid doesn't match the key it names")
            else
              let sig : HybridSigV1 := ⟨signer, ed.sig, mlPub, ml.sig⟩
              match verifyAgentPayload A S signer sig payloadType payload with
              | .error x => .error (.signature x)
              | .ok _ => .ok (payloadType, payload, signer, mlPub)
          | _, _, _ =>
            .error (.malformed "expected exactly one ed25519 and one ml-dsa-44 signature")

/-- `verify_envelope`: payload type, payload, and the two keys. -/
def verifyEnvelope (bytes : Bytes) : Except SigsError (Str × Bytes × Str × Str) :=
  if bytes.length > recordMaxBytes then .error .tooBig
  else
    match (parse bytes).bind Envelope.read with
    | none => .error .unreadable
    | some e => e.verify A W S

/-- `verify_record`: the file's SHA-256 and the signer. -/
def verifyRecord (bytes : Bytes) : Except SigsError (Str × Str) :=
  match verifyEnvelope A W S parse bytes with
  | .error e => .error e
  | .ok (payloadType, payload, signer, _) =>
    if payloadType ≠ hashPayloadType ∨ payload.length ≠ 32 then .error .notHashOnly
    else .ok (hexEncode payload, signer)

end Check

/-! ## When it passes -/

/-- What an envelope says as the node reads it: blanks around a text do not count, except in the Ed25519
signature. -/
structure Envelope.Says (e : Envelope) (r : SignedRecord) : Prop where
  version : e.tet.v = 1
  pae : e.tet.pae = agentPayloadDomainV1
  payloadType : r.payloadType = trim e.payloadType
  payload : stdDecode (trim e.payload) = some r.payload
  signer : r.signer = trim e.tet.agentEd25519PubkeyHex
  mldsaKey : stdDecode (trim e.tet.agentMldsa44PubkeyB64) = some r.mldsaKey
  two : e.signatures.length = 2
  entries : ∃ ed ml, e.signatures.filter (fun s => edPrefix.isPrefixOf s.keyid) = [ed] ∧
    e.signatures.filter (fun s => mlPrefix.isPrefixOf s.keyid) = [ml] ∧
    r.edKeyid = ed.keyid ∧ r.mlKeyid = ml.keyid ∧
    stdDecode ed.sig = some r.ed25519Sig ∧ stdDecode (trim ml.sig) = some r.mldsaSig

theorem asStr_some {v : JsValue} {s : Str} : v.asStr = some s ↔ v = .str s := by
  cases v <;> simp [JsValue.asStr]

theorem asArray_some {v : JsValue} {l : List JsValue} : v.asArray = some l ↔ v = .arr l := by
  cases v <;> simp [JsValue.asArray]

theorem asU32_one {v : JsValue} : asU32 v = some 1 ↔ v = .ofNat 1 := by
  unfold asU32
  cases v with
  | num shown =>
    simp only [JsValue.ofNat, JsValue.num.injEq]
    constructor
    · intro h
      split at h
      · rename_i hshown
        rw [Option.some.inj h] at hshown
        exact hshown.1
      · cases h
    · rintro rfl
      decide
  | undefined | null | bool | str | arr | obj => simp [JsValue.ofNat]

theorem structField_of_object {names : List Str} {v : JsValue} (h : v.isObject = true) (name : Str) :
    structField names v name = v.get name := by
  cases v with
  | obj members => rfl
  | undefined | null | bool | num | str | arr => cases h

theorem SigEntry.read_some {v : JsValue} {s : SigEntry} : SigEntry.read v = some s ↔
    structField ["keyid".toList, "sig".toList] v "keyid".toList = .str s.keyid ∧
    structField ["keyid".toList, "sig".toList] v "sig".toList = .str s.sig := by
  simp only [SigEntry.read, Option.bind_eq_bind, Option.bind_eq_some_iff, asStr_some, Option.pure_def,
    Option.some.injEq]
  constructor
  · rintro ⟨keyid, hkeyid, sig, hsig, rfl⟩
    exact ⟨hkeyid, hsig⟩
  · rintro ⟨hkeyid, hsig⟩
    exact ⟨s.keyid, hkeyid, s.sig, hsig, rfl⟩

theorem TetBlock.read_some {v : JsValue} {t : TetBlock} : TetBlock.read v = some t ↔
    asU32 (structField tetNames v "v".toList) = some t.v ∧
    structField tetNames v "pae".toList = .str t.pae ∧
    structField tetNames v "agent_ed25519_pubkey_hex".toList = .str t.agentEd25519PubkeyHex ∧
    structField tetNames v "agent_mldsa44_pubkey_b64".toList = .str t.agentMldsa44PubkeyB64 := by
  simp only [TetBlock.read, Option.bind_eq_bind, Option.bind_eq_some_iff, asStr_some, Option.pure_def,
    Option.some.injEq]
  constructor
  · rintro ⟨n, hn, pae, hpae, ed, hed, ml, hml, rfl⟩
    exact ⟨hn, hpae, hed, hml⟩
  · rintro ⟨hn, hpae, hed, hml⟩
    exact ⟨t.v, hn, t.pae, hpae, _, hed, _, hml, rfl⟩

theorem Envelope.read_some {v : JsValue} {e : Envelope} : Envelope.read v = some e ↔
    structField envelopeNames v "payloadType".toList = .str e.payloadType ∧
    structField envelopeNames v "payload".toList = .str e.payload ∧
    (∃ sigs, structField envelopeNames v "signatures".toList = .arr sigs ∧
      sigs.mapM SigEntry.read = some e.signatures) ∧
    TetBlock.read (structField envelopeNames v "tet".toList) = some e.tet := by
  simp only [Envelope.read, Option.bind_eq_bind, Option.bind_eq_some_iff, asStr_some, asArray_some,
    Option.pure_def, Option.some.injEq]
  constructor
  · rintro ⟨ty, hty, payload, hpayload, sigs, hsigs, entries, hentries, tet, htet, rfl⟩
    exact ⟨hty, hpayload, ⟨sigs, hsigs, hentries⟩, htet⟩
  · rintro ⟨hty, hpayload, ⟨sigs, hsigs, hentries⟩, htet⟩
    exact ⟨_, hty, _, hpayload, sigs, hsigs, _, hentries, _, htet, rfl⟩

theorem isAsciiHexdigit_of_lower {c : Char}
    (h : (isAsciiHexdigit c && !(65 ≤ c.toNat && c.toNat ≤ 90)) = true) :
    isAsciiHexdigit c = true ∧ asciiLower c = c := by
  simp only [Bool.and_eq_true, Bool.not_eq_true', Bool.and_eq_false_iff, decide_eq_false_iff_not]
    at h
  refine ⟨h.1, if_neg ?_⟩
  rintro ⟨hlo, hhi⟩
  rcases h.2 with h | h
  · exact h hlo
  · exact h hhi

/-- A key in lowercase hex has no blanks and no capitals. -/
theorem trimLower_of_is64hexLower {s : Str} (h : SignedRecord.is64hexLower s = true) :
    trim s = s ∧ toAsciiLowercase s = s := by
  simp only [SignedRecord.is64hexLower, Bool.and_eq_true, List.all_eq_true] at h
  constructor
  · refine trim_of_forall ?_
    intro c hc
    have hdigit := isAsciiHexdigit_of_lower (Bool.and_eq_true_iff.mpr (h.2 c hc))
    exact isWhitespace_of_isAsciiHexdigit hdigit.1
  · unfold toAsciiLowercase
    rw [List.map_congr_left fun c hc =>
      (isAsciiHexdigit_of_lower (Bool.and_eq_true_iff.mpr (h.2 c hc))).2, List.map_id']

/-- Such a key is 32 bytes. -/
theorem exists_hexDecode_of_is64hexLower {s : Str} (h : SignedRecord.is64hexLower s = true) :
    ∃ pk, hexDecode s = some pk ∧ pk.length = 32 := by
  simp only [SignedRecord.is64hexLower, Bool.and_eq_true, List.all_eq_true, beq_iff_eq] at h
  have hdigits : ∀ c ∈ s, isAsciiHexdigit c = true := fun c hc => (h.2 c hc).1
  refine exists_hexDecode ?_ hdigits
  rw [← byteLen_of_ascii, h.1]
  intro c hc
  have hc := hdigits c hc
  unfold isAsciiHexdigit at hc
  simp only [Bool.or_eq_true, Bool.and_eq_true, decide_eq_true_eq] at hc
  omega

section Spec

variable {A : Auth} {W : World} {S : SigPrimitives} {parse : Bytes → Option JsValue}

theorem verifyAgentHybridSig_ok {signer : Str} {sig : HybridSigV1} {msg : Bytes} :
    verifyAgentHybridSig S signer sig msg = .ok () ↔
      S.verifyEd25519 signer sig.ed25519SigB64 msg = .ok () ∧
      S.verifyMldsa44B64 sig.mldsaPubkeyB64 sig.mldsaSigB64 msg = .ok () := by
  unfold verifyAgentHybridSig
  cases S.verifyEd25519 signer sig.ed25519SigB64 msg with
  | error e => simp
  | ok u => cases S.verifyMldsa44B64 sig.mldsaPubkeyB64 sig.mldsaSigB64 msg <;> simp

/-- The check of a payload's signatures, by the signer of the signature. -/
theorem verifyAgentPayload_ok {signer edSig mlPub mlSig payloadType : Str} {payload : Bytes}
    (h : SignedRecord.is64hexLower signer = true) :
    verifyAgentPayload A S signer ⟨signer, edSig, mlPub, mlSig⟩ payloadType payload = .ok () ↔
      S.verifyEd25519 signer edSig (agentPayloadAuthMessageBytes A payloadType payload) = .ok () ∧
      S.verifyMldsa44B64 mlPub mlSig (agentPayloadAuthMessageBytes A payloadType payload) =
        .ok () := by
  obtain ⟨htrim, hlower⟩ := trimLower_of_is64hexLower h
  have hsigner : trimLower signer = signer := by
    unfold trimLower
    rw [htrim, hlower]
  unfold verifyAgentPayload
  simp only
  rw [hsigner, htrim, h, if_neg (by decide), if_neg (not_not.mpr rfl), verifyAgentHybridSig_ok]

/-- `verify_envelope` passes exactly for what the two keys signed. -/
theorem Envelope.verify_ok {e : Envelope} {out : Str × Bytes × Str × Str} :
    e.verify A W S = .ok out ↔ ∃ r, e.Says r ∧ r.Signed W S A.chainId A.genesisHash ∧
      out = (r.payloadType, r.payload, r.signer, trim e.tet.agentMldsa44PubkeyB64) := by
  have hmessage : ∀ r : SignedRecord, r.payloadType = trim e.payloadType →
      agentPayloadAuthMessageBytes A (trim e.payloadType) r.payload =
        r.message A.chainId A.genesisHash := by
    intro r hr
    unfold agentPayloadAuthMessageBytes SignedRecord.message
    rw [trim_trim, hr]
  constructor
  · intro h
    unfold Envelope.verify at h
    simp only at h
    split at h
    · cases h
    rename_i hversion
    rw [not_or, not_not, not_not] at hversion
    split at h
    · cases h
    rename_i payload hpayload
    split at h
    · cases h
    rename_i hsigner
    rw [Bool.not_eq_false] at hsigner
    split at h
    · cases h
    rename_i key hkey
    split at h
    · rename_i ed ml htwo hed hml
      split at h
      · cases h
      rename_i hkeyids
      rw [not_or, not_not, not_not] at hkeyids
      split at h
      · cases h
      rename_i u hverified
      obtain ⟨hed25519, hmldsa⟩ := (verifyAgentPayload_ok hsigner).mp hverified
      obtain ⟨pk, edSig, hpk, -, hedSig, hedSize, hedValid⟩ := SigPrimitives.verifyEd25519_ok.mp hed25519
      obtain ⟨key', mlSig, hkey', hkeySize, hmlSig, hmlSize, hmlValid⟩ :=
        SigPrimitives.verifyMldsa44B64_ok.mp hmldsa
      rw [trim_trim, hkey] at hkey'
      obtain rfl := Option.some.inj hkey'
      let r : SignedRecord := ⟨trim e.payloadType, payload, trim e.tet.agentEd25519PubkeyHex, key,
        ed.keyid, ml.keyid, edSig, mlSig⟩
      rw [hmessage r rfl] at hedValid hmlValid
      refine ⟨r, ⟨hversion.1, hversion.2, rfl, hpayload, rfl, hkey, htwo,
        ed, ml, hed, hml, rfl, rfl, hedSig, hmlSig⟩, ⟨hsigner, hkeyids.1, hkeyids.2, hedSize, hkeySize,
        hmlSize, ⟨pk, hpk, hedValid⟩, hmlValid⟩, (Except.ok.inj h).symm⟩
    · cases h
  · rintro ⟨r, hsaid, hsigned, rfl⟩
    obtain ⟨ed, ml, hed, hml, hedId, hmlId, hedSig, hmlSig⟩ := hsaid.entries
    obtain ⟨pk, hpk, hedValid⟩ := hsigned.ed25519
    have hsigner := hsigned.signer
    have hkeyids : ¬ (ed.keyid ≠ edPrefix ++ r.signer ∨ ml.keyid ≠ mlPrefix ++ W.sha256Hex r.mldsaKey) := by
      rw [← hedId, ← hmlId]
      exact fun h => h.elim (fun hne => hne hsigned.edKeyid) fun hne => hne hsigned.mlKeyid
    have hlen : pk.length = 32 := by
      obtain ⟨pk', hpk', hlen⟩ := exists_hexDecode_of_is64hexLower hsigner
      rw [hpk] at hpk'
      rwa [Option.some.inj hpk']
    have hverified : verifyAgentPayload A S r.signer
        ⟨r.signer, ed.sig, trim e.tet.agentMldsa44PubkeyB64, ml.sig⟩ (trim e.payloadType) r.payload =
          .ok () := by
      refine (verifyAgentPayload_ok hsigner).mpr ?_
      rw [hmessage r hsaid.payloadType]
      constructor
      · exact SigPrimitives.verifyEd25519_ok.mpr
          ⟨pk, r.ed25519Sig, hpk, hlen, hedSig, hsigned.edSize, hedValid⟩
      · refine SigPrimitives.verifyMldsa44B64_ok.mpr
          ⟨r.mldsaKey, r.mldsaSig, ?_, hsigned.keySize, hmlSig, hsigned.mlSize, hsigned.mldsa⟩
        rw [trim_trim]
        exact hsaid.mldsaKey
    unfold Envelope.verify
    simp only
    rw [if_neg (by rw [hsaid.version, hsaid.pae]; simp), hsaid.payload]
    simp only
    rw [← hsaid.signer, hsigner, if_neg (by decide), hsaid.mldsaKey]
    simp only
    rw [hsaid.two, hed, hml]
    simp only
    rw [if_neg hkeyids, hverified]
    simp only
    rw [hsaid.payloadType]

/-- An envelope of a size that is read is checked. -/
theorem verifyEnvelope_of_read {bytes : Bytes} {e : Envelope} (hsize : bytes.length ≤ recordMaxBytes)
    (hread : (parse bytes).bind Envelope.read = some e) :
    verifyEnvelope A W S parse bytes = e.verify A W S := by
  unfold verifyEnvelope
  rw [if_neg (Nat.not_lt.mpr hsize), hread]

theorem verifyRecord_of_envelope {bytes payload : Bytes} {signer ml : Str}
    (h : verifyEnvelope A W S parse bytes = .ok (hashPayloadType, payload, signer, ml))
    (hlen : payload.length = 32) :
    verifyRecord A W S parse bytes = .ok (hexEncode payload, signer) := by
  unfold verifyRecord
  rw [h]
  simp [hlen]

/-- A node takes a record exactly if it is small enough and, as the node reads it, a SHA-256 that its keys
signed. -/
theorem verifyRecord_isOk {bytes : Bytes} :
    (verifyRecord A W S parse bytes).isOk = true ↔ bytes.length ≤ recordMaxBytes ∧
      ∃ e r, (parse bytes).bind Envelope.read = some e ∧ e.Says r ∧ r.HashOnly ∧
        r.Signed W S A.chainId A.genesisHash := by
  unfold verifyRecord verifyEnvelope
  by_cases hsize : bytes.length > recordMaxBytes
  · rw [if_pos hsize]
    simp only [Except.isOk, Except.toBool, Bool.false_eq_true, false_iff]
    rintro ⟨hle, -⟩
    omega
  rw [if_neg hsize]
  cases hread : (parse bytes).bind Envelope.read with
  | none => simp [Except.isOk, Except.toBool]
  | some e =>
    have hle : bytes.length ≤ recordMaxBytes := by omega
    simp only [Option.some.injEq, hle, true_and]
    constructor
    · intro h
      cases hverify : e.verify A W S with
      | error x =>
        rw [hverify] at h
        cases h
      | ok out =>
        obtain ⟨r, hsaid, hsigned, rfl⟩ := Envelope.verify_ok.mp hverify
        rw [hverify] at h
        simp only at h
        split at h
        · cases h
        rename_i hhash
        rw [not_or, not_not, not_not] at hhash
        exact ⟨e, r, rfl, hsaid, ⟨hhash.1, hhash.2⟩, hsigned⟩
    · rintro ⟨e', r, rfl, hsaid, hhash, hsigned⟩
      rw [Envelope.verify_ok.mpr ⟨r, hsaid, hsigned, rfl⟩]
      simp only
      rw [if_neg fun h => h.elim (fun hne => hne hhash.type) fun hne => hne hhash.length]
      rfl

end Spec

end TetCore.Sigs
