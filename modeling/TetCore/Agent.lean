import TetCore.Sigs

/-!
# Agent manifests

`agent.rs`: an owner's statement that an agent key is theirs, the bytes the owner signs for it, and the
node's check of it.

The pre-image of a manifest is one `pae_fields` inside another: the fields of the manifest, then as the
payload the chain, the genesis and the type of the statement.

* `paeFields_injective`: no two lists of byte strings have one encoding.
* `preimages_unambiguous`: payload messages agree exactly if the trimmed types and the payloads do;
  manifest messages exactly if the manifests agree on everything that is signed (`SameStatement`) and
  the owner's keys up to trimming. The signatures of a manifest are not part of what is signed
  (`resigned_manifest`).
-/

namespace TetCore.Agent

open TetCore.Lib TetCore.Sigs

/-! ## Manifests -/

/-- `AGENT_MANIFEST_PAYLOAD_TYPE`. -/
def agentManifestPayloadType : Str := "tet agent manifest v1".toList

/-- `AGENT_MANIFEST_KIND`. -/
def agentManifestKind : Str := "tet_agent_manifest_v1".toList

/-- `AGENT_MLDSA44_PUBKEY_BYTES`. -/
def agentMldsa44PubkeyBytes : Nat := 1312

/-- `AGENT_MANIFEST_MAX_CAPABILITIES`. -/
def agentManifestMaxCapabilities : Nat := 32

/-- `AGENT_MANIFEST_MAX_CAPABILITY_LEN`. -/
def agentManifestMaxCapabilityLen : Nat := 64

/-- `AGENT_MANIFEST_MAX_AGENT_ID_LEN`. -/
def agentManifestMaxAgentIdLen : Nat := 128

/-- `AgentManifestV1`. -/
structure AgentManifestV1 where
  v : Nat
  kind : Str
  agentId : Str
  agentEd25519PubkeyHex : Str
  agentMldsa44PubkeyB64 : Str
  ownerWalletId : Str
  createdAtMs : Nat
  expiresAtMs : Nat
  declaredAutomated : Bool
  capabilities : List Str
  hybridSig : HybridSigV1
  deriving DecidableEq

/-- `pae_fields`. -/
def paeFields (fields : List Bytes) : Bytes :=
  fields.flatMap fun f => utf8 (Json.decimal f.length) ++ utf8 [' '] ++ f ++ utf8 [' ']

/-- The fields of a manifest's pre-image. -/
def manifestFields (m : AgentManifestV1) (ownerMldsaPubkeyB64 : Str) : List Bytes :=
  [utf8 (Json.decimal m.v), utf8 (trim m.kind), utf8 m.agentId,
    utf8 (trimLower m.agentEd25519PubkeyHex), utf8 (trim m.agentMldsa44PubkeyB64),
    utf8 (trimLower m.ownerWalletId), utf8 (Json.decimal m.createdAtMs),
    utf8 (Json.decimal m.expiresAtMs), utf8 (if m.declaredAutomated then ['1'] else ['0']),
    utf8 (Json.decimal m.capabilities.length), utf8 (trim ownerMldsaPubkeyB64)] ++
      m.capabilities.map utf8

/-- `agent_manifest_auth_message_bytes`. -/
def agentManifestAuthMessageBytes (A : Auth) (m : AgentManifestV1) (ownerMldsaPubkeyB64 : Str) :
    Bytes :=
  agentPayloadAuthMessageBytes A agentManifestPayloadType
    (paeFields (manifestFields m ownerMldsaPubkeyB64))

/-! ## The node's check -/

/-- `AgentError`, of a manifest. -/
inductive ManifestError where
  | unsupportedVersion (v : Nat)
  | kind (kind : Str)
  | agentId (got max : Nat)
  | tooManyCapabilities (got max : Nat)
  | capability (index got max : Nat)
  | invalidOwnerWalletId
  | agentKeyIsOwnerKey
  | agentKeyLevel (got expected : Nat)
  | ownerKeyLevel (got expected : Nat)
  | schedule (createdAtMs expiresAtMs : Nat)
  | expired (expiresAtMs nowMs : Nat)
  /-- An error it has in common with a payload. -/
  | payload (e : AgentError)
  deriving DecidableEq

/-- The loop over the capabilities, from the one at `index`. -/
def checkCapabilities : Nat → List Str → Except ManifestError Unit
  | _, [] => .ok ()
  | index, c :: cs =>
    if c.isEmpty = true ∨ byteLen c > agentManifestMaxCapabilityLen then
      .error (.capability index (byteLen c) agentManifestMaxCapabilityLen)
    else checkCapabilities (index + 1) cs

/-- The length of a decoded key, 0 for one that is no base64. -/
def decodedLen (pubkeyB64 : Str) : Nat := ((stdDecode (trim pubkeyB64)).map List.length).getD 0

/-- `verify_agent_manifest_v1`. -/
def verifyAgentManifestV1 (A : Auth) (S : SigPrimitives) (m : AgentManifestV1) (nowMs : Nat) :
    Except ManifestError Unit := do
  if m.v ≠ 1 then throw (.unsupportedVersion m.v)
  if trim m.kind ≠ agentManifestKind then throw (.kind m.kind)
  if byteLen m.agentId = 0 ∨ byteLen m.agentId > agentManifestMaxAgentIdLen then
    throw (.agentId (byteLen m.agentId) agentManifestMaxAgentIdLen)
  if m.capabilities.length > agentManifestMaxCapabilities then
    throw (.tooManyCapabilities m.capabilities.length agentManifestMaxCapabilities)
  checkCapabilities 0 m.capabilities
  let agentEd := trimLower m.agentEd25519PubkeyHex
  if SignedRecord.is64hexLower (trim agentEd) = false then throw (.payload .invalidAgentEd25519)
  let owner := trimLower m.ownerWalletId
  if SignedRecord.is64hexLower (trim owner) = false then throw .invalidOwnerWalletId
  if agentEd = owner then throw .agentKeyIsOwnerKey
  let agentPkLen := decodedLen m.agentMldsa44PubkeyB64
  if agentPkLen ≠ agentMldsa44PubkeyBytes then
    throw (.agentKeyLevel agentPkLen agentMldsa44PubkeyBytes)
  let ownerPkLen := decodedLen m.hybridSig.mldsaPubkeyB64
  if ownerPkLen ≠ agentMldsa44PubkeyBytes then
    throw (.ownerKeyLevel ownerPkLen agentMldsa44PubkeyBytes)
  if trimLower m.hybridSig.ed25519PubkeyHex ≠ owner then throw (.payload .signerMismatch)
  let msg := agentManifestAuthMessageBytes A m m.hybridSig.mldsaPubkeyB64
  (verifyAgentHybridSig S owner m.hybridSig msg).mapError .payload
  if m.expiresAtMs ≤ m.createdAtMs then throw (.schedule m.createdAtMs m.expiresAtMs)
  if nowMs > m.expiresAtMs then throw (.expired m.expiresAtMs nowMs)

/-! ## The pre-images -/

theorem pae_eq (domain : Str) (fields : List Bytes) :
    Payouts.pae domain fields = utf8 domain ++ utf8 [' '] ++ paeFields fields := rfl

theorem paeFields_cons_ne_nil (f : Bytes) (fs : List Bytes) : paeFields (f :: fs) ≠ [] := by
  intro h
  simp only [paeFields, List.flatMap_cons, List.append_eq_nil_iff] at h
  exact absurd h.1.2 (by decide)

theorem paeFields_injective : Function.Injective paeFields := by
  intro fs
  induction fs with
  | nil =>
    intro gs h
    cases gs with
    | nil => rfl
    | cons g gs => exact absurd h.symm (paeFields_cons_ne_nil g gs)
  | cons f fs ih =>
    intro gs h
    cases gs with
    | nil => exact absurd h (paeFields_cons_ne_nil f fs)
    | cons g gs =>
      simp only [paeFields, List.flatMap_cons] at h
      obtain ⟨rfl, hrest⟩ := paeField_cut h
      rw [ih hrest]

theorem agentPayloadAuthMessageBytes_inj {A : Auth} {t t' : Str} {payload payload' : Bytes} :
    agentPayloadAuthMessageBytes A t payload = agentPayloadAuthMessageBytes A t' payload' ↔
      trim t = trim t' ∧ payload = payload' := by
  unfold agentPayloadAuthMessageBytes
  rw [pae_eq, pae_eq, List.append_cancel_left_eq, paeFields_injective.eq_iff]
  simp only [List.cons.injEq, and_true, true_and]
  exact and_congr_left' ⟨fun h => utf8_injective h, congrArg utf8⟩

/-- Two manifests that say the same: the numbers, the id, the mark and the capabilities are equal, the
other texts are up to trimming, and the hex ids up to case. -/
structure SameStatement (m m' : AgentManifestV1) : Prop where
  v : m.v = m'.v
  kind : trim m.kind = trim m'.kind
  agentId : m.agentId = m'.agentId
  agentEd25519 : trimLower m.agentEd25519PubkeyHex = trimLower m'.agentEd25519PubkeyHex
  agentMldsa44 : trim m.agentMldsa44PubkeyB64 = trim m'.agentMldsa44PubkeyB64
  owner : trimLower m.ownerWalletId = trimLower m'.ownerWalletId
  createdAtMs : m.createdAtMs = m'.createdAtMs
  expiresAtMs : m.expiresAtMs = m'.expiresAtMs
  declaredAutomated : m.declaredAutomated = m'.declaredAutomated
  capabilities : m.capabilities = m'.capabilities

theorem utf8_map_injective {s t : List Str} (h : s.map utf8 = t.map utf8) : s = t :=
  List.map_injective_iff.mpr (fun _ _ => utf8_injective) h

theorem decimal_utf8_injective {n k : Nat} (h : utf8 (Json.decimal n) = utf8 (Json.decimal k)) :
    n = k :=
  Json.decimal_injective (utf8_injective h)

theorem mark_injective {a b : Bool}
    (h : utf8 (if a then ['1'] else ['0']) = utf8 (if b then ['1'] else ['0'])) : a = b := by
  revert a b
  decide

theorem manifestFields_eq_iff {m m' : AgentManifestV1} {key key' : Str} :
    manifestFields m key = manifestFields m' key' ↔ SameStatement m m' ∧ trim key = trim key' := by
  constructor
  · intro h
    simp only [manifestFields, List.cons_append, List.nil_append, List.cons.injEq] at h
    obtain ⟨hv, hkind, hid, hagent, hmldsa, howner, hcreated, hexpires, hmark, -, hkey, hcaps⟩ := h
    exact ⟨⟨decimal_utf8_injective hv, utf8_injective hkind, utf8_injective hid,
      utf8_injective hagent, utf8_injective hmldsa, utf8_injective howner,
      decimal_utf8_injective hcreated, decimal_utf8_injective hexpires, mark_injective hmark,
      utf8_map_injective hcaps⟩, utf8_injective hkey⟩
  · rintro ⟨h, hkey⟩
    simp only [manifestFields, h.v, h.kind, h.agentId, h.agentEd25519, h.agentMldsa44, h.owner,
      h.createdAtMs, h.expiresAtMs, h.declaredAutomated, h.capabilities, hkey]

/-- **Pre-images are unambiguous.** The encoding of a list gives back the list; a payload's message
gives back its trimmed type and the payload; a manifest's message gives back everything the manifest
states, the order and number of its capabilities included, and the owner's key up to trimming. -/
theorem preimages_unambiguous (A : Auth) :
    Function.Injective paeFields ∧
    (∀ (t t' : Str) (payload payload' : Bytes),
      agentPayloadAuthMessageBytes A t payload = agentPayloadAuthMessageBytes A t' payload' ↔
        trim t = trim t' ∧ payload = payload') ∧
    ∀ (m m' : AgentManifestV1) (key key' : Str),
      agentManifestAuthMessageBytes A m key = agentManifestAuthMessageBytes A m' key' ↔
        SameStatement m m' ∧ trim key = trim key' := by
  refine ⟨paeFields_injective, fun t t' payload payload' => agentPayloadAuthMessageBytes_inj,
    fun m m' key key' => ?_⟩
  unfold agentManifestAuthMessageBytes
  rw [agentPayloadAuthMessageBytes_inj, paeFields_injective.eq_iff, manifestFields_eq_iff,
    and_iff_right rfl]

end TetCore.Agent

namespace TetCore.Sample

open TetCore.Lib TetCore.Agent

/-- A manifest with some signatures. -/
def manifest (sig : HybridSigV1) : AgentManifestV1 where
  v := 1
  kind := agentManifestKind
  agentId := "agent".toList
  agentEd25519PubkeyHex := List.replicate 64 'a'
  agentMldsa44PubkeyB64 := b64Encode (List.replicate 1312 7)
  ownerWalletId := List.replicate 64 'b'
  createdAtMs := 1000
  expiresAtMs := 2000
  declaredAutomated := true
  capabilities := ["post".toList]
  hybridSig := sig

end TetCore.Sample

namespace TetCore.Agent

open TetCore.Lib

/-- What is signed does not contain the signatures: two manifests with other keys and signatures have
one pre-image. -/
theorem resigned_manifest :
    ¬ ∀ (A : Auth) (m m' : AgentManifestV1) (key key' : Str),
      agentManifestAuthMessageBytes A m key = agentManifestAuthMessageBytes A m' key' →
        (SameStatement m m' ∧ trim key = trim key') ∧
          trimLower m.hybridSig.ed25519PubkeyHex = trimLower m'.hybridSig.ed25519PubkeyHex ∧
          trim m.hybridSig.ed25519SigB64 = trim m'.hybridSig.ed25519SigB64 ∧
          trim m.hybridSig.mldsaPubkeyB64 = trim m'.hybridSig.mldsaPubkeyB64 ∧
          trim m.hybridSig.mldsaSigB64 = trim m'.hybridSig.mldsaSigB64 := by
  intro h
  have hsig := (h Sample.auth (Sample.manifest ⟨[], [], [], ['A']⟩)
    (Sample.manifest ⟨[], [], [], ['B']⟩) [] [] rfl).2.2.2.2
  exact absurd hsig (by decide)

end TetCore.Agent
