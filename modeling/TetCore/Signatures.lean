import TetCore.Auth
import TetCore.Lib.Base64

/-!
# Signature checks on encoded texts

`quantum_shield::verify_ed25519` and `wallet::verify_mldsa_b64` from the two signature schemes on bytes:
how keys and signatures are decoded, their sizes, and the level of ML-DSA that a key's size says.

`verifyEd25519_ok`, `verifyMldsaB64_ok` take a check that passed apart.
-/

namespace TetCore

open TetCore.Lib

/-- `DilithiumMode`. -/
inductive MldsaLevel where
  | mldsa44
  | mldsa65
  | mldsa87
  deriving DecidableEq

namespace MldsaLevel

/-- `public_key_bytes`. -/
def publicKeyBytes : MldsaLevel → Nat
  | .mldsa44 => 1312
  | .mldsa65 => 1952
  | .mldsa87 => 2592

/-- `signature_bytes`. -/
def signatureBytes : MldsaLevel → Nat
  | .mldsa44 => 2420
  | .mldsa65 => 3309
  | .mldsa87 => 4627

/-- `infer_mldsa_mode_from_raw_pubkey`. -/
def ofPubkey (pk : Bytes) : Option MldsaLevel :=
  if pk.length = publicKeyBytes .mldsa44 then some .mldsa44
  else if pk.length = publicKeyBytes .mldsa65 then some .mldsa65
  else if pk.length = publicKeyBytes .mldsa87 then some .mldsa87
  else none

theorem ofPubkey_44 {pk : Bytes} (h : pk.length = 1312) : ofPubkey pk = some .mldsa44 := if_pos h

end MldsaLevel

/-- The signature schemes on bytes: key, signature and message. -/
structure SigPrimitives where
  /-- Ed25519, on a key of 32 and a signature of 64 bytes; a key that is no point verifies nothing. -/
  ed25519 : Bytes → Bytes → Bytes → Bool
  mldsa : MldsaLevel → Bytes → Bytes → Bytes → Bool

namespace SigPrimitives

variable (S : SigPrimitives)

/-- `verify_ed25519`. -/
def verifyEd25519 (pubkeyHex sigB64 : Str) (msg : Bytes) : Except String Unit :=
  match hexDecode pubkeyHex with
  | none => .error "invalid encoding"
  | some pk =>
    if pk.length ≠ 32 then .error "invalid encoding"
    else
      match stdDecode sigB64 with
      | none => .error "invalid encoding"
      | some sig =>
        if sig.length ≠ 64 then .error "invalid encoding"
        else if S.ed25519 pk sig msg then .ok () else .error "ed25519 verification failed"

/-- `verify_mldsa_b64`. The texts of its errors are dropped by its callers. -/
def verifyMldsaB64 (pubkeyB64 sigB64 : Str) (msg : Bytes) : Except String Unit :=
  match stdDecode (trim pubkeyB64) with
  | none => .error "pqc verification failed (ml-dsa)"
  | some pk =>
    match MldsaLevel.ofPubkey pk with
    | none => .error "pqc verification failed (ml-dsa)"
    | some mode =>
      match stdDecode (trim sigB64) with
      | none => .error "pqc verification failed (ml-dsa)"
      | some sig =>
        if sig.length ≠ mode.signatureBytes then .error "pqc verification failed (ml-dsa)"
        else if S.mldsa mode pk sig msg then .ok ()
        else .error "pqc verification failed (ml-dsa)"

variable {S} {key sig : Str} {msg : Bytes}

theorem verifyEd25519_ok :
    S.verifyEd25519 key sig msg = .ok () ↔ ∃ pk s, hexDecode key = some pk ∧ pk.length = 32 ∧
      stdDecode sig = some s ∧ s.length = 64 ∧ S.ed25519 pk s msg = true := by
  unfold verifyEd25519
  cases hkey : hexDecode key with
  | none => simp
  | some pk =>
    cases hsig : stdDecode sig with
    | none => simp
    | some s =>
      by_cases hpk : pk.length = 32
      · by_cases hs : s.length = 64
        · cases hv : S.ed25519 pk s msg <;> simp [hpk, hs, hv]
        · simp [hpk, hs]
      · simp [hpk]

theorem verifyMldsaB64_ok :
    S.verifyMldsaB64 key sig msg = .ok () ↔ ∃ pk mode s, stdDecode (trim key) = some pk ∧
      MldsaLevel.ofPubkey pk = some mode ∧ stdDecode (trim sig) = some s ∧
      s.length = mode.signatureBytes ∧ S.mldsa mode pk s msg = true := by
  unfold verifyMldsaB64
  cases hkey : stdDecode (trim key) with
  | none => simp
  | some pk =>
    cases hmode : MldsaLevel.ofPubkey pk with
    | none => simp [hmode]
    | some mode =>
      cases hsig : stdDecode (trim sig) with
      | none => simp [hmode]
      | some s =>
        by_cases hs : s.length = mode.signatureBytes
        · cases hv : S.mldsa mode pk s msg <;> simp [hmode, hs, hv]
        · simp [hmode, hs]

end SigPrimitives

/-- The checks of a node with these signature schemes. -/
def Auth.withPrimitives (A : Auth) (S : SigPrimitives) : Auth :=
  { A with verifyEd25519 := S.verifyEd25519, verifyMldsaB64 := S.verifyMldsaB64 }

theorem Auth.withPrimitives_mldsa (A : Auth) (S : SigPrimitives) (key sig : Str) (msg : Bytes) :
    (A.withPrimitives S).verifyMldsaB64 key sig msg = S.verifyMldsaB64 key sig msg := rfl

end TetCore
