import TetCore.Lib.Text

/-!
# Transactions and signed envelopes

Model of `protocol.rs` and of the field checks of `workers/mod.rs`: the nine transaction kinds, the
envelope that carries one, and `signer_acts_for_itself`, which binds the signing key to the wallet
a transaction acts for. An `f64` is its bit pattern: the node only tests it and copies it.
-/

namespace TetCore

open TetCore.Lib

/-- An `f64`, by its IEEE 754 bits. -/
structure F64 where
  bits : UInt64
  deriving DecidableEq

namespace F64

/-- The biased exponent. -/
def exponent (x : F64) : Nat := x.bits.toNat / 2 ^ 52 % 2 ^ 11

/-- The bits below the sign. -/
def magnitude (x : F64) : Nat := x.bits.toNat % 2 ^ 63

/-- `f64::is_finite`. -/
def isFinite (x : F64) : Bool := x.exponent != 2047

/-- `f64::is_nan`. -/
def isNan (x : F64) : Bool := x.exponent == 2047 && x.bits.toNat % 2 ^ 52 != 0

/-- `x < 0.0`. -/
def ltZero (x : F64) : Bool := 2 ^ 63 ≤ x.bits.toNat && x.magnitude != 0 && !x.isNan

/-- `x.max(0.0)`. -/
def maxZero (x : F64) : F64 := if x.isNan || x.ltZero then ⟨0⟩ else x

end F64

/-- `WorkloadFlag`. -/
inductive WorkloadFlag where
  | standard
  | aiInference
  deriving DecidableEq

def WorkloadFlag.asU8 : WorkloadFlag → Nat
  | .standard => 0
  | .aiInference => 1

/-- `TxV1`, a transaction body. -/
inductive TxV1 where
  | signerLink (walletId : Str)
  | foundingMemberEnroll (memberWallet : Str)
  | transfer (fromWallet toWallet : Str) (amountMicro feeBps : Nat)
  | genesisBridge (founderWallet toWallet : Str) (amountMicro : Nat)
  | initialAirdrop (walletId : Str)
  | fileFee (fromWallet storageWallet fileId : Str) (feeMicro : Nat)
  | workerRegister (walletId hardwareIdHex hardwareProfile : Str) (capabilities : List Str)
      (tflopsDeclared : F64)
  | enterpriseInference (enterpriseWalletId prompt model : Str) (amountMicro nonce : Nat)
      (promptSha256Hex : Str) (workloadFlag : Nat) (attestationRequired : Bool)
  | verifyZkProof (taskId : Str) (imageId : List Nat) (journalB64 receiptB64 : Str)
  deriving DecidableEq

namespace TxV1

/-- The wallet this transaction acts for; `none` when the actor is the signer. -/
def actingWallet : TxV1 → Option Str
  | signerLink w => some w
  | foundingMemberEnroll w => some w
  | transfer f _ _ _ => some f
  | genesisBridge f _ _ => some f
  | initialAirdrop w => some w
  | fileFee f _ _ _ => some f
  | workerRegister w _ _ _ _ => some w
  | enterpriseInference w _ _ _ _ _ _ _ => some w
  | verifyZkProof _ _ _ _ => none

def workloadFlag : TxV1 → WorkloadFlag
  | enterpriseInference _ _ _ _ _ _ flag _ =>
    if flag = WorkloadFlag.aiInference.asU8 then .aiInference else .standard
  | _ => .standard

def isAiWorkload (tx : TxV1) : Bool := tx.workloadFlag == .aiInference

/-- `Ledger::tx_kind`. -/
def kind : TxV1 → String
  | signerLink _ => "signer_link"
  | foundingMemberEnroll _ => "founding_member_enroll"
  | transfer _ _ _ _ => "transfer"
  | initialAirdrop _ => "initial_airdrop"
  | genesisBridge _ _ _ => "genesis_bridge"
  | enterpriseInference _ _ _ _ _ _ _ _ => "enterprise_inference"
  | verifyZkProof _ _ _ _ => "verify_zk_proof"
  | fileFee _ _ _ _ => "file_fee"
  | workerRegister _ _ _ _ _ => "worker_register"

end TxV1

/-- `HybridSigV1`: an Ed25519 and an ML-DSA signature. -/
structure HybridSigV1 where
  ed25519PubkeyHex : Str
  ed25519SigB64 : Str
  mldsaPubkeyB64 : Str
  mldsaSigB64 : Str
  deriving DecidableEq

/-- `AttestationV1`. -/
structure AttestationV1 where
  platform : Str
  reportB64 : Str
  deriving DecidableEq

/-- `SignedTxEnvelopeV1`. -/
structure SignedTxEnvelopeV1 where
  v : Nat
  tx : TxV1
  sig : HybridSigV1
  attestation : AttestationV1
  deriving DecidableEq

/-- Is `env` signed by the wallet its transaction acts for? -/
def signerActsForItself (env : SignedTxEnvelopeV1) : Bool :=
  match env.tx.actingWallet with
  | some w => eqIgnoreAsciiCase (trim w) (trim env.sig.ed25519PubkeyHex)
  | none => true

/-! ## Worker registration fields -/

def maxWorkerCapabilities : Nat := 16
def maxCapabilityLen : Nat := 64
def maxHardwareProfileLen : Nat := 128
def maxHardwareIdLen : Nat := 128

/-- `WorkerRegistryRecordV1`, the row a `WorkerRegister` transaction writes. -/
structure WorkerRegistryRecordV1 where
  v : Nat
  walletId : Str
  hardwareIdHex : Str
  hardwareProfile : Str
  capabilities : List Str
  tflopsDeclared : F64
  registeredAtHeight : Nat
  registeredAtMs : Nat
  status : String
  totalRewardsMicro : Nat
  deriving DecidableEq

/-- `WorkerRegistryRecordV1::new`. -/
def WorkerRegistryRecordV1.new (walletId hardwareIdHex hardwareProfile : Str)
    (capabilities : List Str) (tflopsDeclared : F64) (registeredAtHeight registeredAtMs : Nat) :
    WorkerRegistryRecordV1 where
  v := 1
  walletId := walletId
  hardwareIdHex := hardwareIdHex
  hardwareProfile := hardwareProfile
  capabilities := capabilities
  tflopsDeclared := tflopsDeclared.maxZero
  registeredAtHeight := registeredAtHeight
  registeredAtMs := registeredAtMs
  status := "registered"
  totalRewardsMicro := 0

/-- A trimmed text field is present and at most `max` bytes long. -/
def textFieldOk (s : Str) (max : Nat) : Bool := !(trim s).isEmpty && byteLen (trim s) ≤ max

/-- `workers::validate_worker_register_fields`. -/
def validateWorkerRegisterFields (walletId hardwareIdHex hardwareProfile : Str)
    (capabilities : List Str) (tflopsDeclared : F64) : Except String Unit :=
  if !isHex64 (trimLower walletId) then .error "wallet_id must be 64 hex chars"
  else if !textFieldOk hardwareIdHex maxHardwareIdLen then
    .error "hardware_id_hex required (max 128 chars)"
  else if !textFieldOk hardwareProfile maxHardwareProfileLen then
    .error "hardware_profile required (max 128 chars)"
  else if maxWorkerCapabilities < capabilities.length then .error "capabilities max 16 entries"
  else if !capabilities.all (textFieldOk · maxCapabilityLen) then
    .error "each capability must be 1..64 chars"
  else if !tflopsDeclared.isFinite || tflopsDeclared.ltZero then
    .error "tflops_declared must be a finite non-negative number"
  else .ok ()

end TetCore
