import TetCore.Ledger.State

/-!
# A world to evaluate the model in

`World.sample` stands in for the cryptography with functions that behave the same way on the inputs
below and evaluate quickly: a polynomial digest of 32 bytes for SHA-256, and an envelope check that
accepts an envelope of version 1 whose signer acts for itself and returns the bytes of its
transaction. One validator, no block reward. The wallets are 64 hex digits, as the node requires.
-/

namespace TetCore

open TetCore.Lib

namespace Sample

/-- A 32-byte digest: a polynomial hash modulo the prime `2^61 - 1`, padded on the left. -/
def digest (b : Bytes) : Bytes :=
  List.replicate 24 0 ++
    beBytes 8 (b.foldl (fun acc x => (acc * 16777619 + x.toNat + 1) % (2 ^ 61 - 1)) 7)

/-- The signed bytes of a transaction. -/
def txBytes : TxV1 → Bytes
  | .transfer f t amount bps =>
    utf8 "transfer:".toList ++ utf8 f ++ utf8 t ++ leBytes 8 amount ++ leBytes 8 bps
  | .initialAirdrop w => utf8 "airdrop:".toList ++ utf8 w
  | .fileFee f s fid fee =>
    utf8 "file:".toList ++ utf8 f ++ utf8 s ++ utf8 fid ++ leBytes 8 fee
  | tx => utf8 tx.kind.toList ++ utf8 (tx.actingWallet.getD [])

/-- An envelope of version 1 whose signer acts for itself. -/
def verify (env : SignedTxEnvelopeV1) : Except String Bytes :=
  if env.v ≠ 1 then .error "unsupported envelope version"
  else if signerActsForItself env then .ok (txBytes env.tx)
  else .error "signer must be the wallet the transaction acts for"

/-- A wallet of 64 equal hex digits. -/
def wallet (c : Char) : Str := List.replicate 64 c

def alice : Str := wallet 'a'
def bob : Str := wallet 'b'
def carol : Str := wallet 'c'
/-- The treasury of `TET_TREASURY_ADDRESS`. -/
def treasury : Str := wallet 'd'
/-- The local node and only validator. -/
def node : Str := wallet 'e'

/-- A transaction signed by the wallet it acts for. -/
def signed (tx : TxV1) : SignedTxEnvelopeV1 :=
  ⟨1, tx, ⟨tx.actingWallet.getD [], [], [], []⟩, ⟨[], []⟩⟩

end Sample

/-- The sample world, with the given base block reward. -/
def World.sample (baseReward : Nat) : World where
  sha256 := Sample.digest
  verifyEnvelopeV1 := Sample.verify
  verifyTxReceiptAndJournal _ _ _ := .error "Failed to deserialize receipt"
  nexusGuestId := [1, 2, 3, 4, 5, 6, 7, 8]
  thermodynamicReward flops := flops
  treasuryAddressVar := some Sample.treasury
  aiBurnWalletVar := none
  baseBlockRewardMicro := baseReward
  localNodeId := Sample.node
  validatorIdsVar := none
  leaderMode := .hash
  pruneDepth := 2048
  pruneEveryBlocks := 16
  zkcourtChallengerBondMicro := 10 * stevemon
  attestationRequired := false
  presaleLockMs := 0
  founderCliffMs := 365 * 86400000
  workerVestMs := 90 * 86400000
  mainnet := false
  genesisFounderWalletIdVar := none

namespace Sample

/-- A ledger where the worker pool, `alice` and nobody else hold a balance. -/
def ledger : Ledger :=
  { Ledger.empty with
    balances := (Tree.empty.insert walletWorkerPool (1000 * stevemon)).insert alice (50 * stevemon)
    metaTree := Tree.empty.insert .totalSupply (.u64 (1050 * stevemon)) }

/-- `alice` sends `bob` 10 TET at the lowest fee. -/
def transfer : SignedTxEnvelopeV1 := signed (.transfer alice bob (10 * stevemon) 100)

/-- The canonical record of a block of `node`. -/
def record (height : Nat) (id : Str) (hashes : List Str) (txs : List SignedTxEnvelopeV1)
    (root : Str) (reward : Nat) : BlockRecordV1 :=
  ⟨1, height, id, none, node, hashes, txs, root, ⟨reward, 0, reward⟩, 10, 10, true, 0⟩

end Sample

end TetCore
