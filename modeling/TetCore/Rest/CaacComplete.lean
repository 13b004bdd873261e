import TetCore.AuthMessages
import TetCore.Lib.Along
import TetCore.Tmail.Members

/-!
# Role declarations

Model of `post_vision_caac_complete` (`rest/handlers/vision.rs`) with the digest of `vision/caac.rs`:
a wallet declares how long a challenge took it, and gets a CAAC record in the ledger, which weighs it
in the election of a leader, and a role in the registry of workers.

The signed bytes are over the wallet, the seed, the latency and the ML-DSA key; the nonce and the
digest are not in them. The time the node itself takes for the challenge (`serverWallMs`) is an input.
Left out: failures of the database, the minimum in the last refusal, and the fields of a registry
entry that are not the role.

A run (`CaacTrace.step`) has the signatures of the holders, posts by anybody, and anything else the
node does. `Stale`: a post whose signed bytes are older than some that were accepted for its wallet.

* `post_cases`: what a post does.
* `Admitted.replay`: a completion that passed passes again, under another nonce, while the bond
  stands.
* `Lawful`: a stale post leaves the wallet's record and role. `Tidy`: one that passes repeats them.
* `declarations_lawful_iff`: along a run every event is lawful exactly if every event is tidy.
* `replay_unlawful`: the first of two completions of different latencies takes the record back,
  whoever sends it; `declaration_replayed` is a run of it.
-/

namespace TetCore.Rest

open TetCore.Lib

/-! ## The challenge -/

/-- `NodeRelayRole`. -/
inductive NodeRelayRole where
  | poc
  | por
  deriving DecidableEq

/-- `role_to_tag`. -/
def roleToTag : NodeRelayRole → Str
  | .poc => "POC".toList
  | .por => "POR".toList

/-- `challenge_rounds_from_seed`. -/
def challengeRoundsFromSeed (seed : Bytes) : Nat :=
  10000 + ofBeBytes (seed.take 8).reverse % 50000

/-- What the handler takes from outside. -/
structure CaacEnv where
  world : World
  auth : Auth
  /-- `verify_ed25519_hex_message` on key, message and signature. -/
  verifyEd25519HexMessage : Str → Bytes → Str → Except String Unit
  /-- The text of the error of `hex::decode`. -/
  fromHexError : Str → String
  /-- `TET_CAAC_POC_MAX_LATENCY_MS`, where it is a number. -/
  pocMaxLatencyMsVar : Option Nat

namespace CaacEnv

variable (E : CaacEnv)

/-- `compute_challenge_digest`. -/
def computeChallengeDigest (seedHex : Str) : Except String Str :=
  match hexDecode (trim seedHex) with
  | none => .error (E.fromHexError (trim seedHex))
  | some raw =>
    if raw.length ≠ 32 then .error "seed must be 32 bytes (64 hex chars)"
    else .ok (hexEncode (Nat.iterate E.world.sha256 (challengeRoundsFromSeed raw) raw))

/-- `caac_poc_max_latency_ms`. -/
def caacPocMaxLatencyMs : Nat := max (E.pocMaxLatencyMsVar.getD 50) 1

/-- `role_from_latency_ms`. -/
def roleFromLatencyMs (latencyMs : Nat) : NodeRelayRole :=
  if latencyMs ≤ E.caacPocMaxLatencyMs then .poc else .por

end CaacEnv

/-! ## The node -/

/-- `caac_put_worker_record`. -/
def caacPutWorkerRecord (L : Ledger) (wallet : Str) (rec : CaacWorkerRecord) : Ledger :=
  { L with metaTree := L.metaTree.insert (.caacWallet (trimLower wallet)) (.caac rec) }

/-- `WorkerEntry`. -/
structure WorkerEntry where
  wallet : Str
  caacRole : Option Str
  deriving DecidableEq

/-- `WorkerRegistry::set_caac_role`. -/
def setCaacRole (byWallet : Tree Str WorkerEntry) (wallet role : Str) : Tree Str WorkerEntry :=
  let w := trim wallet
  if w.isEmpty then byWallet
  else match byWallet.get w with
    | some ent => byWallet.insert w { ent with caacRole := some role }
    | none => byWallet

/-- The ledger and the registry of workers. -/
structure CaacNode where
  ledger : Ledger
  byWallet : Tree Str WorkerEntry

/-- The role a wallet has in the registry. -/
def CaacNode.registryCaacRole (n : CaacNode) (w : Str) : Option Str :=
  (n.byWallet.get w).bind WorkerEntry.caacRole

/-- `CaacCompleteReq`. -/
structure CaacCompleteReq where
  wallet : Str
  seedHex : Str
  digestHex : Str
  clientLatencyMs : Nat
  nonce : Nat
  ed25519SigHex : Str
  mldsaPubkeyB64 : Str
  mldsaSigB64 : Str
  deriving DecidableEq

/-- The wallet a request is of. -/
def CaacCompleteReq.walletId (req : CaacCompleteReq) : Str := trimLower req.wallet

inductive CaacRefusal where
  | badWallet
  | fieldTooLong
  | nonceRequired
  | badEd25519Sig (e : String)
  | badMldsaSig (e : String)
  | badSeed (e : String)
  | digestMismatch
  | workerBondRequired
  deriving DecidableEq

namespace CaacRefusal

def status : CaacRefusal → Nat
  | .badEd25519Sig _ | .badMldsaSig _ => 401
  | .workerBondRequired => 403
  | _ => 400

def error : CaacRefusal → String
  | .badWallet => "BAD_WALLET"
  | .fieldTooLong => "FIELD_TOO_LONG"
  | .nonceRequired => "NONCE_REQUIRED"
  | .badEd25519Sig _ => "BAD_ED25519_SIG"
  | .badMldsaSig _ => "BAD_MLDSA_SIG"
  | .badSeed _ => "BAD_SEED"
  | .digestMismatch => "DIGEST_MISMATCH"
  | .workerBondRequired => "WORKER_BOND_REQUIRED"

def message : CaacRefusal → Option String
  | .badWallet => some "wallet must be 64 hex chars"
  | .nonceRequired => some "nonce must be > 0"
  | .badEd25519Sig e | .badMldsaSig e | .badSeed e => some e
  | .fieldTooLong | .digestMismatch | .workerBondRequired => none

end CaacRefusal

/-- What is answered to a completion that is accepted. -/
structure CaacAnswer where
  role : Str
  serverWallMs : Nat
  deriving DecidableEq

/-- `MAX_B64_FIELD`. -/
def maxB64Field : Nat := 32768

namespace CaacEnv

variable (E : CaacEnv)

/-- What both signatures of a request are over. -/
def authMsg (req : CaacCompleteReq) : Bytes :=
  caacCompleteHybridAuthMessageBytes E.auth req.walletId req.seedHex req.clientLatencyMs
    req.mldsaPubkeyB64

/-- The checks of the handler. -/
def checkComplete (L : Ledger) (req : CaacCompleteReq) : Except CaacRefusal Unit := do
  let w := req.walletId
  require (isHex64 w = true) .badWallet
  require (¬ (200 < byteLen req.ed25519SigHex ∨ maxB64Field < byteLen req.mldsaPubkeyB64 ∨
    maxB64Field < byteLen req.mldsaSigB64)) .fieldTooLong
  require (req.nonce ≠ 0) .nonceRequired
  (E.verifyEd25519HexMessage w (E.authMsg req) (trim req.ed25519SigHex)).mapError .badEd25519Sig
  (E.auth.verifyMldsaB64 req.mldsaPubkeyB64 req.mldsaSigB64 (E.authMsg req)).mapError .badMldsaSig
  let expected ← (E.computeChallengeDigest req.seedHex).mapError .badSeed
  require (eqIgnoreAsciiCase expected (trim req.digestHex) = true) .digestMismatch
  require (¬ L.workerBondMicro w < minWorkerStakeMicro) .workerBondRequired

/-- The record a request is to leave. -/
def workerRecord (req : CaacCompleteReq) (serverWallMs : Nat) : CaacWorkerRecord where
  role := roleToTag (E.roleFromLatencyMs req.clientLatencyMs)
  latencyMs := req.clientLatencyMs
  seedHex := trimLower req.seedHex
  serverWallMs := serverWallMs

/-- `post_vision_caac_complete`. -/
def postVisionCaacComplete (n : CaacNode) (req : CaacCompleteReq) (serverWallMs : Nat) :
    Except CaacRefusal CaacAnswer × CaacNode :=
  match E.checkComplete n.ledger req with
  | .error e => (.error e, n)
  | .ok () =>
    let rec' := E.workerRecord req serverWallMs
    (.ok ⟨rec'.role, serverWallMs⟩,
      { ledger := caacPutWorkerRecord n.ledger req.walletId rec'
        byWallet := setCaacRole n.byWallet req.walletId rec'.role })

end CaacEnv

/-! ## One post -/

/-- The checks of the handler, one by one. -/
structure Admitted (E : CaacEnv) (L : Ledger) (req : CaacCompleteReq) : Prop where
  wallet : isHex64 req.walletId = true
  edLen : byteLen req.ed25519SigHex ≤ 200
  keyLen : byteLen req.mldsaPubkeyB64 ≤ maxB64Field
  sigLen : byteLen req.mldsaSigB64 ≤ maxB64Field
  nonce : req.nonce ≠ 0
  edSig : E.verifyEd25519HexMessage req.walletId (E.authMsg req) (trim req.ed25519SigHex) = .ok ()
  mldsaSig : E.auth.verifyMldsaB64 req.mldsaPubkeyB64 req.mldsaSigB64 (E.authMsg req) = .ok ()
  digest : ∃ expected, E.computeChallengeDigest req.seedHex = .ok expected ∧
    eqIgnoreAsciiCase expected (trim req.digestHex) = true
  bond : minWorkerStakeMicro ≤ L.workerBondMicro req.walletId

section Post

variable {E : CaacEnv} {L : Ledger} {n : CaacNode} {req : CaacCompleteReq} {serverWallMs : Nat}

theorem checkComplete_ok_iff : E.checkComplete L req = .ok () ↔ Admitted E L req := by
  unfold CaacEnv.checkComplete
  simp only [bind_eq_ok, require_eq_ok, mapError_eq_ok, not_or, not_lt]
  constructor
  · rintro ⟨-, hwallet, -, ⟨hed, hkey, hsig⟩, -, hnonce, ⟨⟩, hedSig, ⟨⟩, hmldsa, d, hd, -,
      hdigest, hbond⟩
    exact ⟨hwallet, hed, hkey, hsig, hnonce, hedSig, hmldsa, ⟨d, hd, hdigest⟩, hbond⟩
  · intro h
    obtain ⟨d, hd, hdigest⟩ := h.digest
    exact ⟨(), h.wallet, (), ⟨h.edLen, h.keyLen, h.sigLen⟩, (), h.nonce, (), h.edSig, (), h.mldsaSig,
      d, hd, (), hdigest, h.bond⟩

/-- **A completion that passed passes again**, under any other nonce, while its wallet has the bond. -/
theorem Admitted.replay (h : Admitted E L req) {L' : Ledger} {nonce : Nat} (hnonce : nonce ≠ 0)
    (hbond : minWorkerStakeMicro ≤ L'.workerBondMicro req.walletId) :
    Admitted E L' { req with nonce := nonce } :=
  ⟨h.wallet, h.edLen, h.keyLen, h.sigLen, hnonce, h.edSig, h.mldsaSig, h.digest, hbond⟩

/-- **What a post does**: one that passes writes the record and the role, any other changes nothing. -/
theorem post_cases (E : CaacEnv) (n : CaacNode) (req : CaacCompleteReq) (serverWallMs : Nat) :
    (Admitted E n.ledger req ∧ E.postVisionCaacComplete n req serverWallMs =
      (.ok ⟨(E.workerRecord req serverWallMs).role, serverWallMs⟩,
        ⟨caacPutWorkerRecord n.ledger req.walletId (E.workerRecord req serverWallMs),
          setCaacRole n.byWallet req.walletId (E.workerRecord req serverWallMs).role⟩)) ∨
      (¬ Admitted E n.ledger req ∧
        ∃ e, E.postVisionCaacComplete n req serverWallMs = (.error e, n)) := by
  unfold CaacEnv.postVisionCaacComplete
  cases hcheck : E.checkComplete n.ledger req with
  | error e =>
    refine Or.inr ⟨fun h => ?_, e, rfl⟩
    rw [checkComplete_ok_iff.mpr h] at hcheck
    cases hcheck
  | ok u => exact Or.inl ⟨checkComplete_ok_iff.mp hcheck, rfl⟩

theorem post_of_admitted (h : Admitted E n.ledger req) (serverWallMs : Nat) :
    E.postVisionCaacComplete n req serverWallMs =
      (.ok ⟨(E.workerRecord req serverWallMs).role, serverWallMs⟩,
        ⟨caacPutWorkerRecord n.ledger req.walletId (E.workerRecord req serverWallMs),
          setCaacRole n.byWallet req.walletId (E.workerRecord req serverWallMs).role⟩) := by
  rcases post_cases E n req serverWallMs with ⟨-, heq⟩ | ⟨hnot, -⟩
  · exact heq
  · exact absurd h hnot

theorem caacGetWorkerRecord_put (L : Ledger) (wallet : Str) (rec : CaacWorkerRecord) :
    (caacPutWorkerRecord L wallet rec).caacGetWorkerRecord wallet = some rec := by
  unfold Ledger.caacGetWorkerRecord caacPutWorkerRecord
  rw [Tree.get_insert_self]

theorem workerBondMicro_put (L : Ledger) (wallet v : Str) (rec : CaacWorkerRecord) :
    (caacPutWorkerRecord L wallet rec).workerBondMicro v = L.workerBondMicro v := rfl

/-- An entry there is gets the role, and none is made. -/
theorem setCaacRole_get {byWallet : Tree Str WorkerEntry} {w : Str} (hw : isHex64 w = true)
    (role : Str) : (setCaacRole byWallet w role).get w =
      (byWallet.get w).map fun ent => { ent with caacRole := some role } := by
  have htrim : trim w = w := trim_of_isHex64 hw
  have hne : w.isEmpty = false := by
    cases w with
    | nil => exact absurd hw (by decide)
    | cons c cs => rfl
  unfold setCaacRole
  dsimp only
  rw [htrim, hne, if_neg (by decide)]
  cases hget : byWallet.get w with
  | none => exact hget
  | some ent =>
    dsimp only
    rw [Tree.get_insert_self]
    rfl

end Post

/-! ## Runs -/

/-- What happens: a holder signs a message, anybody posts a completion, or the node does anything else.
-/
inductive CaacEvent where
  | sign (wallet : Str) (message : Bytes)
  | post (req : CaacCompleteReq) (serverWallMs : Nat)
  | other (node : CaacNode)

/-- The node, when each message was last signed by each wallet (`0` if never), and the latest of the
completions accepted of each wallet. -/
structure CaacTrace where
  node : CaacNode
  time : Nat
  signedAt : Str → Bytes → Nat
  acceptedAt : Str → Nat

namespace CaacTrace

/-- Nothing is signed yet. -/
def start (node : CaacNode) : CaacTrace := ⟨node, 0, fun _ _ => 0, fun _ => 0⟩

variable (E : CaacEnv)

/-- One event. -/
def step (s : CaacTrace) : CaacEvent → CaacTrace
  | .sign wallet message =>
    { s with
      time := s.time + 1
      signedAt := fun w m => if w = wallet ∧ m = message then s.time + 1 else s.signedAt w m }
  | .post req serverWallMs =>
    let r := E.postVisionCaacComplete s.node req serverWallMs
    { s with
      node := r.2
      acceptedAt := match r.1 with
        | .ok _ => fun w =>
          if w = req.walletId then max (s.acceptedAt w) (s.signedAt w (E.authMsg req))
          else s.acceptedAt w
        | .error _ => s.acceptedAt }
  | .other node => { s with node := node }

/-- The request is built from a completion that its holder signed before one that was accepted. -/
def Stale (s : CaacTrace) (req : CaacCompleteReq) : Prop :=
  0 < s.signedAt req.walletId (E.authMsg req) ∧
    s.signedAt req.walletId (E.authMsg req) < s.acceptedAt req.walletId

/-- The wallet's record and its role are the same in both. -/
structure SameRole (w : Str) (n n' : CaacNode) : Prop where
  record : n'.ledger.caacGetWorkerRecord w = n.ledger.caacGetWorkerRecord w
  role : n'.registryCaacRole w = n.registryCaacRole w

/-- **What an event must do**: a stale post leaves its wallet's record and role. -/
def Lawful (s : CaacTrace) : CaacEvent → Prop
  | .post req serverWallMs =>
    Stale E s req → SameRole req.walletId s.node (s.step E (.post req serverWallMs)).node
  | _ => True

/-- The request says again what is stored: the same latency, seed and time, and the same role. -/
structure Repeats (n : CaacNode) (req : CaacCompleteReq) (serverWallMs : Nat) : Prop where
  record : n.ledger.caacGetWorkerRecord req.walletId = some (E.workerRecord req serverWallMs)
  role : ∀ ent, n.byWallet.get req.walletId = some ent →
    ent.caacRole = some (roleToTag (E.roleFromLatencyMs req.clientLatencyMs))

/-- A stale post that passes the checks says again what is stored. -/
def Tidy (s : CaacTrace) : CaacEvent → Prop
  | .post req serverWallMs =>
    Stale E s req → Admitted E s.node.ledger req → Repeats E s.node req serverWallMs
  | _ => True

/-- Whose signature verifies has signed: what the holders' keys are relied on for. -/
def Honest (s : CaacTrace) : CaacEvent → Prop
  | .post req _ =>
    E.verifyEd25519HexMessage req.walletId (E.authMsg req) (trim req.ed25519SigHex) = .ok () →
      0 < s.signedAt req.walletId (E.authMsg req)
  | _ => True

section Events

variable {E : CaacEnv} {s : CaacTrace} {req : CaacCompleteReq} {serverWallMs : Nat}

theorem step_post_node (E : CaacEnv) (s : CaacTrace) (req : CaacCompleteReq) (serverWallMs : Nat) :
    (s.step E (.post req serverWallMs)).node = (E.postVisionCaacComplete s.node req serverWallMs).2 :=
  rfl

/-- What is stored after a post that passes. -/
theorem step_post_record (h : Admitted E s.node.ledger req) (serverWallMs : Nat) :
    (s.step E (.post req serverWallMs)).node.ledger.caacGetWorkerRecord req.walletId =
      some (E.workerRecord req serverWallMs) := by
  rw [step_post_node, post_of_admitted h]
  exact caacGetWorkerRecord_put _ _ _

theorem step_post_role (h : Admitted E s.node.ledger req) (serverWallMs : Nat) :
    (s.step E (.post req serverWallMs)).node.registryCaacRole req.walletId =
      (s.node.byWallet.get req.walletId).bind fun _ =>
        some (roleToTag (E.roleFromLatencyMs req.clientLatencyMs)) := by
  unfold CaacNode.registryCaacRole
  rw [step_post_node, post_of_admitted h, setCaacRole_get h.wallet]
  cases s.node.byWallet.get req.walletId <;> rfl

theorem step_post_bond (E : CaacEnv) (s : CaacTrace) (req : CaacCompleteReq) (serverWallMs : Nat)
    (w : Str) : (s.step E (.post req serverWallMs)).node.ledger.workerBondMicro w =
      s.node.ledger.workerBondMicro w := by
  rw [step_post_node]
  rcases post_cases E s.node req serverWallMs with ⟨-, heq⟩ | ⟨-, e, heq⟩
  · rw [heq]
    exact workerBondMicro_put _ _ _ _
  · rw [heq]

theorem step_post_signedAt (E : CaacEnv) (s : CaacTrace) (req : CaacCompleteReq) (serverWallMs : Nat) :
    (s.step E (.post req serverWallMs)).signedAt = s.signedAt := rfl

theorem step_sign_signedAt_self (E : CaacEnv) (s : CaacTrace) (w : Str) (message : Bytes) :
    (s.step E (.sign w message)).signedAt w message = s.time + 1 := if_pos ⟨rfl, rfl⟩

theorem step_sign_signedAt_ne (E : CaacEnv) (s : CaacTrace) {w v : Str} {message m : Bytes}
    (h : m ≠ message) : (s.step E (.sign w message)).signedAt v m = s.signedAt v m :=
  if_neg fun heq => h heq.2

theorem step_post_acceptedAt (h : Admitted E s.node.ledger req) (serverWallMs : Nat) :
    (s.step E (.post req serverWallMs)).acceptedAt req.walletId =
      max (s.acceptedAt req.walletId) (s.signedAt req.walletId (E.authMsg req)) := by
  unfold step
  dsimp only
  rw [post_of_admitted h]
  exact if_pos rfl

/-- A lawful event is a tidy one, and the other way round. -/
theorem lawful_iff (E : CaacEnv) (s : CaacTrace) (e : CaacEvent) : Lawful E s e ↔ Tidy E s e := by
  cases e with
  | sign wallet message => exact Iff.rfl
  | other node => exact Iff.rfl
  | post req serverWallMs =>
    constructor
    · intro hlaw hstale hadm
      have hsame := hlaw hstale
      refine ⟨?_, fun ent hent => ?_⟩
      · rw [← hsame.record, step_post_record hadm]
      · have hrole := hsame.role
        rw [step_post_role hadm, CaacNode.registryCaacRole, hent] at hrole
        exact hrole.symm
    · intro htidy hstale
      by_cases hadm : Admitted E s.node.ledger req
      · have hrep := htidy hstale hadm
        refine ⟨?_, ?_⟩
        · rw [step_post_record hadm, hrep.record]
        · rw [step_post_role hadm, CaacNode.registryCaacRole]
          cases hent : s.node.byWallet.get req.walletId with
          | none => rfl
          | some ent => exact (hrep.role ent hent).symm
      · rcases post_cases E s.node req serverWallMs with ⟨hadm', -⟩ | ⟨-, e, heq⟩
        · exact absurd hadm' hadm
        · rw [step_post_node, heq]
          exact ⟨rfl, rfl⟩

end Events

end CaacTrace

section Replay

variable {E : CaacEnv} {n : CaacNode} {req req' : CaacCompleteReq}

/-- The holder has signed a first completion. -/
def firstSigned (E : CaacEnv) (n : CaacNode) (req : CaacCompleteReq) : CaacTrace :=
  (CaacTrace.start n).step E (.sign req.walletId (E.authMsg req))

/-- The first one is posted, and the holder has signed a second one. -/
def secondSigned (E : CaacEnv) (n : CaacNode) (req req' : CaacCompleteReq) (serverWallMs : Nat) :
    CaacTrace :=
  ((firstSigned E n req).step E (.post req serverWallMs)).step E
    (.sign req'.walletId (E.authMsg req'))

/-- The holder signs and posts one completion, then another. -/
def twoDeclarations (E : CaacEnv) (req req' : CaacCompleteReq) (serverWallMs : Nat) : List CaacEvent :=
  [.sign req.walletId (E.authMsg req), .post req serverWallMs,
    .sign req'.walletId (E.authMsg req'), .post req' serverWallMs]

theorem foldl_twoDeclarations (E : CaacEnv) (n : CaacNode) (req req' : CaacCompleteReq)
    (serverWallMs : Nat) : (twoDeclarations E req req' serverWallMs).foldl (CaacTrace.step E) (.start n) =
      (secondSigned E n req req' serverWallMs).step E (.post req' serverWallMs) := rfl

theorem firstSigned_signedAt (E : CaacEnv) (n : CaacNode) (req : CaacCompleteReq) :
    (firstSigned E n req).signedAt req.walletId (E.authMsg req) = 1 :=
  CaacTrace.step_sign_signedAt_self _ _ _ _

theorem secondSigned_signedAt (E : CaacEnv) (n : CaacNode) (req req' : CaacCompleteReq)
    (serverWallMs : Nat) :
    (secondSigned E n req req' serverWallMs).signedAt req'.walletId (E.authMsg req') = 2 :=
  CaacTrace.step_sign_signedAt_self _ _ _ _

/-- The second signature is not of the first completion. -/
theorem secondSigned_signedAt_first (hne : E.authMsg req ≠ E.authMsg req') (n : CaacNode)
    (serverWallMs : Nat) :
    (secondSigned E n req req' serverWallMs).signedAt req.walletId (E.authMsg req) = 1 := by
  unfold secondSigned
  rw [CaacTrace.step_sign_signedAt_ne _ _ hne, CaacTrace.step_post_signedAt, firstSigned_signedAt]

theorem secondSigned_bond (E : CaacEnv) (n : CaacNode) (req req' : CaacCompleteReq)
    (serverWallMs : Nat) (w : Str) :
    (secondSigned E n req req' serverWallMs).node.ledger.workerBondMicro w =
      n.ledger.workerBondMicro w :=
  CaacTrace.step_post_bond E (firstSigned E n req) req serverWallMs w

/-- Every signature in the run is of the holder. -/
theorem replay_honest (hne : E.authMsg req ≠ E.authMsg req') (n : CaacNode)
    (nonce serverWallMs : Nat) : Along (CaacTrace.step E) (CaacTrace.Honest E) (.start n)
      (twoDeclarations E req req' serverWallMs ++ [.post { req with nonce := nonce } serverWallMs]) := by
  refine ⟨trivial, fun _ => ?_, trivial, fun _ => ?_, fun _ => ?_, trivial⟩
  · exact (firstSigned_signedAt E n req).symm ▸ Nat.one_pos
  · exact (secondSigned_signedAt E n req req' serverWallMs).symm ▸ Nat.two_pos
  · exact (secondSigned_signedAt_first hne n serverWallMs).symm ▸ Nat.one_pos

/-- **The first of two completions takes the record back**, under any other nonce, where it is of
another latency. -/
theorem replay_unlawful (hadm : Admitted E n.ledger req) (hadm' : Admitted E n.ledger req')
    (hw : req'.walletId = req.walletId) (hlatency : req.clientLatencyMs ≠ req'.clientLatencyMs)
    (hne : E.authMsg req ≠ E.authMsg req') {nonce : Nat} (hnonce : nonce ≠ 0) (serverWallMs : Nat) :
    ¬ Along (CaacTrace.step E) (CaacTrace.Lawful E) (.start n)
      (twoDeclarations E req req' serverWallMs ++ [.post { req with nonce := nonce } serverWallMs]) := by
  intro hlaw
  have hsecond : Admitted E (secondSigned E n req req' serverWallMs).node.ledger req' :=
    hadm'.replay hadm'.nonce ((secondSigned_bond E n req req' serverWallMs _).symm ▸ hadm'.bond)
  have hstale : CaacTrace.Stale E
      ((secondSigned E n req req' serverWallMs).step E (.post req' serverWallMs))
      { req with nonce := nonce } := by
    have haccepted := CaacTrace.step_post_acceptedAt hsecond serverWallMs
    rw [secondSigned_signedAt, hw] at haccepted
    have hsigned := secondSigned_signedAt_first hne n serverWallMs
    refine ⟨hsigned.symm ▸ Nat.one_pos, ?_⟩
    show (secondSigned E n req req' serverWallMs).signedAt req.walletId (E.authMsg req) <
      CaacTrace.acceptedAt _ req.walletId
    rw [hsigned, haccepted]
    omega
  have hreplay : Admitted E
      ((secondSigned E n req req' serverWallMs).step E (.post req' serverWallMs)).node.ledger
      { req with nonce := nonce } := by
    refine hadm.replay hnonce ?_
    rw [CaacTrace.step_post_bond, secondSigned_bond]
    exact hadm.bond
  have hlast := hlaw.last
  rw [foldl_twoDeclarations] at hlast
  have hrep := ((CaacTrace.lawful_iff E _ _).mp hlast hstale hreplay).record
  have hstored := CaacTrace.step_post_record hsecond serverWallMs
  rw [hw] at hstored
  have hsame := Option.some.inj (hstored.symm.trans hrep)
  exact hlatency (congrArg CaacWorkerRecord.latencyMs hsame).symm

end Replay

/-- **Role declarations along a run**: no post of an earlier completion changes the record or the role
of its wallet exactly when each one that passes the checks says again what is stored. -/
theorem declarations_lawful_iff (E : CaacEnv) (n : CaacNode) (events : List CaacEvent) :
    Along (CaacTrace.step E) (CaacTrace.Lawful E) (.start n) events ↔
      Along (CaacTrace.step E) (CaacTrace.Tidy E) (.start n) events :=
  along_congr (CaacTrace.lawful_iff E) events

end TetCore.Rest

namespace TetCore.Sample

open TetCore.Lib TetCore.Rest TetCore.Tmail

def caacEnv : CaacEnv where
  world := World.sample 0
  auth := auth
  verifyEd25519HexMessage w msg sig := auth.verifyEd25519 w sig msg
  fromHexError _ := "Invalid character or string length"
  pocMaxLatencyMsVar := none

/-- The digest of a seed; it is long to compute. -/
@[irreducible] def caacDigest (seedHex : Str) : Str :=
  valueOr (caacEnv.computeChallengeDigest seedHex) []

/-- What a wallet signs to declare a latency. -/
def declaration (wallet : Str) (latencyMs : Nat) : Bytes :=
  caacCompleteHybridAuthMessageBytes auth (trimLower wallet) alice latencyMs mldsaKey

/-- A completion of the wallet, with its digest and its signatures. -/
def completion (wallet : Str) (latencyMs nonce : Nat) : CaacCompleteReq :=
  let msg := declaration wallet latencyMs
  ⟨wallet, alice, caacDigest alice, latencyMs, nonce, sign (trimLower wallet) msg, mldsaKey,
    sign mldsaKey msg⟩

/-- A bonded worker that the registry knows. -/
def caacNode : CaacNode where
  ledger := { Ledger.empty with workerStakes := Tree.empty.insert bob minWorkerStakeMicro }
  byWallet := Tree.empty.insert bob ⟨bob, none⟩

theorem caacDigest_alice : ∃ d, caacEnv.computeChallengeDigest alice = .ok (hexEncode d) ∧
    caacDigest alice = hexEncode d := by
  have hraw : hexDecode (trim alice) = some (List.replicate 32 0xaa) := by decide
  obtain ⟨d, hd⟩ : ∃ d, caacEnv.computeChallengeDigest alice = .ok (hexEncode d) := by
    unfold CaacEnv.computeChallengeDigest
    rw [hraw]
    exact ⟨_, if_neg (by decide)⟩
  refine ⟨d, hd, ?_⟩
  unfold caacDigest
  rw [hd]
  rfl

theorem byteLen_sign (key : Str) (msg : Bytes) : byteLen (sign key msg) = 64 := by
  unfold sign
  rw [byteLen_hexEncode]
  simp [digest, length_beBytes]

theorem completion_walletId (latencyMs nonce : Nat) :
    (completion bob latencyMs nonce).walletId = bob := by
  show trimLower bob = bob
  decide

theorem authMsg_completion (latencyMs nonce : Nat) :
    caacEnv.authMsg (completion bob latencyMs nonce) = declaration bob latencyMs := rfl

theorem completion_admitted {latencyMs nonce : Nat} (hnonce : nonce ≠ 0) {L : Ledger}
    (hbond : minWorkerStakeMicro ≤ L.workerBondMicro bob) :
    Admitted caacEnv L (completion bob latencyMs nonce) := by
  have hbob := completion_walletId latencyMs nonce
  have htrim : ∀ b, trim (hexEncode b) = hexEncode b :=
    fun b => trim_of_forall (hexEncode_not_whitespace b)
  obtain ⟨d, hd, hdigest⟩ := caacDigest_alice
  refine ⟨?_, ?_, ?_, ?_, hnonce, ?_, ?_, ⟨hexEncode d, hd, ?_⟩, ?_⟩
  · rw [hbob]
    decide
  · show byteLen (sign (trimLower bob) _) ≤ 200
    rw [byteLen_sign]
    decide
  · show byteLen mldsaKey ≤ maxB64Field
    decide
  · show byteLen (sign mldsaKey _) ≤ maxB64Field
    rw [byteLen_sign]
    decide
  · have hsig : trim (completion bob latencyMs nonce).ed25519SigHex =
        sign bob (declaration bob latencyMs) := by
      rw [← hbob]
      exact htrim _
    rw [hbob, hsig, authMsg_completion]
    exact verifyEd25519_sign (by decide) _
  · rw [authMsg_completion]
    show auth.verifyMldsaB64 mldsaKey (sign mldsaKey (declaration bob latencyMs)) _ = _
    exact verifyMldsaB64_sign _
  · show eqIgnoreAsciiCase (hexEncode d) (trim (caacDigest alice)) = true
    rw [hdigest, htrim]
    exact beq_self_eq_true _
  · rw [hbob]
    exact hbond

theorem caacNode_bond : caacNode.ledger.workerBondMicro bob = minWorkerStakeMicro := by
  decide +kernel

theorem authMsg_ne : caacEnv.authMsg (completion bob 10 1) ≠ caacEnv.authMsg (completion bob 80 2) := by
  rw [authMsg_completion, authMsg_completion]
  decide +kernel

/-- What the two declarations weigh. -/
theorem declared_weights :
    caacWeightFromRecord (some (caacEnv.workerRecord (completion bob 10 1) 0)) = 200 ∧
      caacWeightFromRecord (some (caacEnv.workerRecord (completion bob 80 2) 0)) = 37 := by
  decide +kernel

/-- A worker declares 10 ms, then 80 ms; its first declaration is sent again under another nonce. -/
def replayedDeclaration : List CaacEvent :=
  twoDeclarations caacEnv (completion bob 10 1) (completion bob 80 2) 0 ++
    [.post { completion bob 10 1 with nonce := 3 } 0]

end TetCore.Sample

namespace TetCore.Rest

open TetCore.Lib

/-- An old declaration takes back the record of the new one, and its weight. -/
theorem declaration_replayed :
    Along (CaacTrace.step Sample.caacEnv) (CaacTrace.Honest Sample.caacEnv) (.start Sample.caacNode)
        Sample.replayedDeclaration ∧
      ¬ Along (CaacTrace.step Sample.caacEnv) (CaacTrace.Lawful Sample.caacEnv)
        (.start Sample.caacNode) Sample.replayedDeclaration ∧
      caacWeightFromRecord (some (Sample.caacEnv.workerRecord (Sample.completion Sample.bob 80 2) 0)) <
        caacWeightFromRecord
          (some (Sample.caacEnv.workerRecord (Sample.completion Sample.bob 10 1) 0)) := by
  have hadm : ∀ latencyMs nonce, nonce ≠ 0 →
      Admitted Sample.caacEnv Sample.caacNode.ledger (Sample.completion Sample.bob latencyMs nonce) :=
    fun _ _ hnonce => Sample.completion_admitted hnonce Sample.caacNode_bond.ge
  have hwallet := (Sample.completion_walletId 80 2).trans (Sample.completion_walletId 10 1).symm
  refine ⟨replay_honest Sample.authMsg_ne Sample.caacNode 3 0, ?_, ?_⟩
  · refine replay_unlawful (hadm 10 1 (by decide)) (hadm 80 2 (by decide)) hwallet ?_
      Sample.authMsg_ne (by decide) 0
    show (10 : Nat) ≠ 80
    decide
  · rw [Sample.declared_weights.1, Sample.declared_weights.2]
    decide

end TetCore.Rest
