import TetCore.Court.Bonds
import TetCore.ZkCourt

/-!
# The ZK-court

Model of `vision/zk_court.rs`: a delivery opens the window in which an inference can be challenged; a
challenge locks a bond, asks for a proof of the transcript, and settles the bond by the verdict. A
dispute is kept twice, in the map `DISPUTES` under the id as it is spelled, and in the ledger under
the trimmed one; so is its artifact.

The prover is an input of the challenge (`ProveResult`). Left out: the logs, the amount computed for
them from `r_expected_micro`, and the delivery that is not stored.

* `accepts_iff_heard`: a challenge is accepted exactly if it is heard (`Heard`).
* `runChallengePipeline_cases`: every way out of the pipeline, with what was paid.
-/

namespace TetCore.Disputes

open TetCore.Lib TetCore.Ledger TetCore.Journals

/-! ## The records -/

/-- `ChallengePhase`. -/
inductive ChallengePhase where
  | none
  | challengeOpen
  | evidencePending
  | slashExecuted
  | dismissed
  deriving DecidableEq

/-- `InferenceDisputeState`. -/
structure InferenceDisputeState where
  inferenceId : Str
  workerWalletId : Str
  phase : ChallengePhase
  challengeOpensAtMs : Nat
  challengeClosesAtMs : Nat
  lazyEvalSuspected : Bool
  challengerWalletId : Option Str
  challengerBondMicro : Nat
  deriving DecidableEq

/-- `ChallengeSubmitReq`, without what the handler alone reads. -/
structure ChallengeSubmitReq where
  inferenceId : Str
  challengerWalletId : Str
  deriving DecidableEq

/-- `InferenceArtifact`. -/
structure InferenceArtifact where
  prompt : Str
  response : Str
  flopsU64 : UInt64
  workerWalletId : Str
  commitmentSha256 : Bytes32
  deriving DecidableEq

/-- `ChallengeOutcome`. -/
structure ChallengeOutcome where
  inferenceId : Str
  verdict : String
  phase : ChallengePhase
  zkProofOk : Bool
  hostCommitmentMatch : Bool
  slashMicro : Option Nat
  detail : String
  deriving DecidableEq

/-- What comes of `prove_zk_court_receipt` in its time, and of `verify_zk_court_cryptographic` on the
receipt. -/
inductive ProveResult where
  | timeout
  | joinError
  | proveFailed
  | receipt (journal : Option ZkCourtJournalV1)
  deriving DecidableEq

/-- The variables a call reads, where they are numbers. -/
structure CourtVars where
  /-- `TET_ZK_COURT_CHALLENGE_MS`. -/
  challengeMsVar : Option Nat
  /-- `TET_ZK_COURT_CHALLENGER_BOND_MICRO`. -/
  challengerBondMicroVar : Option Nat

namespace CourtVars

variable (V : CourtVars)

/-- `challenge_window_ms`. -/
def challengeWindowMs : Nat := V.challengeMsVar.getD 86400000

/-- `zkcourt_challenger_bond_micro`. -/
def zkcourtChallengerBondMicro : Nat :=
  (V.challengerBondMicroVar.filter (0 < ·)).getD (100 * stevemon)

/-- The world under these variables. -/
def world (W : World) : World := { W with zkcourtChallengerBondMicro := V.zkcourtChallengerBondMicro }

theorem zkcourtChallengerBondMicro_pos : 0 < V.zkcourtChallengerBondMicro := by
  unfold zkcourtChallengerBondMicro
  cases h : V.challengerBondMicroVar.filter (0 < ·) with
  | none => decide
  | some n => exact of_decide_eq_true (Option.filter_eq_some_iff.mp h).2

end CourtVars

/-- `wallet_hex_to_pk32`; no caller reads its errors. -/
def walletHexToPk32 (walletHex : Str) : Option Bytes32 :=
  let w := trimLower walletHex
  if isHex64 w then
    (hexDecode w).bind fun bytes => if h : bytes.length = 32 then some ⟨bytes, h⟩ else none
  else none

/-! ## The court -/

/-- The ledger with its two trees of the court, and the two maps in memory. -/
structure Court where
  ledger : Ledger
  zkcourtDisputes : Tree Str InferenceDisputeState
  zkcourtArtifacts : Tree Str InferenceArtifact
  disputes : Tree Str InferenceDisputeState
  artifacts : Tree Str InferenceArtifact

namespace Court

/-- A court before any delivery. -/
def fresh (L : Ledger) : Court := ⟨L, .empty, .empty, .empty, .empty⟩

variable (c : Court)

/-- What a restart leaves. -/
def restart : Court := { c with disputes := .empty, artifacts := .empty }

/-- A dispute written to the map and stored, under the id and the trimmed id. -/
def putDispute (inferenceId : Str) (st : InferenceDisputeState) : Court :=
  { c with
    disputes := c.disputes.insert inferenceId st
    zkcourtDisputes := c.zkcourtDisputes.insert (trim inferenceId) st }

/-- The stored dispute is taken into the map where the map has none. -/
def loadDispute (inferenceId : Str) : Court :=
  match c.disputes.get inferenceId, c.zkcourtDisputes.get (trim inferenceId) with
  | none, some st => { c with disputes := c.disputes.insert inferenceId st }
  | _, _ => c

/-- The dispute of an inference, as it is loaded. -/
def dispute (inferenceId : Str) : Option InferenceDisputeState :=
  (c.disputes.get inferenceId).or (c.zkcourtDisputes.get (trim inferenceId))

/-- The artifact of an inference. -/
def artifact (inferenceId : Str) : Option InferenceArtifact :=
  (c.artifacts.get inferenceId).or (c.zkcourtArtifacts.get (trim inferenceId))

/-- `zkcourt_settle_challenger_bond`, whose result is dropped. -/
def settle (inferenceId challenger : Str) (validChallenge : Bool) : Court :=
  { c with
    ledger := valueOr (Prod.snd <$>
      c.ledger.zkcourtSettleChallengerBond inferenceId challenger validChallenge) c.ledger }

end Court

/-! ## Deliveries -/

section Calls

variable (W : World) (sha256 : Bytes → Bytes32) (V : CourtVars) (nowMs : Nat) (c : Court)

/-- `build_dispute_state`: the record. -/
def buildDisputeState (inferenceId workerWalletId : Str) : InferenceDisputeState where
  inferenceId := inferenceId
  workerWalletId := trimLower workerWalletId
  phase := .challengeOpen
  challengeOpensAtMs := nowMs
  challengeClosesAtMs := satAdd128 nowMs V.challengeWindowMs
  lazyEvalSuspected := false
  challengerWalletId := none
  challengerBondMicro := 0

/-- `record_inference_delivered_persisted`. -/
def recordInferenceDeliveredPersisted (inferenceId workerWalletId : Str) : Court :=
  c.putDispute inferenceId (buildDisputeState V nowMs inferenceId workerWalletId)

/-- `record_inference_delivered_full`. -/
def recordInferenceDeliveredFull (inferenceId prompt response : Str) (flops : Nat)
    (workerWalletId : Str) : Court :=
  match walletHexToPk32 workerWalletId with
  | none => c
  | some pk =>
    let flopsU64 := UInt64.ofNat (min flops u64Max)
    let art : InferenceArtifact :=
      { prompt := prompt
        response := response
        flopsU64 := flopsU64
        workerWalletId := trimLower workerWalletId
        commitmentSha256 := zkCourtInferenceCommitmentV1 sha256 ⟨prompt, response, flopsU64, pk⟩ }
    let c := { c with
      artifacts := c.artifacts.insert inferenceId art
      zkcourtArtifacts := c.zkcourtArtifacts.insert (trim inferenceId) art }
    recordInferenceDeliveredPersisted V nowMs c inferenceId workerWalletId

/-! ## Challenges -/

/-- The checks of `submit_challenge` on a dispute. -/
def checkOpen (ent : InferenceDisputeState) : Except String Unit := do
  require (ent.phase = .challengeOpen) "challenge not open for this inference"
  require (ent.challengeOpensAtMs ≤ nowMs) "challenge window not open yet"
  require (nowMs ≤ ent.challengeClosesAtMs) "challenge window closed"

/-- A dispute that a challenge was accepted for. -/
def InferenceDisputeState.challengedBy (ent : InferenceDisputeState) (challenger : Str)
    (bond : Nat) : InferenceDisputeState :=
  { ent with
    phase := .evidencePending
    lazyEvalSuspected := true
    challengerWalletId := some challenger
    challengerBondMicro := bond }

/-- `submit_challenge`. -/
def submitChallenge (req : ChallengeSubmitReq) : Except String InferenceDisputeState × Court :=
  let challenger := trimLower req.challengerWalletId
  if challenger = [] then (.error "challenger_wallet_id required", c)
  else match c.ledger.zkcourtLockChallengerBond (V.world W) req.inferenceId challenger with
    | .error e => (.error ("challenger bond required: " ++ e.text), c)
    | .ok (bond, L) =>
      let c := { c with ledger := L }.loadDispute req.inferenceId
      match c.disputes.get req.inferenceId with
      | none => (.error "unknown inference_id", c.settle req.inferenceId challenger false)
      | some ent =>
        match checkOpen nowMs ent with
        | .error e => (.error e, c.settle req.inferenceId challenger false)
        | .ok () =>
          let ent := ent.challengedBy challenger bond
          (.ok ent, c.putDispute req.inferenceId ent)

/-- `host_commitment_matches_artifact`. -/
def hostCommitmentMatchesArtifact (art : InferenceArtifact) : Bool :=
  match walletHexToPk32 art.workerWalletId with
  | none => false
  | some pk => zkCourtInferenceCommitmentV1 sha256 ⟨art.prompt, art.response, art.flopsU64, pk⟩ ==
      art.commitmentSha256

/-- A journal is of the artifact. -/
def journalMatches (art : InferenceArtifact) (pk : Bytes32) (j : ZkCourtJournalV1) : Bool :=
  j.commitmentSha256 == art.commitmentSha256 && j.workerPubkeyBytes == pk &&
    j.flopsU64 == art.flopsU64

/-- `zk_ok` and `zk_definitive_invalid`: whether a receipt verifies and its journal is of the
artifact, and whether one verifies and its journal is not. -/
def zkVerdict (art : InferenceArtifact) : ProveResult → Bool × Bool
  | .receipt (some j) =>
    match walletHexToPk32 art.workerWalletId with
    | some pk => (journalMatches art pk j, !journalMatches art pk j)
    | none => (false, false)
  | .receipt none | .timeout | .joinError | .proveFailed => (false, false)

/-- What is said of a dismissal. -/
def dismissedDetail (zkOk hostOk : Bool) : String :=
  if zkOk && hostOk then
    "cryptographic proof + host transcript consistent — challenge dismissed"
  else if !hostOk then
    "host commitment inconsistent with transcript — dismissed (no cryptographic fraud proof)"
  else "ZK proof unavailable/invalid/timeout — dismissed (no cryptographic fraud proof)"

/-- The worker's bond is slashed, if there is one. -/
def slashWorker (workerWalletId : Str) : Except String Nat × Court :=
  match c.ledger.slashWorkerBondToEcosystemAll workerWalletId with
  | .ok (n, L) => (.ok n, { c with ledger := L })
  | .error .insufficientFunds | .error (.invalid _) => (.ok 0, c)
  | .error e => (.error e.text, c)

/-- `apply_slash_verdict`. -/
def applySlashVerdict (inferenceId : Str) (verifiedFraud : Bool) : Except String Nat × Court :=
  let c := c.loadDispute inferenceId
  match c.disputes.get inferenceId with
  | none => (.error "unknown inference_id", c)
  | some ent =>
    let ent := { ent with phase := if verifiedFraud then .slashExecuted else .dismissed }
    let c := c.putDispute inferenceId ent
    let c := match ent.challengerWalletId with
      | some challenger => c.settle inferenceId challenger verifiedFraud
      | none => c
    if verifiedFraud then slashWorker c ent.workerWalletId else (.ok 0, c)

/-- `run_challenge_pipeline` after the artifact was found. -/
def decideChallenge (req : ChallengeSubmitReq) (proved : ProveResult) (art : InferenceArtifact) :
    ChallengeOutcome × Court :=
  let hostOk := hostCommitmentMatchesArtifact sha256 art
  let zkOk := (zkVerdict art proved).1
  let guilty := (zkVerdict art proved).2 && hostOk
  let applied := applySlashVerdict c req.inferenceId guilty
  ({ inferenceId := req.inferenceId
     verdict := if guilty then "guilty" else "dismissed"
     phase := ((applied.2.disputes.get req.inferenceId).map (·.phase)).getD .none
     zkProofOk := zkOk
     hostCommitmentMatch := hostOk
     slashMicro := if guilty then some (valueOr applied.1 0) else none
     detail := if guilty then
         "cryptographic fraud proven (receipt verified but journal mismatch) — guilty"
       else dismissedDetail zkOk hostOk },
    applied.2)

/-- `run_challenge_pipeline`. -/
def runChallengePipeline (req : ChallengeSubmitReq) (proved : ProveResult) :
    Except String ChallengeOutcome × Court :=
  match submitChallenge W V nowMs c req with
  | (.error e, c) => (.error e, c)
  | (.ok _, c) =>
    match c.artifact req.inferenceId with
    | none => (.error "no inference artifact (too old or not recorded)",
        c.settle req.inferenceId req.challengerWalletId false)
    | some art =>
      let decided := decideChallenge sha256 c req proved art
      (.ok decided.1, decided.2)

end Calls

/-- `submit_challenge` accepts the challenge. -/
def accepts (W : World) (V : CourtVars) (nowMs : Nat) (c : Court) (req : ChallengeSubmitReq) :
    Bool :=
  (submitChallenge W V nowMs c req).1.isOk

/-- The verdict is guilty. -/
def isGuilty (r : Except String ChallengeOutcome) : Bool :=
  match r with
  | .ok out => out.verdict == "guilty"
  | .error _ => false

/-- A challenge is heard: its bond can be locked, and its dispute is open and in its window. -/
structure Heard (V : CourtVars) (nowMs : Nat) (c : Court) (req : ChallengeSubmitReq) : Prop where
  challenger : trimLower req.challengerWalletId ≠ []
  unlocked : c.ledger.zkcourtBonds.get (zkcourtBondKey req.inferenceId req.challengerWalletId) = none
  funded : V.zkcourtChallengerBondMicro ≤ c.ledger.balanceMicro (trimLower req.challengerWalletId)
  dispute : ∃ d ∈ c.dispute req.inferenceId, d.phase = .challengeOpen ∧
    d.challengeOpensAtMs ≤ nowMs ∧ nowMs ≤ d.challengeClosesAtMs

/-! ## The two maps -/

namespace Court

variable {c : Court} {L : Ledger} {id : Str} {st : InferenceDisputeState}

theorem dispute_eq_some : c.dispute id = some st ↔ c.disputes.get id = some st ∨
    c.disputes.get id = none ∧ c.zkcourtDisputes.get (trim id) = some st := by
  unfold dispute
  cases hmap : c.disputes.get id with
  | none => simp only [Option.none_or, reduceCtorEq, false_or, true_and]
  | some d => simp only [Option.some_or, reduceCtorEq, false_and, or_false]

/-- Loading touches the map alone, and there the one id. -/
theorem loadDispute_eq (c : Court) (id : Str) : ∃ m, c.loadDispute id = { c with disputes := m } ∧
    m.get id = c.dispute id ∧ ∀ a, a ≠ id → m.get a = c.disputes.get a := by
  unfold loadDispute dispute
  cases hmap : c.disputes.get id with
  | none =>
    cases hstored : c.zkcourtDisputes.get (trim id) with
    | none => exact ⟨c.disputes, rfl, hmap, fun a _ => rfl⟩
    | some st =>
      exact ⟨c.disputes.insert id st, rfl, Tree.get_insert_self _ _ _,
        fun a ha => Tree.get_insert_ne (Ne.symm ha)⟩
  | some d => exact ⟨c.disputes, rfl, hmap, fun a _ => rfl⟩

theorem loadDispute_of_some (h : c.disputes.get id = some st) : c.loadDispute id = c := by
  unfold loadDispute
  rw [h]

theorem get_loadDispute (c : Court) (id : Str) :
    (c.loadDispute id).disputes.get id = c.dispute id := by
  obtain ⟨m, heq, hget, -⟩ := loadDispute_eq c id
  rw [heq, hget]

theorem loadDispute_withLedger (c : Court) (L : Ledger) (id : Str) :
    { c with ledger := L }.loadDispute id = { c.loadDispute id with ledger := L } := by
  unfold loadDispute
  dsimp only
  cases c.disputes.get id with
  | none => cases c.zkcourtDisputes.get (trim id) <;> rfl
  | some d => rfl

theorem putDispute_putDispute (c : Court) (id : Str) (st st' : InferenceDisputeState) :
    (c.putDispute id st).putDispute id st' = c.putDispute id st' := by
  unfold putDispute
  dsimp only
  rw [Tree.insert_insert, Tree.insert_insert]

theorem settle_trimLower (c : Court) (id ch : Str) (valid : Bool) :
    c.settle id (trimLower ch) valid = c.settle id ch valid := by
  unfold settle zkcourtSettleChallengerBond
  rw [trimLower_trimLower]

theorem settle_of_ok {ch : Str} {valid : Bool} {n : Nat}
    (h : c.ledger.zkcourtSettleChallengerBond id ch valid = .ok (n, L)) :
    c.settle id ch valid = { c with ledger := L } := by
  unfold settle
  rw [h]
  rfl

end Court

/-! ## A challenge -/

section Challenge

variable {f : Option MetaVal} {W : World} {sha256 : Bytes → Bytes32} {V : CourtVars} {nowMs : Nat}
  {c : Court} {req : ChallengeSubmitReq} {proved : ProveResult}

theorem checkOpen_eq_ok {ent : InferenceDisputeState} : checkOpen nowMs ent = .ok () ↔
    ent.phase = .challengeOpen ∧ ent.challengeOpensAtMs ≤ nowMs ∧
      nowMs ≤ ent.challengeClosesAtMs := by
  unfold checkOpen
  simp only [bind_eq_ok, require_eq_ok, exists_const]

theorem heard_iff {bond : Nat} {L : Ledger}
    (hlock : c.ledger.zkcourtLockChallengerBond (V.world W) req.inferenceId
      req.challengerWalletId = .ok (bond, L)) :
    Heard V nowMs c req ↔ ∃ ent, c.dispute req.inferenceId = some ent ∧
      checkOpen nowMs ent = .ok () := by
  obtain ⟨hne, hfree, hle, -, -⟩ := lock_eq_ok_iff.mp hlock
  constructor
  · intro h
    obtain ⟨ent, hent, hopen⟩ := h.dispute
    exact ⟨ent, hent, checkOpen_eq_ok.mpr hopen⟩
  · rintro ⟨ent, hent, hopen⟩
    exact ⟨hne, hfree, hle, ent, hent, checkOpen_eq_ok.mp hopen⟩

theorem not_heard_of_error {e : LedgerError}
    (hlock : c.ledger.zkcourtLockChallengerBond (V.world W) req.inferenceId
      req.challengerWalletId = .error e) : ¬ Heard V nowMs c req := by
  intro h
  have hok := lock_eq_ok_iff (W := V.world W).mpr ⟨h.challenger, h.unlocked, h.funded, rfl, rfl⟩
  rw [hlock] at hok
  cases hok

/-- What `submit_challenge` comes to. -/
inductive Submitted (W : World) (V : CourtVars) (nowMs : Nat) (c : Court)
    (req : ChallengeSubmitReq) : Except String InferenceDisputeState × Court → Prop where
  | refused {e : LedgerError} (hlock : c.ledger.zkcourtLockChallengerBond (V.world W)
      req.inferenceId req.challengerWalletId = .error e) (msg : String) :
    Submitted W V nowMs c req (.error msg, c)
  | unheard {bond : Nat} {L : Ledger} (hlock : c.ledger.zkcourtLockChallengerBond (V.world W)
      req.inferenceId req.challengerWalletId = .ok (bond, L)) (hheard : ¬ Heard V nowMs c req)
      (msg : String) :
    Submitted W V nowMs c req (.error msg, { c.loadDispute req.inferenceId with
      ledger := L }.settle req.inferenceId req.challengerWalletId false)
  | heard {bond : Nat} {L : Ledger} {ent : InferenceDisputeState}
      (hlock : c.ledger.zkcourtLockChallengerBond (V.world W) req.inferenceId
        req.challengerWalletId = .ok (bond, L)) (hheard : Heard V nowMs c req) :
    Submitted W V nowMs c req (.ok (ent.challengedBy (trimLower req.challengerWalletId) bond),
      { c.loadDispute req.inferenceId with ledger := L }.putDispute req.inferenceId
        (ent.challengedBy (trimLower req.challengerWalletId) bond))

theorem submitChallenge_cases (W : World) (V : CourtVars) (nowMs : Nat) (c : Court)
    (req : ChallengeSubmitReq) :
    Submitted W V nowMs c req (submitChallenge W V nowMs c req) := by
  unfold submitChallenge
  simp only [lock_trimLower, Court.settle_trimLower, Court.loadDispute_withLedger]
  cases hlock : c.ledger.zkcourtLockChallengerBond (V.world W) req.inferenceId
    req.challengerWalletId with
  | error e =>
    by_cases hch : trimLower req.challengerWalletId = []
    · rw [if_pos hch]
      exact .refused hlock _
    · rw [if_neg hch]
      exact .refused hlock _
  | ok locked =>
    obtain ⟨bond, L⟩ := locked
    rw [if_neg (lock_eq_ok_iff.mp hlock).1]
    dsimp only
    rw [Court.get_loadDispute]
    cases hent : c.dispute req.inferenceId with
    | none =>
      refine .unheard hlock ?_ _
      rw [heard_iff hlock]
      rintro ⟨ent, hsome, -⟩
      rw [hent] at hsome
      cases hsome
    | some ent =>
      dsimp only
      cases hopen : checkOpen nowMs ent with
      | error e =>
        refine .unheard hlock ?_ _
        rw [heard_iff hlock]
        rintro ⟨ent', hsome, hok⟩
        rw [hent, Option.some.injEq] at hsome
        rw [← hsome, hopen] at hok
        cases hok
      | ok u => exact .heard hlock ((heard_iff hlock).mpr ⟨ent, hent, hopen⟩)

/-- **A challenge is accepted** exactly if it is heard. -/
theorem accepts_iff_heard : accepts W V nowMs c req = true ↔ Heard V nowMs c req := by
  have h := submitChallenge_cases W V nowMs c req
  unfold accepts
  generalize submitChallenge W V nowMs c req = ran at h ⊢
  cases h with
  | refused hlock msg => exact iff_of_false Bool.false_ne_true (not_heard_of_error hlock)
  | unheard hlock hheard msg => exact iff_of_false Bool.false_ne_true hheard
  | heard hlock hheard => exact iff_of_true rfl hheard

theorem slashWorker_paid {L : Ledger} {ch : Str} {bond : Nat} (h : Paid f L ch bond true c.ledger)
    (worker : Str) : ∃ L', (slashWorker c worker).2 = { c with ledger := L' } ∧
      Paid f L ch bond true L' := by
  unfold slashWorker
  cases hslash : c.ledger.slashWorkerBondToEcosystemAll worker with
  | ok slashed => exact ⟨slashed.2, rfl, h.slash hslash⟩
  | error e => cases e <;> exact ⟨c.ledger, rfl, h⟩

/-- What `apply_slash_verdict` does with the dispute of a challenge whose bond is locked. -/
theorem applySlashVerdict_cases {L L₁ : Ledger} {id ch : Str} {bond : Nat}
    (ent : InferenceDisputeState) (hL : L.InFlight f 0)
    (hlock : L.zkcourtLockChallengerBond (V.world W) id ch = .ok (bond, L₁)) (guilty : Bool) :
    ∃ st L', (applySlashVerdict ({ c with ledger := L₁ }.putDispute id
        (ent.challengedBy (trimLower ch) bond)) id guilty).2 =
          { c.putDispute id st with ledger := L' } ∧
      st.phase = (if guilty then .slashExecuted else .dismissed) ∧ Paid f L ch bond guilty L' := by
  obtain ⟨L₂, hsettle, hpaid⟩ := settle_locked hL V.zkcourtChallengerBondMicro_pos hlock guilty
  have hget : ({ c with ledger := L₁ }.putDispute id
      (ent.challengedBy (trimLower ch) bond)).disputes.get id =
        some (ent.challengedBy (trimLower ch) bond) := Tree.get_insert_self _ _ _
  unfold applySlashVerdict
  rw [Court.loadDispute_of_some hget]
  dsimp only
  rw [hget]
  dsimp only [InferenceDisputeState.challengedBy]
  rw [Court.settle_trimLower, Court.putDispute_putDispute, Court.settle_of_ok hsettle]
  cases guilty with
  | false =>
    rw [if_neg Bool.false_ne_true]
    exact ⟨_, L₂, rfl, rfl, hpaid⟩
  | true =>
    rw [if_pos rfl]
    obtain ⟨L', heq, hpaid'⟩ := slashWorker_paid (c := { { c with ledger := L₁ }.putDispute id
      { ent with
        phase := .slashExecuted
        lazyEvalSuspected := true
        challengerWalletId := some (trimLower ch)
        challengerBondMicro := bond } with ledger := L₂ }) hpaid ent.workerWalletId
    rw [if_pos rfl]
    exact ⟨_, L', heq, rfl, hpaid'⟩

/-- What `run_challenge_pipeline` comes to. -/
inductive Ran (f : Option MetaVal) (W : World) (V : CourtVars) (nowMs : Nat) (c : Court)
    (req : ChallengeSubmitReq) : Except String ChallengeOutcome × Court → Prop where
  | refused {e : LedgerError} (hlock : c.ledger.zkcourtLockChallengerBond (V.world W)
      req.inferenceId req.challengerWalletId = .error e) (msg : String) :
    Ran f W V nowMs c req (.error msg, c)
  | unheard {bond : Nat} {L L' : Ledger} (hlock : c.ledger.zkcourtLockChallengerBond (V.world W)
      req.inferenceId req.challengerWalletId = .ok (bond, L)) (hheard : ¬ Heard V nowMs c req)
      (hpaid : Paid f c.ledger req.challengerWalletId bond false L') (msg : String) :
    Ran f W V nowMs c req (.error msg, { c.loadDispute req.inferenceId with ledger := L' })
  | unproved {bond : Nat} {L L' : Ledger} {st : InferenceDisputeState}
      (hlock : c.ledger.zkcourtLockChallengerBond (V.world W) req.inferenceId
        req.challengerWalletId = .ok (bond, L)) (hheard : Heard V nowMs c req)
      (hart : c.artifact req.inferenceId = none) (hphase : st.phase = .evidencePending)
      (hpaid : Paid f c.ledger req.challengerWalletId bond false L') (msg : String) :
    Ran f W V nowMs c req (.error msg,
      { (c.loadDispute req.inferenceId).putDispute req.inferenceId st with ledger := L' })
  | decided {bond : Nat} {L L' : Ledger} {st : InferenceDisputeState} {out : ChallengeOutcome}
      (hlock : c.ledger.zkcourtLockChallengerBond (V.world W) req.inferenceId
        req.challengerWalletId = .ok (bond, L)) (hheard : Heard V nowMs c req)
      (hart : (c.artifact req.inferenceId).isSome = true)
      (hphase : st.phase = .slashExecuted ∨ st.phase = .dismissed)
      (hpaid : Paid f c.ledger req.challengerWalletId bond (isGuilty (.ok out)) L') :
    Ran f W V nowMs c req (.ok out,
      { (c.loadDispute req.inferenceId).putDispute req.inferenceId st with ledger := L' })

theorem artifact_submitted {L : Ledger} {id : Str} {st : InferenceDisputeState} :
    ({ c.loadDispute id with ledger := L }.putDispute id st).artifact id = c.artifact id := by
  obtain ⟨m, heq, -⟩ := Court.loadDispute_eq c id
  rw [heq]
  rfl

theorem isGuilty_decide {art : InferenceArtifact} : isGuilty (.ok
    (decideChallenge sha256 c req proved art).1) =
      ((zkVerdict art proved).2 && hostCommitmentMatchesArtifact sha256 art) := by
  unfold isGuilty decideChallenge
  dsimp only
  cases (zkVerdict art proved).2 && hostCommitmentMatchesArtifact sha256 art <;> decide

/-- What is decided of a challenge whose bond is locked. -/
theorem decideChallenge_cases {L L₁ : Ledger} {bond : Nat} {ent : InferenceDisputeState}
    {art : InferenceArtifact} (hL : L.InFlight f 0)
    (hlock : L.zkcourtLockChallengerBond (V.world W) req.inferenceId req.challengerWalletId =
      .ok (bond, L₁)) {decided : ChallengeOutcome × Court}
    (hdecided : decided = decideChallenge sha256 ({ c with ledger := L₁ }.putDispute req.inferenceId
      (ent.challengedBy (trimLower req.challengerWalletId) bond)) req proved art) :
    ∃ st L', decided.2 = { c.putDispute req.inferenceId st with ledger := L' } ∧
      (st.phase = .slashExecuted ∨ st.phase = .dismissed) ∧
      Paid f L req.challengerWalletId bond (isGuilty (.ok decided.1)) L' := by
  obtain ⟨st, L', heq, hphase, hpaid⟩ := applySlashVerdict_cases (c := c) ent hL hlock
    ((zkVerdict art proved).2 && hostCommitmentMatchesArtifact sha256 art)
  refine ⟨st, L', ?_, ?_, ?_⟩
  · rw [hdecided]
    exact heq
  · cases hg : (zkVerdict art proved).2 && hostCommitmentMatchesArtifact sha256 art with
    | false =>
      rw [hg, if_neg Bool.false_ne_true] at hphase
      exact Or.inr hphase
    | true =>
      rw [hg, if_pos rfl] at hphase
      exact Or.inl hphase
  · rw [hdecided, isGuilty_decide]
    exact hpaid

/-- **Every way out** of `run_challenge_pipeline`. -/
theorem runChallengePipeline_cases (W : World) (sha256 : Bytes → Bytes32) (V : CourtVars)
    (nowMs : Nat) (req : ChallengeSubmitReq) (proved : ProveResult)
    (hL : c.ledger.InFlight f 0) :
    Ran f W V nowMs c req (runChallengePipeline W sha256 V nowMs c req proved) := by
  have hsub := submitChallenge_cases W V nowMs c req
  unfold runChallengePipeline
  generalize submitChallenge W V nowMs c req = ran at hsub ⊢
  cases hsub with
  | refused hlock msg => exact .refused hlock msg
  | unheard hlock hheard msg =>
    obtain ⟨L', hsettle, hpaid⟩ := settle_locked hL V.zkcourtChallengerBondMicro_pos hlock false
    rw [Court.settle_of_ok hsettle]
    exact .unheard hlock hheard hpaid msg
  | heard hlock hheard =>
    dsimp only
    rw [artifact_submitted]
    cases hart : c.artifact req.inferenceId with
    | none =>
      obtain ⟨L', hsettle, hpaid⟩ := settle_locked hL V.zkcourtChallengerBondMicro_pos hlock false
      dsimp only
      rw [Court.settle_of_ok hsettle]
      exact .unproved hlock hheard hart rfl hpaid _
    | some art =>
      dsimp only
      generalize hdecided : decideChallenge sha256 _ req proved art = decided
      obtain ⟨st, L', heq, hphase, hpaid⟩ := decideChallenge_cases hL hlock hdecided.symm
      rw [heq]
      exact .decided hlock hheard (by rw [hart]; rfl) hphase hpaid

/-- What is paid when the bond was locked. -/
theorem Ran.paid {ran : Except String ChallengeOutcome × Court} (h : Ran f W V nowMs c req ran)
    {bond : Nat} {L : Ledger} (hlocked : c.ledger.zkcourtLockChallengerBond (V.world W)
      req.inferenceId req.challengerWalletId = .ok (bond, L)) :
    Paid f c.ledger req.challengerWalletId bond (isGuilty ran.1) ran.2.ledger := by
  cases h with
  | refused hlock msg =>
    rw [hlock] at hlocked
    cases hlocked
  | unheard hlock hheard hpaid msg | unproved hlock hheard hart hphase hpaid msg
  | decided hlock hheard hart hphase hpaid =>
    rw [hlock] at hlocked
    cases hlocked
    exact hpaid

theorem Ran.of_refused {ran : Except String ChallengeOutcome × Court}
    (h : Ran f W V nowMs c req ran) {e : LedgerError} (herror : c.ledger.zkcourtLockChallengerBond
      (V.world W) req.inferenceId req.challengerWalletId = .error e) :
    ran.2 = c ∧ isGuilty ran.1 = false := by
  cases h with
  | refused hlock msg => exact ⟨rfl, rfl⟩
  | unheard hlock hheard hpaid msg | unproved hlock hheard hart hphase hpaid msg
  | decided hlock hheard hart hphase hpaid =>
    rw [hlock] at herror
    cases herror

end Challenge

end TetCore.Disputes
