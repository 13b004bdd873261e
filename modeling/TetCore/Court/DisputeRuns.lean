import TetCore.Court.Disputes
import TetCore.Lib.Along

/-!
# Runs of the ZK-court

A run (`Docket.step`) has deliveries, challenges and restarts, each at its own time and under its own
variables; a restart keeps what is in the ledger.

* `Lawful`: a challenge is accepted once for a trimmed id, leaves the bond it locked paid once, to the
  challenger if the verdict is guilty and to the ecosystem otherwise, takes a worker's bond only if it
  is guilty, and leaves no dispute with the evidence pending.
* `Tidy`: a challenge that is heard finds an artifact, and the stored dispute open.
* `Reopens`: a delivery of an inference whose stored dispute is not open any more.
* `reopened_unlawful`: after one, the next challenge that is heard is unlawful.
* `disputes_lawful_iff`: along a run without `Reopens` every call is lawful exactly if every call is
  tidy; `challenged_twice` is a run where a second challenge, under another spelling, is not.
-/

namespace TetCore.Disputes

open TetCore.Lib TetCore.Ledger TetCore.Journals

/-- What is done with the court. -/
inductive CourtAct where
  | recordInferenceDeliveredPersisted (inferenceId workerWalletId : Str)
  | recordInferenceDeliveredFull (inferenceId prompt response : Str) (flops : Nat)
      (workerWalletId : Str)
  | runChallengePipeline (req : ChallengeSubmitReq) (proved : ProveResult)
  | restart

/-- A call, with the variables and the time it reads. -/
structure CourtCall where
  vars : CourtVars
  nowMs : Nat
  act : CourtAct

/-- The court, and the trimmed ids of which a challenge was accepted. -/
structure Docket where
  court : Court
  challenged : List Str

section Runs

variable (W : World) (sha256 : Bytes → Bytes32)

def Court.step (c : Court) (k : CourtCall) : Court :=
  match k.act with
  | .recordInferenceDeliveredPersisted id worker =>
    recordInferenceDeliveredPersisted k.vars k.nowMs c id worker
  | .recordInferenceDeliveredFull id prompt response flops worker =>
    recordInferenceDeliveredFull sha256 k.vars k.nowMs c id prompt response flops worker
  | .runChallengePipeline req proved =>
    (runChallengePipeline W sha256 k.vars k.nowMs c req proved).2
  | .restart => c.restart

def Docket.step (D : Docket) (k : CourtCall) : Docket where
  court := D.court.step W sha256 k
  challenged :=
    match k.act with
    | .runChallengePipeline req _ =>
      if accepts W k.vars k.nowMs D.court req then trim req.inferenceId :: D.challenged
      else D.challenged
    | _ => D.challenged

end Runs

/-- A court without deliveries, and nothing challenged. -/
def Docket.fresh (L : Ledger) : Docket := ⟨.fresh L, []⟩

/-! ## What is asked of a call -/

/-- No dispute is left with the evidence pending, in the map or stored. -/
structure Court.NonePending (c : Court) : Prop where
  disputes : ∀ id d, c.disputes.get id = some d → d.phase ≠ .evidencePending
  stored : ∀ k d, c.zkcourtDisputes.get k = some d → d.phase ≠ .evidencePending

section Laws

variable (W : World) (sha256 : Bytes → Bytes32) (V : CourtVars) (nowMs : Nat)

/-- The law of a challenge that turns `D.court` into `ran.2` and answers `ran.1`. -/
structure ChallengeLawful (D : Docket) (req : ChallengeSubmitReq)
    (ran : Except String ChallengeOutcome × Court) : Prop where
  once : accepts W V nowMs D.court req = true → trim req.inferenceId ∉ D.challenged
  refused : ∀ e, D.court.ledger.zkcourtLockChallengerBond (V.world W) req.inferenceId
    req.challengerWalletId = .error e → ran.2.ledger = D.court.ledger
  unlocked : ∀ bond L, D.court.ledger.zkcourtLockChallengerBond (V.world W) req.inferenceId
    req.challengerWalletId = .ok (bond, L) →
      ran.2.ledger.zkcourtBonds.get (zkcourtBondKey req.inferenceId req.challengerWalletId) = none
  paid : ∀ bond L, D.court.ledger.zkcourtLockChallengerBond (V.world W) req.inferenceId
    req.challengerWalletId = .ok (bond, L) →
      ∃ slashed, BondPaid D.court.ledger ran.2.ledger (trimLower req.challengerWalletId)
        (payee (trimLower req.challengerWalletId) (isGuilty ran.1)) bond slashed
  slashed : isGuilty ran.1 = false → ran.2.ledger.workerStakes = D.court.ledger.workerStakes

/-- A lawful call. -/
structure Lawful (D : Docket) (k : CourtCall) : Prop where
  nonePending : (D.court.step W sha256 k).NonePending
  challenge : ∀ req proved, k.act = .runChallengePipeline req proved →
    ChallengeLawful W k.vars k.nowMs D req
      (runChallengePipeline W sha256 k.vars k.nowMs D.court req proved)
  ledger : (∀ req proved, k.act ≠ .runChallengePipeline req proved) →
    (D.court.step W sha256 k).ledger = D.court.ledger

end Laws

/-- The stored dispute of an inference is open. -/
def Court.StoredOpen (c : Court) (id : Str) : Prop :=
  ∃ d ∈ c.zkcourtDisputes.get (trim id), d.phase = .challengeOpen

/-- A challenge that is heard finds the stored dispute open, and an artifact. -/
def Tidy (D : Docket) (k : CourtCall) : Prop :=
  ∀ req proved, k.act = .runChallengePipeline req proved → Heard k.vars k.nowMs D.court req →
    D.court.StoredOpen req.inferenceId ∧ (D.court.artifact req.inferenceId).isSome = true

/-- The inference that a call delivers. -/
def CourtAct.delivers : CourtAct → Option Str
  | .recordInferenceDeliveredPersisted id _ => some id
  | .recordInferenceDeliveredFull id _ _ _ worker => (walletHexToPk32 worker).map fun _ => id
  | .runChallengePipeline _ _ | .restart => none

/-- A delivery of an inference whose stored dispute is not open any more. -/
def Reopens (D : Docket) (k : CourtCall) : Prop :=
  ∃ id ∈ k.act.delivers, ∃ d ∈ D.court.zkcourtDisputes.get (trim id), d.phase ≠ .challengeOpen

/-! ## What the runs keep -/

namespace Court

variable {c : Court} {L : Ledger} {id : Str} {st : InferenceDisputeState}

/-- What is in the map is stored. -/
def Stored (c : Court) : Prop :=
  ∀ id d, c.disputes.get id = some d → ∃ d', c.zkcourtDisputes.get (trim id) = some d'

theorem Stored.dispute (h : c.Stored) (hd : c.dispute id = some st) :
    ∃ d', c.zkcourtDisputes.get (trim id) = some d' := by
  rcases dispute_eq_some.mp hd with hmap | ⟨-, hstored⟩
  · exact h id st hmap
  · exact ⟨st, hstored⟩

theorem Stored.loadDispute (h : c.Stored) (id : Str) : (c.loadDispute id).Stored := by
  obtain ⟨m, heq, hget, hne⟩ := loadDispute_eq c id
  rw [heq]
  intro a d hd
  by_cases ha : a = id
  · rw [ha] at hd ⊢
    exact h.dispute (hget.symm.trans hd)
  · exact h a d ((hne a ha).symm.trans hd)

theorem Stored.putDispute (h : c.Stored) (id : Str) (st : InferenceDisputeState) :
    (c.putDispute id st).Stored := by
  intro a d hd
  unfold Court.putDispute at hd ⊢
  rw [Tree.get_insert] at hd ⊢
  by_cases htrim : trim id = trim a
  · exact ⟨st, if_pos htrim⟩
  · rw [if_neg htrim]
    rw [if_neg (fun ha => htrim (congrArg trim ha))] at hd
    exact h a d hd

theorem NonePending.loadDispute (h : c.NonePending) (id : Str) : (c.loadDispute id).NonePending := by
  obtain ⟨m, heq, hget, hne⟩ := loadDispute_eq c id
  rw [heq]
  refine ⟨fun a d hd => ?_, h.stored⟩
  by_cases ha : a = id
  · rw [ha] at hd
    rcases dispute_eq_some.mp (hget.symm.trans hd) with hmap | ⟨-, hstored⟩
    · exact h.disputes id d hmap
    · exact h.stored _ d hstored
  · exact h.disputes a d ((hne a ha).symm.trans hd)

theorem NonePending.putDispute (h : c.NonePending) (hst : st.phase ≠ .evidencePending) (id : Str) :
    (c.putDispute id st).NonePending := by
  constructor
  · intro a d hd
    unfold Court.putDispute at hd
    rw [Tree.get_insert] at hd
    split at hd
    · cases hd
      exact hst
    · exact h.disputes a d hd
  · intro k d hd
    unfold Court.putDispute at hd
    rw [Tree.get_insert] at hd
    split at hd
    · cases hd
      exact hst
    · exact h.stored k d hd

end Court

/-- The invariant of a run: what was challenged is what is stored and not open. -/
structure Orderly (f : Option MetaVal) (D : Docket) : Prop where
  inFlight : D.court.ledger.InFlight f 0
  nonePending : D.court.NonePending
  stored : D.court.Stored
  challenged : ∀ k, k ∈ D.challenged ↔
    ∃ d ∈ D.court.zkcourtDisputes.get k, d.phase ≠ .challengeOpen

section Steps

variable {f : Option MetaVal} {W : World} {sha256 : Bytes → Bytes32} {V : CourtVars} {nowMs : Nat}
  {D : Docket} {k : CourtCall} {req : ChallengeSubmitReq} {proved : ProveResult}

/-- **The law of a challenge** that is accepted for the first time. -/
theorem Ran.lawful {D : Docket} {ran : Except String ChallengeOutcome × Court}
    (h : Ran f W V nowMs D.court req ran)
    (honce : Heard V nowMs D.court req → trim req.inferenceId ∉ D.challenged) :
    ChallengeLawful W V nowMs D req ran where
  once haccepts := honce (accepts_iff_heard.mp haccepts)
  refused e herror := by rw [(h.of_refused herror).1]
  unlocked bond L hlock := by
    rw [(h.paid hlock).bonds]
    exact (lock_eq_ok_iff.mp hlock).2.1
  paid bond L hlock := (h.paid hlock).paid
  slashed hguilty := by
    cases hlock : D.court.ledger.zkcourtLockChallengerBond (V.world W) req.inferenceId
      req.challengerWalletId with
    | error e => rw [(h.of_refused hlock).1]
    | ok locked => exact (h.paid hlock).stakes hguilty

/-- A challenge that is heard is the first of its inference exactly if the stored dispute is open. -/
theorem Orderly.notMem_iff (h : Orderly f D) (hheard : Heard V nowMs D.court req) :
    trim req.inferenceId ∉ D.challenged ↔ D.court.StoredOpen req.inferenceId := by
  obtain ⟨d, hd, -⟩ := hheard.dispute
  obtain ⟨d', hd'⟩ := h.stored.dispute hd
  rw [h.challenged]
  unfold Court.StoredOpen
  rw [hd']
  simp only [Option.mem_some_iff, exists_eq_left', not_not]

theorem Orderly.fresh {L : Ledger} (hL : L.Conserved) :
    Orderly (L.metaTree.get .founderWallet) (Docket.fresh L) := by
  refine ⟨⟨hL.1, hL.2, rfl⟩, ⟨?_, ?_⟩, ?_, fun k => ⟨?_, ?_⟩⟩
  · intro id d hd
    cases (Tree.get_empty id).symm.trans hd
  · intro id d hd
    cases (Tree.get_empty id).symm.trans hd
  · intro id d hd
    cases (Tree.get_empty id).symm.trans hd
  · intro hk
    cases hk
  · rintro ⟨d, hd, -⟩
    cases (Tree.get_empty k).symm.trans hd

/-- **One challenge** is lawful exactly if it finds the stored dispute open, and an artifact, when it
is heard. -/
theorem Ran.lawful_iff {ran : Except String ChallengeOutcome × Court} (hD : Orderly f D)
    (h : Ran f W V nowMs D.court req ran) :
    ran.2.NonePending ∧ ChallengeLawful W V nowMs D req ran ↔
      (Heard V nowMs D.court req → D.court.StoredOpen req.inferenceId ∧
        (D.court.artifact req.inferenceId).isSome = true) := by
  constructor
  · rintro ⟨hpending, hlaw⟩ hheard
    refine ⟨(hD.notMem_iff hheard).mp (hlaw.once (accepts_iff_heard.mpr hheard)), ?_⟩
    cases h with
    | refused hlock msg => exact absurd hheard (not_heard_of_error hlock)
    | unheard hlock hn hpaid msg => exact absurd hheard hn
    | unproved hlock hh hart hphase hpaid msg =>
      exact absurd hphase (hpending.disputes _ _ (Tree.get_insert_self _ _ _))
    | decided hlock hh hart hphase hpaid => exact hart
  · intro htidy
    refine ⟨?_, h.lawful fun hheard => (hD.notMem_iff hheard).mpr (htidy hheard).1⟩
    cases h with
    | refused hlock msg => exact hD.nonePending
    | unheard hlock hn hpaid msg =>
      have hload := hD.nonePending.loadDispute req.inferenceId
      exact ⟨hload.disputes, hload.stored⟩
    | unproved hlock hh hart hphase hpaid msg =>
      have hsome := (htidy hh).2
      rw [hart] at hsome
      cases hsome
    | @decided bond L L' st out hlock hh hart hphase hpaid =>
      have hst : st.phase ≠ .evidencePending := by
        rcases hphase with heq | heq <;> rw [heq] <;> decide
      have hput := (hD.nonePending.loadDispute req.inferenceId).putDispute hst req.inferenceId
      exact ⟨hput.disputes, hput.stored⟩

/-- A delivery keeps the invariant where it reopens nothing. -/
theorem Orderly.deliver (h : Orderly f D) {id : Str} {st : InferenceDisputeState}
    (hst : st.phase = .challengeOpen)
    (hre : ¬ ∃ d ∈ D.court.zkcourtDisputes.get (trim id), d.phase ≠ .challengeOpen) :
    Orderly f ⟨D.court.putDispute id st, D.challenged⟩ := by
  refine ⟨h.inFlight, h.nonePending.putDispute ?_ id, h.stored.putDispute id st, fun k => ?_⟩
  · rw [hst]
    decide
  · rw [h.challenged]
    change _ ↔ ∃ d ∈ (D.court.zkcourtDisputes.insert (trim id) st).get k, _
    rw [Tree.get_insert]
    by_cases hk : trim id = k
    · rw [if_pos hk, ← hk]
      refine iff_of_false hre ?_
      rintro ⟨d, hd, hphase⟩
      cases hd
      exact hphase hst
    · rw [if_neg hk]

/-- So does a challenge that is tidy. -/
theorem Orderly.challenge {ran : Except String ChallengeOutcome × Court} (h : Orderly f D)
    (hran : Ran f W V nowMs D.court req ran)
    (htidy : Heard V nowMs D.court req → D.court.StoredOpen req.inferenceId ∧
      (D.court.artifact req.inferenceId).isSome = true) :
    Orderly f ⟨ran.2, if accepts W V nowMs D.court req then trim req.inferenceId :: D.challenged
      else D.challenged⟩ := by
  have hpending := ((Ran.lawful_iff h hran).mpr htidy).1
  cases hran with
  | refused hlock msg =>
    rw [if_neg (fun ha => not_heard_of_error hlock (accepts_iff_heard.mp ha))]
    exact h
  | unheard hlock hn hpaid msg =>
    rw [if_neg (fun ha => hn (accepts_iff_heard.mp ha))]
    obtain ⟨m, heq, -⟩ := Court.loadDispute_eq D.court req.inferenceId
    refine ⟨hpaid.inFlight, hpending, h.stored.loadDispute req.inferenceId, fun k => ?_⟩
    rw [h.challenged, heq]
  | unproved hlock hh hart hphase hpaid msg =>
    have hsome := (htidy hh).2
    rw [hart] at hsome
    cases hsome
  | @decided bond L L' st out hlock hh hart hphase hpaid =>
    rw [if_pos (accepts_iff_heard.mpr hh)]
    have hst : st.phase ≠ .challengeOpen := by
      rcases hphase with heq | heq <;> rw [heq] <;> decide
    obtain ⟨m, heq, -⟩ := Court.loadDispute_eq D.court req.inferenceId
    refine ⟨hpaid.inFlight, hpending, (h.stored.loadDispute req.inferenceId).putDispute
      req.inferenceId st, fun k => ?_⟩
    rw [List.mem_cons, h.challenged, heq]
    change _ ↔ ∃ d ∈ (D.court.zkcourtDisputes.insert (trim req.inferenceId) st).get k, _
    rw [Tree.get_insert]
    by_cases hk : trim req.inferenceId = k
    · rw [if_pos hk]
      exact iff_of_true (Or.inl hk.symm) ⟨st, rfl, hst⟩
    · rw [if_neg hk, or_iff_right (Ne.symm hk)]

end Steps

section Runs

variable {f : Option MetaVal} {W : World} {sha256 : Bytes → Bytes32} {D : Docket} {k : CourtCall}

/-- What a call does that is no challenge. -/
inductive Kept (c : Court) (k : CourtCall) : Court → Prop where
  | delivered {id : Str} {st : InferenceDisputeState} (hid : id ∈ k.act.delivers)
      (hst : st.phase = .challengeOpen) (artifacts zkcourtArtifacts : Tree Str InferenceArtifact) :
    Kept c k { c.putDispute id st with artifacts := artifacts, zkcourtArtifacts := zkcourtArtifacts }
  | refused : Kept c k c
  | restart : Kept c k c.restart

theorem kept_step (W : World) (sha256 : Bytes → Bytes32) (c : Court)
    (hk : ∀ req proved, k.act ≠ .runChallengePipeline req proved) :
    Kept c k (c.step W sha256 k) := by
  obtain ⟨V, nowMs, act⟩ := k
  cases act with
  | recordInferenceDeliveredPersisted id worker =>
    exact .delivered (k := ⟨V, nowMs, .recordInferenceDeliveredPersisted id worker⟩) rfl rfl _ _
  | recordInferenceDeliveredFull id prompt response flops worker =>
    unfold Court.step recordInferenceDeliveredFull
    dsimp only
    cases hpk : walletHexToPk32 worker with
    | none => exact .refused
    | some pk =>
      have hid : id ∈ CourtAct.delivers
          (.recordInferenceDeliveredFull id prompt response flops worker) :=
        Option.mem_map.mpr ⟨pk, hpk, rfl⟩
      exact .delivered hid rfl _ _
  | runChallengePipeline req proved => exact absurd rfl (hk req proved)
  | restart => exact .restart

theorem Kept.nonePending {c c' : Court} (h : Kept c k c') (hc : c.NonePending) :
    c'.NonePending := by
  cases h with
  | @delivered id st hid hst artifacts zkcourtArtifacts =>
    have hne : st.phase ≠ .evidencePending := by
      rw [hst]
      decide
    have hput := hc.putDispute hne id
    exact ⟨hput.disputes, hput.stored⟩
  | refused => exact hc
  | restart =>
    refine ⟨fun id d hd => ?_, hc.stored⟩
    cases (Tree.get_empty id).symm.trans hd

theorem Kept.ledger_eq {c c' : Court} (h : Kept c k c') : c'.ledger = c.ledger := by
  cases h <;> rfl

theorem Kept.orderly {c' : Court} (h : Kept D.court k c') (hD : Orderly f D)
    (hre : ¬ Reopens D k) : Orderly f ⟨c', D.challenged⟩ := by
  have hnone := h.nonePending hD.nonePending
  cases h with
  | @delivered id st hid hst artifacts zkcourtArtifacts =>
    have hput := hD.deliver hst fun hex => hre ⟨id, hid, hex⟩
    exact ⟨hput.inFlight, hnone, hput.stored, hput.challenged⟩
  | refused => exact hD
  | restart =>
    refine ⟨hD.inFlight, hnone, fun id d hd => ?_, hD.challenged⟩
    cases (Tree.get_empty id).symm.trans hd

theorem challenge_or (k : CourtCall) : (∃ req proved, k.act = .runChallengePipeline req proved) ∨
    ∀ req proved, k.act ≠ .runChallengePipeline req proved := by
  by_cases h : ∃ req proved, k.act = .runChallengePipeline req proved
  · exact Or.inl h
  · exact Or.inr fun req proved heq => h ⟨req, proved, heq⟩

theorem step_challenge {req : ChallengeSubmitReq} {proved : ProveResult}
    (hk : k.act = .runChallengePipeline req proved) : D.step W sha256 k =
      ⟨(runChallengePipeline W sha256 k.vars k.nowMs D.court req proved).2,
        if accepts W k.vars k.nowMs D.court req then trim req.inferenceId :: D.challenged
        else D.challenged⟩ := by
  unfold Docket.step Court.step
  rw [hk]

theorem step_other (hk : ∀ req proved, k.act ≠ .runChallengePipeline req proved) :
    D.step W sha256 k = ⟨D.court.step W sha256 k, D.challenged⟩ := by
  obtain ⟨V, nowMs, act⟩ := k
  cases act with
  | runChallengePipeline req proved => exact absurd rfl (hk req proved)
  | _ => rfl

/-- **One call** is lawful exactly if it is tidy. -/
theorem Orderly.lawful_iff (h : Orderly f D) : Lawful W sha256 D k ↔ Tidy D k := by
  rcases challenge_or k with ⟨req, proved, hk⟩ | hk
  · have hran := runChallengePipeline_cases W sha256 k.vars k.nowMs req proved h.inFlight
    have hiff := Ran.lawful_iff h hran
    have hstep : D.court.step W sha256 k =
        (runChallengePipeline W sha256 k.vars k.nowMs D.court req proved).2 :=
      congrArg Docket.court (step_challenge hk)
    constructor
    · intro hlaw req' proved' hk'
      cases hk.symm.trans hk'
      have hnone := hlaw.nonePending
      rw [hstep] at hnone
      exact hiff.mp ⟨hnone, hlaw.challenge req proved hk⟩
    · intro htidy
      obtain ⟨hnone, hlaw⟩ := hiff.mpr (htidy req proved hk)
      refine ⟨hstep ▸ hnone, fun req' proved' hk' => ?_, fun hne => absurd hk (hne req proved)⟩
      cases hk.symm.trans hk'
      exact hlaw
  · have hkept := kept_step W sha256 D.court hk
    refine iff_of_true ⟨hkept.nonePending h.nonePending, fun req proved heq => ?_,
      fun _ => hkept.ledger_eq⟩ fun req proved heq => ?_
    · exact absurd heq (hk req proved)
    · exact absurd heq (hk req proved)

theorem Orderly.step (h : Orderly f D) (hre : ¬ Reopens D k) (htidy : Tidy D k) :
    Orderly f (D.step W sha256 k) := by
  rcases challenge_or k with ⟨req, proved, hk⟩ | hk
  · rw [step_challenge hk]
    exact h.challenge (runChallengePipeline_cases W sha256 _ _ _ _ h.inFlight) (htidy req proved hk)
  · rw [step_other hk]
    exact (kept_step W sha256 D.court hk).orderly h hre

/-- What a delivery that reopens leads to: the next challenge that is heard is unlawful. -/
theorem reopened_unlawful (h : Orderly f D) (hre : Reopens D k) {k' : CourtCall}
    {req : ChallengeSubmitReq} {proved : ProveResult}
    (hk' : k'.act = .runChallengePipeline req proved) (hid : req.inferenceId ∈ k.act.delivers)
    (hheard : Heard k'.vars k'.nowMs (D.step W sha256 k).court req) :
    ¬ Lawful W sha256 (D.step W sha256 k) k' := by
  intro hlaw
  obtain ⟨id, hmem, hdecided⟩ := hre
  have hsame : req.inferenceId = id := Option.mem_unique hid hmem
  have hk : ∀ req proved, k.act ≠ .runChallengePipeline req proved := by
    intro req proved heq
    rw [heq] at hmem
    cases hmem
  refine (hlaw.challenge req proved hk').once (accepts_iff_heard.mpr hheard) ?_
  rw [step_other hk, hsame]
  exact (h.challenged _).mpr hdecided

/-- **Disputes.** From a court without deliveries, on a ledger that holds its supply, along a run that
reopens no dispute: every call is lawful exactly if every call is tidy. -/
theorem disputes_lawful_iff {L : Ledger} (hL : L.Conserved) (ks : List CourtCall)
    (hre : Along (Docket.step W sha256) (fun D k => ¬ Reopens D k) (.fresh L) ks) :
    Along (Docket.step W sha256) (Lawful W sha256) (.fresh L) ks ↔
      Along (Docket.step W sha256) Tidy (.fresh L) ks := by
  have hone : ∀ D k, Orderly (L.metaTree.get .founderWallet) D →
      (¬ Reopens D k ∧ Lawful W sha256 D k ↔ ¬ Reopens D k ∧ Tidy D k) :=
    fun D k h => and_congr_right fun _ => h.lawful_iff
  have hkeep : ∀ D k, Orderly (L.metaTree.get .founderWallet) D → ¬ Reopens D k ∧ Tidy D k →
      Orderly (L.metaTree.get .founderWallet) (Docket.step W sha256 D k) :=
    fun D k h hq => h.step hq.1 hq.2
  have hiff := along_iff hone hkeep ks (Orderly.fresh hL)
  rw [along_and, along_and] at hiff
  exact (and_congr_right_iff.mp hiff) hre

end Runs

end TetCore.Disputes

namespace TetCore.Sample

open TetCore.Lib TetCore.Disputes

/-- A bond of ten TET, in the default window. -/
def courtVars : CourtVars := ⟨none, some (10 * stevemon)⟩

/-- An inference of `bob` is delivered as `x`. -/
def inferenceDelivered : CourtCall :=
  ⟨courtVars, 0, .recordInferenceDeliveredFull ['x'] ['p'] ['r'] 3 bob⟩

/-- `alice` challenges it under a spelling of its id; the prover runs out of time. -/
def challengedAs (inferenceId : Str) : CourtCall :=
  ⟨courtVars, 0, .runChallengePipeline ⟨inferenceId, alice⟩ .timeout⟩

/-- The docket after the delivery. -/
def docketDelivered : Docket :=
  (Docket.fresh ledger).step (World.sample 0) firstBytes inferenceDelivered

/-- The docket after a challenge of ` x`. -/
def docketChallenged : Docket :=
  docketDelivered.step (World.sample 0) firstBytes (challengedAs [' ', 'x'])

/-- The delivery and that challenge. -/
def hearing : List CourtCall := [inferenceDelivered, challengedAs [' ', 'x']]

theorem ledger_conserved : ledger.Conserved := by
  decide +kernel

theorem docketDelivered_facts :
    ((docketDelivered.court.zkcourtDisputes.get (trim [' ', 'x'])).map (·.phase) =
      some .challengeOpen) ∧ (docketDelivered.court.artifact [' ', 'x']).isSome = true := by
  decide +kernel

theorem hearing_reopens_nothing : Along (Docket.step (World.sample 0) firstBytes)
    (fun D k => ¬ Reopens D k) (.fresh ledger) hearing := by
  refine ⟨?_, ?_, trivial⟩
  · rintro ⟨id, -, d, hd, -⟩
    cases (Tree.get_empty _).symm.trans hd
  · rintro ⟨id, hid, -⟩
    cases hid

theorem hearing_tidy :
    Along (Docket.step (World.sample 0) firstBytes) Tidy (.fresh ledger) hearing := by
  refine ⟨?_, ?_, trivial⟩
  · intro req proved heq
    cases heq
  · intro req proved heq hheard
    cases heq
    obtain ⟨hopen, hart⟩ := docketDelivered_facts
    obtain ⟨d, hd, hphase⟩ := Option.map_eq_some_iff.mp hopen
    exact ⟨⟨d, hd, hphase⟩, hart⟩

theorem docketChallenged_facts :
    accepts (World.sample 0) courtVars 0 docketChallenged.court ⟨['x'], alice⟩ = true ∧
      trim ['x'] ∈ docketChallenged.challenged := by
  decide +kernel

end TetCore.Sample

namespace TetCore.Disputes

open TetCore.Lib TetCore.Ledger

/-- An inference that is challenged under another spelling of its id is challenged again under the
first. -/
theorem challenged_twice : Sample.ledger.Conserved ∧
    ¬ Along (Docket.step (World.sample 0) Sample.firstBytes)
      (Lawful (World.sample 0) Sample.firstBytes) (.fresh Sample.ledger)
      [Sample.inferenceDelivered, Sample.challengedAs [' ', 'x'], Sample.challengedAs ['x']] := by
  refine ⟨Sample.ledger_conserved, ?_⟩
  rintro ⟨-, -, hlaw, -⟩
  have honce := (hlaw.challenge ⟨['x'], Sample.alice⟩ .timeout rfl).once
  exact honce Sample.docketChallenged_facts.1 Sample.docketChallenged_facts.2

/-- The first of these challenges is lawful. -/
theorem disputes_lawful_once :
    Along (Docket.step (World.sample 0) Sample.firstBytes)
      (Lawful (World.sample 0) Sample.firstBytes) (.fresh Sample.ledger)
      Sample.hearing :=
  (disputes_lawful_iff Sample.ledger_conserved _ Sample.hearing_reopens_nothing).mpr
    Sample.hearing_tidy

end TetCore.Disputes
