import TetCore.Tmail.Verdicts

/-!
# Runs of the Tmail store

The calls that reach the store: what a peer sends, the three kinds of REST post, the two steps that
follow a gossiped post with a proof (its verdict is pending, then its pulled receipt is checked), burns,
the reaper and new polls. Beside the store a run keeps the calls of `verify_anonymous_proof` it made
with their verdicts, and the messages for which `register_fast_key` ran, newest first.

Every call keeps the indexes in agreement, and every message held passed its checks
(`StoreRun.healthy`).
-/

namespace TetCore.Tmail

open TetCore.Lib

/-- The part of `verify_tmail_envelope_v1` that the store relies on. -/
def TmailEnvelopeV1.wellFormed (env : TmailEnvelopeV1) : Bool :=
  env.flagAnonymous == env.isAnonymous && isHex64 env.receiver &&
    if env.isAnonymous then
      trimLower env.senderWalletId == "anonymous".toList && isHex64 env.postingKey
    else isHex64 (trimLower env.senderWalletId)

inductive StoreAction where
  /-- `handle_tmail_network_event` on an envelope. -/
  | gossip (M : Moment) (env : TmailEnvelopeV1)
  /-- `POST /tmail/send` of an anonymous envelope with a proof. -/
  | sendAnonymous (M : Moment) (env : TmailEnvelopeV1)
  /-- `POST /tmail/send` of a fast post. -/
  | sendFast (M : Moment) (env : TmailEnvelopeV1)
  /-- `POST /tmail/send` of a named envelope. -/
  | sendNamed (M : Moment) (env : TmailEnvelopeV1)
  /-- The verdict of a gossiped post with a proof, before its receipt is pulled. -/
  | markPending (M : Moment) (env : TmailEnvelopeV1)
  /-- The receipt of a pending message was pulled: `verify_anonymous_proof`, `set_anon_verdict`. -/
  | verifyReceipt (M : Moment) (env : TmailEnvelopeV1)
  /-- `apply_burn_revoke`, of a revoke that is authorized. -/
  | burn (M : Moment) (msgId : Str)
  | prune (now : Nat)
  | registerPoll (wallet : Str)

/-- What a run keeps beside the store. -/
inductive StoreEvent where
  /-- `verify_anonymous_proof` returned the verdict. -/
  | verified (env : TmailEnvelopeV1) (verdict : AnonVerdict)
  /-- `register_fast_key` ran for the envelope, with the nullifier of its verdict. -/
  | registered (env : TmailEnvelopeV1) (nullifierHex : Str)
  deriving DecidableEq

namespace TmailStore

variable (V : Vars) (s : TmailStore)

/-- A message from a peer. -/
def receive (M : Moment) (env : TmailEnvelopeV1) : TmailStore :=
  if M.isShelterBoard env.receiver || !env.wellFormed then s
  else if env.isFastPost then (s.receiveFastAnonymous V M env).2
  else (s.storeTmail V M env).2

/-- `pending_anon_envelopes` lists the message, and it has a proof. -/
def awaitsReceipt (env : TmailEnvelopeV1) : Bool :=
  decide (s.Holds env) && env.flagAnonymous && env.proof.isSome &&
    match s.getAnonVerdict env.id with
    | none | some .pending => true
    | _ => false

/-- One call. -/
def step : StoreAction → TmailStore
  | .gossip M env => s.receive V M env
  | .sendAnonymous M env => if env.wellFormed then (s.sendAnonymous V M env).2 else s
  | .sendFast M env => if env.wellFormed then (s.sendFastAnonymous V M env).2 else s
  | .sendNamed M env =>
    if env.wellFormed && !env.isAnonymous then (s.storeTmail V M env).2 else s
  | .markPending M env =>
    if s.Holds env ∧ env.proof.isSome then s.setAnonVerdict V M env.id .pending else s
  | .verifyReceipt M env =>
    if s.awaitsReceipt env then s.setAnonVerdict V M env.id (verifyAnonymousProof M env) else s
  | .burn M msgId => s.deleteByMsgId V M msgId
  | .prune now => s.pruneExpired V now
  | .registerPoll wallet => { s with pollRoots := s.pollRoots.insert (trimLower wallet) () }

/-- A poll's ballot was stored, so `poll_ballot_gate` verified it. -/
def storedBallot (M : Moment) (env : TmailEnvelopeV1) : Bool :=
  !M.isShelterBoard env.receiver && env.wellFormed && !env.isFastPost &&
    s.isPoll env.receiver &&
    match (s.storeTmail V M env).1 with
    | .ok true => true
    | _ => false

/-- `register_fast_key`, of the message a verdict is recorded for. -/
def registrations (msgId : Str) (verdict : AnonVerdict) : List StoreEvent :=
  match verdict, s.getByMsgId msgId with
  | .verified n _, some env =>
    if env.proof.isSome && !s.isPoll env.receiver then [.registered env n] else []
  | _, _ => []

/-- What a call verifies and registers, newest first. -/
def events : StoreAction → List StoreEvent
  | .gossip M env =>
    if s.storedBallot V M env then [.verified env (verifyAnonymousProof M env)] else []
  | .sendAnonymous M env => match env.proof with
    | some proof =>
      if env.wellFormed && M.receiptDeposited proof.receiptSha256Hex then
        (match s.storeTmail V M env with
          | (.ok _, s) => s.registrations env.id (verifyAnonymousProof M env)
          | (.error _, _) => []) ++ [.verified env (verifyAnonymousProof M env)]
      else []
    | none => []
  | .verifyReceipt M env =>
    if s.awaitsReceipt env then
      s.registrations env.id (verifyAnonymousProof M env) ++
        [.verified env (verifyAnonymousProof M env)]
    else []
  | _ => []

end TmailStore

/-- The store, and what was verified and registered so far. -/
structure Traced where
  store : TmailStore
  log : List StoreEvent

def Traced.step (V : Vars) (x : Traced) (a : StoreAction) : Traced :=
  ⟨x.store.step V a, x.store.events V a ++ x.log⟩

/-- What calls lead to from a new store, each call where `ok` allows it. -/
inductive StoreRun (V : Vars) (ok : TmailStore → StoreAction → Prop) : Traced → Prop where
  | start : StoreRun V ok ⟨TmailStore.new, []⟩
  | step {x : Traced} (a : StoreAction) (before : StoreRun V ok x) (allowed : ok x.store a) :
      StoreRun V ok (x.step V a)

theorem isAnonymous_of_proof {env : TmailEnvelopeV1} (h : env.proof.isSome = true) : env.isAnonymous = true := by
  unfold TmailEnvelopeV1.proof at h
  unfold TmailEnvelopeV1.isAnonymous
  cases hanon : env.anonymous with
  | none =>
    rw [hanon] at h
    cases h
  | some _ => rfl


namespace TmailStore

variable {V : Vars} {M : Moment} {s s' s'' : TmailStore} {env : TmailEnvelopeV1}

/-- The store of a message: it is refused, or kept until the limits let it go, in a poll with the
verdict of its ballot. -/
inductive StoreOutcome (M : Moment) (env : TmailEnvelopeV1) (s : TmailStore) :
    Except TmailStoreError Bool → TmailStore → Prop where
  | quiet {r : Except TmailStoreError Bool} {s' : TmailStore} {gone : TmailEnvelopeV1 → Prop}
      (refused : r ≠ .ok true) (same : SameBeside s s') (drop : Dropped s s' gone) :
      StoreOutcome M env s r s'
  | stored {s' : TmailStore} (fresh : s.byMsgId.get env.id = none)
      (poll : s.isPoll env.receiver = false) (same : SameBeside s s') (indexed : s'.Indexed)
      (holds : ∀ e, s'.Holds e → s.Holds e ∨ e = env) : StoreOutcome M env s (.ok true) s'
  | ballot {s' : TmailStore} {n : Str} {t : Nat} (fresh : s.byMsgId.get env.id = none)
      (poll : s.isPoll env.receiver = true) (proved : verifyAnonymousProof M env = .verified n t)
      (same : SameBeside (s.recorded env.id (.verified n t)) s') (indexed : s'.Indexed)
      (holds : ∀ e, s'.Holds e → s.Holds e ∨ e = env) : StoreOutcome M env s (.ok true) s'

theorem SameBeside.isPoll (h : SameBeside s s') (receiver : Str) :
    s'.isPoll receiver = s.isPoll receiver := by
  unfold TmailStore.isPoll
  rw [h.shrinks.polls]

/-- Nothing is held under an id without a row. -/
theorem Indexed.not_held (h : s.Indexed) {e : TmailEnvelopeV1} {msgId : Str}
    (hfresh : s.byMsgId.get msgId = none) (hheld : s.Holds e) : e.id ≠ msgId := by
  intro hid
  have hlive := h.live e hheld
  rw [hid, hfresh] at hlive
  cases hlive

theorem Indexed.storeTmailInner (h : s.Indexed) :
    StoreOutcome M env s (s.storeTmailInner V M env).1 (s.storeTmailInner V M env).2 := by
  obtain ⟨hsame, hroom⟩ := h.makeRoom (V := V) (M := M)
  have hpolls := hsame.isPoll env.receiver
  rcases storeTmailInner_cases V M s env with
    ⟨hr, heq | heq⟩ | ⟨hr, hvalid, hfresh, ⟨hpoll, heq⟩ | ⟨hpoll, n, t, hver, heq⟩⟩
  · rw [heq]
    exact .quiet hr (SameBeside.refl s) (Dropped.refl h)
  · rw [heq]
    exact .quiet hr hsame hroom
  · rw [hr, heq]
    have hfresh' := makeRoom_byMsgId (V := V) (M := M) hfresh
    obtain ⟨hbeside, hindexed, hholds⟩ := hroom.indexed.insertRow (V := V) hfresh' hvalid
    obtain ⟨-, -, hgroup⟩ := hroom.indexed.afterGroup (V := V) hfresh' hvalid
    refine .stored hfresh (hpolls.symm.trans hpoll) (hsame.trans hbeside) hindexed fun e he => ?_
    refine ((hgroup e).mp ((hholds e).mp he).1).1.imp_left fun hheld => ?_
    exact ((hroom.holds e).mp hheld).1
  · rw [hr, heq]
    have hfresh' := makeRoom_byMsgId (V := V) (M := M) hfresh
    -- nothing is held under the id, so the gate only records the verdict
    have hgate : (s.makeRoom V M).setAnonVerdict V M env.id (.verified n t) =
        (s.makeRoom V M).recorded env.id (.verified n t) := by
      rw [hroom.indexed.setVerified_unheld, trim_id]
      intro e he hid
      exact absurd (hid.trans (trim_id env)) (hroom.indexed.not_held hfresh' he)
    rw [hgate]
    have hrec := hroom.indexed.recorded env.id (.verified n t)
    have hfresh'' : ((s.makeRoom V M).recorded env.id (.verified n t)).byMsgId.get env.id = none :=
      hfresh'
    obtain ⟨hbeside, hindexed, hholds⟩ := hrec.indexed.insertRow (V := V) hfresh'' hvalid
    obtain ⟨-, -, hgroup⟩ := hrec.indexed.afterGroup (V := V) hfresh'' hvalid
    have hrecorded : SameBeside (s.recorded env.id (.verified n t))
        ((s.makeRoom V M).recorded env.id (.verified n t)) := by
      unfold SameBeside at hsame ⊢
      rw [hsame]
      rfl
    refine .ballot hfresh (hpolls.symm.trans hpoll) hver (hrecorded.trans hbeside) hindexed
      fun e he => ?_
    refine ((hgroup e).mp ((hholds e).mp he).1).1.imp_left fun hheld => ?_
    exact ((hroom.holds e).mp ((hrec.holds e).mp hheld).1).1

theorem Indexed.storeTmail (h : s.Indexed) :
    StoreOutcome M env s (s.storeTmail V M env).1 (s.storeTmail V M env).2 := by
  unfold TmailStore.storeTmail
  by_cases hfast : env.isFastPost = true
  · rw [if_pos hfast]
    exact .quiet error_ne_ok (SameBeside.refl s) (Dropped.refl h)
  rw [if_neg hfast]
  by_cases hshelter : (!env.flagAnonymous && M.isShelterBoard env.receiver &&
      !M.shelterMayPost (trimLower env.senderWalletId)) = true
  · rw [if_pos hshelter]
    exact .quiet error_ne_ok (SameBeside.refl s) (Dropped.refl h)
  · rw [if_neg hshelter]
    exact h.storeTmailInner

/-- What the store of a fast post does: nothing is stored, or the post is, under the verdict of its
registered key, or held for a registration. -/
inductive FastOutcome (M : Moment) (env : TmailEnvelopeV1) (s : TmailStore) : TmailStore → Prop where
  | quiet {s' : TmailStore} {gone : TmailEnvelopeV1 → Prop} (shrinks : Shrinks s s')
      (drop : Dropped s s' gone) : FastOutcome M env s s'
  | registered {s₁ : TmailStore} {reg : FastKey} (found : s.fastKeys.get env.fastName = some reg)
      (fresh : s.byMsgId.get env.id = none) (same : SameBeside s s₁) (indexed : s₁.Indexed)
      (holds : ∀ e, s₁.Holds e → s.Holds e ∨ e = env) :
      FastOutcome M env s (s₁.recorded env.id (.verified reg.nullifierHex M.now))
  | held {s₁ : TmailStore} (fresh : s.byMsgId.get env.id = none) (shrinks : Shrinks s s₁)
      (indexed : s₁.Indexed) (holds : ∀ e, s₁.Holds e → s.Holds e ∨ e = env) :
      FastOutcome M env s { s₁.recorded env.id .pending with
        fastPending := s₁.fastPending.insert ⟨env.fastName, env.id⟩ M.now }

theorem fastChecks_ok (h : s.fastChecks M env = .ok ()) :
    env.flagAnonymous = true ∧ env.isFastPost = true ∧ s.isPoll env.receiver = false := by
  unfold fastChecks at h
  by_cases hfast : (!env.flagAnonymous || !env.isFastPost) = true
  · rw [if_pos hfast] at h
    cases h
  rw [if_neg hfast] at h
  by_cases hpoll : s.isPoll env.receiver = true
  · rw [if_pos hpoll] at h
    cases h
  · have hboth : env.flagAnonymous = true ∧ env.isFastPost = true := by simpa using hfast
    exact ⟨hboth.1, hboth.2, Bool.not_eq_true _ ▸ hpoll⟩

/-- The store of a post outside polls is refused or keeps the post. -/
theorem Indexed.storeInner_noPoll (h : s.Indexed) (V : Vars) (M : Moment) (hpoll : s.isPoll env.receiver = false) :
    (∃ gone, (s.storeTmailInner V M env).1 ≠ .ok true ∧
      SameBeside s (s.storeTmailInner V M env).2 ∧
      Dropped s (s.storeTmailInner V M env).2 gone) ∨
    ((s.storeTmailInner V M env).1 = .ok true ∧ s.byMsgId.get env.id = none ∧
      SameBeside s (s.storeTmailInner V M env).2 ∧ (s.storeTmailInner V M env).2.Indexed ∧
      ∀ e, (s.storeTmailInner V M env).2.Holds e → s.Holds e ∨ e = env) := by
  have hout : StoreOutcome M env s (s.storeTmailInner V M env).1 (s.storeTmailInner V M env).2 :=
    h.storeTmailInner
  generalize s.storeTmailInner V M env = r at hout ⊢
  rcases r with ⟨r, s'⟩
  cases hout with
  | quiet hr hsame hdrop => exact Or.inl ⟨_, hr, hsame, hdrop⟩
  | stored hfresh _ hsame hindexed hholds => exact Or.inr ⟨rfl, hfresh, hsame, hindexed, hholds⟩
  | ballot _ hpoll' => cases hpoll.symm.trans hpoll'

/-- What the store of a post with a registered key does: nothing is stored, or the verdict is
recorded. -/
theorem storeRegistered_cases (V : Vars) (M : Moment) (s : TmailStore) (env : TmailEnvelopeV1)
    (reg : FastKey) :
    ((s.storeRegistered V M env reg).1 ≠ .ok true ∧ ((s.storeRegistered V M env reg).2 = s ∨
      (s.storeTmailInner V M env).1 ≠ .ok true ∧
        (s.storeRegistered V M env reg).2 = (s.storeTmailInner V M env).2)) ∨
    ((s.storeTmailInner V M env).1 = .ok true ∧ (s.storeRegistered V M env reg).2 =
      (s.storeTmailInner V M env).2.recorded env.id (.verified reg.nullifierHex M.now)) := by
  unfold TmailStore.storeRegistered
  cases M.flood with
  | error e => exact Or.inl ⟨error_ne_ok, Or.inl rfl⟩
  | ok _ =>
    simp only
    generalize s.storeTmailInner V M env = r
    rcases r with ⟨e | stored, s'⟩
    · exact Or.inl ⟨error_ne_ok, Or.inr ⟨error_ne_ok, rfl⟩⟩
    · cases stored with
      | false => exact Or.inl ⟨by simp, Or.inr ⟨by simp, rfl⟩⟩
      | true => exact Or.inr ⟨rfl, rfl⟩

/-- What the store of a post without one does, after what waits too long is let go: nothing is stored,
or the post waits. -/
theorem storeHeld_cases (V : Vars) (M : Moment) (s : TmailStore) (env : TmailEnvelopeV1) :
    ((s.storeHeld V M env).1 ≠ .ok true ∧ ((s.storeHeld V M env).2 = s.pruneFast V M ∨
      ((s.pruneFast V M).storeTmailInner V M env).1 ≠ .ok true ∧
        (s.storeHeld V M env).2 = ((s.pruneFast V M).storeTmailInner V M env).2)) ∨
    (((s.pruneFast V M).storeTmailInner V M env).1 = .ok true ∧ (s.storeHeld V M env).2 =
      { ((s.pruneFast V M).storeTmailInner V M env).2.recorded env.id .pending with
        fastPending := ((s.pruneFast V M).storeTmailInner V M env).2.fastPending.insert
          ⟨env.fastName, env.id⟩ M.now }) := by
  unfold TmailStore.storeHeld
  simp only
  by_cases hnone : ((s.pruneFast V M).fastRegpending.get env.fastName).isNone = true
  · rw [if_pos hnone]
    exact Or.inl ⟨error_ne_ok, Or.inl rfl⟩
  rw [if_neg hnone]
  by_cases hfull : (s.pruneFast V M).heldFull env.fastName = true
  · rw [if_pos hfull]
    exact Or.inl ⟨error_ne_ok, Or.inl rfl⟩
  rw [if_neg hfull]
  cases M.flood with
  | error e => exact Or.inl ⟨error_ne_ok, Or.inl rfl⟩
  | ok _ =>
    simp only
    generalize (s.pruneFast V M).storeTmailInner V M env = r
    rcases r with ⟨e | stored, s'⟩
    · exact Or.inl ⟨error_ne_ok, Or.inr ⟨error_ne_ok, rfl⟩⟩
    · cases stored with
      | false => exact Or.inl ⟨by simp, Or.inr ⟨by simp, rfl⟩⟩
      | true => exact Or.inr ⟨rfl, rfl⟩

/-- `send_fast_anonymous` refuses, knows the post already, or stores it under its registered key. -/
theorem sendFastAnonymous_cases (V : Vars) (M : Moment) (s : TmailStore) (env : TmailEnvelopeV1) :
    ((s.sendFastAnonymous V M env).1 ≠ .ok true ∧ (s.sendFastAnonymous V M env).2 = s) ∨
    ∃ reg, s.fastChecks M env = .ok () ∧ s.fastRegistration env = some reg ∧
      s.sendFastAnonymous V M env = s.storeRegistered V M env reg := by
  unfold TmailStore.sendFastAnonymous
  cases s.fastChecks M env with
  | error e => exact Or.inl ⟨error_ne_ok, rfl⟩
  | ok _ =>
    simp only
    cases s.fastRegistration env with
    | none => exact Or.inl ⟨error_ne_ok, rfl⟩
    | some reg =>
      simp only
      by_cases hshelter : (M.isShelterBoard env.receiver && !M.shelterRegistrationOk reg) = true
      · rw [if_pos hshelter]
        exact Or.inl ⟨error_ne_ok, rfl⟩
      rw [if_neg hshelter]
      by_cases hknown : (s.byMsgId.get env.id).isSome = true
      · rw [if_pos hknown]
        exact Or.inl ⟨by simp, rfl⟩
      · rw [if_neg hknown]
        exact Or.inr ⟨reg, trivial, rfl, rfl⟩

/-- `receive_fast_anonymous` refuses, knows the post already, or stores it: under its registered key,
or held. -/
theorem receiveFastAnonymous_cases (V : Vars) (M : Moment) (s : TmailStore)
    (env : TmailEnvelopeV1) : (s.receiveFastAnonymous V M env).2 = s ∨
    s.fastChecks M env = .ok () ∧ s.byMsgId.get env.id = none ∧
      ((∃ reg, (s.fastRegistration env).filter (fun reg =>
          !M.isShelterBoard env.receiver || M.shelterRegistrationOk reg) = some reg ∧
        s.receiveFastAnonymous V M env = s.storeRegistered V M env reg) ∨
      (s.fastRegistration env).filter (fun reg =>
          !M.isShelterBoard env.receiver || M.shelterRegistrationOk reg) = none ∧
        s.receiveFastAnonymous V M env = s.storeHeld V M env) := by
  unfold TmailStore.receiveFastAnonymous
  cases s.fastChecks M env with
  | error e => exact Or.inl rfl
  | ok _ =>
    simp only
    by_cases hknown : (s.byMsgId.get env.id).isSome = true
    · rw [if_pos hknown]
      exact Or.inl rfl
    rw [if_neg hknown]
    refine Or.inr ⟨trivial, by simpa using hknown, ?_⟩
    cases (s.fastRegistration env).filter fun reg =>
        !M.isShelterBoard env.receiver || M.shelterRegistrationOk reg with
    | none => exact Or.inr ⟨rfl, rfl⟩
    | some reg => exact Or.inl ⟨reg, rfl, rfl⟩

theorem Indexed.storeRegistered (h : s.Indexed) {reg : FastKey}
    (hpoll : s.isPoll env.receiver = false) (hreg : s.fastKeys.get env.fastName = some reg) :
    FastOutcome M env s (s.storeRegistered V M env reg).2 := by
  have hout := h.storeInner_noPoll V M hpoll
  rcases storeRegistered_cases V M s env reg with ⟨-, heq | ⟨hr, heq⟩⟩ | ⟨hr, heq⟩ <;> rw [heq]
  · exact .quiet (Shrinks.refl s) (Dropped.refl h)
  · rcases hout with ⟨gone, -, hsame, hdrop⟩ | ⟨hok, -⟩
    · exact .quiet hsame.shrinks hdrop
    · exact absurd hok hr
  · rcases hout with ⟨gone, hno, -⟩ | ⟨-, hfresh, hsame, hindexed, hholds⟩
    · exact absurd hr hno
    · exact .registered hreg hfresh hsame hindexed hholds

theorem Indexed.storeHeld (h : s.Indexed) (hpoll : s.isPoll env.receiver = false)
    (hfresh : s.byMsgId.get env.id = none) : FastOutcome M env s (s.storeHeld V M env).2 := by
  obtain ⟨hshrinks, hdrop⟩ := h.pruneFast (V := V) (M := M)
  have hpoll' : (s.pruneFast V M).isPoll env.receiver = false := by
    unfold TmailStore.isPoll at hpoll ⊢
    rw [hshrinks.polls]
    exact hpoll
  have hout := hdrop.indexed.storeInner_noPoll V M hpoll'
  rcases storeHeld_cases V M s env with ⟨-, heq | ⟨hr, heq⟩⟩ | ⟨hr, heq⟩ <;> rw [heq]
  · exact .quiet hshrinks hdrop
  · rcases hout with ⟨gone, -, hsame, hdrop'⟩ | ⟨hok, -⟩
    · exact .quiet (hshrinks.trans hsame.shrinks) (hdrop.trans hdrop')
    · exact absurd hok hr
  · rcases hout with ⟨gone, hno, -⟩ | ⟨-, -, hsame, hindexed, hholds⟩
    · exact absurd hr hno
    · exact .held hfresh (hshrinks.trans hsame.shrinks) hindexed fun e he =>
        (hholds e he).imp_left fun hheld => ((hdrop.holds e).mp hheld).1

theorem Indexed.sendFastAnonymous (h : s.Indexed) :
    FastOutcome M env s (s.sendFastAnonymous V M env).2 := by
  rcases sendFastAnonymous_cases V M s env with ⟨-, heq⟩ | ⟨reg, hchecks, hreg, heq⟩ <;> rw [heq]
  · exact .quiet (Shrinks.refl s) (Dropped.refl h)
  · exact h.storeRegistered (fastChecks_ok hchecks).2.2 hreg

theorem Indexed.receiveFastAnonymous (h : s.Indexed) :
    FastOutcome M env s (s.receiveFastAnonymous V M env).2 := by
  rcases receiveFastAnonymous_cases V M s env with
    heq | ⟨hchecks, hfresh, ⟨reg, hreg, heq⟩ | ⟨-, heq⟩⟩ <;> rw [heq]
  · exact .quiet (Shrinks.refl s) (Dropped.refl h)
  · exact h.storeRegistered (fastChecks_ok hchecks).2.2 (Option.filter_eq_some_iff.mp hreg).1
  · exact h.storeHeld (fastChecks_ok hchecks).2.2 hfresh

/-- What `send_anonymous` does: it fails, at most after a failed store, or its proof verified and the
verdict is recorded whatever the store says. -/
theorem sendAnonymous_cases (V : Vars) (M : Moment) (s : TmailStore) (env : TmailEnvelopeV1) :
    ((∃ e, (s.sendAnonymous V M env).1 = .error e) ∧
      ((s.sendAnonymous V M env).2 = s ∨ (∃ e, (s.storeTmail V M env).1 = .error e) ∧
        (s.sendAnonymous V M env).2 = (s.storeTmail V M env).2)) ∨
    ∃ proof n t stored, env.proof = some proof ∧ M.receiptDeposited proof.receiptSha256Hex = true ∧
      verifyAnonymousProof M env = .verified n t ∧ (s.storeTmail V M env).1 = .ok stored ∧
      s.sendAnonymous V M env =
        (.ok stored, (s.storeTmail V M env).2.setAnonVerdict V M env.id (.verified n t)) := by
  unfold sendAnonymous
  cases hproof : env.proof with
  | none => exact Or.inl ⟨⟨_, rfl⟩, Or.inl rfl⟩
  | some proof =>
    simp only
    by_cases hdep : M.receiptDeposited proof.receiptSha256Hex = true
    case neg =>
      rw [if_pos (by simp [hdep])]
      exact Or.inl ⟨⟨_, rfl⟩, Or.inl rfl⟩
    rw [if_neg (by simp [hdep])]
    cases hver : verifyAnonymousProof M env with
    | pending => exact Or.inl ⟨⟨_, rfl⟩, Or.inl rfl⟩
    | failed reason t => exact Or.inl ⟨⟨_, rfl⟩, Or.inl rfl⟩
    | verified n t =>
      simp only
      generalize s.storeTmail V M env = r
      rcases r with ⟨e | stored, s'⟩
      · exact Or.inl ⟨⟨_, rfl⟩, Or.inr ⟨⟨e, rfl⟩, rfl⟩⟩
      · exact Or.inr ⟨proof, n, t, stored, rfl, hdep, rfl, rfl, rfl⟩

theorem StoreOutcome.keeps {r : Except TmailStoreError Bool} (h : StoreOutcome M env s r s') :
    s'.Indexed ∧ ∀ e, s'.Holds e → s.Holds e ∨ e = env := by
  cases h with
  | quiet _ _ hdrop => exact ⟨hdrop.indexed, fun e he => Or.inl ((hdrop.holds e).mp he).1⟩
  | stored _ _ _ hindexed hholds => exact ⟨hindexed, hholds⟩
  | ballot _ _ _ _ hindexed hholds => exact ⟨hindexed, hholds⟩

theorem FastOutcome.keeps (h : FastOutcome M env s s') :
    s'.Indexed ∧ ∀ e, s'.Holds e → s.Holds e ∨ e = env := by
  cases h with
  | quiet _ hdrop => exact ⟨hdrop.indexed, fun e he => Or.inl ((hdrop.holds e).mp he).1⟩
  | registered _ _ _ hindexed hholds => exact ⟨hindexed.congr rfl rfl, hholds⟩
  | held _ _ hindexed hholds => exact ⟨hindexed.congr rfl rfl, hholds⟩

theorem Indexed.sendAnonymous (h : s.Indexed) : (s.sendAnonymous V M env).2.Indexed ∧
    ∀ e, (s.sendAnonymous V M env).2.Holds e → s.Holds e ∨ e = env := by
  have hout : StoreOutcome M env s (s.storeTmail V M env).1 (s.storeTmail V M env).2 := h.storeTmail
  have hstored := hout.keeps
  rcases sendAnonymous_cases V M s env with
    ⟨-, heq | ⟨-, heq⟩⟩ | ⟨_, n, t, _, _, _, _, _, heq⟩
  · rw [heq]
    exact ⟨h, fun e he => Or.inl he⟩
  · rw [heq]
    exact hstored
  · rw [heq]
    have hset := hstored.1.setAnonVerdict (V := V) (M := M) env.id (.verified n t)
    exact ⟨hset.indexed, fun e he => hstored.2 e (hset.holds e he)⟩

/-- The indexes agree, and every message passed its checks. -/
structure Healthy (s : TmailStore) : Prop where
  indexed : s.Indexed
  wellFormed : ∀ e, s.Holds e → e.wellFormed = true

theorem Healthy.of_keeps (h : s.Healthy) (hwf : env.wellFormed = true)
    (hkeeps : s'.Indexed ∧ ∀ e, s'.Holds e → s.Holds e ∨ e = env) : s'.Healthy := by
  refine ⟨hkeeps.1, fun e he => ?_⟩
  rcases hkeeps.2 e he with hold | rfl
  · exact h.wellFormed e hold
  · exact hwf

theorem Healthy.of_drop {gone : TmailEnvelopeV1 → Prop} (h : s.Healthy) (hdrop : Dropped s s' gone) :
    s'.Healthy :=
  ⟨hdrop.indexed, fun e he => h.wellFormed e ((hdrop.holds e).mp he).1⟩

theorem Healthy.of_verdict {msgId : Str} {verdict : AnonVerdict} (h : s.Healthy)
    (hstep : VerdictStep M msgId verdict s s') : s'.Healthy :=
  ⟨hstep.indexed, fun e he => h.wellFormed e (hstep.holds e he)⟩

/-- One call keeps the store healthy. -/
theorem Healthy.step (h : s.Healthy) (a : StoreAction) : (s.step V a).Healthy := by
  cases a with
  | gossip M env =>
    show (s.receive V M env).Healthy
    unfold receive
    by_cases hdrop : (M.isShelterBoard env.receiver || !env.wellFormed) = true
    · rw [if_pos hdrop]
      exact h
    rw [if_neg hdrop]
    have hwf : env.wellFormed = true := by
      by_contra hbad
      exact hdrop (by simp [hbad])
    by_cases hfast : env.isFastPost = true
    · rw [if_pos hfast]
      exact h.of_keeps hwf h.indexed.receiveFastAnonymous.keeps
    · rw [if_neg hfast]
      exact h.of_keeps hwf h.indexed.storeTmail.keeps
  | sendAnonymous M env =>
    show (if _ then _ else _ : TmailStore).Healthy
    by_cases hwf : env.wellFormed = true
    · rw [if_pos hwf]
      exact h.of_keeps hwf h.indexed.sendAnonymous
    · rw [if_neg hwf]
      exact h
  | sendFast M env =>
    show (if _ then _ else _ : TmailStore).Healthy
    by_cases hwf : env.wellFormed = true
    · rw [if_pos hwf]
      exact h.of_keeps hwf h.indexed.sendFastAnonymous.keeps
    · rw [if_neg hwf]
      exact h
  | sendNamed M env =>
    show (if _ then _ else _ : TmailStore).Healthy
    by_cases hwf : (env.wellFormed && !env.isAnonymous) = true
    · rw [if_pos hwf]
      exact h.of_keeps (Bool.and_eq_true_iff.mp hwf).1 h.indexed.storeTmail.keeps
    · rw [if_neg hwf]
      exact h
  | markPending M env =>
    show (if _ then _ else _ : TmailStore).Healthy
    by_cases hheld : s.Holds env ∧ env.proof.isSome = true
    · rw [if_pos hheld]
      exact h.of_verdict (h.indexed.setAnonVerdict (M := M) env.id .pending)
    · rw [if_neg hheld]
      exact h
  | verifyReceipt M env =>
    show (if _ then _ else _ : TmailStore).Healthy
    by_cases hwait : s.awaitsReceipt env = true
    · rw [if_pos hwait]
      exact h.of_verdict (h.indexed.setAnonVerdict (M := M) env.id _)
    · rw [if_neg hwait]
      exact h
  | burn M msgId => exact h.of_drop (h.indexed.deleteByMsgId msgId).2
  | prune now => exact h.of_drop (h.indexed.pruneExpired now).2
  | registerPoll wallet => exact h.of_drop (h.indexed.of_indexes rfl rfl)

end TmailStore

theorem StoreRun.healthy {V : Vars} {ok : TmailStore → StoreAction → Prop} {x : Traced}
    (h : StoreRun V ok x) : x.store.Healthy := by
  induction h with
  | start => exact ⟨TmailStore.Indexed.new, fun e he => by cases he.symm.trans (Tree.get_empty e.key)⟩
  | step a _ _ ih => exact ih.step a

end TetCore.Tmail

namespace TetCore.Sample

open TetCore.Lib TetCore.Tmail

/-- An anonymous post to one board, with one posting key. -/
def post (msgId : Str) (sentAtMs : Nat) (proof : Option TmailAnchorProof) (body : Bytes) :
    TmailEnvelopeV1 :=
  ⟨msgId, true, "anonymous".toList, List.replicate 64 'b', sentAtMs, 0, body,
    some ⟨List.replicate 64 'c', proof⟩⟩

def anchorProof : TmailAnchorProof := ⟨"image".toList, "journal".toList, "receipt".toList⟩

/-- Receipts are deposited, nothing is throttled, and the proofs of the posts with this body verify. -/
def moment (now : Nat) (body : Bytes) : Moment where
  now := now
  receiptDeposited := fun _ => true
  checkProof := fun env =>
    if env.e2ee = body then .verified "n".toList now
    else .failed "journal does not match".toList now
  flood := .ok ()
  isShelterBoard := fun _ => false
  shelterMayPost := fun _ => true
  shelterRegistrationOk := fun _ => true

end TetCore.Sample
