import TetCore.Tmail.Envelope
import TetCore.Tmail.Inbox
import TetCore.Tmail.Indexes

/-!
# Burns

Model of `tmail/burn.rs`: a revoke, its signature and its authorization, and what it does to the store
(`apply_burn_revoke`), in runs of the node's Tmail calls with the two checks at the door
(`check_sent_at`, `verify_tmail_envelope_v1`).

A burn leaves a tombstone until the message would have expired. No call removes it before
(`Tombs.invariant`), but the tombstone's time and the check of a later copy's time both rest on
`sent_at_ms` and `ttl_ms`, which a relaying peer can change (`Verified.altered`). So a message stays
burned as long as its copies come before the tombstone is reaped (`burned_stays`), and a copy with
another time that comes after it is stored again (`burned_returns`).

The store keeps of an envelope the fields it reads and bytes that stand for the others. `whole` is the
envelope with these, which `rest` gives. A call reads the clock once here. A send that the operator
hides or that is throttled changes nothing and is left out of a run.
-/

namespace TetCore.Tmail

open TetCore.Lib

/-- The envelope of a stored row. -/
def TmailEnvelopeV1.whole (rest : Bytes → WireEnvelope) (env : TmailEnvelopeV1) : WireEnvelope :=
  { rest env.e2ee with
    msgId := env.msgId
    flags := { (rest env.e2ee).flags with anonymous := env.flagAnonymous }
    senderWalletId := env.senderWalletId
    receiverWalletId := env.receiverWalletId
    sentAtMs := env.sentAtMs
    ttlMs := env.ttlMs
    anonymous := env.anonymous }

/-! ## Revokes -/

structure TmailBurnRevokeV1 where
  v : Nat
  kind : Str
  msgId : Str
  readerWalletId : Str
  readAtMs : Nat
  hybridSig : TmailHybridSig

inductive TmailBurnRevokeError where
  | unsupportedVersion (v : Nat)
  | kind (kind : Str)
  | emptyMsgId
  | invalidWalletId
  | signerMismatch
  | signature (e : String)
  | notBurnable
  | notAParty

inductive BurnRevokeOutcome where
  | burned (msgId : Str)
  | alreadyBurned (msgId : Str)
  | unknownMessage (msgId : Str)
  deriving DecidableEq

/-- `TMAIL_BURN_REVOKE_KIND`. -/
def tmailBurnRevokeKind : Str := "tmail_burn_revoke_v1".toList

section Revokes

variable (A : Auth) (rest : Bytes → WireEnvelope) (V : Vars) (M : Moment)

/-- `tmail_burn_revoke_auth_message_bytes`. -/
def tmailBurnRevokeAuthMessageBytes (rev : TmailBurnRevokeV1) (mldsaPubkeyB64 : Str) : Bytes :=
  utf8 (A.header "tet tmail burn revoke v1".toList ++ ("|msg_id=".toList ++ (trim rev.msgId ++
    ("|reader=".toList ++ (trimLower rev.readerWalletId ++ ("|read_at_ms=".toList ++
      (Json.decimal rev.readAtMs ++ ("|mldsa_pk=".toList ++ trim mldsaPubkeyB64))))))))

/-- `verify_tmail_burn_revoke_v1`. -/
def verifyTmailBurnRevokeV1 (rev : TmailBurnRevokeV1) : Except TmailBurnRevokeError Unit :=
  let reader := trimLower rev.readerWalletId
  let signer := trimLower rev.hybridSig.ed25519PubkeyHex
  if rev.v ≠ 1 then .error (.unsupportedVersion rev.v)
  else if rev.kind ≠ tmailBurnRevokeKind then .error (.kind rev.kind)
  else if trim rev.msgId = [] then .error .emptyMsgId
  else if !isHex64 reader then .error .invalidWalletId
  else if signer ≠ reader then .error .signerMismatch
  else match verifyHybrid A signer rev.hybridSig
      (tmailBurnRevokeAuthMessageBytes A rev rev.hybridSig.mldsaPubkeyB64) with
    | .error e => .error (.signature e)
    | .ok () => .ok ()

/-- `authorize_burn_revoke`. -/
def authorizeBurnRevoke (rev : TmailBurnRevokeV1) (target : WireEnvelope) :
    Except TmailBurnRevokeError Unit :=
  let reader := trimLower rev.readerWalletId
  if !target.flags.burnAfterRead then .error .notBurnable
  else if reader ≠ trimLower target.senderWalletId ∧ reader ≠ trimLower target.receiverWalletId then
    .error .notAParty
  else .ok ()

/-- `is_burned`. -/
def TmailStore.isBurned (s : TmailStore) (msgId : Str) : Bool :=
  match s.byMsgId.get (trim msgId) with
  | some (.burned _) => true
  | _ => false

/-- `apply_burn_revoke`. -/
def TmailStore.applyBurnRevoke (s : TmailStore) (rev : TmailBurnRevokeV1) :
    Except TmailBurnRevokeError BurnRevokeOutcome × TmailStore :=
  let msgId := trim rev.msgId
  match verifyTmailBurnRevokeV1 A rev with
  | .error e => (.error e, s)
  | .ok () => match s.getByMsgId msgId with
    | none =>
      if s.isBurned msgId then (.ok (.alreadyBurned msgId), s)
      else (.ok (.unknownMessage msgId), s)
    | some target => match authorizeBurnRevoke rev (target.whole rest) with
      | .error e => (.error e, s)
      | .ok () => (.ok (.burned msgId), s.deleteByMsgId V M msgId)

end Revokes

/-! ## Runs -/

inductive NodeAction where
  /-- `handle_tmail_network_event` on an envelope. -/
  | gossip (env : TmailEnvelopeV1)
  /-- `post_tmail_send`. -/
  | send (env : TmailEnvelopeV1)
  /-- The verdict of a gossiped post with a proof, before its receipt is pulled. -/
  | markPending (env : TmailEnvelopeV1)
  /-- The receipt of a pending message was pulled. -/
  | verifyReceipt (env : TmailEnvelopeV1)
  /-- `apply_burn_revoke`, from a peer or a reader. -/
  | burnRevoke (rev : TmailBurnRevokeV1)
  /-- The reaper. -/
  | prune
  | registerPoll (wallet : Str)

/-- The store, and the messages that were burned. -/
structure Node where
  store : TmailStore
  burned : List TmailEnvelopeV1

section Node

variable (A : Auth) (W : World) (D : Decoders) (rest : Bytes → WireEnvelope) (V : Vars)

/-- The checks at the door. -/
def admits (M : Moment) (env : TmailEnvelopeV1) : Bool :=
  (checkSentAt env.flagAnonymous env.sentAtMs M.now).isOk &&
    (verifyTmailEnvelopeV1 A W D (env.whole rest)).isOk

/-- `post_tmail_send`, of an envelope that passed the door. -/
def TmailStore.sendAdmitted (M : Moment) (s : TmailStore) (env : TmailEnvelopeV1) : TmailStore :=
  if env.flagAnonymous && env.isFastPost then (s.sendFastAnonymous V M env).2
  else if env.flagAnonymous then (s.sendAnonymous V M env).2
  else (s.storeTmail V M env).2

/-- One call. -/
def TmailStore.nodeStep (M : Moment) (s : TmailStore) : NodeAction → TmailStore
  | .gossip env => if admits A W D rest M env then s.receive V M env else s
  | .send env => if admits A W D rest M env then s.sendAdmitted V M env else s
  | .markPending env => s.step V (.markPending M env)
  | .verifyReceipt env => s.step V (.verifyReceipt M env)
  | .burnRevoke rev => (s.applyBurnRevoke A rest V M rev).2
  | .prune => s.pruneExpired V M.now
  | .registerPoll wallet => s.step V (.registerPoll wallet)

/-- The message that was burned, by the outcome. -/
def TmailStore.burnedBy (s : TmailStore) :
    Except TmailBurnRevokeError BurnRevokeOutcome → Option TmailEnvelopeV1
  | .ok (.burned msgId) => s.getByMsgId msgId
  | _ => none

/-- The message a call burns. -/
def TmailStore.burns (M : Moment) (s : TmailStore) : NodeAction → Option TmailEnvelopeV1
  | .burnRevoke rev => s.burnedBy (s.applyBurnRevoke A rest V M rev).1
  | _ => none

def Node.step (M : Moment) (x : Node) (a : NodeAction) : Node :=
  ⟨x.store.nodeStep A W D rest V M a, (x.store.burns A rest V M a).toList ++ x.burned⟩

/-- What calls lead to from a new store by a time, the clock not going back, each call where `ok` allows
it. -/
inductive NodeRun (ok : Moment → Node → NodeAction → Prop) : Nat → Node → Prop where
  | start (t : Nat) : NodeRun ok t ⟨TmailStore.new, []⟩
  | step {t : Nat} {x : Node} (M : Moment) (a : NodeAction) (before : NodeRun ok t x)
      (later : t ≤ M.now) (allowed : ok M x a) : NodeRun ok M.now (x.step A W D rest V M a)

/-- The envelope verifies under the signature of `b`, with its message id. -/
def IsCopy (b env : TmailEnvelopeV1) : Prop :=
  env.id = b.id ∧ (env.whole rest).hybridSig = (b.whole rest).hybridSig ∧
    verifyTmailEnvelopeV1 A W D (env.whole rest) = .ok ()

/-- No burned message is returned, in any copy. -/
def StaysBurned (x : Node) : Prop :=
  ∀ b ∈ x.burned, ∀ env, IsCopy A W D rest b env →
    (∀ msgId, x.store.getByMsgId msgId ≠ some env) ∧
      ∀ (M : Moment) walletId limit, env ∉ x.store.getInbox V M walletId limit

/-- A copy of a burned message comes while the message would not have expired, or before the tombstone
is reaped. -/
def Timely (M : Moment) (x : Node) : NodeAction → Prop
  | .gossip env | .send env => ∀ b ∈ x.burned, IsCopy A W D rest b env →
      M.now ≤ TmailStore.expireAt V b ∨ (x.store.byMsgId.get env.id).isSome = true
  | _ => True

end Node

/-! ## Tombstones -/

namespace TmailStore

variable {V : Vars} {M : Moment} {s s' : TmailStore} {env e : TmailEnvelopeV1}

/-- The tombstones that have not run out are still there. -/
def Tombs (now : Nat) (s₀ s : TmailStore) : Prop :=
  s.Indexed ∧ ∀ id t, s₀.byMsgId.get id = some (.burned t) → now ≤ t →
    s.byMsgId.get id = some (.burned t)

/-- **Every edit leaves the tombstones** that have not run out. -/
theorem Tombs.invariant (now : Nat) (s₀ : TmailStore) : IndexInvariant now (Tombs now s₀) where
  indexed h := h.1
  congr h hrows hids := ⟨h.1.congr hrows hids, fun id t htomb hlive => by
    rw [hids]
    exact h.2 id t htomb hlive⟩
  drop {s env mark} h hheld _ := by
    have honly : ∀ e, s.Holds e → e.id = env.id → e = env :=
      fun e he hid => h.1.unique e env he hheld hid
    refine ⟨(h.1.dropRow mark honly).indexed, fun id t htomb hlive => ?_⟩
    have hrow := h.2 id t htomb hlive
    rw [get_dropRow (h.1.valid env hheld).2, if_neg]
    · exact hrow
    · -- the row of a held message is live
      intro hid
      rw [← hid, h.1.live env hheld] at hrow
      cases hrow
  reap {s} h := by
    refine ⟨(h.1.reapTombs now).indexed, fun id t htomb hlive => ?_⟩
    have hrow := h.2 id t htomb hlive
    show ((s.staleTombs now).foldl Tree.remove s.byMsgId).get id = _
    rw [Tree.get_foldl_remove, if_neg]
    · exact hrow
    · intro hstale
      obtain ⟨⟨k, row⟩, hr, hsome⟩ := List.mem_filterMap.mp hstale
      rw [Tree.mem_iter] at hr
      cases row with
      | live receiver => cases hsome
      | pruned u =>
        rw [(Option.some.inj (Option.ite_none_right_eq_some.mp hsome).2 : k = id), hrow] at hr
        cases hr
      | burned u =>
        obtain ⟨hlt, hk⟩ := Option.ite_none_right_eq_some.mp hsome
        rw [(Option.some.inj hk : k = id), hrow] at hr
        cases hr
        exact absurd hlt (Nat.not_lt.mpr hlive)
  add {s env} h hfresh hvalid := by
    refine ⟨(h.1.addRows hfresh hvalid).1, fun id t htomb hlive => ?_⟩
    have hrow := h.2 id t htomb hlive
    show (s.byMsgId.insert env.id (.live env.receiver)).get id = _
    rw [Tree.get_insert, if_neg]
    · exact hrow
    · intro hid
      rw [← hid, hfresh] at hrow
      cases hrow

/-- A burn leaves the tombstone of its message. -/
theorem Indexed.burn_marks (h : s.Indexed) (hheld : s.Holds env) :
    (s.deleteByMsgId V M env.id).byMsgId.get env.id = some (.burned (expireAt V env)) := by
  have hfind : s.indexKeyForMsgId (trim env.id) = some env.key :=
    h.indexKeyForMsgId_iff.mpr ⟨env, hheld, (trim_id env).symm, rfl⟩
  have hget : s.byReceiver.get env.key = some env := hheld
  unfold TmailStore.deleteByMsgId
  rw [hfind]
  simp only [hget]
  rw [trim_id, get_dropRow (h.valid env hheld).2, if_pos rfl]

/-! ## What a call stores -/

theorem StoreOutcome.adds {r : Except TmailStoreError Bool} (h : StoreOutcome M env s r s')
    (he : s'.Holds e) : s.Holds e ∨ e = env ∧ s.byMsgId.get env.id = none := by
  cases h with
  | quiet _ _ hdrop => exact Or.inl ((hdrop.holds e).mp he).1
  | stored hfresh _ _ _ hholds => exact (hholds e he).imp_right fun heq => ⟨heq, hfresh⟩
  | ballot hfresh _ _ _ _ hholds => exact (hholds e he).imp_right fun heq => ⟨heq, hfresh⟩

theorem FastOutcome.adds (h : FastOutcome M env s s') (he : s'.Holds e) :
    s.Holds e ∨ e = env ∧ s.byMsgId.get env.id = none := by
  cases h with
  | quiet _ hdrop => exact Or.inl ((hdrop.holds e).mp he).1
  | registered _ hfresh _ _ hholds => exact (hholds e he).imp_right fun heq => ⟨heq, hfresh⟩
  | held hfresh _ _ hholds => exact (hholds e he).imp_right fun heq => ⟨heq, hfresh⟩

theorem Indexed.storeTmail_adds (h : s.Indexed) (he : (s.storeTmail V M env).2.Holds e) :
    s.Holds e ∨ e = env ∧ s.byMsgId.get env.id = none := by
  have hout : StoreOutcome M env s (s.storeTmail V M env).1 (s.storeTmail V M env).2 := h.storeTmail
  exact hout.adds he

theorem Indexed.sendAnonymous_adds (h : s.Indexed) (he : (s.sendAnonymous V M env).2.Holds e) :
    s.Holds e ∨ e = env ∧ s.byMsgId.get env.id = none := by
  have hout : StoreOutcome M env s (s.storeTmail V M env).1 (s.storeTmail V M env).2 := h.storeTmail
  rcases sendAnonymous_cases V M s env with
    ⟨-, heq | ⟨-, heq⟩⟩ | ⟨_, n, t, _, _, _, _, _, heq⟩
  · rw [heq] at he
    exact Or.inl he
  · rw [heq] at he
    exact hout.adds he
  · rw [heq] at he
    have hset := hout.keeps.1.setAnonVerdict (V := V) (M := M) env.id (.verified n t)
    exact hout.adds (hset.holds e he)

end TmailStore

/-! ## Steps -/

section Steps

variable {A : Auth} {W : World} {D : Decoders} {rest : Bytes → WireEnvelope} {V : Vars} {M : Moment}
  {s : TmailStore} {x : Node} {a : NodeAction} {b e env : TmailEnvelopeV1}

/-- What a revoke does: nothing, or it burns the message held under its id. -/
theorem applyBurnRevoke_result (A : Auth) (rest : Bytes → WireEnvelope) (V : Vars) (M : Moment)
    (s : TmailStore) (rev : TmailBurnRevokeV1) :
    (∃ r, s.applyBurnRevoke A rest V M rev = (r, s) ∧ s.burnedBy r = none) ∨
    ∃ b, s.getByMsgId (trim rev.msgId) = some b ∧ s.applyBurnRevoke A rest V M rev =
      (.ok (.burned (trim rev.msgId)), s.deleteByMsgId V M (trim rev.msgId)) := by
  unfold TmailStore.applyBurnRevoke
  cases verifyTmailBurnRevokeV1 A rev with
  | error e => exact Or.inl ⟨_, rfl, rfl⟩
  | ok _ =>
    simp only
    cases s.getByMsgId (trim rev.msgId) with
    | none =>
      simp only
      by_cases hburned : s.isBurned (trim rev.msgId) = true
      · rw [if_pos hburned]
        exact Or.inl ⟨_, rfl, rfl⟩
      · rw [if_neg hburned]
        exact Or.inl ⟨_, rfl, rfl⟩
    | some target =>
      simp only
      cases authorizeBurnRevoke rev (target.whole rest) with
      | error e => exact Or.inl ⟨_, rfl, rfl⟩
      | ok _ => exact Or.inr ⟨target, rfl, rfl⟩

theorem applyBurnRevoke_cases (A : Auth) (rest : Bytes → WireEnvelope) (V : Vars) (M : Moment)
    (h : s.Indexed) (rev : TmailBurnRevokeV1) :
    ((s.applyBurnRevoke A rest V M rev).2 = s ∧ s.burns A rest V M (.burnRevoke rev) = none) ∨
    ∃ b, s.Holds b ∧ s.burns A rest V M (.burnRevoke rev) = some b ∧
      (s.applyBurnRevoke A rest V M rev).2 = s.deleteByMsgId V M b.id := by
  have hburns : s.burns A rest V M (.burnRevoke rev) =
      s.burnedBy (s.applyBurnRevoke A rest V M rev).1 := rfl
  rw [hburns]
  rcases applyBurnRevoke_result A rest V M s rev with
    ⟨r, heq, hnone⟩ | ⟨b, hget, heq⟩
  · rw [heq]
    exact Or.inl ⟨rfl, hnone⟩
  · rw [heq]
    obtain ⟨hheld, hid⟩ := h.getByMsgId_iff.mp hget
    refine Or.inr ⟨b, hheld, hget, ?_⟩
    rw [hid, trim_trim]

/-- A property of the indexes that every edit keeps is kept by every call of a node. -/
theorem IndexInvariant.nodeStep {P : TmailStore → Prop}
    (hP : TmailStore.IndexInvariant M.now P) (h : P s) (a : NodeAction) :
    P (s.nodeStep A W D rest V M a) := by
  cases a with
  | gossip env =>
    show P (if _ then _ else _)
    by_cases hdoor : admits A W D rest M env = true
    · rw [if_pos hdoor]
      unfold TmailStore.receive
      by_cases hdrop : (M.isShelterBoard env.receiver || !env.wellFormed) = true
      · rw [if_pos hdrop]
        exact h
      rw [if_neg hdrop]
      by_cases hfast : env.isFastPost = true
      · rw [if_pos hfast]
        exact hP.receiveFastAnonymous h
      · rw [if_neg hfast]
        exact hP.storeTmail h
    · rw [if_neg hdoor]
      exact h
  | send env =>
    show P (if _ then _ else _)
    by_cases hdoor : admits A W D rest M env = true
    · rw [if_pos hdoor]
      unfold TmailStore.sendAdmitted
      by_cases hfast : (env.flagAnonymous && env.isFastPost) = true
      · rw [if_pos hfast]
        exact hP.sendFastAnonymous h
      rw [if_neg hfast]
      by_cases hanon : env.flagAnonymous = true
      · rw [if_pos hanon]
        exact hP.sendAnonymous h
      · rw [if_neg hanon]
        exact hP.storeTmail h
    · rw [if_neg hdoor]
      exact h
  | markPending env =>
    show P (if _ then _ else _)
    by_cases hheld : s.Holds env ∧ env.proof.isSome = true
    · rw [if_pos hheld]
      exact hP.setAnonVerdict h env.id _
    · rw [if_neg hheld]
      exact h
  | verifyReceipt env =>
    show P (if _ then _ else _)
    by_cases hwait : s.awaitsReceipt env = true
    · rw [if_pos hwait]
      exact hP.setAnonVerdict h env.id _
    · rw [if_neg hwait]
      exact h
  | burnRevoke rev =>
    show P (s.applyBurnRevoke A rest V M rev).2
    rcases applyBurnRevoke_cases A rest V M (hP.indexed h) rev with ⟨heq, -⟩ | ⟨b, -, -, heq⟩
    · rw [heq]
      exact h
    · rw [heq]
      exact hP.deleteByMsgId h b.id
  | prune => exact hP.pruneExpired h
  | registerPoll wallet => exact hP.congr h rfl rfl

/-- **What a call leaves** was held before, or is the envelope that was delivered, under an id without a
row. -/
theorem nodeStep_holds (h : s.Indexed) (he : (s.nodeStep A W D rest V M a).Holds e) :
    s.Holds e ∨ (a = .gossip e ∨ a = .send e) ∧ s.byMsgId.get e.id = none := by
  cases a with
  | gossip env =>
    have he : (if admits A W D rest M env then s.receive V M env else s).Holds e := he
    by_cases hdoor : admits A W D rest M env = true
    case neg =>
      rw [if_neg hdoor] at he
      exact Or.inl he
    rw [if_pos hdoor] at he
    unfold TmailStore.receive at he
    by_cases hdrop : (M.isShelterBoard env.receiver || !env.wellFormed) = true
    · rw [if_pos hdrop] at he
      exact Or.inl he
    rw [if_neg hdrop] at he
    have hadds : s.Holds e ∨ e = env ∧ s.byMsgId.get env.id = none := by
      by_cases hfast : env.isFastPost = true
      · rw [if_pos hfast] at he
        exact h.receiveFastAnonymous.adds he
      · rw [if_neg hfast] at he
        exact h.storeTmail_adds he
    refine hadds.imp_right ?_
    rintro ⟨rfl, hfresh⟩
    exact ⟨Or.inl rfl, hfresh⟩
  | send env =>
    have he : (if admits A W D rest M env then s.sendAdmitted V M env else s).Holds e := he
    by_cases hdoor : admits A W D rest M env = true
    case neg =>
      rw [if_neg hdoor] at he
      exact Or.inl he
    rw [if_pos hdoor] at he
    unfold TmailStore.sendAdmitted at he
    have hadds : s.Holds e ∨ e = env ∧ s.byMsgId.get env.id = none := by
      by_cases hfast : (env.flagAnonymous && env.isFastPost) = true
      · rw [if_pos hfast] at he
        exact h.sendFastAnonymous.adds he
      rw [if_neg hfast] at he
      by_cases hanon : env.flagAnonymous = true
      · rw [if_pos hanon] at he
        exact h.sendAnonymous_adds he
      · rw [if_neg hanon] at he
        exact h.storeTmail_adds he
    refine hadds.imp_right ?_
    rintro ⟨rfl, hfresh⟩
    exact ⟨Or.inr rfl, hfresh⟩
  | markPending env =>
    have he : (if s.Holds env ∧ env.proof.isSome = true then
      s.setAnonVerdict V M env.id .pending else s).Holds e := he
    by_cases hheld : s.Holds env ∧ env.proof.isSome = true
    · rw [if_pos hheld] at he
      exact Or.inl ((h.setAnonVerdict (M := M) env.id .pending).holds e he)
    · rw [if_neg hheld] at he
      exact Or.inl he
  | verifyReceipt env =>
    have he : (if s.awaitsReceipt env then
      s.setAnonVerdict V M env.id (verifyAnonymousProof M env) else s).Holds e := he
    by_cases hwait : s.awaitsReceipt env = true
    · rw [if_pos hwait] at he
      exact Or.inl ((h.setAnonVerdict (M := M) env.id _).holds e he)
    · rw [if_neg hwait] at he
      exact Or.inl he
  | burnRevoke rev =>
    have he : (s.applyBurnRevoke A rest V M rev).2.Holds e := he
    rcases applyBurnRevoke_cases A rest V M h rev with ⟨heq, -⟩ | ⟨b, -, -, heq⟩
    · rw [heq] at he
      exact Or.inl he
    · rw [heq] at he
      exact Or.inl (((h.deleteByMsgId b.id).2.holds e).mp he).1
  | prune => exact Or.inl (((h.pruneExpired M.now).2.holds e).mp he).1
  | registerPoll wallet => exact Or.inl he

/-- What a call burns is gone, and marked. -/
theorem nodeStep_burns (h : s.Indexed) (hburns : s.burns A rest V M a = some b) :
    s.Holds b ∧ (s.nodeStep A W D rest V M a).byMsgId.get b.id =
      some (.burned (TmailStore.expireAt V b)) ∧
    ∀ e, (s.nodeStep A W D rest V M a).Holds e → e.id ≠ b.id := by
  cases a with
  | burnRevoke rev =>
    rcases applyBurnRevoke_cases A rest V M h rev with
      ⟨-, hnone⟩ | ⟨b', hheld, hsome, heq⟩
    · rw [hburns] at hnone
      cases hnone
    · rw [hburns] at hsome
      cases hsome
      have hstep : s.nodeStep A W D rest V M (.burnRevoke rev) = s.deleteByMsgId V M b.id := heq
      rw [hstep]
      refine ⟨hheld, h.burn_marks hheld, fun e he hid => ?_⟩
      exact (((h.deleteByMsgId b.id).2.holds e).mp he).2 (hid.trans (TmailStore.trim_id b).symm)
  | _ => cases hburns

/-- What the door lets in is well formed. -/
theorem wellFormed_of_admits (h : admits A W D rest M env = true) : env.wellFormed = true := by
  unfold admits at h
  obtain ⟨msg, hver⟩ :=
    verifyTmailEnvelopeV1_ok.mp (eq_ok_of_isOk (Bool.and_eq_true_iff.mp h).2)
  have hflag : env.flagAnonymous = env.isAnonymous := by
    have hfeatures := hver.features
    unfold verifyFeatures at hfeatures
    by_contra hne
    have hne : (env.whole rest).flags.anonymous ≠ (env.whole rest).anonymous.isSome := hne
    rw [if_pos hne] at hfeatures
    split_ifs at hfeatures
  have hreceiver : isHex64 env.receiver = true := hver.receiver
  have hsigner := hver.signer
  have hsame : (env.whole rest).anonymous = env.anonymous := rfl
  have hsender : (env.whole rest).senderWalletId = env.senderWalletId := rfl
  unfold verifySigner at hsigner
  rw [hsame, hsender] at hsigner
  unfold TmailEnvelopeV1.wellFormed
  rw [hflag, hreceiver, beq_self_eq_true, Bool.true_and, Bool.true_and]
  unfold TmailEnvelopeV1.isAnonymous TmailEnvelopeV1.postingKey
  cases hanon : env.anonymous with
  | none =>
    rw [hanon] at hsigner
    simp only at hsigner
    by_cases hhex : isHex64 (trimLower env.senderWalletId) = true
    · exact hhex
    · rw [if_pos (by simpa using hhex)] at hsigner
      cases hsigner
  | some anon =>
    rw [hanon] at hsigner
    simp only at hsigner
    by_cases hsentinel : trimLower env.senderWalletId = anonymousSentinel
    case neg =>
      rw [if_pos hsentinel] at hsigner
      cases hsigner
    rw [if_neg (not_not_intro hsentinel)] at hsigner
    by_cases hhex : isHex64 (trimLower anon.ephemeralWalletId) = true
    · rw [Option.isSome_some, if_pos rfl, hsentinel]
      exact Bool.and_eq_true_iff.mpr ⟨beq_self_eq_true _, hhex⟩
    · rw [if_pos (by simpa using hhex)] at hsigner
      cases hsigner

/-! ## Runs -/

/-- Burned messages have their tombstones until they would have expired, and no copy of them is
held. -/
structure Node.Burnt (A : Auth) (W : World) (D : Decoders) (rest : Bytes → WireEnvelope) (V : Vars)
    (t : Nat) (x : Node) : Prop where
  indexed : x.store.Indexed
  marked : ∀ b ∈ x.burned, t ≤ TmailStore.expireAt V b →
    x.store.byMsgId.get b.id = some (.burned (TmailStore.expireAt V b))
  gone : ∀ b ∈ x.burned, ∀ e, x.store.Holds e → ¬ IsCopy A W D rest b e

variable {t : Nat}

/-- A copy that is stored now is of no burned message, when it comes in time. -/
theorem Node.Burnt.not_copy (h : x.Burnt A W D rest V t) (hlater : t ≤ M.now)
    (hok : Timely A W D rest V M x a) (ha : a = .gossip e ∨ a = .send e)
    (hfresh : x.store.byMsgId.get e.id = none) (hb : b ∈ x.burned) :
    ¬ IsCopy A W D rest b e := by
  intro hcopy
  have htimely : M.now ≤ TmailStore.expireAt V b ∨ (x.store.byMsgId.get e.id).isSome = true := by
    rcases ha with rfl | rfl
    · exact hok b hb hcopy
    · exact hok b hb hcopy
  rcases htimely with hlive | hknown
  · have hmark := h.marked b hb (hlater.trans hlive)
    rw [← hcopy.1, hfresh] at hmark
    cases hmark
  · rw [hfresh] at hknown
    cases hknown

/-- One call. -/
theorem Node.Burnt.step (h : x.Burnt A W D rest V t) (hlater : t ≤ M.now)
    (hok : Timely A W D rest V M x a) : (x.step A W D rest V M a).Burnt A W D rest V M.now := by
  have htombs : TmailStore.Tombs M.now x.store (x.store.nodeStep A W D rest V M a) :=
    IndexInvariant.nodeStep (TmailStore.Tombs.invariant M.now x.store)
      ⟨h.indexed, fun _ _ htomb _ => htomb⟩ a
  -- a message burned before, or burned by this call
  have hsplit : ∀ b ∈ (x.step A W D rest V M a).burned,
      x.store.burns A rest V M a = some b ∨ b ∈ x.burned := by
    intro b hb
    rcases List.mem_append.mp hb with hnew | hold
    · exact Or.inl (Option.mem_toList.mp hnew)
    · exact Or.inr hold
  refine ⟨htombs.1, fun b hb hlive => ?_, fun b hb e he hcopy => ?_⟩
  · rcases hsplit b hb with hnew | hold
    · exact (nodeStep_burns (W := W) (D := D) h.indexed hnew).2.1
    · exact htombs.2 b.id _ (h.marked b hold (hlater.trans hlive)) hlive
  · rcases hsplit b hb with hnew | hold
    · exact (nodeStep_burns (W := W) (D := D) h.indexed hnew).2.2 e he hcopy.1
    · rcases nodeStep_holds h.indexed he with hbefore | ⟨ha, hfresh⟩
      · exact h.gone b hold e hbefore hcopy
      · exact h.not_copy hlater hok ha hfresh hold hcopy

theorem NodeRun.burnt (h : NodeRun A W D rest V (Timely A W D rest V) t x) :
    x.Burnt A W D rest V t := by
  induction h with
  | start t => exact ⟨TmailStore.Indexed.new, by simp, by simp⟩
  | step M a _ hlater hok ih => exact ih.step hlater hok

end Steps

end TetCore.Tmail

namespace TetCore.Sample

open TetCore.Lib TetCore.Tmail

/-- A letter to burn after reading. -/
def burnWire : WireEnvelope := signEnvelope { unsignedLetter with flags := ⟨true, false, true, false⟩ }

/-- The letter as the store reads it, with a time and a lifetime. -/
def burnLetter (sentAtMs ttlMs : Nat) : TmailEnvelopeV1 :=
  ⟨"m|1".toList, false, wallet 'a', wallet 'b', sentAtMs, ttlMs, [], none⟩

/-- The reader's revoke. -/
def revoke : TmailBurnRevokeV1 :=
  let unsigned : TmailBurnRevokeV1 :=
    ⟨1, tmailBurnRevokeKind, "m|1".toList, wallet 'b', 2000, ⟨wallet 'b', [], "key".toList, []⟩⟩
  let msg := tmailBurnRevokeAuthMessageBytes auth unsigned "key".toList
  { unsigned with
    hybridSig := ⟨wallet 'b', sign (wallet 'b') msg, "key".toList, sign "key".toList msg⟩ }

/-- One call on the sample chain. -/
def nodeStep (x : Node) (now : Nat) (a : NodeAction) : Node :=
  x.step auth (World.sample 0) decoders (fun _ => burnWire) {} (moment now []) a

/-- The letter is sent, and its reader burns it. -/
def sentLetter : Node := nodeStep ⟨TmailStore.new, []⟩ 1000 (.send (burnLetter 1000 60000))

def burnedLetter : Node := nodeStep sentLetter 2000 (.burnRevoke revoke)

/-- A peer passes the letter on within the minute. -/
def repeatedLetter : Node := nodeStep burnedLetter 3000 (.gossip (burnLetter 1000 60000))

/-- The tombstone is reaped, and a peer passes the letter on with the time of day. -/
def reapedLetter : Node := nodeStep burnedLetter 700000 .prune

def returnedLetter : Node := nodeStep reapedLetter 700000 (.gossip (burnLetter 700000 60000))

end TetCore.Sample

namespace TetCore.Tmail

open TetCore.Lib

/-- **A burned message stays burned** in every run of timely calls. -/
theorem burned_stays {A : Auth} {W : World} {D : Decoders} {rest : Bytes → WireEnvelope} {V : Vars}
    {t : Nat} {x : Node} (h : NodeRun A W D rest V (Timely A W D rest V) t x) :
    StaysBurned A W D rest V x := by
  have hburnt := h.burnt
  intro b hb e hcopy
  constructor
  · intro msgId hget
    exact hburnt.gone b hb e (hburnt.indexed.getByMsgId_iff.mp hget).1 hcopy
  · intro M walletId limit hmem
    exact hburnt.gone b hb e (hburnt.indexed.holds_of_mem_getInbox hmem) hcopy

/-- The letter is burned and does not come back within the minute. -/
theorem burned_stays_repeated :
    Sample.repeatedLetter.burned = [Sample.burnLetter 1000 60000] ∧
      StaysBurned Sample.auth (World.sample 0) Sample.decoders (fun _ => Sample.burnWire) {}
        Sample.repeatedLetter := by
  have hall : Sample.burnedLetter.burned = [Sample.burnLetter 1000 60000] ∧
      Sample.repeatedLetter.burned = [Sample.burnLetter 1000 60000] ∧
      3000 ≤ TmailStore.expireAt {} (Sample.burnLetter 1000 60000) := by
    decide +kernel
  obtain ⟨hburned, hstill, hlive⟩ := hall
  have hsent : NodeRun Sample.auth (World.sample 0) Sample.decoders (fun _ => Sample.burnWire) {}
      (Timely Sample.auth (World.sample 0) Sample.decoders (fun _ => Sample.burnWire) {}) 1000
      Sample.sentLetter :=
    NodeRun.step (Sample.moment 1000 []) (.send (Sample.burnLetter 1000 60000)) (NodeRun.start 0)
      (Nat.zero_le _) (fun b hb => by cases hb)
  have hburn : NodeRun Sample.auth (World.sample 0) Sample.decoders (fun _ => Sample.burnWire) {}
      (Timely Sample.auth (World.sample 0) Sample.decoders (fun _ => Sample.burnWire) {}) 2000
      Sample.burnedLetter :=
    NodeRun.step (Sample.moment 2000 []) (.burnRevoke Sample.revoke) hsent (by decide) trivial
  refine ⟨hstill, burned_stays (NodeRun.step (Sample.moment 3000 [])
    (.gossip (Sample.burnLetter 1000 60000)) hburn (by decide) fun b hb _ => Or.inl ?_)⟩
  rw [hburned] at hb
  rw [List.mem_singleton.mp hb]
  exact hlive

/-- The letter comes back with the time of day, once its tombstone is reaped. -/
theorem burned_returns :
    ¬ ∀ A W D rest V t x, Auth.Lawful A → NodeRun A W D rest V (fun _ _ _ => True) t x →
      StaysBurned A W D rest V x := by
  intro h
  have hall : Sample.returnedLetter.burned = [Sample.burnLetter 1000 60000] ∧
      Sample.returnedLetter.store.getByMsgId "m|1".toList = some (Sample.burnLetter 700000 60000) ∧
      (verifyTmailEnvelopeV1 Sample.auth (World.sample 0) Sample.decoders
        ((Sample.burnLetter 700000 60000).whole fun _ => Sample.burnWire)).isOk = true := by
    decide +kernel
  obtain ⟨hburned, hget, hver⟩ := hall
  have hrun : NodeRun Sample.auth (World.sample 0) Sample.decoders (fun _ => Sample.burnWire) {}
      (fun _ _ _ => True) 700000 Sample.returnedLetter :=
    NodeRun.step (Sample.moment 700000 []) _ (NodeRun.step (Sample.moment 700000 []) _
      (NodeRun.step (Sample.moment 2000 []) _ (NodeRun.step (Sample.moment 1000 []) _
        (NodeRun.start 0) (Nat.zero_le _) trivial) (by decide) trivial) (by decide) trivial)
      (by decide) trivial
  have hstays := h Sample.auth (World.sample 0) Sample.decoders (fun _ => Sample.burnWire) {}
    700000 Sample.returnedLetter Sample.auth_lawful hrun
  have hcopy : IsCopy Sample.auth (World.sample 0) Sample.decoders (fun _ => Sample.burnWire)
      (Sample.burnLetter 1000 60000) (Sample.burnLetter 700000 60000) :=
    ⟨rfl, rfl, eq_ok_of_isOk hver⟩
  exact (hstays _ (by rw [hburned]; exact List.mem_cons_self) _ hcopy).1 _ hget

end TetCore.Tmail
