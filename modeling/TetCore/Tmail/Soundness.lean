import TetCore.Tmail.Runs

/-!
# Verified means verified

The verdicts, the messages, the registrations of posting keys and the held fast posts are separate
trees joined by the message id, which senders choose. A verdict outlives its message, and so does the
row of a held post; `send_anonymous` records its verdict under the id even when another message is
stored there. So a message can come to hold the verdict of another.

`verdicts_sound`: in every run in which `send_anonymous` meets no other message under its id, and no
anonymous message is stored under an id that still has a held row or, by gossip, a `Verified` verdict,
each stored anonymous message on record as `Verified` was verified itself, or is a fast post whose
posting key was registered by a message that was, and each registered key was registered by such a
message.
-/

namespace TetCore.Tmail

open TetCore.Lib TmailStore

/-- The envelope's proof verified with the nullifier. -/
def VerifiedWith (log : List StoreEvent) (env : TmailEnvelopeV1) (n : Str) : Prop :=
  ∃ t, .verified env (.verified n t) ∈ log

/-- The envelope's proof verified with the nullifier and registered its posting key, to its receiver on
its day, under `name`. -/
def RegisteredBy (log : List StoreEvent) (env : TmailEnvelopeV1) (name : FastName) (n : Str) : Prop :=
  VerifiedWith log env n ∧ .registered env n ∈ log ∧ env.fastName = name

/-- The nullifier is the message's own, or, for a fast post, that of the registration of its posting
key to its receiver on its day. -/
def Justified (log : List StoreEvent) (env : TmailEnvelopeV1) (n : Str) : Prop :=
  VerifiedWith log env n ∨ env.isFastPost = true ∧ ∃ by', RegisteredBy log by' env.fastName n

/-- Every `Verified` verdict and every registration is justified, and a message under the id of a held
row is the post it was held for. -/
structure Sound (log : List StoreEvent) (s : TmailStore) : Prop where
  indexed : s.Indexed
  verdicts : ∀ env, s.Holds env → env.isAnonymous = true → ∀ n t,
    s.anonVerdict.get env.id = some (.verified n t) → Justified log env n
  keys : ∀ name reg, s.fastKeys.get name = some reg →
    ∃ env, RegisteredBy log env name reg.nullifierHex ∧ env.id = reg.byMsgId
  pending : ∀ p t, s.fastPending.get p = some t → ∀ env, s.Holds env → env.isAnonymous = true →
    env.id = p.msgId → env.isFastPost = true ∧ env.fastName = p.name

/-- The held rows left under the id of the message are of fast posts of its posting key, as it is. -/
def OwnHeldRows (s : TmailStore) (env : TmailEnvelopeV1) : Prop :=
  ∀ p t, s.fastPending.get p = some t → p.msgId = env.id →
    env.isFastPost = true ∧ env.fastName = p.name

/-- The message meets nothing of another under its id. -/
def Careful (s : TmailStore) : StoreAction → Prop
  | .gossip _ env => s.byMsgId.get env.id = none → env.isAnonymous = true →
      OwnHeldRows s env ∧
        (env.isFastPost = false → s.isPoll env.receiver = false → s.isVerified env.id = false)
  | .sendAnonymous M env => (s.byMsgId.get env.id = none → OwnHeldRows s env) ∧
      ∀ n t, verifyAnonymousProof M env = .verified n t →
        ∀ other, s.Holds other → other.isAnonymous = true → other.id = env.id → other = env
  | .sendFast _ env => s.byMsgId.get env.id = none → OwnHeldRows s env
  | _ => True

section Steps

variable {V : Vars} {M : Moment} {s s' : TmailStore} {env : TmailEnvelopeV1}
  {log log' : List StoreEvent}

theorem RegisteredBy.mono {name : FastName} {n : Str} (h : RegisteredBy log env name n)
    (hsub : log ⊆ log') : RegisteredBy log' env name n := by
  obtain ⟨⟨t, hver⟩, hreg, hname⟩ := h
  exact ⟨⟨t, hsub hver⟩, hsub hreg, hname⟩

theorem Justified.mono {n : Str} (h : Justified log env n) (hsub : log ⊆ log') :
    Justified log' env n := by
  rcases h with ⟨t, hver⟩ | ⟨hfast, reg, hreg⟩
  · exact Or.inl ⟨t, hsub hver⟩
  · exact Or.inr ⟨hfast, reg, hreg.mono hsub⟩

theorem Sound.mono (h : Sound log s) (hsub : log ⊆ log') : Sound log' s := by
  refine ⟨h.indexed, fun env hh ha n t hv => (h.verdicts env hh ha n t hv).mono hsub, ?_, h.pending⟩
  intro name reg hget
  obtain ⟨env, hby, hid⟩ := h.keys name reg hget
  exact ⟨env, hby.mono hsub, hid⟩

/-- What is taken away takes nothing from the rest. -/
theorem Sound.shrinks {gone : TmailEnvelopeV1 → Prop} (h : Sound log s) (hs : Shrinks s s')
    (hd : Dropped s s' gone) : Sound log s' := by
  refine ⟨hd.indexed, ?_, fun name reg hget => h.keys name reg (hs.keys name reg hget), ?_⟩
  · intro env hh ha n t hv
    rw [hs.verdicts] at hv
    exact h.verdicts env ((hd.holds env).mp hh).1 ha n t hv
  · intro p t hp env hh
    exact h.pending p t (hs.pending p t hp) env ((hd.holds env).mp hh).1

/-- A message stored under an id that holds none, with a verdict that is justified. -/
theorem Sound.store (h : Sound log s) (hindexed : s'.Indexed)
    (hholds : ∀ e, s'.Holds e → s.Holds e ∨ e = env) (hfresh : s.byMsgId.get env.id = none)
    (hverdicts : ∀ id, id ≠ env.id → s'.anonVerdict.get id = s.anonVerdict.get id)
    (hown : env.isAnonymous = true → ∀ n t,
      s'.anonVerdict.get env.id = some (.verified n t) → Justified log env n)
    (hkeys : ∀ name reg, s'.fastKeys.get name = some reg → s.fastKeys.get name = some reg)
    (hpending : ∀ p t, s'.fastPending.get p = some t →
      (s.fastPending.get p = some t ∧ (env.isAnonymous = true → p.msgId = env.id →
        env.isFastPost = true ∧ env.fastName = p.name)) ∨
        p = ⟨env.fastName, env.id⟩ ∧ env.isFastPost = true) : Sound log s' := by
  refine ⟨hindexed, ?_, fun name reg hget => h.keys name reg (hkeys name reg hget), ?_⟩
  · intro e he ha n t hv
    rcases hholds e he with hold | rfl
    · rw [hverdicts e.id (h.indexed.not_held hfresh hold)] at hv
      exact h.verdicts e hold ha n t hv
    · exact hown ha n t hv
  · intro p t hp e he ha hid
    rcases hpending p t hp with ⟨hp, hown⟩ | ⟨rfl, hfast⟩
    · rcases hholds e he with hold | rfl
      · exact h.pending p t hp e hold ha hid
      · exact hown ha hid.symm
    · rcases hholds e he with hold | rfl
      · exact absurd hid (h.indexed.not_held hfresh hold)
      · exact ⟨hfast, rfl⟩

/-- A verdict recorded for a message that was verified. -/
theorem Sound.verdict {msgId : Str} {verdict : AnonVerdict} (h : Sound log s)
    (hstep : VerdictStep M msgId verdict s s')
    (hown : ∀ e, s.Holds e → e.isAnonymous = true → e.id = trim msgId →
      ∀ n t, verdict = .verified n t → .verified e (.verified n t) ∈ log)
    (hreg : ∀ e n, s.VerifiesHeld msgId verdict e n → .registered e n ∈ log) :
    Sound log s' := by
  have hby : ∀ e n, s.VerifiesHeld msgId verdict e n → RegisteredBy log e e.fastName n := by
    rintro e n ⟨⟨t, hverdict⟩, hheld, hid, hproof⟩
    have hanon := isAnonymous_of_proof hproof.1
    exact ⟨⟨t, hown e hheld hanon hid n t hverdict⟩, hreg e n ⟨⟨t, hverdict⟩, hheld, hid, hproof⟩,
      rfl⟩
  refine ⟨hstep.indexed, ?_, ?_, ?_⟩
  · intro e he ha n t hv
    have hold := hstep.holds e he
    rcases hstep.records e.id with hsame | ⟨v, hnew, ⟨hid, rfl⟩ | ⟨reg, n', hver, hwait, rfl⟩⟩
    · rw [hsame] at hv
      exact h.verdicts e hold ha n t hv
    · exact Or.inl ⟨t, hown e hold ha hid n t (Option.some.inj (hnew.symm.trans hv))⟩
    · -- a held post follows the registration of its key
      obtain ⟨p, hp, hpid⟩ := hwait
      obtain ⟨⟨t', hp⟩, hname⟩ := mem_waiting.mp hp
      obtain ⟨hfast, hfastname⟩ := h.pending p t' hp e hold ha hpid.symm
      cases Option.some.inj (hnew.symm.trans hv)
      refine Or.inr ⟨hfast, reg, ?_⟩
      rw [hfastname, hname]
      exact hby reg n hver
  · intro name reg hget
    rcases hstep.keys name reg hget with hold | ⟨env, n, hver, rfl, rfl⟩
    · exact h.keys name reg hold
    · exact ⟨env, hby env n hver, rfl⟩
  · intro p t hp e he
    exact h.pending p t (hstep.pending p t hp) e (hstep.holds e he)

theorem verified_ne {n : Str} {t : Nat} (h : s.isVerified env.id = false) :
    s.anonVerdict.get env.id ≠ some (.verified n t) := by
  intro hget
  unfold isVerified verifiedNullifier getAnonVerdict at h
  rw [trim_id, hget] at h
  cases h

/-- A message the store takes, with or without a poll's gate. -/
theorem Sound.storeOutcome {r : Except TmailStoreError Bool} (h : Sound log s)
    (hout : StoreOutcome M env s r s')
    (hrow : s.byMsgId.get env.id = none → env.isAnonymous = true → OwnHeldRows s env)
    (hverdict : s.byMsgId.get env.id = none → env.isAnonymous = true →
      s.isPoll env.receiver = false → s.isVerified env.id = false)
    (hballot : r = .ok true → s.isPoll env.receiver = true → ∀ n t,
      verifyAnonymousProof M env = .verified n t → .verified env (.verified n t) ∈ log) :
    Sound log s' := by
  have hpending : ∀ (s' : TmailStore), s'.fastPending = s.fastPending →
      s.byMsgId.get env.id = none → ∀ p t, s'.fastPending.get p = some t →
      (s.fastPending.get p = some t ∧ (env.isAnonymous = true → p.msgId = env.id →
        env.isFastPost = true ∧ env.fastName = p.name)) ∨
        p = ⟨env.fastName, env.id⟩ ∧ env.isFastPost = true := by
    intro s' heq hfresh p t hp
    rw [heq] at hp
    exact Or.inl ⟨hp, fun ha => hrow hfresh ha p t hp⟩
  cases hout with
  | quiet _ hsame hdrop => exact h.shrinks hsame.shrinks hdrop
  | stored hfresh hpoll hsame hindexed hholds =>
    have hbeside : s'.fastPending = s.fastPending ∧ s'.anonVerdict = s.anonVerdict := by
      rw [show s' = _ from hsame]
      exact ⟨rfl, rfl⟩
    refine h.store hindexed hholds hfresh (fun id _ => by rw [hbeside.2]) ?_ hsame.shrinks.keys
      (hpending s' hbeside.1 hfresh)
    intro ha n t hv
    rw [hbeside.2] at hv
    exact absurd hv (verified_ne (hverdict hfresh ha hpoll))
  | @ballot _ n t hfresh hpoll hproved hsame hindexed hholds =>
    have hbeside : s'.fastPending = s.fastPending ∧ s'.fastKeys = s.fastKeys ∧
        s'.anonVerdict = s.anonVerdict.insert env.id (.verified n t) := by
      rw [show s' = _ from hsame]
      exact ⟨rfl, rfl, rfl⟩
    refine h.store hindexed hholds hfresh (fun id hid => ?_) ?_ (fun name reg hget => ?_)
      (hpending s' hbeside.1 hfresh)
    · rw [hbeside.2.2, Tree.get_insert_ne (Ne.symm hid)]
    · intro ha n' t' hv
      rw [hbeside.2.2, Tree.get_insert_self] at hv
      cases hv
      exact Or.inl ⟨t, hballot rfl hpoll n t hproved⟩
    · rwa [hbeside.2.1] at hget

theorem recorded_recorded (s : TmailStore) (msgId : Str) (verdict : AnonVerdict) :
    (s.recorded msgId verdict).recorded msgId verdict = s.recorded msgId verdict := by
  unfold recorded
  rw [Tree.insert_insert]

/-- A message that was stored, with the verdict of its own proof in place of what was left. -/
theorem Sound.storedVerdict {r : Except TmailStoreError Bool} {n : Str} {t : Nat}
    (h : Sound log s) (hout : StoreOutcome M env s r s') (hr : r = .ok true)
    (hrow : s.byMsgId.get env.id = none → OwnHeldRows s env)
    (hcall : .verified env (.verified n t) ∈ log) :
    s'.Indexed ∧ Sound log (s'.recorded env.id (.verified n t)) ∧
      ∀ e, s'.Holds e → e.id = env.id → e = env := by
  have hkept : s'.Indexed → (∀ e, s'.Holds e → s.Holds e ∨ e = env) →
      s.byMsgId.get env.id = none →
      (∀ id, id ≠ env.id → s'.anonVerdict.get id = s.anonVerdict.get id) →
      s'.fastKeys = s.fastKeys → s'.fastPending = s.fastPending →
      s'.Indexed ∧ Sound log (s'.recorded env.id (.verified n t)) ∧
        ∀ e, s'.Holds e → e.id = env.id → e = env := by
    intro hindexed hholds hfresh hverdicts hkeys hpending
    have hrec := hindexed.recorded env.id (.verified n t)
    refine ⟨hindexed, ?_, ?_⟩
    · refine h.store hrec.indexed (fun e he => hholds e ((hrec.holds e).mp he).1) hfresh ?_ ?_ ?_ ?_
      · intro id hid
        exact (Tree.get_insert_ne (Ne.symm hid)).trans (hverdicts id hid)
      · intro _ n' t' hv
        cases (Tree.get_insert_self s'.anonVerdict env.id _).symm.trans hv
        exact Or.inl ⟨t, hcall⟩
      · intro name reg hget
        rw [← hkeys]
        exact hget
      · intro p t hp
        have hold : s.fastPending.get p = some t := by
          rw [← hpending]
          exact hp
        exact Or.inl ⟨hold, fun _ => hrow hfresh p t hold⟩
    · intro e he hid
      exact (hholds e he).resolve_left fun hold => h.indexed.not_held hfresh hold hid
  cases hout with
  | quiet hne => exact absurd hr hne
  | stored hfresh hpoll hsame hindexed hholds =>
    have hbeside : s'.anonVerdict = s.anonVerdict ∧ s'.fastKeys = s.fastKeys ∧
        s'.fastPending = s.fastPending := by
      rw [show s' = _ from hsame]
      exact ⟨rfl, rfl, rfl⟩
    exact hkept hindexed hholds hfresh (fun _ _ => by rw [hbeside.1]) hbeside.2.1 hbeside.2.2
  | @ballot _ n₁ t₁ hfresh hpoll hproved hsame hindexed hholds =>
    have hbeside : s'.anonVerdict = s.anonVerdict.insert env.id (.verified n₁ t₁) ∧
        s'.fastKeys = s.fastKeys ∧ s'.fastPending = s.fastPending := by
      rw [show s' = _ from hsame]
      exact ⟨rfl, rfl, rfl⟩
    refine hkept hindexed hholds hfresh (fun id hid => ?_) hbeside.2.1 hbeside.2.2
    rw [hbeside.1, Tree.get_insert_ne (Ne.symm hid)]

theorem Sound.fastOutcome (h : Sound log s) (hout : FastOutcome M env s s')
    (hfast : env.isFastPost = true)
    (hrow : s.byMsgId.get env.id = none → OwnHeldRows s env) : Sound log s' := by
  cases hout with
  | quiet hshrinks hdrop => exact h.shrinks hshrinks hdrop
  | @registered s₁ reg hfound hfresh hsame hindexed hholds =>
    have hrec := hindexed.recorded env.id (.verified reg.nullifierHex M.now)
    refine h.store hrec.indexed (fun e he => hholds e ((hrec.holds e).mp he).1) hfresh ?_ ?_
      hsame.shrinks.keys ?_
    · intro id hid
      show (s₁.anonVerdict.insert env.id _).get id = _
      rw [Tree.get_insert_ne (Ne.symm hid), hsame.shrinks.verdicts]
    · intro _ n t hv
      -- the nullifier is that of the registration, which some message justifies
      have hv := (Tree.get_insert_self s₁.anonVerdict env.id _).symm.trans hv
      cases hv
      obtain ⟨by', hby, -⟩ := h.keys env.fastName reg hfound
      exact Or.inr ⟨hfast, by', hby⟩
    · intro p t hp
      have hold := hsame.shrinks.pending p t hp
      exact Or.inl ⟨hold, fun _ => hrow hfresh p t hold⟩
  | @held s₁ hfresh hshrinks hindexed hholds =>
    have hrec : Dropped s₁ { s₁.recorded env.id .pending with
        fastPending := s₁.fastPending.insert ⟨env.fastName, env.id⟩ M.now } fun _ => False :=
      hindexed.of_indexes rfl rfl
    refine h.store hrec.indexed (fun e he => hholds e ((hrec.holds e).mp he).1) hfresh ?_ ?_
      hshrinks.keys ?_
    · intro id hid
      show (s₁.anonVerdict.insert env.id _).get id = _
      rw [Tree.get_insert_ne (Ne.symm hid), hshrinks.verdicts]
    · intro _ n t hv
      have hv := (Tree.get_insert_self s₁.anonVerdict env.id _).symm.trans hv
      cases hv
    · intro p t hp
      have hp : (s₁.fastPending.insert ⟨env.fastName, env.id⟩ M.now).get p = some t := hp
      rw [Tree.get_insert] at hp
      by_cases hown : (⟨env.fastName, env.id⟩ : PendingKey) = p
      · exact Or.inr ⟨hown.symm, hfast⟩
      · rw [if_neg hown] at hp
        have hold := hshrinks.pending p t hp
        exact Or.inl ⟨hold, fun _ => hrow hfresh p t hold⟩

/-- `send_fast_anonymous` refuses what is not a fast post. -/
theorem Sound.sendFast (h : Sound log s)
    (hrow : s.byMsgId.get env.id = none → OwnHeldRows s env) :
    Sound log (s.sendFastAnonymous V M env).2 := by
  by_cases hfast : env.isFastPost = true
  · exact h.fastOutcome h.indexed.sendFastAnonymous hfast hrow
  · have hrefused : s.fastChecks M env = .error .notFast := if_pos (by simp [hfast])
    unfold sendFastAnonymous
    rw [hrefused]
    exact h

theorem verifyAnonymousProof_named (h : env.isAnonymous = false) :
    verifyAnonymousProof M env = .failed "not an anonymous envelope".toList M.now := by
  have hnone : env.anonymous = none := Option.isSome_eq_false_iff.mp h |> Option.isNone_iff_eq_none.mp
  unfold verifyAnonymousProof
  rw [hnone]

theorem awaitsReceipt_holds (h : s.awaitsReceipt env = true) : s.Holds env := by
  unfold awaitsReceipt at h
  simp only [Bool.and_eq_true, decide_eq_true_eq] at h
  exact h.1.1.1

/-- What the log holds of a verdict registers its key. -/
theorem TmailStore.Indexed.mem_registrations (h : s.Indexed) {msgId n : Str} {verdict : AnonVerdict}
    (hver : s.VerifiesHeld msgId verdict env n) :
    .registered env n ∈ s.registrations msgId verdict := by
  obtain ⟨⟨t, rfl⟩, hheld, hid, hproof, hpoll⟩ := hver
  unfold registrations
  rw [h.getByMsgId_iff.mpr ⟨hheld, hid⟩]
  simp only
  rw [if_pos (by rw [hproof, hpoll]; rfl)]
  exact List.mem_singleton_self _

/-- `send_anonymous`, where another message under the id is the same one. -/
theorem Sound.sendAnonymous (h : Sound log s)
    (hrow : s.byMsgId.get env.id = none → OwnHeldRows s env)
    (hsole : ∀ n t, verifyAnonymousProof M env = .verified n t →
      ∀ other, s.Holds other → other.isAnonymous = true → other.id = env.id → other = env)
    (hwf : env.wellFormed = true)
    (hlog : s.events V (.sendAnonymous M env) ⊆ log) :
    Sound log (s.sendAnonymous V M env).2 := by
  have hout : StoreOutcome M env s (s.storeTmail V M env).1 (s.storeTmail V M env).2 :=
    h.indexed.storeTmail
  rcases sendAnonymous_cases V M s env with
    ⟨-, heq | ⟨⟨e, hfail⟩, heq⟩⟩ | ⟨proof, n, t, stored, hproof, hdep, hver, hr, heq⟩
  · rw [heq]
    exact h
  · rw [heq]
    rw [hfail] at hout
    cases hout with
    | quiet _ hsame hdrop => exact h.shrinks hsame.shrinks hdrop
  · rw [heq]
    let s₁ := (s.storeTmail V M env).2
    have hevents : s.events V (.sendAnonymous M env) =
        s₁.registrations env.id (.verified n t) ++ [.verified env (.verified n t)] := by
      unfold TmailStore.events
      simp only [hproof]
      rw [if_pos (by rw [hwf, hdep]; rfl), hver, show s.storeTmail V M env = (.ok stored, s₁) from
        Prod.ext hr rfl]
    rw [hevents] at hlog
    have hcall : .verified env (.verified n t) ∈ log :=
      hlog (List.mem_append_right _ (List.mem_singleton_self _))
    have hreg : s₁.Indexed → ∀ e n', s₁.VerifiesHeld env.id (.verified n t) e n' →
        .registered e n' ∈ log := fun hindexed e n' hv =>
      hlog (List.mem_append_left _ (hindexed.mem_registrations hv))
    show Sound log (s₁.setAnonVerdict V M env.id (.verified n t))
    cases stored with
    | false =>
      -- nothing was stored: the verdict goes to what is held under the id
      rw [hr] at hout
      cases hout with
      | quiet _ hsame hdrop =>
        refine (h.shrinks hsame.shrinks hdrop).verdict (hdrop.indexed.setAnonVerdict env.id _) ?_
          (hreg hdrop.indexed)
        intro e he ha hid n' t' hv
        rw [hsole n t hver e ((hdrop.holds e).mp he).1 ha (hid.trans (trim_id env)), ← hv]
        exact hcall
    | true =>
      obtain ⟨hindexed, hsound, hsole'⟩ := h.storedVerdict hout hr hrow hcall
      have hset : s₁.setAnonVerdict V M env.id (.verified n t) =
          (s₁.recorded env.id (.verified n t)).setAnonVerdict V M env.id (.verified n t) := by
        show followVerdict V M (s₁.recorded (trim env.id) (.verified n t))
          env.id (.verified n t) = followVerdict V M ((s₁.recorded env.id
            (.verified n t)).recorded (trim env.id) (.verified n t)) env.id (.verified n t)
        rw [trim_id, recorded_recorded]
      rw [hset]
      refine hsound.verdict (hsound.indexed.setAnonVerdict env.id _) ?_ (hreg hindexed)
      intro e he _ hid n' t' hv
      rw [hsole' e he (hid.trans (trim_id env)), ← hv]
      exact hcall

end Steps

/-- One call keeps what is on record justified. -/
theorem Sound.step {V : Vars} {x : Traced} (h : Sound x.log x.store) (a : StoreAction)
    (hcare : Careful x.store a) : Sound (x.step V a).log (x.step V a).store := by
  have hmore : Sound (x.step V a).log x.store := h.mono (List.subset_append_right _ _)
  have hnew : x.store.events V a ⊆ (x.step V a).log := List.subset_append_left _ _
  cases a with
  | gossip M env =>
    show Sound _ (x.store.receive V M env)
    unfold receive
    by_cases hdrop : (M.isShelterBoard env.receiver || !env.wellFormed) = true
    · rw [if_pos hdrop]
      exact hmore
    rw [if_neg hdrop]
    by_cases hfast : env.isFastPost = true
    · rw [if_pos hfast]
      have hanon : env.isAnonymous = true := (Bool.and_eq_true_iff.mp hfast).1
      exact hmore.fastOutcome h.indexed.receiveFastAnonymous hfast fun hf => (hcare hf hanon).1
    · rw [if_neg hfast]
      have hnotfast : env.isFastPost = false := Bool.not_eq_true _ ▸ hfast
      refine hmore.storeOutcome h.indexed.storeTmail (fun hf ha => (hcare hf ha).1)
        (fun hf ha => (hcare hf ha).2 hnotfast) ?_
      intro hr hpoll n t hver
      refine hnew ?_
      have hballot : x.store.storedBallot V M env = true := by
        unfold storedBallot
        rw [hr]
        simpa [hpoll, hnotfast] using hdrop
      show _ ∈ (if _ then _ else _)
      rw [if_pos hballot, hver]
      exact List.mem_singleton_self _
  | sendAnonymous M env =>
    show Sound _ (if env.wellFormed then _ else _)
    by_cases hwf : env.wellFormed = true
    · rw [if_pos hwf]
      exact hmore.sendAnonymous hcare.1 hcare.2 hwf hnew
    · rw [if_neg hwf]
      exact hmore
  | sendFast M env =>
    show Sound _ (if env.wellFormed then _ else _)
    by_cases hwf : env.wellFormed = true
    · rw [if_pos hwf]
      exact hmore.sendFast hcare
    · rw [if_neg hwf]
      exact hmore
  | sendNamed M env =>
    show Sound _ (if (env.wellFormed && !env.isAnonymous) = true then _ else _)
    by_cases hwf : (env.wellFormed && !env.isAnonymous) = true
    · rw [if_pos hwf]
      have hnamed : env.isAnonymous = false := by simpa using (Bool.and_eq_true_iff.mp hwf).2
      refine hmore.storeOutcome h.indexed.storeTmail ?_ ?_ ?_
      · intro _ ha
        cases hnamed.symm.trans ha
      · intro _ ha
        cases hnamed.symm.trans ha
      · intro _ _ n t hver
        cases (verifyAnonymousProof_named hnamed).symm.trans hver
    · rw [if_neg hwf]
      exact hmore
  | markPending M env =>
    show Sound _ (if _ then _ else _)
    by_cases hheld : x.store.Holds env ∧ env.proof.isSome = true
    · rw [if_pos hheld]
      refine hmore.verdict (h.indexed.setAnonVerdict env.id _) ?_ ?_
      · intro e _ _ _ n t hv
        cases hv
      · rintro e n ⟨⟨t, hv⟩, -⟩
        cases hv
    · rw [if_neg hheld]
      exact hmore
  | verifyReceipt M env =>
    show Sound _ (if _ then _ else _)
    by_cases hwait : x.store.awaitsReceipt env = true
    · rw [if_pos hwait]
      have hheld : x.store.Holds env := awaitsReceipt_holds hwait
      have hevents : x.store.events V (.verifyReceipt M env) =
          x.store.registrations env.id (verifyAnonymousProof M env) ++
            [.verified env (verifyAnonymousProof M env)] := if_pos hwait
      rw [hevents] at hnew
      refine hmore.verdict (h.indexed.setAnonVerdict env.id _) ?_ ?_
      · intro e he _ hid n t hv
        rw [h.indexed.unique e env he hheld (hid.trans (trim_id env)), ← hv]
        exact hnew (List.mem_append_right _ (List.mem_singleton_self _))
      · intro e n hver
        exact hnew (List.mem_append_left _ (h.indexed.mem_registrations hver))
    · rw [if_neg hwait]
      exact hmore
  | burn M msgId =>
    obtain ⟨hsame, hdrop⟩ := h.indexed.deleteByMsgId (V := V) (M := M) msgId
    exact hmore.shrinks hsame.shrinks hdrop
  | prune now =>
    obtain ⟨hsame, hdrop⟩ := h.indexed.pruneExpired (V := V) now
    exact hmore.shrinks hsame.shrinks hdrop
  | registerPoll wallet =>
    let s' : TmailStore := { x.store with pollRoots := x.store.pollRoots.insert (trimLower wallet) () }
    have hdrop : Dropped x.store s' fun _ => False := h.indexed.of_indexes rfl rfl
    refine ⟨hdrop.indexed, ?_, hmore.keys, ?_⟩
    · intro env he
      exact hmore.verdicts env ((hdrop.holds env).mp he).1
    · intro p t hp env he
      exact hmore.pending p t hp env ((hdrop.holds env).mp he).1

theorem Sound.new : Sound [] TmailStore.new := by
  refine ⟨Indexed.new, ?_, ?_, ?_⟩
  · intro env hheld
    cases hheld.symm.trans (Tree.get_empty env.key)
  · intro name reg hget
    cases hget.symm.trans (Tree.get_empty name)
  · intro p t hp
    cases hp.symm.trans (Tree.get_empty p)

theorem StoreRun.sound {V : Vars} {x : Traced} (h : StoreRun V Careful x) : Sound x.log x.store := by
  induction h with
  | start => exact Sound.new
  | step a _ allowed ih => exact ih.step a allowed

/-- **Verified means verified.** In every run in which each message meets nothing of another under its
id, a stored anonymous message on record as `Verified` was verified itself or is a fast post of a key
whose registration was, and each registered key was registered by the verified message its row names,
to its receiver, on its day and with its posting key. -/
theorem verdicts_sound {V : Vars} {x : Traced} (h : StoreRun V Careful x) :
    (∀ env, x.store.Holds env → env.isAnonymous = true → ∀ n t,
      x.store.getAnonVerdict env.id = some (.verified n t) → Justified x.log env n) ∧
    ∀ name reg, x.store.fastKeys.get name = some reg →
      ∃ env, RegisteredBy x.log env name reg.nullifierHex ∧ env.id = reg.byMsgId := by
  refine ⟨fun env hheld hanon n t hverdict => ?_, h.sound.keys⟩
  unfold getAnonVerdict at hverdict
  rw [trim_id] at hverdict
  exact h.sound.verdicts env hheld hanon n t hverdict

theorem ownHeldRows_of_none {s : TmailStore} {env : TmailEnvelopeV1}
    (h : s.fastPending.iter = []) : OwnHeldRows s env := by
  intro p t hp
  have hmem := Tree.mem_iter.mpr hp
  rw [h] at hmem
  cases hmem

/-- A gossiped post is verified, and a fast post of its key follows it. -/
theorem verdicts_sound_fast :
    ∃ x env post n, StoreRun {} Careful x ∧ x.store.Holds env ∧ env.isFastPost = false ∧
      VerifiedWith x.log env n ∧ x.store.Holds post ∧ post.isFastPost = true ∧
      x.store.verifiedNullifier post.id = some n ∧ Justified x.log post n := by
  let env := Sample.post "m".toList 1000 (some Sample.anchorProof) [1]
  let fast := Sample.post "f".toList 2000 none [2]
  let M := Sample.moment 3000 [1]
  let x₀ : Traced := ⟨TmailStore.new, []⟩
  let x₁ := x₀.step {} (.gossip M env)
  let x₂ := x₁.step {} (.verifyReceipt M env)
  let x₃ := x₂.step {} (.sendFast M fast)
  have hall : x₀.store.isVerified env.id = false ∧ x₀.store.fastPending.iter = [] ∧
      x₂.store.fastPending.iter = [] ∧ x₃.store.Holds env ∧ x₃.store.Holds fast ∧
      x₃.store.getAnonVerdict fast.id = some (.verified "n".toList 3000) ∧
      .verified env (.verified "n".toList 3000) ∈ x₃.log ∧
      env.isFastPost = false ∧ fast.isFastPost = true := by
    decide +kernel
  obtain ⟨hfree, hnone, hnone', hheld, hpost, hverdict, hcall, hproof, hfast⟩ := hall
  have hrun₁ : StoreRun {} Careful x₁ := StoreRun.start.step (.gossip M env) fun _ _ =>
    ⟨ownHeldRows_of_none hnone, fun _ _ => hfree⟩
  have hrun₂ : StoreRun {} Careful x₂ := hrun₁.step (.verifyReceipt M env) trivial
  have hrun₃ : StoreRun {} Careful x₃ := hrun₂.step (.sendFast M fast) fun _ =>
    ownHeldRows_of_none hnone'
  have hnull : x₃.store.verifiedNullifier fast.id = some "n".toList := by
    unfold TmailStore.verifiedNullifier
    rw [hverdict]
  exact ⟨x₃, env, fast, "n".toList, hrun₃, hheld, hproof, ⟨3000, hcall⟩, hpost, hfast, hnull,
    (verdicts_sound hrun₃).1 fast hpost rfl _ _ hverdict⟩

/-- Without the condition a post whose proof never verified takes the verdict of another post sent
under its id. -/
theorem verdict_of_another :
    ¬ ∀ V x, StoreRun V (fun _ _ => True) x →
      (∀ env, x.store.Holds env → env.isAnonymous = true → ∀ n t,
        x.store.getAnonVerdict env.id = some (.verified n t) → Justified x.log env n) ∧
      ∀ name reg, x.store.fastKeys.get name = some reg →
        ∃ env, RegisteredBy x.log env name reg.nullifierHex ∧ env.id = reg.byMsgId := by
  intro h
  let env := Sample.post "m".toList 1000 (some Sample.anchorProof) [1]
  let other := Sample.post "m".toList 2000 (some Sample.anchorProof) [2]
  let M := Sample.moment 3000 [2]
  let x₀ : Traced := ⟨TmailStore.new, []⟩
  let x := ((x₀.step {} (.gossip M env)).step {} (.markPending M env)).step {} (.sendAnonymous M other)
  have hrun : StoreRun {} (fun _ _ => True) x :=
    ((StoreRun.start.step (.gossip M env) trivial).step (.markPending M env) trivial).step
      (.sendAnonymous M other) trivial
  have hall : x.store.Holds env ∧ x.store.getAnonVerdict env.id = some (.verified "n".toList 3000) ∧
      env.isFastPost = false ∧
      x.log = [.registered env "n".toList, .verified other (.verified "n".toList 3000)] ∧
      env ≠ other := by
    decide +kernel
  obtain ⟨hheld, hverdict, hproof, hlog, hne⟩ := hall
  rcases (h {} x hrun).1 env hheld rfl _ _ hverdict with ⟨t, hcall⟩ | ⟨hfast, -⟩
  · rw [hlog] at hcall
    rcases List.mem_cons.mp hcall with hcase | hcase
    · cases hcase
    · exact hne (StoreEvent.verified.inj (List.mem_singleton.mp hcase)).1
  · cases hproof.symm.trans hfast

end TetCore.Tmail
