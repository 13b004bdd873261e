import TetCore.Tmail.Indexes

/-!
# Index consistency and the posts held for a registration

A fast post that arrives before its registration is stored with a `Pending` verdict, and a row of
`fast_pending` names it. `register_fast_key`, `drop_fast_pending` and `prune_fast` remove the row with
what they do to the post. The other calls do not look at `fast_pending`: when the caps, `prune_expired`
or a removal by id take the post away, or a verdict is recorded under its id, the row stays.

`index_consistent`: the two indexes always agree, and in every run in which no call does that to a held
post, each row of `fast_pending` is of a stored post whose verdict is `Pending`.
-/

namespace TetCore.Tmail

open TetCore.Lib

namespace TmailStore

/-- Each row of `fast_pending` is of a fast post that is stored and has no verdict yet. -/
def Awaited (s : TmailStore) : Prop :=
  ∀ p t, s.fastPending.get p = some t →
    ∃ e, s.Holds e ∧ p = ⟨e.fastName, e.id⟩ ∧ e.proof = none ∧ s.anonVerdict.get e.id = some .pending

/-- The post is stored, and a row of `fast_pending` is its. -/
def Waits (s : TmailStore) (e : TmailEnvelopeV1) : Prop :=
  s.Holds e ∧ (s.fastPending.get ⟨e.fastName, e.id⟩).isSome = true

variable {V : Vars} {M : Moment} {s s' : TmailStore} {env : TmailEnvelopeV1}

/-- Rows that go, and posts that stay with their verdicts. -/
theorem Awaited.of_change (h : s.Awaited)
    (hpend : ∀ p t, s'.fastPending.get p = some t → s.fastPending.get p = some t)
    (hkeep : ∀ e, s.Waits e → (s'.fastPending.get ⟨e.fastName, e.id⟩).isSome = true →
      s'.Holds e ∧ s'.anonVerdict.get e.id = s.anonVerdict.get e.id) : s'.Awaited := by
  intro p t hrow
  obtain ⟨e, hheld, rfl, hproof, hverdict⟩ := h p t (hpend p t hrow)
  obtain ⟨hheld', hverdict'⟩ := hkeep e ⟨hheld, by rw [hpend _ t hrow]; rfl⟩ (by rw [hrow]; rfl)
  exact ⟨e, hheld', rfl, hproof, hverdict'.trans hverdict⟩

/-- Messages go, none of them a held post. -/
theorem Awaited.of_drop {gone : TmailEnvelopeV1 → Prop} (h : s.Awaited) (hsame : SameBeside s s')
    (hdrop : Dropped s s' gone) (hspare : ∀ e, s.Waits e → ¬ gone e) : s'.Awaited := by
  refine h.of_change hsame.shrinks.pending fun e he _ => ?_
  exact ⟨(hdrop.holds e).mpr ⟨he.1, hspare e he⟩, by rw [hsame.shrinks.verdicts]⟩

theorem waits_of_drop {gone : TmailEnvelopeV1 → Prop} {e : TmailEnvelopeV1}
    (hshrinks : Shrinks s s') (hdrop : Dropped s s' gone) (he : s'.Waits e) : s.Waits e := by
  obtain ⟨t, hrow⟩ := Option.isSome_iff_exists.mp he.2
  exact ⟨((hdrop.holds e).mp he.1).1, by rw [hshrinks.pending _ t hrow]; rfl⟩

/-! ## Posts let go -/

theorem letGo_pending {f : TmailStore → Str → TmailStore}
    (hf : ∀ (s : TmailStore) (msgId : Str), SameBeside s (f s msgId)) :
    ∀ (ps : List PendingKey) (s : TmailStore),
      (ps.foldl (fun s p => f { s with fastPending := s.fastPending.remove p } p.msgId)
        s).fastPending = ps.foldl Tree.remove s.fastPending := by
  intro ps
  induction ps with
  | nil => exact fun _ => rfl
  | cons p ps ih =>
    intro s
    rw [List.foldl_cons, ih, List.foldl_cons]
    have hsame := hf { s with fastPending := s.fastPending.remove p } p.msgId
    unfold SameBeside at hsame
    rw [hsame]

/-- A row that goes with the message of its id: the other rows' posts stay. -/
theorem Awaited.letGo {f : TmailStore → Str → TmailStore}
    (hf : ∀ {s : TmailStore} (msgId : Str), s.Indexed → SameBeside s (f s msgId) ∧
      Dropped s (f s msgId) fun env => env.id = trim msgId)
    (hbeside : ∀ (s : TmailStore) (msgId : Str), SameBeside s (f s msgId)) (h : s.Awaited)
    (hindexed : s.Indexed) {ps : List PendingKey}
    (hps : ∀ p ∈ ps, ∃ t, s.fastPending.get p = some t) :
    (ps.foldl (fun s p => f { s with fastPending := s.fastPending.remove p } p.msgId) s).Awaited := by
  obtain ⟨hshrinks, hdrop⟩ := Indexed.letGo hf ps hindexed
  refine h.of_change hshrinks.pending fun e he hstays => ⟨?_, by rw [hshrinks.verdicts]⟩
  refine (hdrop.holds e).mpr ⟨he.1, ?_⟩
  rintro ⟨p, hp, hid⟩
  obtain ⟨t, hrow⟩ := hps p hp
  obtain ⟨e', hheld', rfl, -, -⟩ := h p t hrow
  have hsame : e = e' := hindexed.unique e e' he.1 hheld' (hid.trans (trim_id e'))
  subst hsame
  -- the post's own row went
  rw [letGo_pending hbeside, Tree.get_foldl_remove, if_pos hp] at hstays
  cases hstays

theorem forgetByMsgId_beside (s : TmailStore) (msgId : Str) :
    SameBeside s (s.forgetByMsgId msgId) := by
  unfold TmailStore.forgetByMsgId
  cases s.indexKeyForMsgId (trim msgId) <;> rfl

theorem deleteByMsgId_beside (s : TmailStore) (msgId : Str) :
    SameBeside s (s.deleteByMsgId V M msgId) := by
  unfold TmailStore.deleteByMsgId
  cases s.indexKeyForMsgId (trim msgId) <;> rfl

theorem Awaited.pruneFast (h : s.Awaited) (hindexed : s.Indexed) : (s.pruneFast V M).Awaited := by
  let s₁ : TmailStore := { s with
    fastKeys := ((s.fastKeys.iter.filter fun r => r.1.bucket + 1 < bucketIndex M.now).map
      Prod.fst).foldl Tree.remove s.fastKeys }
  have hs₁ : s₁.Awaited := h
  refine hs₁.letGo (fun msgId h => h.forgetByMsgId msgId) forgetByMsgId_beside
    (hindexed.congr rfl rfl) ?_
  intro p hp
  obtain ⟨r, hr, rfl⟩ := List.mem_map.mp hp
  exact ⟨r.2, Tree.mem_iter.mp (List.mem_of_mem_filter hr)⟩

theorem Awaited.dropFastPending (h : s.Awaited) (hindexed : s.Indexed) (name : FastName)
    (definitive : Bool) : (s.dropFastPending V M name definitive).Awaited := by
  have hps : ∀ p ∈ s.waiting name, ∃ t, s.fastPending.get p = some t :=
    fun p hp => (mem_waiting.mp hp).1
  unfold TmailStore.dropFastPending
  cases definitive with
  | true =>
    exact h.letGo (fun msgId h => h.deleteByMsgId (V := V) (M := M) msgId) deleteByMsgId_beside
      hindexed hps
  | false =>
    exact h.letGo (fun msgId h => h.forgetByMsgId msgId) forgetByMsgId_beside hindexed hps

/-- The held posts of a key are verified, and their rows go. -/
theorem Awaited.verifyHeld (h : s.Awaited) (hindexed : s.Indexed) (name : FastName) (n : Str) :
    ((s.waiting name).foldl (verifyHeld M n) s).Awaited := by
  obtain ⟨hrec, heq⟩ := verifyHeld_fold (M := M) n (s.waiting name) s
  have hpend : ((s.waiting name).foldl (TmailStore.verifyHeld M n) s).fastPending =
      (s.waiting name).foldl Tree.remove s.fastPending := by rw [heq]
  refine h.of_change ?_ fun e he hstays => ⟨?_, ?_⟩
  · intro p t hrow
    rw [hpend] at hrow
    exact Tree.get_of_foldl_remove _ hrow
  · unfold Holds
    rw [heq]
    exact he.1
  · rcases hrec e.id with hsame | ⟨v, -, ⟨p, hp, hid⟩, -⟩
    · exact hsame
    · -- the post's own row would be among those that went
      obtain ⟨t, hrow⟩ := (mem_waiting.mp hp).1
      obtain ⟨e', hheld', rfl, -, -⟩ := h p t hrow
      have hsame : e' = e := hindexed.unique e' e hheld' he.1 hid
      subst hsame
      rw [hpend, Tree.get_foldl_remove, if_pos hp] at hstays
      cases hstays

theorem Awaited.registerFastKey (h : s.Awaited) (hindexed : s.Indexed) (name : FastName) (n : Str) :
    (s.registerFastKey V M env name n).Awaited := by
  unfold TmailStore.registerFastKey
  by_cases hpoll : s.isPoll env.receiver = true
  · rw [if_pos hpoll]
    exact h
  rw [if_neg hpoll]
  simp only
  generalize hreg : (if (s.fastKeys.get name).isNone then
    { s with fastKeys := s.fastKeys.insert name ⟨n, M.now, env.id⟩ } else s) = s₁
  have hs₁ : s₁.Awaited ∧ s₁.Indexed := by
    rw [← hreg]
    by_cases hnone : (s.fastKeys.get name).isNone = true
    · rw [if_pos hnone]
      exact ⟨h, hindexed.congr rfl rfl⟩
    · rw [if_neg hnone]
      exact ⟨h, hindexed⟩
  obtain ⟨-, heq⟩ := verifyHeld_fold (M := M) n (s₁.waiting name) s₁
  exact (hs₁.1.verifyHeld hs₁.2 name n).pruneFast (hs₁.2.congr (by rw [heq]) (by rw [heq]))

/-! ## Verdicts -/

/-- A verdict under an id that no held post has. -/
theorem Awaited.recorded (h : s.Awaited) {id : Str} {verdict : AnonVerdict}
    (hother : ∀ e, s.Waits e → e.id ≠ id) : (s.recorded id verdict).Awaited := by
  refine h.of_change (fun _ _ hrow => hrow) fun e he _ => ⟨he.1, ?_⟩
  exact Tree.get_insert_ne (Ne.symm (hother e he))

theorem Awaited.followVerdict (h : s.Awaited) (hindexed : s.Indexed) (msgId : Str)
    (verdict : AnonVerdict) : (s.followVerdict V M msgId verdict).Awaited := by
  unfold TmailStore.followVerdict
  cases s.getByMsgId msgId with
  | none => exact h
  | some e =>
    simp only
    by_cases hproof : e.proof.isNone = true
    · rw [if_pos hproof]
      exact h
    rw [if_neg hproof]
    have hone : ({ s with
      fastRegpending := s.fastRegpending.remove e.fastName } : TmailStore).Awaited := h
    cases verdict with
    | pending => exact h
    | verified n t => exact hone.registerFastKey (hindexed.congr rfl rfl) e.fastName n
    | failed reason t => exact hone.dropFastPending (hindexed.congr rfl rfl) e.fastName _

/-- A verdict that is not recorded under the id of a held post, or is the one it has. -/
theorem Awaited.setAnonVerdict (h : s.Awaited) (hindexed : s.Indexed) {msgId : Str}
    {verdict : AnonVerdict} (hother : verdict = .pending ∨ ∀ e, s.Waits e → e.id ≠ trim msgId) :
    (s.setAnonVerdict V M msgId verdict).Awaited := by
  have hrecorded : (s.recorded (trim msgId) verdict).Awaited := by
    by_cases hid : ∀ e, s.Waits e → e.id ≠ trim msgId
    · exact h.recorded hid
    · -- the post's verdict stays `Pending`
      have hpending : verdict = .pending := hother.resolve_right hid
      intro p t hrow
      obtain ⟨e, hheld, hp, hproof, hverdict⟩ := h p t hrow
      refine ⟨e, hheld, hp, hproof, ?_⟩
      show (s.anonVerdict.insert (trim msgId) verdict).get e.id = some .pending
      rw [Tree.get_insert, hpending, hverdict, ite_self]
  have hrec : (s.recorded (trim msgId) verdict).Indexed := hindexed.congr rfl rfl
  have hfollowed := hrecorded.followVerdict (V := V) (M := M) hrec msgId verdict
  cases verdict with
  | pending => exact hfollowed
  | verified n t => exact hfollowed
  | failed reason t =>
    have hid : ∀ e, s.Waits e → e.id ≠ trim msgId :=
      hother.resolve_left fun hp => by cases hp
    have hstep := hindexed.followVerdict (V := V) (M := M) msgId (.failed reason t)
    have hspare : ∀ e, ((s.recorded (trim msgId) (.failed reason t)).followVerdict V M msgId
        (.failed reason t)).Waits e → ¬ e.id = trim msgId := by
      intro e he
      obtain ⟨u, hrow⟩ := Option.isSome_iff_exists.mp he.2
      exact hid e ⟨hstep.holds e he.1, by rw [hstep.pending _ u hrow]; rfl⟩
    unfold TmailStore.setAnonVerdict
    simp only
    by_cases hdef : failureIsDefinitive reason = true
    · rw [if_pos hdef]
      obtain ⟨hsame, hdrop⟩ := hstep.indexed.deleteByMsgId (V := V) (M := M) msgId
      exact hfollowed.of_drop hsame hdrop hspare
    · rw [if_neg hdef]
      obtain ⟨hsame, hdrop⟩ := hstep.indexed.forgetByMsgId msgId
      exact hfollowed.of_drop hsame hdrop hspare

/-! ## Storing -/

/-- What is stored when a message is about to be: room is made, and a ballot's verdict is on
record. -/
def gated (V : Vars) (M : Moment) (s : TmailStore) (env : TmailEnvelopeV1) : TmailStore :=
  let s := s.makeRoom V M
  if s.isPoll env.receiver then
    match verifyAnonymousProof M env with
    | .verified n t => s.recorded env.id (.verified n t)
    | .failed _ _ | .pending => s
  else s

/-- The message is past the limits that the store of `env` applies. -/
def Crowded (V : Vars) (M : Moment) (s : TmailStore) (env e : TmailEnvelopeV1) : Prop :=
  PastGroup V ((gated V M s env).addRows env) env e ∨
    env.isAnonymous = true ∧ PastCap V ((gated V M s env).afterGroup V env) env.receiver e

instance Crowded.decidable (V : Vars) (M : Moment) (s : TmailStore) (env e : TmailEnvelopeV1) :
    Decidable (Crowded V M s env e) :=
  inferInstanceAs (Decidable ((_ ∈ beyond _ _ _) ∨ _ ∧ (_ ∈ beyond _ _ _)))

/-- The message goes when `env` comes: expired, where room is made, or past the limits. -/
def Displaced (V : Vars) (M : Moment) (s : TmailStore) (env e : TmailEnvelopeV1) : Prop :=
  s.byMsgId.get env.id = none ∧
    (s.byReceiver.iter.length ≥ V.maxEntriesCap ∧ isExpired V e M.now = true ∨ Crowded V M s env e)

theorem storeTmailInner_known (h : (s.byMsgId.get env.id).isSome = true) :
    (s.storeTmailInner V M env).2 = s := by
  unfold TmailStore.storeTmailInner
  by_cases hid : env.id = []
  · rw [if_pos hid]
  by_cases hhex : (!isHex64 env.receiver) = true
  · rw [if_neg hid, if_pos hhex]
  · rw [if_neg hid, if_neg hhex, if_pos h]

/-- A message that is stored is added to what the gate leaves. -/
theorem storeTmailInner_stored (V : Vars) (M : Moment) (env : TmailEnvelopeV1) (h : s.Indexed) :
    ((s.storeTmailInner V M env).1 ≠ .ok true ∧
      ((s.storeTmailInner V M env).2 = s ∨ (s.storeTmailInner V M env).2 = s.makeRoom V M)) ∨
    ((s.storeTmailInner V M env).1 = .ok true ∧ (isHex64 env.receiver = true ∧ env.id ≠ []) ∧
      s.byMsgId.get env.id = none ∧
        (s.storeTmailInner V M env).2 = (gated V M s env).insertRow V env) := by
  rcases storeTmailInner_cases V M s env with
    hquiet | ⟨hr, hvalid, hfresh, ⟨hpoll, heq⟩ | ⟨hpoll, n, t, hver, heq⟩⟩
  · exact Or.inl hquiet
  · refine Or.inr ⟨hr, hvalid, hfresh, ?_⟩
    unfold gated
    simp only [hpoll, Bool.false_eq_true, if_false]
    exact heq
  · refine Or.inr ⟨hr, hvalid, hfresh, ?_⟩
    unfold gated
    simp only [hpoll, if_true, hver]
    rw [heq, (h.makeRoom.2.indexed).gate_records (makeRoom_byMsgId hfresh)]

theorem gated_cases (V : Vars) (M : Moment) (s : TmailStore) (env : TmailEnvelopeV1) :
    gated V M s env = s.makeRoom V M ∨
      ∃ n t, gated V M s env = (s.makeRoom V M).recorded env.id (.verified n t) := by
  unfold gated
  simp only
  by_cases hpoll : (s.makeRoom V M).isPoll env.receiver = true
  · rw [if_pos hpoll]
    cases verifyAnonymousProof M env with
    | verified n t => exact Or.inr ⟨n, t, rfl⟩
    | failed reason t => exact Or.inl rfl
    | pending => exact Or.inl rfl
  · rw [if_neg hpoll]
    exact Or.inl rfl

/-- No held post has an id without a row. -/
theorem Indexed.not_waiting (h : s.Indexed) {id : Str} (hfresh : s.byMsgId.get id = none)
    {e : TmailEnvelopeV1} (he : s.Waits e) : e.id ≠ id := h.not_held hfresh he.1

/-- Making room and the ballot's verdict leave the held posts as they are. -/
theorem Awaited.gated (h : s.Awaited) (hindexed : s.Indexed) (hfresh : s.byMsgId.get env.id = none)
    (hspare : ∀ e, s.Waits e → ¬ Displaced V M s env e) :
    (gated V M s env).Awaited ∧ (gated V M s env).Indexed ∧
      (gated V M s env).byMsgId.get env.id = none ∧ ∀ e, (gated V M s env).Waits e → s.Waits e := by
  obtain ⟨hsame, hdrop⟩ := hindexed.makeRoom (V := V) (M := M)
  have hroom : (s.makeRoom V M).Awaited := h.of_drop hsame hdrop fun e he hgone =>
    hspare e he ⟨hfresh, Or.inl hgone⟩
  have hfresh' := makeRoom_byMsgId (V := V) (M := M) hfresh
  have hwaits : ∀ e, (s.makeRoom V M).Waits e → s.Waits e :=
    fun e he => waits_of_drop hsame.shrinks hdrop he
  rcases gated_cases V M s env with heq | ⟨n, t, heq⟩
  · rw [heq]
    exact ⟨hroom, hdrop.indexed, hfresh', hwaits⟩
  · rw [heq]
    refine ⟨hroom.recorded fun e he => hdrop.indexed.not_waiting hfresh' he,
      hdrop.indexed.congr rfl rfl, hfresh', hwaits⟩

/-- A message is stored, and the held posts are within the limits. -/
theorem Awaited.insertRow (h : s.Awaited) (hindexed : s.Indexed)
    (hfresh : s.byMsgId.get env.id = none) (hvalid : isHex64 env.receiver = true ∧ env.id ≠ [])
    (hspare : ∀ e, s.Waits e → ¬ (PastGroup V (s.addRows env) env e ∨
      env.isAnonymous = true ∧ PastCap V (s.afterGroup V env) env.receiver e)) :
    (s.insertRow V env).Awaited := by
  obtain ⟨hsame, -, hholds⟩ := hindexed.insertRow (V := V) hfresh hvalid
  obtain ⟨-, -, hgroup⟩ := hindexed.afterGroup (V := V) hfresh hvalid
  refine h.of_change hsame.shrinks.pending fun e he _ => ⟨?_, by rw [hsame.shrinks.verdicts]⟩
  have hkept := not_or.mp (hspare e he)
  exact (hholds e).mpr ⟨(hgroup e).mpr ⟨Or.inl he.1, hkept.1⟩, hkept.2⟩

theorem storeTmailInner_pending (h : s.Indexed) :
    (s.storeTmailInner V M env).2.fastPending = s.fastPending := by
  have hout : StoreOutcome M env s (s.storeTmailInner V M env).1 (s.storeTmailInner V M env).2 :=
    h.storeTmailInner
  generalize s.storeTmailInner V M env = r at hout ⊢
  rcases r with ⟨r, s'⟩
  cases hout with
  | quiet _ hsame _ =>
    unfold SameBeside at hsame
    rw [hsame]
  | stored _ _ hsame _ _ =>
    unfold SameBeside at hsame
    rw [hsame]
  | ballot _ _ _ hsame _ _ =>
    unfold SameBeside at hsame
    rw [hsame]
    rfl

theorem Awaited.storeTmailInner (h : s.Awaited) (hindexed : s.Indexed)
    (hspare : ∀ e, s.Waits e → ¬ Displaced V M s env e) :
    (s.storeTmailInner V M env).2.Awaited := by
  by_cases hknown : (s.byMsgId.get env.id).isSome = true
  · rw [storeTmailInner_known hknown]
    exact h
  have hfresh : s.byMsgId.get env.id = none := by simpa using hknown
  rcases storeTmailInner_stored V M env hindexed with
    ⟨-, heq | heq⟩ | ⟨-, hvalid, -, heq⟩
  · rw [heq]
    exact h
  · rw [heq]
    obtain ⟨hsame, hdrop⟩ := hindexed.makeRoom (V := V) (M := M)
    exact h.of_drop hsame hdrop fun e he hgone => hspare e he ⟨hfresh, Or.inl hgone⟩
  · rw [heq]
    obtain ⟨hgated, hgatedIndexed, hfresh', hwaits⟩ := h.gated hindexed hfresh hspare
    exact hgated.insertRow hgatedIndexed hfresh' hvalid fun e he hpast =>
      hspare e (hwaits e he) ⟨hfresh, Or.inr hpast⟩

/-- A stored message's verdict is of no held post. -/
theorem Awaited.recordStored (h : s.Awaited) (hindexed : s.Indexed)
    (hspare : ∀ e, s.Waits e → ¬ Displaced V M s env e)
    (hstored : (s.storeTmailInner V M env).1 = .ok true) (verdict : AnonVerdict) :
    ((s.storeTmailInner V M env).2.recorded env.id verdict).Awaited := by
  refine (h.storeTmailInner hindexed hspare).recorded fun e he hid => ?_
  have hfresh : s.byMsgId.get env.id = none := by
    rcases storeTmailInner_stored V M env hindexed with
      ⟨hr, -⟩ | ⟨-, -, hfresh, -⟩
    · exact absurd hstored hr
    · exact hfresh
  -- its row was there before, of a message of the same id
  obtain ⟨t, hrow⟩ := Option.isSome_iff_exists.mp he.2
  rw [storeTmailInner_pending hindexed] at hrow
  obtain ⟨e', hheld, hp, -, -⟩ := h _ t hrow
  have hid' : e'.id = env.id := (congrArg PendingKey.msgId hp).symm.trans hid
  exact hindexed.not_held hfresh hheld hid'

theorem Awaited.storeTmail (h : s.Awaited) (hindexed : s.Indexed)
    (hspare : ∀ e, s.Waits e → ¬ Displaced V M s env e) : (s.storeTmail V M env).2.Awaited := by
  unfold TmailStore.storeTmail
  by_cases hfast : env.isFastPost = true
  · rw [if_pos hfast]
    exact h
  rw [if_neg hfast]
  by_cases hshelter : (!env.flagAnonymous && M.isShelterBoard env.receiver &&
      !M.shelterMayPost (trimLower env.senderWalletId)) = true
  · rw [if_pos hshelter]
    exact h
  · rw [if_neg hshelter]
    exact h.storeTmailInner hindexed hspare

theorem Awaited.storeRegistered (h : s.Awaited) (hindexed : s.Indexed)
    (hspare : ∀ e, s.Waits e → ¬ Displaced V M s env e) (reg : FastKey) :
    (s.storeRegistered V M env reg).2.Awaited := by
  rcases storeRegistered_cases V M s env reg with ⟨-, heq | ⟨-, heq⟩⟩ | ⟨hr, heq⟩ <;> rw [heq]
  · exact h
  · exact h.storeTmailInner hindexed hspare
  · exact h.recordStored hindexed hspare hr _

/-- A post that is stored for a registration to come, itself within the limits. -/
theorem Awaited.storeHeld (h : s.Awaited) (hindexed : s.Indexed) (hproof : env.proof = none)
    (hspare : ∀ e, (s.pruneFast V M).Waits e → ¬ Displaced V M (s.pruneFast V M) env e)
    (hkept : ¬ Crowded V M (s.pruneFast V M) env env) : (s.storeHeld V M env).2.Awaited := by
  have hpruned := h.pruneFast (V := V) (M := M) hindexed
  have hdrop := (hindexed.pruneFast (V := V) (M := M)).2.indexed
  have hinner := hpruned.storeTmailInner hdrop hspare
  have hrecord := hpruned.recordStored hdrop hspare
  have hholds : ((s.pruneFast V M).storeTmailInner V M env).1 = .ok true →
      ((s.pruneFast V M).storeTmailInner V M env).2.Holds env := by
    intro hstored
    rcases storeTmailInner_stored V M env hdrop with
      ⟨hr, -⟩ | ⟨-, hvalid, hfresh, heq⟩
    · exact absurd hstored hr
    · obtain ⟨-, hgated, hfresh', -⟩ := hpruned.gated hdrop hfresh hspare
      obtain ⟨-, -, hafter⟩ := hgated.insertRow (V := V) hfresh' hvalid
      obtain ⟨-, -, hgroup⟩ := hgated.afterGroup (V := V) hfresh' hvalid
      have hboth := not_or.mp hkept
      rw [heq]
      exact (hafter env).mpr ⟨(hgroup env).mpr ⟨Or.inr rfl, hboth.1⟩, hboth.2⟩
  rcases storeHeld_cases V M s env with ⟨-, heq | ⟨-, heq⟩⟩ | ⟨hr, heq⟩ <;> rw [heq]
  · exact hpruned
  · exact hinner
  · -- the new row, of the new post
    intro p t hrow
    have hrow : (((s.pruneFast V M).storeTmailInner V M env).2.fastPending.insert
      ⟨env.fastName, env.id⟩ M.now).get p = some t := hrow
    rw [Tree.get_insert] at hrow
    by_cases hp : (⟨env.fastName, env.id⟩ : PendingKey) = p
    · refine ⟨env, hholds hr, hp.symm, hproof, ?_⟩
      exact Tree.get_insert_self _ _ _
    · rw [if_neg hp] at hrow
      exact hrecord hr .pending p t hrow

end TmailStore

/-! ## Runs -/

/-- The calls of the store that touch the indexes. -/
inductive StoreOp where
  | storeTmail (M : Moment) (env : TmailEnvelopeV1)
  | sendFast (M : Moment) (env : TmailEnvelopeV1)
  | receiveFast (M : Moment) (env : TmailEnvelopeV1)
  | enforceRetention (receiver counterparty : Str)
  | enforceAnonymousCap (receiver : Str)
  | setVerdict (M : Moment) (msgId : Str) (verdict : AnonVerdict)
  | delete (M : Moment) (msgId : Str)
  | forget (msgId : Str)
  | pruneExpired (now : Nat)
  | pruneFast (M : Moment)
  | registerPoll (wallet : Str)

namespace TmailStore

/-- One call. Envelopes are verified before they come here. -/
def apply (V : Vars) (s : TmailStore) : StoreOp → TmailStore
  | .storeTmail M env => if env.wellFormed then (s.storeTmail V M env).2 else s
  | .sendFast M env => if env.wellFormed then (s.sendFastAnonymous V M env).2 else s
  | .receiveFast M env => if env.wellFormed then (s.receiveFastAnonymous V M env).2 else s
  | .enforceRetention receiver counterparty => s.enforceRetention V receiver counterparty
  | .enforceAnonymousCap receiver => s.enforceAnonymousCap V receiver
  | .setVerdict M msgId verdict => s.setAnonVerdict V M msgId verdict
  | .delete M msgId => s.deleteByMsgId V M msgId
  | .forget msgId => s.forgetByMsgId msgId
  | .pruneExpired now => s.pruneExpired V now
  | .pruneFast M => s.pruneFast V M
  | .registerPoll wallet => { s with pollRoots := s.pollRoots.insert (trimLower wallet) () }

/-- The registration a fast post from a peer is stored under, if it is not held for one. -/
def receivedUnder (M : Moment) (s : TmailStore) (env : TmailEnvelopeV1) : Option FastKey :=
  (s.fastRegistration env).filter fun reg =>
    !M.isShelterBoard env.receiver || M.shelterRegistrationOk reg

/-- The call takes no held post away and records no other verdict under its id; a post it holds is
itself within the limits. -/
def SparesHeld (V : Vars) (s : TmailStore) : StoreOp → Prop
  | .storeTmail M env | .sendFast M env => ∀ e, s.Waits e → ¬ Displaced V M s env e
  | .receiveFast M env =>
    ((receivedUnder M s env).isSome = true → ∀ e, s.Waits e → ¬ Displaced V M s env e) ∧
    ((receivedUnder M s env).isNone = true →
      (∀ e, (s.pruneFast V M).Waits e → ¬ Displaced V M (s.pruneFast V M) env e) ∧
        ¬ Crowded V M (s.pruneFast V M) env env)
  | .enforceRetention receiver counterparty => ∀ e, s.Waits e →
      (e.key, e) ∉ beyond (fun a b => newerFirst a b = true) (keepOf V (trimLower counterparty))
        (s.conversation (trimLower receiver) (trimLower counterparty))
  | .enforceAnonymousCap receiver => ∀ e, s.Waits e → ¬ PastCap V s (trimLower receiver) e
  | .setVerdict _ msgId verdict => verdict = .pending ∨ ∀ e, s.Waits e → e.id ≠ trim msgId
  | .delete _ msgId | .forget msgId => ∀ e, s.Waits e → e.id ≠ trim msgId
  | .pruneExpired now => ∀ e, s.Waits e → isExpired V e now = false
  | .pruneFast _ | .registerPoll _ => True

end TmailStore

/-- What calls lead to from a new store, each call where `ok` allows it. -/
inductive OpRun (V : Vars) (ok : TmailStore → StoreOp → Prop) : TmailStore → Prop where
  | start : OpRun V ok TmailStore.new
  | step {s : TmailStore} (op : StoreOp) (before : OpRun V ok s) (allowed : ok s op) :
      OpRun V ok (s.apply V op)

namespace TmailStore

variable {V : Vars} {M : Moment} {s s' : TmailStore} {env : TmailEnvelopeV1}

/-- One call keeps the indexes in agreement. -/
theorem Agreed.apply (h : s.Agreed) (op : StoreOp) : (s.apply V op).Agreed := by
  cases op with
  | storeTmail M env =>
    show (if _ then _ else _ : TmailStore).Agreed
    by_cases hwf : env.wellFormed = true
    · rw [if_pos hwf]
      exact (Agreed.invariant M.now).storeTmail h
    · rw [if_neg hwf]
      exact h
  | sendFast M env =>
    show (if _ then _ else _ : TmailStore).Agreed
    by_cases hwf : env.wellFormed = true
    · rw [if_pos hwf]
      exact (Agreed.invariant M.now).sendFastAnonymous h
    · rw [if_neg hwf]
      exact h
  | receiveFast M env =>
    show (if _ then _ else _ : TmailStore).Agreed
    by_cases hwf : env.wellFormed = true
    · rw [if_pos hwf]
      exact (Agreed.invariant M.now).receiveFastAnonymous h
    · rw [if_neg hwf]
      exact h
  | enforceRetention receiver counterparty =>
    exact (Agreed.invariant 0).enforceRetention h receiver counterparty
  | enforceAnonymousCap receiver => exact (Agreed.invariant 0).enforceAnonymousCap h receiver
  | setVerdict M msgId verdict => exact (Agreed.invariant M.now).setAnonVerdict h msgId verdict
  | delete M msgId => exact (Agreed.invariant M.now).deleteByMsgId h msgId
  | forget msgId => exact (Agreed.invariant 0).forgetByMsgId h msgId
  | pruneExpired now => exact (Agreed.invariant now).pruneExpired h
  | pruneFast M => exact (Agreed.invariant M.now).pruneFast h
  | registerPoll wallet => exact h.congr rfl rfl

theorem Agreed.run {ok : TmailStore → StoreOp → Prop} (h : OpRun V ok s) : s.Agreed := by
  induction h with
  | start => exact Agreed.new
  | step op _ _ ih => exact ih.apply op

theorem Awaited.sendFast (h : s.Awaited) (hindexed : s.Indexed)
    (hspare : ∀ e, s.Waits e → ¬ Displaced V M s env e) :
    (s.sendFastAnonymous V M env).2.Awaited := by
  rcases sendFastAnonymous_cases V M s env with ⟨-, heq⟩ | ⟨reg, -, -, heq⟩ <;> rw [heq]
  · exact h
  · exact h.storeRegistered hindexed hspare reg

theorem Awaited.receiveFast (h : s.Awaited) (hindexed : s.Indexed)
    (hspare : SparesHeld V s (.receiveFast M env)) : (s.receiveFastAnonymous V M env).2.Awaited := by
  obtain ⟨hregistered, hheld⟩ := hspare
  unfold receivedUnder at hregistered hheld
  rcases receiveFastAnonymous_cases V M s env with
    heq | ⟨hchecks, -, ⟨reg, hreg, heq⟩ | ⟨hreg, heq⟩⟩ <;> rw [heq]
  · exact h
  · exact h.storeRegistered hindexed (hregistered (by rw [hreg]; rfl)) reg
  · have hproof : env.proof = none := by
      have hfast := (fastChecks_ok hchecks).2.1
      unfold TmailEnvelopeV1.isFastPost at hfast
      simpa using (Bool.and_eq_true_iff.mp hfast).2
    obtain ⟨hothers, hself⟩ := hheld (by rw [hreg]; rfl)
    exact h.storeHeld hindexed hproof hothers hself

/-- One call that spares the held posts. -/
theorem Awaited.apply (h : s.Awaited) (hindexed : s.Indexed) {op : StoreOp}
    (hspare : SparesHeld V s op) : (s.apply V op).Awaited := by
  cases op with
  | storeTmail M env =>
    show (if _ then _ else _ : TmailStore).Awaited
    by_cases hwf : env.wellFormed = true
    · rw [if_pos hwf]
      exact h.storeTmail hindexed hspare
    · rw [if_neg hwf]
      exact h
  | sendFast M env =>
    show (if _ then _ else _ : TmailStore).Awaited
    by_cases hwf : env.wellFormed = true
    · rw [if_pos hwf]
      exact h.sendFast hindexed hspare
    · rw [if_neg hwf]
      exact h
  | receiveFast M env =>
    show (if _ then _ else _ : TmailStore).Awaited
    by_cases hwf : env.wellFormed = true
    · rw [if_pos hwf]
      exact h.receiveFast hindexed hspare
    · rw [if_neg hwf]
      exact h
  | enforceRetention receiver counterparty =>
    by_cases hhex : isHex64 (trimLower receiver) = true
    · obtain ⟨hsame, hdrop⟩ := hindexed.enforceRetention (V := V) counterparty hhex
      exact h.of_drop hsame hdrop hspare
    · show (s.enforceRetention V receiver counterparty).Awaited
      unfold TmailStore.enforceRetention
      simp only [hhex, Bool.not_false, if_true]
      exact h
  | enforceAnonymousCap receiver =>
    by_cases hhex : isHex64 (trimLower receiver) = true
    · obtain ⟨hsame, hdrop⟩ := hindexed.enforceAnonymousCap (V := V) hhex
      exact h.of_drop hsame hdrop hspare
    · show (s.enforceAnonymousCap V receiver).Awaited
      unfold TmailStore.enforceAnonymousCap
      simp only [hhex, Bool.not_false, if_true]
      exact h
  | setVerdict M msgId verdict => exact h.setAnonVerdict hindexed hspare
  | delete M msgId =>
    obtain ⟨hsame, hdrop⟩ := hindexed.deleteByMsgId (V := V) (M := M) msgId
    exact h.of_drop hsame hdrop hspare
  | forget msgId =>
    obtain ⟨hsame, hdrop⟩ := hindexed.forgetByMsgId msgId
    exact h.of_drop hsame hdrop hspare
  | pruneExpired now =>
    obtain ⟨hsame, hdrop⟩ := hindexed.pruneExpired (V := V) now
    refine h.of_drop hsame hdrop fun e he hexp => ?_
    rw [hspare e he] at hexp
    cases hexp
  | pruneFast M => exact h.pruneFast hindexed
  | registerPoll wallet => exact h

theorem Awaited.run (h : OpRun V (SparesHeld V) s) : s.Awaited := by
  induction h with
  | start =>
    intro p t hrow
    cases hrow.symm.trans (Tree.get_empty p)
  | step op before allowed ih => exact ih.apply (Agreed.run before).indexed allowed

/-- The map from ids to receivers and the rows of the receivers agree, and the held fast posts are
stored without a verdict. -/
structure IndexConsistent (s : TmailStore) : Prop where
  mapped : ∀ id receiver, s.byMsgId.get id = some (.live receiver) ↔
    ∃ r ∈ s.byReceiver.iter, r.1.msgId = id ∧ r.1.receiver = receiver ∧ isHex64 receiver = true ∧
      ∀ r' ∈ s.byReceiver.iter, r'.1.msgId = id → r' = r
  tombs : ∀ id expireAt, s.byMsgId.get id = some (.burned expireAt) ∨
    s.byMsgId.get id = some (.pruned expireAt) → ∀ r ∈ s.byReceiver.iter, r.1.msgId ≠ id
  waiting : ∀ p t, s.fastPending.get p = some t →
    ∃ e, s.getByMsgId p.msgId = some e ∧ s.getAnonVerdict p.msgId = some .pending

/-- The rows of an id, where the indexes agree. -/
theorem Agreed.mapped (h : s.Agreed) (id receiver : Str) :
    s.byMsgId.get id = some (.live receiver) ↔
      ∃ r ∈ s.byReceiver.iter, r.1.msgId = id ∧ r.1.receiver = receiver ∧ isHex64 receiver = true ∧
        ∀ r' ∈ s.byReceiver.iter, r'.1.msgId = id → r' = r := by
  constructor
  · intro hlive
    obtain ⟨e, hheld, rfl, rfl⟩ := h.located id receiver hlive
    refine ⟨(e.key, e), h.indexed.mem_iter.mpr ⟨rfl, hheld⟩, rfl, rfl, (h.indexed.valid e hheld).1, ?_⟩
    rintro ⟨k, e'⟩ hr' hid
    obtain ⟨hkey, hheld'⟩ := h.indexed.mem_iter.mp hr'
    have hkey : k = e'.key := hkey
    subst hkey
    have hsame : e' = e := h.indexed.unique e' e hheld' hheld hid
    rw [hsame]
  · rintro ⟨⟨k, e⟩, hr, rfl, rfl, -, -⟩
    obtain ⟨hkey, hheld⟩ := h.indexed.mem_iter.mp hr
    have hkey : k = e.key := hkey
    subst hkey
    exact h.indexed.live e hheld

theorem Agreed.tombs (h : s.Agreed) {id : Str} {expireAt : Nat}
    (htomb : s.byMsgId.get id = some (.burned expireAt) ∨
      s.byMsgId.get id = some (.pruned expireAt)) : ∀ r ∈ s.byReceiver.iter, r.1.msgId ≠ id := by
  rintro ⟨k, e⟩ hr rfl
  obtain ⟨hkey, hheld⟩ := h.indexed.mem_iter.mp hr
  have hkey : k = e.key := hkey
  subst hkey
  have hlive : s.byMsgId.get e.key.msgId = some (.live e.receiver) := h.indexed.live e hheld
  rcases htomb with htomb | htomb
  · cases hlive.symm.trans htomb
  · cases hlive.symm.trans htomb

end TmailStore

/-- **Message index consistency.** In every run in which no call takes a held fast post away, or
records another verdict under its id, while its row stays, the indexes agree and every row of
`fast_pending` is of a stored message whose verdict is `Pending`. -/
theorem index_consistent {V : Vars} {s : TmailStore} (h : OpRun V (TmailStore.SparesHeld V) s) :
    s.IndexConsistent := by
  have hagreed := TmailStore.Agreed.run h
  refine ⟨hagreed.mapped, fun id expireAt htomb => hagreed.tombs htomb, fun p t hrow => ?_⟩
  obtain ⟨e, hheld, rfl, -, hverdict⟩ := TmailStore.Awaited.run h p t hrow
  refine ⟨e, hagreed.indexed.getByMsgId_iff.mpr ⟨hheld, (TmailStore.trim_id e).symm⟩, ?_⟩
  unfold TmailStore.getAnonVerdict
  rw [TmailStore.trim_id]
  exact hverdict

/-- The indexes agree in every run, whatever becomes of the held posts. -/
theorem indexes_agree {V : Vars} {ok : TmailStore → StoreOp → Prop} {s : TmailStore}
    (h : OpRun V ok s) (id receiver : Str) : s.byMsgId.get id = some (.live receiver) ↔
      ∃ r ∈ s.byReceiver.iter, r.1.msgId = id ∧ r.1.receiver = receiver ∧ isHex64 receiver = true ∧
        ∀ r' ∈ s.byReceiver.iter, r'.1.msgId = id → r' = r :=
  (TmailStore.Agreed.run h).mapped id receiver

end TetCore.Tmail

namespace TetCore.Sample

open TetCore.Lib TetCore.Tmail

/-- A fast post that expires after a second. -/
def shortLived : TmailEnvelopeV1 := { post "f".toList 2000 none [] with ttlMs := 1000 }

/-- A post with a proof is stored. -/
def proved : TmailStore :=
  TmailStore.new.apply {} (.storeTmail (moment 2000 []) (post "m".toList 2000 (some anchorProof) []))

/-- It awaits its receipt. -/
def awaiting : TmailStore := proved.apply {} (.setVerdict (moment 2000 []) "m".toList .pending)

/-- A fast post of its key is held. -/
def holding : TmailStore := awaiting.apply {} (.receiveFast (moment 2000 []) shortLived)

theorem holding_run : OpRun {} (TmailStore.SparesHeld {}) holding := by
  have hproved : OpRun {} (TmailStore.SparesHeld {}) proved :=
    OpRun.start.step _ fun e he => by cases he.1.symm.trans (Tree.get_empty e.key)
  have hawaiting : OpRun {} (TmailStore.SparesHeld {}) awaiting := hproved.step _ (Or.inl rfl)
  have hall : (TmailStore.receivedUnder (moment 2000 []) awaiting shortLived).isSome = false ∧
      (awaiting.pruneFast {} (moment 2000 [])).fastPending.iter = [] ∧
      ¬ TmailStore.Crowded {} (moment 2000 []) (awaiting.pruneFast {} (moment 2000 [])) shortLived
        shortLived := by decide +kernel
  refine hawaiting.step _ ⟨fun hsome => ?_, fun _ => ⟨fun e he => ?_, hall.2.2⟩⟩
  · cases hall.1.symm.trans hsome
  · obtain ⟨t, hrow⟩ := Option.isSome_iff_exists.mp he.2
    have hmem := Tree.mem_iter.mpr hrow
    rw [hall.2.1] at hmem
    cases hmem

end TetCore.Sample

namespace TetCore.Tmail

/-- A held fast post, and its row. -/
theorem index_consistent_held : Sample.holding.IndexConsistent ∧
    Sample.holding.fastPending.get ⟨Sample.shortLived.fastName, "f".toList⟩ = some 2000 :=
  ⟨index_consistent Sample.holding_run, by decide +kernel⟩

/-- A held fast post that expires is reaped, and its row stays. -/
theorem index_consistent_reaped :
    ¬ ∀ (V : Vars) (s : TmailStore), OpRun V (fun _ _ => True) s → s.IndexConsistent := by
  intro h
  have hrun : OpRun {} (fun _ _ => True) (Sample.holding.apply {} (.pruneExpired 4000)) :=
    (((OpRun.start.step _ trivial).step _ trivial).step _ trivial).step _ trivial
  have hall : (Sample.holding.apply {} (.pruneExpired 4000)).fastPending.get
        ⟨Sample.shortLived.fastName, "f".toList⟩ = some 2000 ∧
      (Sample.holding.apply {} (.pruneExpired 4000)).getByMsgId "f".toList = none := by
    decide +kernel
  obtain ⟨e, hfound, -⟩ := (h _ _ hrun).waiting _ _ hall.1
  cases hall.2.symm.trans hfound

end TetCore.Tmail
