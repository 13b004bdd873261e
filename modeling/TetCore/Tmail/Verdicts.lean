import TetCore.Tmail.Rows

/-!
# What a verdict changes

`set_anon_verdict` records a verdict under a message id and lets the posting key of the message held
there follow it: a verified proof registers the key and verifies the fast posts held for it, a failed
one drops them. Each step is described by what it does to the messages (`Dropped`), to the verdicts on
record (`Records`), and to the registrations and held posts (`Shrinks`, `Registers`).
-/

namespace TetCore.Tmail

open TetCore.Lib

namespace TmailStore

variable {V : Vars} {M : Moment} {s s' s'' : TmailStore} {env env' : TmailEnvelopeV1}

/-! ## Posting keys -/

/-- The verdicts, the polls and the awaited registrations are the same; registrations and held posts
are some of those that were. -/
structure Shrinks (s s' : TmailStore) : Prop where
  verdicts : s'.anonVerdict = s.anonVerdict
  polls : s'.pollRoots = s.pollRoots
  keys : ∀ name reg, s'.fastKeys.get name = some reg → s.fastKeys.get name = some reg
  pending : ∀ p t, s'.fastPending.get p = some t → s.fastPending.get p = some t

theorem Shrinks.refl (s : TmailStore) : Shrinks s s := ⟨rfl, rfl, fun _ _ h => h, fun _ _ h => h⟩

theorem Shrinks.trans (h : Shrinks s s') (h' : Shrinks s' s'') : Shrinks s s'' :=
  ⟨h'.verdicts.trans h.verdicts, h'.polls.trans h.polls,
    fun name reg hr => h.keys name reg (h'.keys name reg hr),
    fun p t hp => h.pending p t (h'.pending p t hp)⟩

theorem SameBeside.shrinks (h : SameBeside s s') : Shrinks s s' := by
  unfold SameBeside at h
  rw [h]
  exact ⟨rfl, rfl, fun _ _ hr => hr, fun _ _ hp => hp⟩

/-- A store that differs in other trees than the indexes holds the same. -/
theorem Indexed.of_indexes (h : s.Indexed) (hrows : s'.byReceiver = s.byReceiver)
    (hids : s'.byMsgId = s.byMsgId) : Dropped s s' fun _ => False := by
  have hholds : ∀ env, s'.Holds env ↔ s.Holds env := fun env => by
    unfold Holds
    rw [hrows]
  refine ⟨⟨?_, ?_, ?_, ?_⟩, fun env => by rw [hholds, not_false_eq_true, and_true]⟩
  · intro k env
    rw [hrows]
    exact h.keyed k env
  · intro env
    rw [hids, hholds]
    exact h.live env
  · intro env env'
    rw [hholds, hholds]
    exact h.unique env env'
  · intro env
    rw [hholds]
    exact h.valid env

theorem Indexed.congr (h : s.Indexed) (hrows : s'.byReceiver = s.byReceiver)
    (hids : s'.byMsgId = s.byMsgId) : s'.Indexed := (h.of_indexes hrows hids).indexed

theorem shrinks_removePending (s : TmailStore) (p : PendingKey) :
    Shrinks s { s with fastPending := s.fastPending.remove p } := by
  refine ⟨rfl, rfl, fun _ _ h => h, fun p' t hp => ?_⟩
  have hp : (s.fastPending.remove p).get p' = some t := hp
  rw [Tree.get_remove] at hp
  by_cases heq : p = p'
  · rw [if_pos heq] at hp
    cases hp
  · rwa [if_neg heq] at hp

/-- Held posts let go one after the other, each with its message. -/
theorem Indexed.letGo {f : TmailStore → Str → TmailStore}
    (hf : ∀ {s : TmailStore} (msgId : Str), s.Indexed → SameBeside s (f s msgId) ∧
      Dropped s (f s msgId) fun env => env.id = trim msgId) :
    ∀ (ps : List PendingKey) {s : TmailStore}, s.Indexed →
      let s' := ps.foldl
        (fun s p => f { s with fastPending := s.fastPending.remove p } p.msgId) s
      Shrinks s s' ∧ Dropped s s' fun env => ∃ p ∈ ps, env.id = trim p.msgId := by
  intro ps
  induction ps with
  | nil => exact fun h => ⟨Shrinks.refl _, (Dropped.refl h).congr fun env _ => by simp⟩
  | cons p ps ih =>
    intro s h
    have hpend : Dropped s { s with fastPending := s.fastPending.remove p } fun _ => False :=
      h.of_indexes rfl rfl
    obtain ⟨hsame, hdrop⟩ := hf p.msgId hpend.indexed
    obtain ⟨hshrinks, hrest⟩ := ih hdrop.indexed
    refine ⟨(shrinks_removePending s p).trans (hsame.shrinks.trans hshrinks),
      ((hpend.trans hdrop).trans hrest).congr fun env _ => ?_⟩
    simp

theorem Indexed.pruneFast (h : s.Indexed) :
    Shrinks s (s.pruneFast V M) ∧ Dropped s (s.pruneFast V M) fun env =>
      ∃ p t, s.fastPending.get p = some t ∧ V.pendingTtlMs < M.now - t ∧ env.id = trim p.msgId := by
  unfold TmailStore.pruneFast
  let late := (s.fastPending.iter.filter fun r => V.pendingTtlMs < M.now - r.2).map Prod.fst
  let s₁ : TmailStore := { s with
    fastKeys := ((s.fastKeys.iter.filter fun r => r.1.bucket + 1 < bucketIndex M.now).map
      Prod.fst).foldl Tree.remove s.fastKeys }
  have hkeys : Shrinks s s₁ :=
    ⟨rfl, rfl, fun _ _ hr => Tree.get_of_foldl_remove _ hr, fun _ _ hp => hp⟩
  have hsame : Dropped s s₁ fun _ => False := h.of_indexes rfl rfl
  obtain ⟨hshrinks, hdrop⟩ := Indexed.letGo (f := TmailStore.forgetByMsgId)
    (fun msgId h => h.forgetByMsgId msgId) late hsame.indexed
  refine ⟨hkeys.trans hshrinks, (hsame.trans hdrop).congr fun env _ => ?_⟩
  rw [false_or]
  constructor
  · rintro ⟨p, hp, hid⟩
    obtain ⟨⟨p', t⟩, hr, rfl⟩ := List.mem_map.mp hp
    obtain ⟨hr, hlate⟩ := List.mem_filter.mp hr
    exact ⟨p', t, Tree.mem_iter.mp hr, of_decide_eq_true hlate, hid⟩
  · rintro ⟨p, t, hp, hlate, hid⟩
    exact ⟨p, List.mem_map.mpr ⟨(p, t),
      List.mem_filter.mpr ⟨Tree.mem_iter.mpr hp, decide_eq_true hlate⟩, rfl⟩, hid⟩

theorem Indexed.dropFastPending (h : s.Indexed) (name : FastName) (definitive : Bool) :
    Shrinks s (s.dropFastPending V M name definitive) ∧
      Dropped s (s.dropFastPending V M name definitive) fun env =>
        ∃ p ∈ s.waiting name, env.id = trim p.msgId := by
  unfold TmailStore.dropFastPending
  cases definitive with
  | true => exact Indexed.letGo (fun msgId h => h.deleteByMsgId (V := V) (M := M) msgId) _ h
  | false => exact Indexed.letGo (fun msgId h => h.forgetByMsgId msgId) _ h

/-! ## Verdicts -/

/-- The verdict on record under `id` is the one there was, or one that `P` allows. -/
def Records (P : Str → AnonVerdict → Prop) (s s' : TmailStore) : Prop :=
  ∀ id, s'.anonVerdict.get id = s.anonVerdict.get id ∨
    ∃ v, s'.anonVerdict.get id = some v ∧ P id v

theorem Records.of_eq {P : Str → AnonVerdict → Prop} (h : s'.anonVerdict = s.anonVerdict) :
    Records P s s' := fun id => Or.inl (by rw [h])

theorem Records.mono {P Q : Str → AnonVerdict → Prop} (h : Records P s s')
    (hPQ : ∀ id v, P id v → Q id v) : Records Q s s' := by
  intro id
  rcases h id with h | ⟨v, hv, hP⟩
  · exact Or.inl h
  · exact Or.inr ⟨v, hv, hPQ id v hP⟩

theorem Records.trans {P : Str → AnonVerdict → Prop} (h : Records P s s') (h' : Records P s' s'') :
    Records P s s'' := by
  intro id
  rcases h' id with h' | h'
  · rw [h']
    exact h id
  · exact Or.inr h'

theorem Records.insert {P : Str → AnonVerdict → Prop} {id : Str} {v : AnonVerdict} (hP : P id v) :
    Records P s { s with anonVerdict := s.anonVerdict.insert id v } := by
  intro id'
  by_cases hid : id = id'
  · subst hid
    exact Or.inr ⟨v, Tree.get_insert_self _ _ _, hP⟩
  · exact Or.inl (Tree.get_insert_ne hid)

/-- The held posts that follow a registration: their rows go, their verdicts are set. -/
theorem verifyHeld_fold (n : Str) : ∀ (ps : List PendingKey) (s : TmailStore),
    Records (fun id v => (∃ p ∈ ps, p.msgId = id) ∧ v = .verified n M.now) s
        (ps.foldl (verifyHeld M n) s) ∧
      ps.foldl (verifyHeld M n) s = { s with
        fastPending := ps.foldl Tree.remove s.fastPending
        anonVerdict := (ps.foldl (verifyHeld M n) s).anonVerdict } := by
  intro ps
  induction ps with
  | nil => exact fun s => ⟨Records.of_eq rfl, rfl⟩
  | cons p ps ih =>
    intro s
    obtain ⟨hrec, heq⟩ := ih (verifyHeld M n s p)
    have hone : Records (fun id v => p.msgId = id ∧ v = .verified n M.now) s
          (verifyHeld M n s p) ∧
        verifyHeld M n s p = { s with
          fastPending := s.fastPending.remove p
          anonVerdict := (verifyHeld M n s p).anonVerdict } := by
      unfold verifyHeld
      by_cases hfound : ({ s with fastPending := s.fastPending.remove p } : TmailStore).getByMsgId
          p.msgId |>.isSome
      · simp only [if_pos hfound]
        exact ⟨Records.insert ⟨rfl, rfl⟩, trivial⟩
      · simp only [if_neg hfound]
        exact ⟨Records.of_eq rfl, trivial⟩
    rw [List.foldl_cons]
    constructor
    · refine (hone.1.mono ?_).trans (hrec.mono ?_)
      · rintro id v ⟨hid, hv⟩
        exact ⟨⟨p, List.mem_cons_self, hid⟩, hv⟩
      · rintro id v ⟨⟨p', hp', hid⟩, hv⟩
        exact ⟨⟨p', List.mem_cons_of_mem p hp', hid⟩, hv⟩
    · rw [heq, hone.2]
      rfl

theorem mem_waiting {name : FastName} {p : PendingKey} :
    p ∈ s.waiting name ↔ (∃ t, s.fastPending.get p = some t) ∧ p.name = name := by
  unfold waiting
  rw [List.mem_map]
  constructor
  · rintro ⟨⟨p', t⟩, hr, rfl⟩
    obtain ⟨hr, hname⟩ := List.mem_filter.mp hr
    exact ⟨⟨t, Tree.mem_iter.mp hr⟩, of_decide_eq_true hname⟩
  · rintro ⟨⟨t, hp⟩, hname⟩
    exact ⟨(p, t), List.mem_filter.mpr ⟨Tree.mem_iter.mpr hp, decide_eq_true hname⟩, rfl⟩

/-- The message is of a held post, of another posting key than `name`, that is past its time. -/
def HeldLate (V : Vars) (M : Moment) (s : TmailStore) (name : FastName)
    (env : TmailEnvelopeV1) : Prop :=
  ∃ p t, s.fastPending.get p = some t ∧ p.name ≠ name ∧ V.pendingTtlMs < M.now - t ∧
    env.id = trim p.msgId

/-- A registration: the posts held for the key are verified, late ones of other keys go. -/
structure Registers (V : Vars) (M : Moment) (name : FastName) (row : FastKey)
    (s s' : TmailStore) : Prop where
  rows : Dropped s s' (HeldLate V M s name)
  records : Records (fun id v => (∃ p ∈ s.waiting name, p.msgId = id) ∧
    v = .verified row.nullifierHex M.now) s s'
  keys : ∀ name' reg, s'.fastKeys.get name' = some reg →
    s.fastKeys.get name' = some reg ∨ name' = name ∧ reg = row
  pending : ∀ p t, s'.fastPending.get p = some t → s.fastPending.get p = some t
  polls : s'.pollRoots = s.pollRoots

theorem Indexed.registerFastKey (h : s.Indexed) (env : TmailEnvelopeV1) (name : FastName) (n : Str)
    (hpoll : s.isPoll env.receiver = false) :
    Registers V M name ⟨n, M.now, env.id⟩ s (s.registerFastKey V M env name n) := by
  let s₁ : TmailStore := if (s.fastKeys.get name).isNone then
    { s with fastKeys := s.fastKeys.insert name ⟨n, M.now, env.id⟩ } else s
  have hs₁ : ∀ name' reg, s₁.fastKeys.get name' = some reg →
      s.fastKeys.get name' = some reg ∨ name' = name ∧ reg = ⟨n, M.now, env.id⟩ := by
    intro name' reg hget
    by_cases hnone : (s.fastKeys.get name).isNone = true
    · rw [show s₁ = _ from if_pos hnone] at hget
      by_cases hname : name = name'
      · subst hname
        exact Or.inr ⟨rfl, (Option.some.inj ((Tree.get_insert_self _ _ _).symm.trans hget)).symm⟩
      · exact Or.inl ((Tree.get_insert_ne hname).symm.trans hget)
    · rw [show s₁ = _ from if_neg hnone] at hget
      exact Or.inl hget
  have hbeside : s₁ = { s with fastKeys := s₁.fastKeys } := by
    by_cases hnone : (s.fastKeys.get name).isNone = true
    · rw [show s₁ = _ from if_pos hnone]
    · rw [show s₁ = _ from if_neg hnone]
  have hwait : s₁.waiting name = s.waiting name := by rw [hbeside]; rfl
  obtain ⟨hrec, heq⟩ := verifyHeld_fold (M := M) n (s.waiting name) s₁
  -- the store once the held posts are verified
  let s₂ := (s.waiting name).foldl (verifyHeld M n) s₁
  have hreg : s.registerFastKey V M env name n = s₂.pruneFast V M := by
    unfold TmailStore.registerFastKey
    rw [if_neg (by rw [hpoll]; exact Bool.false_ne_true)]
    show TmailStore.pruneFast V M ((s₁.waiting name).foldl _ s₁) = _
    rw [hwait]
  have hrows₂ : Dropped s s₂ fun _ => False :=
    h.of_indexes (by show s₂.byReceiver = _; rw [show s₂ = _ from heq, hbeside])
      (by show s₂.byMsgId = _; rw [show s₂ = _ from heq, hbeside])
  have hpend₂ : s₂.fastPending = (s.waiting name).foldl Tree.remove s.fastPending := by
    rw [show s₂ = _ from heq, hbeside]
  obtain ⟨hshrinks, hdrop⟩ := hrows₂.indexed.pruneFast (V := V) (M := M)
  rw [hreg]
  refine ⟨(hrows₂.trans hdrop).congr ?_, ?_, ?_, ?_, ?_⟩
  · intro env' _
    rw [false_or]
    unfold HeldLate
    constructor
    · rintro ⟨p, t, hp, hlate, hid⟩
      rw [hpend₂, Tree.get_foldl_remove] at hp
      by_cases hw : p ∈ s.waiting name
      · rw [if_pos hw] at hp
        cases hp
      · rw [if_neg hw] at hp
        exact ⟨p, t, hp, fun hname => hw (mem_waiting.mpr ⟨⟨t, hp⟩, hname⟩), hlate, hid⟩
    · rintro ⟨p, t, hp, hname, hlate, hid⟩
      refine ⟨p, t, ?_, hlate, hid⟩
      rw [hpend₂, Tree.get_foldl_remove, if_neg fun hw => hname (mem_waiting.mp hw).2]
      exact hp
  · have hfirst : s₁.anonVerdict = s.anonVerdict := by rw [hbeside]
    exact ((Records.of_eq hfirst).trans hrec).trans (Records.of_eq hshrinks.verdicts)
  · intro name' reg hget
    have hget₂ := hshrinks.keys name' reg hget
    rw [show s₂ = _ from heq] at hget₂
    exact hs₁ name' reg hget₂
  · intro p t hp
    have hp₂ := hshrinks.pending p t hp
    rw [hpend₂] at hp₂
    exact Tree.get_of_foldl_remove _ hp₂
  · rw [hshrinks.polls, show s₂ = _ from heq, hbeside]

/-- The store with a verdict on record. -/
def recorded (s : TmailStore) (msgId : Str) (verdict : AnonVerdict) : TmailStore :=
  { s with anonVerdict := s.anonVerdict.insert msgId verdict }

theorem Indexed.recorded (h : s.Indexed) (msgId : Str) (verdict : AnonVerdict) :
    Dropped s (s.recorded msgId verdict) fun _ => False := h.of_indexes rfl rfl

theorem trim_id (env : TmailEnvelopeV1) : trim env.id = env.id := trim_trim _

/-- A `Verified` verdict for an id under which nothing with a proof is held. -/
theorem Indexed.setVerified_unheld (h : s.Indexed) {msgId n : Str} {t : Nat}
    (hnone : ∀ env, s.Holds env → env.id = trim msgId → env.proof = none) :
    s.setAnonVerdict V M msgId (.verified n t) = s.recorded (trim msgId) (.verified n t) := by
  show followVerdict V M (s.recorded (trim msgId) (.verified n t)) msgId (.verified n t) = _
  unfold followVerdict
  cases hget : (s.recorded (trim msgId) (.verified n t)).getByMsgId msgId with
  | none => rfl
  | some env =>
    have hrec := h.recorded (trim msgId) (.verified n t)
    obtain ⟨hheld, hid⟩ := hrec.indexed.getByMsgId_iff.mp hget
    simp only
    rw [if_pos]
    rw [hnone env ((hrec.holds env).mp hheld).1 hid]
    rfl

/-- A `Verified` verdict for a held message with a proof, not in a poll: its key is registered. -/
theorem Indexed.setVerified_held (h : s.Indexed) {n : Str} {t : Nat} (hheld : s.Holds env)
    (hproof : env.proof.isSome = true) (hpoll : s.isPoll env.receiver = false) :
    Registers V M env.fastName ⟨n, M.now, env.id⟩ (s.recorded env.id (.verified n t))
      (s.setAnonVerdict V M env.id (.verified n t)) := by
  have hrec := h.recorded env.id (.verified n t)
  have hget : (s.recorded env.id (.verified n t)).getByMsgId env.id = some env :=
    hrec.indexed.getByMsgId_iff.mpr ⟨(hrec.holds env).mpr ⟨hheld, id⟩, (trim_id env).symm⟩
  let s₁ : TmailStore := { s.recorded env.id (.verified n t) with
    fastRegpending := (s.recorded env.id (.verified n t)).fastRegpending.remove env.fastName }
  have hset : s.setAnonVerdict V M env.id (.verified n t) =
      s₁.registerFastKey V M env env.fastName n := by
    show followVerdict V M (s.recorded (trim env.id) (.verified n t)) env.id (.verified n t) = _
    unfold followVerdict
    rw [trim_id, hget]
    simp only
    rw [if_neg]
    rw [← Option.not_isSome, hproof]
    exact Bool.false_ne_true
  have hone : Dropped (s.recorded env.id (.verified n t)) s₁ fun _ => False :=
    hrec.indexed.of_indexes rfl rfl
  have hreg := hone.indexed.registerFastKey (V := V) (M := M) env env.fastName n hpoll
  rw [hset]
  refine ⟨(hone.trans hreg.rows).congr fun env' _ => ⟨fun hor => hor.resolve_left id, Or.inr⟩, ?_, hreg.keys, hreg.pending,
    hreg.polls⟩
  intro id
  rcases hreg.records id with hsame | hnew
  · exact Or.inl hsame
  · exact Or.inr hnew

/-- The message whose key a verdict registers: it is held, outside polls, with a proof that
verified. -/
def VerifiesHeld (s : TmailStore) (msgId : Str) (verdict : AnonVerdict) (env : TmailEnvelopeV1)
    (n : Str) : Prop :=
  (∃ t, verdict = .verified n t) ∧ s.Holds env ∧ env.id = trim msgId ∧ env.proof.isSome = true ∧
    s.isPoll env.receiver = false

/-- What recording a verdict can change. -/
structure VerdictStep (M : Moment) (msgId : Str) (verdict : AnonVerdict) (s s' : TmailStore) :
    Prop where
  indexed : s'.Indexed
  holds : ∀ env, s'.Holds env → s.Holds env
  records : Records (fun id v => id = trim msgId ∧ v = verdict ∨ ∃ env n,
    s.VerifiesHeld msgId verdict env n ∧ (∃ p ∈ s.waiting env.fastName, p.msgId = id) ∧
      v = .verified n M.now) s s'
  keys : ∀ name reg, s'.fastKeys.get name = some reg → s.fastKeys.get name = some reg ∨
    ∃ env n, s.VerifiesHeld msgId verdict env n ∧ name = env.fastName ∧ reg = ⟨n, M.now, env.id⟩
  pending : ∀ p t, s'.fastPending.get p = some t → s.fastPending.get p = some t
  polls : s'.pollRoots = s.pollRoots

/-- Whatever follows the verdict on record only takes away. -/
theorem VerdictStep.of_shrinks {msgId : Str} {verdict : AnonVerdict}
    {gone : TmailEnvelopeV1 → Prop} (hdrop : Dropped s s' gone)
    (hshrinks : Shrinks (s.recorded (trim msgId) verdict) s') :
    VerdictStep M msgId verdict s s' where
  indexed := hdrop.indexed
  holds := fun env henv => ((hdrop.holds env).mp henv).1
  records := (Records.insert (Or.inl ⟨rfl, rfl⟩)).trans (Records.of_eq hshrinks.verdicts)
  keys := fun name reg hget => Or.inl (hshrinks.keys name reg hget)
  pending := hshrinks.pending
  polls := hshrinks.polls

theorem VerdictStep.then_drop {msgId : Str} {verdict : AnonVerdict} {gone : TmailEnvelopeV1 → Prop}
    (h : VerdictStep M msgId verdict s s') (hsame : SameBeside s' s'')
    (hdrop : Dropped s' s'' gone) : VerdictStep M msgId verdict s s'' where
  indexed := hdrop.indexed
  holds := fun env henv => h.holds env ((hdrop.holds env).mp henv).1
  records := h.records.trans (Records.of_eq hsame.shrinks.verdicts)
  keys := fun name reg hget => h.keys name reg (hsame.shrinks.keys name reg hget)
  pending := fun p t hp => h.pending p t (hsame.shrinks.pending p t hp)
  polls := hsame.shrinks.polls.trans h.polls

/-- What the posting key of the message does when a verdict is recorded. -/
theorem Indexed.followVerdict (h : s.Indexed) (msgId : Str) (verdict : AnonVerdict) :
    VerdictStep M msgId verdict s
      ((s.recorded (trim msgId) verdict).followVerdict V M msgId verdict) := by
  have hrec := h.recorded (trim msgId) verdict
  have hplain : VerdictStep M msgId verdict s (s.recorded (trim msgId) verdict) :=
    VerdictStep.of_shrinks hrec (Shrinks.refl _)
  unfold TmailStore.followVerdict
  cases hget : (s.recorded (trim msgId) verdict).getByMsgId msgId with
  | none => exact hplain
  | some env =>
    simp only
    by_cases hproof : env.proof.isNone = true
    · rw [if_pos hproof]
      exact hplain
    rw [if_neg hproof]
    obtain ⟨hheld, hid⟩ := hrec.indexed.getByMsgId_iff.mp hget
    have hheld : s.Holds env := ((hrec.holds env).mp hheld).1
    have hproof : env.proof.isSome = true :=
      Option.isSome_iff_ne_none.mpr fun hnone => hproof (by rw [hnone]; rfl)
    -- the row of the awaited registration is the only other change before the key's own
    let s₁ : TmailStore := { s.recorded (trim msgId) verdict with
      fastRegpending := (s.recorded (trim msgId) verdict).fastRegpending.remove env.fastName }
    have hone : Dropped s s₁ fun _ => False := h.of_indexes rfl rfl
    have hshrinks : Shrinks (s.recorded (trim msgId) verdict) s₁ :=
      ⟨rfl, rfl, fun _ _ hr => hr, fun _ _ hp => hp⟩
    cases verdict with
    | pending =>
      exact VerdictStep.of_shrinks (h.of_indexes rfl rfl)
        ⟨rfl, rfl, fun _ _ hr => hr, fun _ _ hp => hp⟩
    | failed reason t =>
      obtain ⟨hlast, hdrop⟩ := hone.indexed.dropFastPending (V := V) (M := M) env.fastName
        (failureIsDefinitive reason)
      exact VerdictStep.of_shrinks (hone.trans hdrop) (hshrinks.trans hlast)
    | verified n t =>
      by_cases hpoll : s₁.isPoll env.receiver = true
      · have hpolls : s₁.registerFastKey V M env env.fastName n = s₁ := if_pos hpoll
        show VerdictStep M msgId (.verified n t) s (s₁.registerFastKey V M env env.fastName n)
        rw [hpolls]
        exact VerdictStep.of_shrinks hone hshrinks
      · have hpoll : s₁.isPoll env.receiver = false := Bool.not_eq_true _ ▸ hpoll
        have hver : s.VerifiesHeld msgId (.verified n t) env n :=
          ⟨⟨t, rfl⟩, hheld, hid, hproof, hpoll⟩
        have hreg := hone.indexed.registerFastKey (V := V) (M := M) env env.fastName n hpoll
        refine ⟨hreg.rows.indexed, ?_, ?_, ?_, hreg.pending, hreg.polls⟩
        · intro env' henv'
          exact ((hone.holds env').mp ((hreg.rows.holds env').mp henv').1).1
        · refine (show Records _ s s₁ from Records.insert (Or.inl ⟨rfl, rfl⟩)).trans ?_
          exact hreg.records.mono fun id v hv => Or.inr ⟨env, n, hver, hv⟩
        · intro name reg hget
          rcases hreg.keys name reg hget with hold | ⟨hname, hn⟩
          · exact Or.inl hold
          · exact Or.inr ⟨env, n, hver, hname, hn⟩

theorem Indexed.setAnonVerdict (h : s.Indexed) (msgId : Str) (verdict : AnonVerdict) :
    VerdictStep M msgId verdict s (s.setAnonVerdict V M msgId verdict) := by
  have hstep := h.followVerdict (V := V) (M := M) msgId verdict
  cases verdict with
  | pending => exact hstep
  | verified n t => exact hstep
  | failed reason t =>
    unfold TmailStore.setAnonVerdict
    simp only
    by_cases hdef : failureIsDefinitive reason = true
    · rw [if_pos hdef]
      obtain ⟨hsame, hlast⟩ := hstep.indexed.deleteByMsgId (V := V) (M := M) msgId
      exact hstep.then_drop hsame hlast
    · rw [if_neg hdef]
      obtain ⟨hsame, hlast⟩ := hstep.indexed.forgetByMsgId msgId
      exact hstep.then_drop hsame hlast

end TmailStore

end TetCore.Tmail
