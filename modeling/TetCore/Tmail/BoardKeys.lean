import TetCore.Tmail.BoardRoots

/-!
# Posting keys on Shelter's board

A fast post to the board needs a registration made after the set last lost someone. The registration
is made by `register_fast_key`, at the clock of that moment, some time after the proof was checked and
for whatever message is held under the sent id. So a loss between the check and the registration, or
an id already held, leaves a posting key that stands on a set which has lost a leaf.

`removed_key_stops`: in every run in which a registration made after the last loss is of a proof whose
set lost no leaf, a fast post is accepted on the board only for a posting key whose proof was checked
against leaves that are all in the board's set at that moment.
-/

namespace TetCore.Tmail

open TetCore.Lib

namespace TmailStore

variable {V : Vars} {M : Moment} {s s' : TmailStore} {env : TmailEnvelopeV1}

/-- A registration leaves the registered keys as they are, but for a key that had none. -/
theorem Indexed.registerFastKey_keys (h : s.Indexed) (env : TmailEnvelopeV1) (name : FastName)
    (n : Str) {name' : FastName} {reg : FastKey}
    (hget : (s.registerFastKey V M env name n).fastKeys.get name' = some reg) :
    s.fastKeys.get name' = some reg ∨
      name' = name ∧ s.isPoll env.receiver = false ∧ s.fastKeys.get name = none ∧
        reg.registeredAtMs = M.now := by
  by_cases hpoll : s.isPoll env.receiver = true
  · unfold TmailStore.registerFastKey at hget
    rw [if_pos hpoll] at hget
    exact Or.inl hget
  have hnopoll : s.isPoll env.receiver = false := Bool.not_eq_true _ ▸ hpoll
  have hreg := h.registerFastKey (V := V) (M := M) env name n hnopoll
  rcases hreg.keys name' reg hget with hold | ⟨hname, hrow⟩
  · exact Or.inl hold
  cases hkey : s.fastKeys.get name with
  | none => exact Or.inr ⟨hname, hnopoll, rfl, by rw [hrow]⟩
  | some reg₀ =>
    -- the key is registered: the call only takes away
    unfold TmailStore.registerFastKey at hget
    rw [if_neg hpoll] at hget
    simp only [hkey, Option.isNone_some, Bool.false_eq_true, if_false] at hget
    obtain ⟨-, heq⟩ := verifyHeld_fold (M := M) n (s.waiting name) s
    have hindexed : ((s.waiting name).foldl (verifyHeld M n) s).Indexed :=
      h.congr (by rw [heq]) (by rw [heq])
    have hafter := hindexed.pruneFast.1.keys name' reg hget
    rw [heq] at hafter
    exact Or.inl hafter

/-- A recorded verdict registers at most the key of the message held under the id. -/
theorem Indexed.setVerified_keys (h : s.Indexed) {msgId n : Str} {t : Nat} {name : FastName}
    {reg : FastKey}
    (hget : (s.setAnonVerdict V M msgId (.verified n t)).fastKeys.get name = some reg) :
    s.fastKeys.get name = some reg ∨
      ShelterBoard.registersFor s msgId = some name ∧ reg.registeredAtMs = M.now := by
  have hget : ((s.recorded (trim msgId) (.verified n t)).followVerdict V M msgId
      (.verified n t)).fastKeys.get name = some reg := hget
  unfold TmailStore.followVerdict at hget
  have hsame : (s.recorded (trim msgId) (.verified n t)).getByMsgId msgId = s.getByMsgId msgId := rfl
  rw [hsame] at hget
  cases hfound : s.getByMsgId msgId with
  | none =>
    rw [hfound] at hget
    exact Or.inl hget
  | some env =>
    rw [hfound] at hget
    simp only at hget
    cases hproof : env.proof with
    | none =>
      rw [if_pos (by rw [hproof]; rfl)] at hget
      exact Or.inl hget
    | some proof =>
    rw [if_neg (by simp [hproof])] at hget
    have hrec : Indexed { s.recorded (trim msgId) (.verified n t) with
        fastRegpending := (s.recorded (trim msgId) (.verified n t)).fastRegpending.remove
          env.fastName } := h.congr rfl rfl
    rcases hrec.registerFastKey_keys env env.fastName n hget with
      hold | ⟨hname, hpoll, hnone, hat⟩
    · exact Or.inl hold
    · refine Or.inr ⟨?_, hat⟩
      have hpoll : s.isPoll env.receiver = false := hpoll
      have hnone : s.fastKeys.get env.fastName = none := hnone
      unfold ShelterBoard.registersFor
      simp [hfound, Option.filter, hpoll, hnone, hproof, hname]

/-- The registered keys are some of those that were. -/
structure KeysShrink (s s' : TmailStore) : Prop where
  indexed : s'.Indexed
  keys : ∀ name reg, s'.fastKeys.get name = some reg → s.fastKeys.get name = some reg

theorem StoreOutcome.keysShrink {r : Except TmailStoreError Bool} (h : StoreOutcome M env s r s') :
    KeysShrink s s' := by
  cases h with
  | quiet _ hsame hdrop => exact ⟨hdrop.indexed, hsame.shrinks.keys⟩
  | stored _ _ hsame hindexed _ => exact ⟨hindexed, hsame.shrinks.keys⟩
  | ballot _ _ _ hsame hindexed _ => exact ⟨hindexed, hsame.shrinks.keys⟩

theorem FastOutcome.keysShrink (h : FastOutcome M env s s') : KeysShrink s s' := by
  cases h with
  | quiet hshrinks hdrop => exact ⟨hdrop.indexed, hshrinks.keys⟩
  | registered _ _ hsame hindexed _ => exact ⟨hindexed.congr rfl rfl, hsame.shrinks.keys⟩
  | held _ hshrinks hindexed _ => exact ⟨hindexed.congr rfl rfl, hshrinks.keys⟩

theorem Indexed.storeRegistered_keys (h : s.Indexed) (reg : FastKey) :
    KeysShrink s (s.storeRegistered V M env reg).2 := by
  have hout : StoreOutcome M env s (s.storeTmailInner V M env).1 (s.storeTmailInner V M env).2 :=
    h.storeTmailInner
  have hshrink := hout.keysShrink
  rcases storeRegistered_cases V M s env reg with ⟨-, heq | ⟨-, heq⟩⟩ | ⟨-, heq⟩ <;> rw [heq]
  · exact ⟨h, fun _ _ hr => hr⟩
  · exact hshrink
  · exact ⟨hshrink.indexed.congr rfl rfl, hshrink.keys⟩

/-- A fast post that is stored for a registration to come has no verdict yet. -/
theorem storeHeld_pending (h : (s.storeHeld V M env).1 = .ok true) :
    (s.storeHeld V M env).2.getAnonVerdict env.id = some .pending := by
  rcases storeHeld_cases V M s env with ⟨hr, -⟩ | ⟨-, heq⟩
  · exact absurd h hr
  · rw [heq]
    show (Tree.insert _ env.id AnonVerdict.pending).get (trim env.id) = some AnonVerdict.pending
    rw [trim_id, Tree.get_insert_self]

end TmailStore

namespace ShelterBoard

open TmailStore

variable {A : Auth} {W : World} {cfg : ShelterConfig} {V : Vars} {M : Moment} {now t t' : Nat}
  {s : ShelterBoard} {env : TmailEnvelopeV1} {store : TmailStore}

/-- A posting key of the board that a fast post could use stands on leaves of the newest set. -/
structure KeysCurrent (cfg : ShelterConfig) (t : Nat) (s : ShelterBoard) : Prop where
  indexed : s.store.Indexed
  past : ∀ name reg, name.receiver = cfg.board → s.store.fastKeys.get name = some reg →
    reg.registeredAtMs ≤ t
  current : ∀ name reg, name.receiver = cfg.board → s.store.fastKeys.get name = some reg →
    s.roots.lastLossMs < reg.registeredAtMs →
      ∃ leaves, s.provedIn.get name = some leaves ∧ ∀ c ∈ leaves, c ∈ s.roots.leaves

/-- The board with another store and another send under way. -/
def beside (s : ShelterBoard) (store : TmailStore) (sending : Option Sending) : ShelterBoard :=
  { s with store := store, sending := sending }

theorem KeysCurrent.beside {sending : Option Sending} (h : KeysCurrent cfg t s)
    (hstore : KeysShrink s.store store) : KeysCurrent cfg t (s.beside store sending) where
  indexed := hstore.indexed
  past := fun name reg hname hget => h.past name reg hname (hstore.keys name reg hget)
  current := fun name reg hname hget => h.current name reg hname (hstore.keys name reg hget)

theorem KeysCurrent.later (h : KeysCurrent cfg t s) (ht : t ≤ t') : KeysCurrent cfg t' s :=
  ⟨h.indexed, fun name reg hname hget => Nat.le_trans (h.past name reg hname hget) ht, h.current⟩

/-- No posting key of the board outlives a loss. -/
theorem dropBoardKeys_get {name : FastName} {reg : FastKey}
    (h : (dropBoardKeys cfg store).fastKeys.get name = some reg) :
    store.fastKeys.get name = some reg ∧ name.receiver ≠ cfg.board := by
  have hget := Tree.get_of_foldl_remove _ h
  refine ⟨hget, fun hname => ?_⟩
  unfold dropBoardKeys at h
  simp only [Tree.get_foldl_remove] at h
  rw [if_pos] at h
  · cases h
  · exact List.mem_map.mpr ⟨(name, reg),
      List.mem_filter.mpr ⟨Tree.mem_iter.mpr hget, decide_eq_true hname⟩, rfl⟩

/-- A refresh that finds a leaf gone drops the board's posting keys. -/
theorem refresh_of_loses (h : s.roots.loses (s.anonSet A W cfg now) = true) :
    (s.refresh A W cfg now).store = dropBoardKeys cfg s.store ∧
      (s.refresh A W cfg now).roots.lastLossMs = now := by
  unfold ShelterBoard.refresh ShelterRoots.refreshed
  simp [h]

theorem refresh_of_keeps (h : s.roots.loses (s.anonSet A W cfg now) = false) :
    (s.refresh A W cfg now).store = s.store ∧
      (s.refresh A W cfg now).roots.lastLossMs = s.roots.lastLossMs := by
  unfold ShelterBoard.refresh ShelterRoots.refreshed
  simp [h]

theorem KeysCurrent.refresh (h : KeysCurrent cfg t s) (now : Nat) :
    KeysCurrent cfg t (s.refresh A W cfg now) := by
  cases hloses : s.roots.loses (s.anonSet A W cfg now) with
  | true =>
    obtain ⟨hstore, -⟩ := refresh_of_loses hloses
    constructor
    · rw [hstore]
      exact h.indexed.congr rfl rfl
    · intro name reg hname hget
      rw [hstore] at hget
      exact absurd hname (dropBoardKeys_get hget).2
    · intro name reg hname hget
      rw [hstore] at hget
      exact absurd hname (dropBoardKeys_get hget).2
  | false =>
    obtain ⟨hstore, hloss⟩ := refresh_of_keeps hloses
    constructor
    · rw [hstore]
      exact h.indexed
    · intro name reg hname hget
      rw [hstore] at hget
      exact h.past name reg hname hget
    · intro name reg hname hget hlater
      rw [hstore] at hget
      rw [hloss] at hlater
      obtain ⟨leaves, hproved, hin⟩ := h.current name reg hname hget hlater
      exact ⟨leaves, hproved, fun c hc => ShelterRoots.mem_of_not_loses hloses (hin c hc)⟩

/-- A posting key's proof was checked against leaves of the board's set at `now`. -/
def StandsOnMembers (A : Auth) (W : World) (cfg : ShelterConfig) (s : ShelterBoard) (now : Nat)
    (name : FastName) : Prop :=
  ∃ leaves, s.provedIn.get name = some leaves ∧
    ∀ c ∈ leaves, c ∈ (s.anonSet A W cfg now).map Prod.snd

/-- A registration that counts after a refresh of this moment. -/
theorem KeysCurrent.stands (h : KeysCurrent cfg t s) (ht : t < now) {name : FastName} {reg : FastKey}
    (hname : name.receiver = cfg.board) (hget : s.store.fastKeys.get name = some reg)
    (hlater : (s.refresh A W cfg now).roots.lastLossMs < reg.registeredAtMs) :
    s.StandsOnMembers A W cfg now name := by
  cases hloses : s.roots.loses (s.anonSet A W cfg now) with
  | true =>
    -- this refresh is the loss, after the registration
    rw [(refresh_of_loses hloses).2] at hlater
    have hpast := h.past name reg hname hget
    omega
  | false =>
    rw [(refresh_of_keeps hloses).2] at hlater
    obtain ⟨leaves, hproved, hin⟩ := h.current name reg hname hget hlater
    exact ⟨leaves, hproved, fun c hc => ShelterRoots.mem_of_not_loses hloses (hin c hc)⟩

/-! ## One step -/

theorem KeysCurrent.countedRegistration (A : Auth) (W : World) (M : Moment) (env : TmailEnvelopeV1)
    (h : KeysCurrent cfg t s) :
    KeysCurrent cfg t (s.countedRegistration A W cfg M env).2 := by
  rcases countedRegistration_cases A W cfg M s env with heq | heq
  · rw [heq]
    exact h
  · rw [heq]
    exact h.refresh M.now

/-- The polls and the message ids are not Shelter's. -/
theorem countedRegistration_same (A : Auth) (W : World) (cfg : ShelterConfig) (M : Moment)
    (s : ShelterBoard) (env : TmailEnvelopeV1) :
    (s.countedRegistration A W cfg M env).2.store.pollRoots = s.store.pollRoots ∧
      (s.countedRegistration A W cfg M env).2.store.byMsgId = s.store.byMsgId := by
  rcases countedRegistration_cases A W cfg M s env with heq | heq
  · rw [heq]
    exact ⟨rfl, rfl⟩
  · rw [heq]
    cases hloses : s.roots.loses (s.anonSet A W cfg M.now) with
    | true =>
      rw [(refresh_of_loses hloses).1]
      exact ⟨rfl, rfl⟩
    | false =>
      rw [(refresh_of_keeps hloses).1]
      exact ⟨rfl, rfl⟩

theorem KeysCurrent.sendFast (h : KeysCurrent cfg t s) :
    KeysCurrent cfg t (s.sendFast A W cfg V M env).2 := by
  unfold ShelterBoard.sendFast
  cases s.store.fastChecks M env with
  | error e => exact h
  | ok _ =>
    have hcount := h.countedRegistration A W M env
    generalize s.countedRegistration A W cfg M env = r at hcount ⊢
    rcases r with ⟨_ | reg, s'⟩
    · exact hcount
    · simp only
      by_cases hknown : (s'.store.byMsgId.get env.id).isSome = true
      · rw [if_pos hknown]
        exact hcount
      · rw [if_neg hknown]
        exact hcount.beside (hcount.indexed.storeRegistered_keys reg)

theorem KeysCurrent.receiveFast (h : KeysCurrent cfg t s) :
    KeysCurrent cfg t (s.receiveFast A W cfg V M env).2 := by
  unfold ShelterBoard.receiveFast
  cases hchecks : s.store.fastChecks M env with
  | error e => exact h
  | ok _ =>
    simp only
    by_cases hknown : (s.store.byMsgId.get env.id).isSome = true
    · rw [if_pos hknown]
      exact h
    rw [if_neg hknown]
    have hcount := h.countedRegistration A W M env
    obtain ⟨hpolls, hids⟩ := countedRegistration_same A W cfg M s env
    generalize s.countedRegistration A W cfg M env = r at hcount hpolls hids ⊢
    rcases r with ⟨_ | reg, s'⟩
    · have hpoll : s'.store.isPoll env.receiver = false := by
        have hbefore := (fastChecks_ok hchecks).2.2
        unfold isPoll at hbefore ⊢
        rwa [show s'.store.pollRoots = s.store.pollRoots from hpolls]
      have hfresh : s'.store.byMsgId.get env.id = none := by
        rw [show s'.store.byMsgId = s.store.byMsgId from hids]
        simpa using hknown
      exact hcount.beside (hcount.indexed.storeHeld hpoll hfresh).keysShrink
    · exact hcount.beside (hcount.indexed.storeRegistered_keys reg)

theorem KeysCurrent.storeSent (h : KeysCurrent cfg t s) :
    KeysCurrent cfg t (s.storeSent A W cfg V M) := by
  unfold ShelterBoard.storeSent
  cases s.sending with
  | none => exact h
  | some p =>
    simp only
    by_cases hstored : p.stored = true
    · rw [if_pos hstored]
      exact h
    rw [if_neg hstored]
    have hout : StoreOutcome (s.moment A W cfg M) p.env s.store
        (s.store.storeTmail V (s.moment A W cfg M) p.env).1
        (s.store.storeTmail V (s.moment A W cfg M) p.env).2 := h.indexed.storeTmail
    have hshrink := hout.keysShrink
    generalize s.store.storeTmail V (s.moment A W cfg M) p.env = r at hshrink ⊢
    rcases r with ⟨e | stored, store⟩
    · exact h.beside hshrink
    · exact h.beside hshrink

/-- A registration of a posting key of the board made after the last loss is of a proof whose set
lost no leaf. -/
def RegistersCurrent (cfg : ShelterConfig) (s : ShelterBoard) : BoardAction → Prop
  | .recordSent M => ∀ p name, s.sending = some p → p.stored = true →
      registersFor s.store p.env.id = some name → name.receiver = cfg.board →
      s.roots.lastLossMs < M.now → ∀ c ∈ p.provedIn, c ∈ s.roots.leaves
  | _ => True

theorem registersFor_fresh {msgId : Str} {name : FastName} (h : registersFor store msgId = some name)
    (reg : FastKey) : store.fastKeys.get name ≠ some reg := by
  unfold registersFor at h
  obtain ⟨env, hfound, rfl⟩ := Option.map_eq_some_iff.mp h
  have hnone := (Option.filter_eq_some_iff.mp hfound).2
  simp only [Bool.and_eq_true, Option.isNone_iff_eq_none] at hnone
  simp [hnone.2]

theorem KeysCurrent.recordSent (h : KeysCurrent cfg t s) (hM : M.now ≤ t)
    (hok : RegistersCurrent cfg s (.recordSent M)) : KeysCurrent cfg t (s.recordSent V M) := by
  unfold ShelterBoard.recordSent
  cases hsending : s.sending with
  | none => exact h
  | some p =>
    simp only
    by_cases hstored : p.stored = true
    case neg =>
      rw [if_neg hstored]
      exact h
    rw [if_pos hstored]
    have hkeys := fun name reg (hget : (s.store.setAnonVerdict V M p.env.id
        (.verified p.nullifierHex p.verifiedAtMs)).fastKeys.get name = some reg) =>
      h.indexed.setVerified_keys hget
    constructor
    · exact (h.indexed.setAnonVerdict (V := V) (M := M) p.env.id
        (.verified p.nullifierHex p.verifiedAtMs)).indexed
    · intro name reg hname hget
      rcases hkeys name reg hget with hold | ⟨-, hat⟩
      · exact h.past name reg hname hold
      · rw [hat]
        exact hM
    · intro name reg hname hget hlater
      have hlater : s.roots.lastLossMs < reg.registeredAtMs := hlater
      cases hnew : registersFor s.store p.env.id with
      | none =>
        rcases hkeys name reg hget with hold | ⟨hfor, -⟩
        · exact h.current name reg hname hold hlater
        · cases hnew.symm.trans hfor
      | some name' =>
        show ∃ leaves, (s.provedIn.insert name' p.provedIn).get name = some leaves ∧ _
        by_cases hname' : name' = name
        · subst hname'
          rw [Tree.get_insert_self]
          refine ⟨p.provedIn, rfl, ?_⟩
          -- the key had no registration, so this one is it
          rcases hkeys name' reg hget with hold | ⟨-, hat⟩
          · exact absurd hold (registersFor_fresh hnew reg)
          · rw [hat] at hlater
            exact hok p name' hsending hstored hnew hname hlater
        · rw [Tree.get_insert_ne hname']
          rcases hkeys name reg hget with hold | ⟨hfor, -⟩
          · exact h.current name reg hname hold hlater
          · cases hnew.symm.trans hfor
            exact absurd rfl hname'

/-- One step that meets the condition. -/
theorem KeysCurrent.step {a : BoardAction} (h : KeysCurrent cfg t s) (ht : t ≤ now)
    (hreads : a.readsAt now) (hok : RegistersCurrent cfg s a) :
    KeysCurrent cfg now (a.step A W cfg V now s) := by
  have hnow := h.later ht
  cases a with
  | append r readAt =>
    show KeysCurrent cfg now (s.appendRecord A W cfg r readAt).2
    rcases appendRecord_cases A W cfg s r readAt with
      heq | heq
    · rw [heq]
      exact hnow
    · rw [heq]
      exact ⟨hnow.indexed, hnow.past, hnow.current⟩
  | refresh readAt => exact hnow.refresh readAt
  | register reg => exact ⟨hnow.indexed, hnow.past, hnow.current⟩
  | check M env root elsewhere =>
    show KeysCurrent cfg now (s.check A W cfg M env root elsewhere)
    rcases check_cases A W cfg M s env root elsewhere with heq | ⟨s', sending, hs', heq⟩
    · rw [heq]
      exact hnow
    · have hs' : KeysCurrent cfg now s' := by
        rcases hs' with rfl | rfl
        · exact hnow
        · exact hnow.refresh M.now
      rw [heq]
      exact ⟨hs'.indexed, hs'.past, hs'.current⟩
  | storeSent M => exact hnow.storeSent
  | recordSent M => exact hnow.recordSent hreads hok
  | sendFast M env => exact hnow.sendFast
  | receiveFast M env => exact hnow.receiveFast

theorem KeysCurrent.run (h : BoardRun A W cfg V (RegistersCurrent cfg) t s) :
    KeysCurrent cfg t s := by
  induction h with
  | start =>
    refine ⟨TmailStore.Indexed.new, ?_, ?_⟩
    · intro name reg _ hget
      cases hget.symm.trans (Tree.get_empty name)
    · intro name reg _ hget
      cases hget.symm.trans (Tree.get_empty name)
  | step now a _ clock reads allowed ih => exact ih.step (Nat.le_of_lt clock) reads allowed

/-! ## Fast posts that are accepted -/

/-- A registration that counts is one from after the last loss. -/
theorem countedRegistration_board {reg : FastKey} (hboard : env.receiver = cfg.board)
    (h : (s.countedRegistration A W cfg M env).1 = some reg) :
    s.store.fastKeys.get env.fastName = some reg ∧
      (s.refresh A W cfg M.now).roots.lastLossMs < reg.registeredAtMs := by
  unfold ShelterBoard.countedRegistration at h
  cases hreg : s.store.fastRegistration env with
  | none =>
    rw [hreg] at h
    cases h
  | some reg' =>
    rw [hreg] at h
    simp only [if_pos hboard] at h
    by_cases hlater : (s.refresh A W cfg M.now).roots.lastLossMs < reg'.registeredAtMs
    · rw [if_pos hlater] at h
      cases h
      exact ⟨hreg, hlater⟩
    · rw [if_neg hlater] at h
      cases h

/-- A fast post that is accepted has a registration that counts. -/
theorem sendFast_counted {stored : Bool} (h : (s.sendFast A W cfg V M env).1 = .ok stored) :
    ∃ reg, (s.countedRegistration A W cfg M env).1 = some reg := by
  unfold ShelterBoard.sendFast at h
  cases hchecks : s.store.fastChecks M env with
  | error e =>
    rw [hchecks] at h
    cases h
  | ok _ =>
    rw [hchecks] at h
    generalize s.countedRegistration A W cfg M env = r at h ⊢
    rcases r with ⟨_ | reg, s'⟩
    · cases h
    · exact ⟨reg, rfl⟩

/-- A fast post from a peer that is stored has a registration that counts, or is only held. -/
theorem receiveFast_counted (h : (s.receiveFast A W cfg V M env).1 = .ok true) :
    (∃ reg, (s.countedRegistration A W cfg M env).1 = some reg) ∨
      (s.receiveFast A W cfg V M env).2.store.getAnonVerdict env.id = some .pending := by
  unfold ShelterBoard.receiveFast at h ⊢
  cases hchecks : s.store.fastChecks M env with
  | error e =>
    rw [hchecks] at h
    cases h
  | ok _ =>
    rw [hchecks] at h
    simp only at h ⊢
    by_cases hknown : (s.store.byMsgId.get env.id).isSome = true
    · rw [if_pos hknown] at h
      cases h
    rw [if_neg hknown] at h ⊢
    generalize s.countedRegistration A W cfg M env = r at h ⊢
    rcases r with ⟨_ | reg, s'⟩
    · exact Or.inr (storeHeld_pending h)
    · exact Or.inl ⟨reg, rfl⟩

end ShelterBoard

/-- **A removed member's posting key stops at once**, in every run in which a registration made after
the last loss is of a proof whose set lost no leaf. A fast post accepted on the board, from a client
or from a peer, is by a posting key whose proof was checked against leaves that are all in the board's
set at that moment; one from a peer may also be held, unverified. -/
theorem removed_key_stops {A : Auth} {W : World} {cfg : ShelterConfig} {V : Vars} {t : Nat}
    {s : ShelterBoard} (h : BoardRun A W cfg V (ShelterBoard.RegistersCurrent cfg) t s)
    (M : Moment) (hnow : t < M.now) {env : TmailEnvelopeV1} (hboard : env.receiver = cfg.board) :
    (∀ stored, (s.sendFast A W cfg V M env).1 = .ok stored →
      s.StandsOnMembers A W cfg M.now env.fastName) ∧
    ((s.receiveFast A W cfg V M env).1 = .ok true →
      s.StandsOnMembers A W cfg M.now env.fastName ∨
        (s.receiveFast A W cfg V M env).2.store.getAnonVerdict env.id = some .pending) := by
  have hkeys := ShelterBoard.KeysCurrent.run h
  have hstands : (∃ reg, (s.countedRegistration A W cfg M env).1 = some reg) →
      s.StandsOnMembers A W cfg M.now env.fastName := by
    rintro ⟨reg, hreg⟩
    obtain ⟨hget, hlater⟩ := ShelterBoard.countedRegistration_board hboard hreg
    exact hkeys.stands hnow hboard hget hlater
  constructor
  · intro stored hsent
    exact hstands (ShelterBoard.sendFast_counted hsent)
  · intro hreceived
    exact (ShelterBoard.receiveFast_counted hreceived).imp_left hstands

end TetCore.Tmail

namespace TetCore.Sample

open TetCore.Lib TetCore.Tmail

theorem allowed_snoc {ok : ShelterBoard → BoardAction → Prop} {a : BoardAction} :
    ∀ (as : List BoardAction) {t : Nat} {s : ShelterBoard}, Allowed ok t s as →
      a.readsAt (t + as.length + 1) → ok (boardAfter t s as) a → Allowed ok t s (as ++ [a]) := by
  intro as
  induction as with
  | nil => exact fun _ hreads hok => ⟨hreads, hok, trivial⟩
  | cons b as ih =>
    intro t s h hreads hok
    obtain ⟨hb, hokb, hrest⟩ := h
    refine ⟨hb, hokb, ih hrest ?_ hok⟩
    rwa [List.length_cons, show t + (as.length + 1) = t + 1 + as.length by omega] at hreads

/-- An anonymous post to the board, by one posting key. -/
def boardPost (msgId : Str) (proof : Option TmailAnchorProof) : TmailEnvelopeV1 :=
  ⟨msgId, true, "anonymous".toList, shelter.board, 0, 0, [], some ⟨List.replicate 64 'c', proof⟩⟩

def fastPost : TmailEnvelopeV1 := boardPost "fast".toList none

/-- A proof against the root of the three members is checked and its post stored. -/
def posting : List BoardAction :=
  joining ++ [.check (moment 6 []) (boardPost "post".toList (some anchorProof)) boardRoot none,
    .storeSent (moment 7 [])]

/-- Its posting key is registered. -/
def registering : List BoardAction := posting ++ [.recordSent (moment 8 [])]

/-- The third member leaves first. -/
def leavingFirst : List BoardAction :=
  posting ++ [.append (shelterRecord .withdraw (walletNo 2) (walletNo 2) [] [] 0) 8, .refresh 9,
    .recordSent (moment 10 [])]

end TetCore.Sample

namespace TetCore.Tmail

open TetCore.Lib

/-- A posting key of one of three members. -/
theorem removed_key_stops_registered :
    ∃ s : ShelterBoard, s.StandsOnMembers Sample.auth (World.sample 0) Sample.shelter 9
      Sample.fastPost.fastName := by
  have hfirst : Sample.Allowed (ShelterBoard.RegistersCurrent Sample.shelter) 0 ShelterBoard.new
      Sample.posting :=
    ⟨Nat.le_refl 1, trivial, Nat.le_refl 2, trivial, trivial, trivial, trivial, trivial, trivial,
      trivial, rfl, trivial, Nat.le_refl 7, trivial, trivial⟩
  have hall : ((Sample.boardAfter 0 ShelterBoard.new Sample.posting).sending.all fun p =>
        p.provedIn.all fun c => c ∈ (Sample.boardAfter 0 ShelterBoard.new
          Sample.posting).roots.leaves) = true ∧
      ((Sample.boardAfter 0 ShelterBoard.new Sample.registering).sendFast Sample.auth
        (World.sample 0) Sample.shelter {} (Sample.moment 9 []) Sample.fastPost).1 = .ok true := by
    decide +kernel
  obtain ⟨hcurrent, hsent⟩ := hall
  have hallowed : Sample.Allowed (ShelterBoard.RegistersCurrent Sample.shelter) 0 ShelterBoard.new
      Sample.registering := by
    refine Sample.allowed_snoc Sample.posting hfirst (Nat.le_refl 8) ?_
    intro p name hp _ _ _ _ c hc
    rw [hp] at hcurrent
    exact of_decide_eq_true (List.all_eq_true.mp hcurrent c hc)
  have hrun := Sample.boardRun Sample.registering .start hallowed
  exact ⟨_, (removed_key_stops hrun (Sample.moment 9 []) (Nat.lt_succ_self 8) (by decide)).1 true
    hsent⟩

/-- A member who leaves between the check of a proof and the registration of its posting key: the key
is registered after the loss, and its fast posts are accepted. -/
theorem removed_key_posts :
    ¬ ∀ (A : Auth) (W : World) (cfg : ShelterConfig) (V : Vars) (t : Nat) (s : ShelterBoard),
      BoardRun A W cfg V (fun _ _ => True) t s → ∀ (M : Moment), t < M.now →
      ∀ env : TmailEnvelopeV1, env.receiver = cfg.board →
        (s.sendFast A W cfg V M env).1 = .ok true → s.StandsOnMembers A W cfg M.now env.fastName := by
  intro h
  have hrun : BoardRun Sample.auth (World.sample 0) Sample.shelter {} (fun _ _ => True) 10
      (Sample.boardAfter 0 ShelterBoard.new Sample.leavingFirst) :=
    Sample.boardRun Sample.leavingFirst .start
      ⟨Nat.le_refl 1, trivial, Nat.le_refl 2, trivial, trivial, trivial, trivial, trivial, trivial,
        trivial, rfl, trivial, Nat.le_refl 7, trivial, Nat.le_refl 8, trivial, Nat.le_refl 9,
        trivial, Nat.le_refl 10, trivial, trivial⟩
  have hall : ((Sample.boardAfter 0 ShelterBoard.new Sample.leavingFirst).sendFast Sample.auth
        (World.sample 0) Sample.shelter {} (Sample.moment 11 []) Sample.fastPost).1 = .ok true ∧
      (Sample.boardAfter 0 ShelterBoard.new Sample.leavingFirst).provedIn.get
        Sample.fastPost.fastName = some [beBytes 32 1, beBytes 32 2, beBytes 32 3] ∧
      beBytes 32 3 ∉ ((Sample.boardAfter 0 ShelterBoard.new Sample.leavingFirst).anonSet Sample.auth
        (World.sample 0) Sample.shelter 11).map Prod.snd := by decide +kernel
  obtain ⟨leaves, hproved, hin⟩ := h _ _ _ _ _ _ hrun (Sample.moment 11 []) (Nat.lt_succ_self 10)
    Sample.fastPost (by decide) hall.1
  cases hproved.symm.trans hall.2.1
  exact hall.2.2 (hin _ (by simp))

end TetCore.Tmail
