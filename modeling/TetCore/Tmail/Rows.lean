import TetCore.Tmail.Store

/-!
# Which messages a call leaves

The two indexes of the Tmail store agree (`Indexed`): a message held under its key has a live row
under its id, and no two held messages share an id. So `get_by_msg_id` finds exactly the message held
under the id (`getByMsgId_iff`), and each removal is described by what it takes away (`Dropped`): the
limits the rows past them, `prune_expired` what has expired, `forget_by_msg_id` and `delete_by_msg_id`
the message of an id. `insertRow` says what storing a message leaves.
-/

namespace TetCore.Tmail

open TetCore.Lib

namespace TmailStore

/-- The message is in the store. -/
def Holds (s : TmailStore) (env : TmailEnvelopeV1) : Prop := s.byReceiver.get env.key = some env

instance (s : TmailStore) (env : TmailEnvelopeV1) : Decidable (s.Holds env) :=
  inferInstanceAs (Decidable (_ = _))

/-- The indexes agree. -/
structure Indexed (s : TmailStore) : Prop where
  keyed : ∀ k env, s.byReceiver.get k = some env → k = env.key
  live : ∀ env, s.Holds env → s.byMsgId.get env.id = some (.live env.receiver)
  unique : ∀ env env', s.Holds env → s.Holds env' → env.id = env'.id → env = env'
  valid : ∀ env, s.Holds env → isHex64 env.receiver = true ∧ env.id ≠ []

/-- The trees other than the indexes are the same. -/
def SameBeside (s s' : TmailStore) : Prop :=
  s' = { s with byReceiver := s'.byReceiver, byMsgId := s'.byMsgId }

/-- `s'` is `s` less the messages that are `gone`. -/
structure Dropped (s s' : TmailStore) (gone : TmailEnvelopeV1 → Prop) : Prop where
  indexed : s'.Indexed
  holds : ∀ env, s'.Holds env ↔ s.Holds env ∧ ¬ gone env

variable {V : Vars} {M : Moment} {s s' s'' : TmailStore} {env env' : TmailEnvelopeV1}
  {gone gone' : TmailEnvelopeV1 → Prop}

theorem Indexed.new : TmailStore.new.Indexed := by
  constructor
  · intro k env h
    cases h.symm.trans (Tree.get_empty k)
  · intro env h
    cases h.symm.trans (Tree.get_empty env.key)
  · intro env env' h
    cases h.symm.trans (Tree.get_empty env.key)
  · intro env h
    cases h.symm.trans (Tree.get_empty env.key)

theorem SameBeside.refl (s : TmailStore) : SameBeside s s := rfl

theorem SameBeside.trans (h : SameBeside s s') (h' : SameBeside s' s'') : SameBeside s s'' := by
  unfold SameBeside at *
  rw [h'] at *
  rw [h]

theorem Dropped.refl (h : s.Indexed) : Dropped s s fun _ => False :=
  ⟨h, fun _ => ⟨fun hs => ⟨hs, fun hf => hf⟩, fun hs => hs.1⟩⟩

theorem Dropped.trans (h : Dropped s s' gone) (h' : Dropped s' s'' gone') :
    Dropped s s'' fun env => gone env ∨ gone' env := by
  refine ⟨h'.indexed, fun env => ?_⟩
  rw [h'.holds, h.holds, not_or, and_assoc]

theorem Dropped.congr (h : Dropped s s' gone) (hg : ∀ env, s.Holds env → (gone env ↔ gone' env)) :
    Dropped s s' gone' := by
  refine ⟨h.indexed, fun env => ?_⟩
  rw [h.holds]
  constructor
  · rintro ⟨hs, hn⟩
    exact ⟨hs, fun hg' => hn ((hg env hs).mpr hg')⟩
  · rintro ⟨hs, hn⟩
    exact ⟨hs, fun hg' => hn ((hg env hs).mp hg')⟩

/-! ## Reads -/

theorem Indexed.mem_iter (h : s.Indexed) {r : IndexKey × TmailEnvelopeV1} :
    r ∈ s.byReceiver.iter ↔ r.1 = r.2.key ∧ s.Holds r.2 := by
  rcases r with ⟨k, env⟩
  rw [Tree.mem_iter]
  constructor
  · intro hget
    have hk := h.keyed k env hget
    subst hk
    exact ⟨rfl, hget⟩
  · rintro ⟨hk, hheld⟩
    exact (congrArg s.byReceiver.get hk).trans hheld

theorem Indexed.mem_rowsOf (h : s.Indexed) {receiver : Str} {r : IndexKey × TmailEnvelopeV1} :
    r ∈ s.rowsOf receiver ↔ r.1 = r.2.key ∧ s.Holds r.2 ∧ r.2.receiver = receiver := by
  unfold rowsOf
  rw [List.mem_filter, h.mem_iter]
  constructor
  · rintro ⟨⟨hk, hheld⟩, hr⟩
    refine ⟨hk, hheld, ?_⟩
    rw [← of_decide_eq_true hr, hk]
    rfl
  · rintro ⟨hk, hheld, hr⟩
    refine ⟨⟨hk, hheld⟩, decide_eq_true ?_⟩
    rw [hk, ← hr]
    rfl

theorem rowsOf_nodup (s : TmailStore) (receiver : Str) : (s.rowsOf receiver).Nodup :=
  (Tree.iter_nodup s.byReceiver).filter _

/-- **The message held under an id**, and nothing else, is found by it. -/
theorem Indexed.indexKeyForMsgId_iff (h : s.Indexed) {msgId : Str} {k : IndexKey} :
    s.indexKeyForMsgId msgId = some k ↔ ∃ env, s.Holds env ∧ env.id = msgId ∧ k = env.key := by
  unfold indexKeyForMsgId
  constructor
  · intro hfind
    cases hrow : s.byMsgId.get msgId with
    | none =>
      rw [hrow] at hfind
      cases hfind
    | some row =>
      rw [hrow] at hfind
      cases row with
      | burned e => cases hfind
      | pruned e => cases hfind
      | live receiver =>
        simp only at hfind
        by_cases hhex : isHex64 receiver = true
        · rw [if_pos hhex] at hfind
          obtain ⟨r, hr, rfl⟩ := Option.map_eq_some_iff.mp hfind
          obtain ⟨hk, hheld, -⟩ := h.mem_rowsOf.mp (List.mem_of_find?_eq_some hr)
          have hid : r.1.msgId ≠ [] ∧ r.1.msgId = msgId := by simpa using List.find?_some hr
          refine ⟨r.2, hheld, ?_, hk⟩
          rw [← hid.2, hk]
          rfl
        · rw [if_neg hhex] at hfind
          cases hfind
  · rintro ⟨env, hheld, rfl, rfl⟩
    obtain ⟨hhex, hid⟩ := h.valid env hheld
    rw [h.live env hheld]
    simp only
    rw [if_pos hhex]
    cases hfind : (s.rowsOf env.receiver).find?
        fun r => decide (r.1.msgId ≠ [] ∧ r.1.msgId = env.id) with
    | none =>
      rw [List.find?_eq_none] at hfind
      have hmem : (env.key, env) ∈ s.rowsOf env.receiver := h.mem_rowsOf.mpr ⟨rfl, hheld, rfl⟩
      exact absurd (decide_eq_true ⟨hid, rfl⟩) (hfind _ hmem)
    | some r =>
      obtain ⟨hk, hheld', -⟩ := h.mem_rowsOf.mp (List.mem_of_find?_eq_some hfind)
      have hid' : r.1.msgId ≠ [] ∧ r.1.msgId = env.id := by simpa using List.find?_some hfind
      rw [hk] at hid'
      rw [Option.map_some, hk, h.unique r.2 env hheld' hheld hid'.2]

theorem Indexed.getByMsgId_iff (h : s.Indexed) {msgId : Str} :
    s.getByMsgId msgId = some env ↔ s.Holds env ∧ env.id = trim msgId := by
  unfold getByMsgId
  rw [Option.bind_eq_some_iff]
  constructor
  · rintro ⟨k, hk, hget⟩
    obtain ⟨env', hheld, hid, rfl⟩ := h.indexKeyForMsgId_iff.mp hk
    cases hheld.symm.trans hget
    exact ⟨hheld, hid⟩
  · rintro ⟨hheld, hid⟩
    exact ⟨env.key, h.indexKeyForMsgId_iff.mpr ⟨env, hheld, hid, rfl⟩, hheld⟩

/-! ## Removals -/

/-- Dropping the row of a message, where no other message has its id. -/
theorem Indexed.dropRow (h : s.Indexed) (mark : Option MsgRow)
    (honly : ∀ env', s.Holds env' → env'.id = env.id → env' = env) :
    Dropped s (s.dropRow env.key env.id mark) fun env' => env' = env := by
  have hholds : ∀ env', (s.dropRow env.key env.id mark).Holds env' ↔ s.Holds env' ∧ env' ≠ env := by
    intro env'
    show (s.byReceiver.remove env.key).get env'.key = some env' ↔ _
    rw [Tree.get_remove]
    by_cases hk : env.key = env'.key
    · rw [if_pos hk]
      constructor
      · intro hf
        cases hf
      · rintro ⟨hheld, hne⟩
        exact absurd (honly env' hheld (congrArg IndexKey.msgId hk).symm) hne
    · rw [if_neg hk]
      exact ⟨fun hheld => ⟨hheld, fun heq => hk (congrArg _ heq.symm)⟩, fun hheld => hheld.1⟩
  refine ⟨⟨?_, ?_, ?_, ?_⟩, hholds⟩
  · intro k env' hget
    have hget : (s.byReceiver.remove env.key).get k = some env' := hget
    rw [Tree.get_remove] at hget
    by_cases hk : env.key = k
    · rw [if_pos hk] at hget
      cases hget
    · rw [if_neg hk] at hget
      exact h.keyed k env' hget
  · intro env' hheld'
    obtain ⟨hheld, hne⟩ := (hholds env').mp hheld'
    have hid : env.id ≠ env'.id := fun hid => hne (honly env' hheld hid.symm)
    have hlive := h.live env' hheld
    show (if env.id = [] then s.byMsgId else _).get env'.id = _
    by_cases hnil : env.id = []
    · rw [if_pos hnil]
      exact hlive
    · rw [if_neg hnil]
      cases mark with
      | none => exact (Tree.get_remove_ne hid).trans hlive
      | some m => exact (Tree.get_insert_ne hid).trans hlive
  · intro a b ha hb hid
    exact h.unique a b ((hholds a).mp ha).1 ((hholds b).mp hb).1 hid
  · intro a ha
    exact h.valid a ((hholds a).mp ha).1

theorem dropRow_same (s : TmailStore) (k : IndexKey) (msgId : Str) (mark : Option MsgRow) :
    SameBeside s (s.dropRow k msgId mark) := rfl

/-- Dropping rows one after the other. -/
theorem Indexed.dropRows (mark : IndexKey × TmailEnvelopeV1 → Option MsgRow) :
    ∀ (rows : List (IndexKey × TmailEnvelopeV1)) {s : TmailStore}, s.Indexed →
      (∀ r ∈ rows, r.1 = r.2.key ∧ ∀ env', s.Holds env' → env'.id = r.2.id → env' = r.2) →
      SameBeside s (rows.foldl (fun s r => s.dropRow r.1 r.2.id (mark r)) s) ∧
        Dropped s (rows.foldl (fun s r => s.dropRow r.1 r.2.id (mark r)) s)
          fun env => env ∈ rows.map Prod.snd := by
  intro rows
  induction rows with
  | nil => exact fun h _ => ⟨SameBeside.refl _, (Dropped.refl h).congr fun env _ => by simp⟩
  | cons r rows ih =>
    intro s h hrows
    obtain ⟨hkey, honly⟩ := hrows r List.mem_cons_self
    have hfirst := h.dropRow (mark r) honly
    rw [← hkey] at hfirst
    obtain ⟨hsame, hrest⟩ := ih hfirst.indexed fun r' hr' =>
      ⟨(hrows r' (List.mem_cons_of_mem r hr')).1, fun env' henv' =>
        (hrows r' (List.mem_cons_of_mem r hr')).2 env' ((hfirst.holds env').mp henv').1⟩
    refine ⟨(dropRow_same s r.1 r.2.id (mark r)).trans hsame, (hfirst.trans hrest).congr ?_⟩
    intro env _
    rw [List.map_cons, List.mem_cons]

/-- Rows of the store are each the only one of their id. -/
theorem Indexed.rows_only (h : s.Indexed) {rows : List (IndexKey × TmailEnvelopeV1)}
    (hrows : ∀ r ∈ rows, r ∈ s.byReceiver.iter) :
    ∀ r ∈ rows, r.1 = r.2.key ∧ ∀ env', s.Holds env' → env'.id = r.2.id → env' = r.2 := by
  intro r hr
  obtain ⟨hkey, hheld⟩ := h.mem_iter.mp (hrows r hr)
  exact ⟨hkey, fun env' henv' hid => h.unique env' r.2 henv' hheld hid⟩

theorem mem_iter_of_mem_rowsOf {receiver : Str} {r : IndexKey × TmailEnvelopeV1}
    (h : r ∈ s.rowsOf receiver) : r ∈ s.byReceiver.iter := List.mem_of_mem_filter h

theorem Indexed.pruneRows (h : s.Indexed) {rows : List (IndexKey × TmailEnvelopeV1)}
    (hrows : ∀ r ∈ rows, r ∈ s.byReceiver.iter) :
    SameBeside s (s.pruneRows V rows) ∧
      Dropped s (s.pruneRows V rows) fun env => env ∈ rows.map Prod.snd :=
  h.dropRows (fun r => some (.pruned (expireAt V r.2))) rows (h.rows_only hrows)

/-- What a limit drops. -/
theorem Indexed.pruneBeyond (h : s.Indexed)
    (rel : IndexKey × TmailEnvelopeV1 → IndexKey × TmailEnvelopeV1 → Prop) [DecidableRel rel]
    (k : Nat) {rows : List (IndexKey × TmailEnvelopeV1)}
    (hrows : ∀ r ∈ rows, r ∈ s.byReceiver.iter) :
    SameBeside s (s.pruneRows V (beyond rel k rows)) ∧
      Dropped s (s.pruneRows V (beyond rel k rows)) fun env =>
        (env.key, env) ∈ beyond rel k rows := by
  have hbeyond : ∀ r ∈ beyond rel k rows, r ∈ s.byReceiver.iter :=
    fun r hr => hrows r (mem_of_mem_beyond hr)
  obtain ⟨hsame, hdrop⟩ := h.pruneRows (V := V) hbeyond
  refine ⟨hsame, hdrop.congr fun env _ => ?_⟩
  rw [List.mem_map]
  constructor
  · rintro ⟨r, hr, rfl⟩
    rw [← (h.mem_iter.mp (hbeyond r hr)).1]
    exact hr
  · intro hmem
    exact ⟨_, hmem, rfl⟩

/-- The messages of a conversation. -/
def conversation (s : TmailStore) (receiver counterparty : Str) :
    List (IndexKey × TmailEnvelopeV1) :=
  (s.rowsOf receiver).filter fun r => s.conversationKey r.2 = counterparty

/-- The anonymous messages of a receiver. -/
def anonymousRows (s : TmailStore) (receiver : Str) : List (IndexKey × TmailEnvelopeV1) :=
  (s.rowsOf receiver).filter fun r => r.2.isAnonymous

theorem Indexed.enforceRetention (h : s.Indexed) {receiver : Str} (counterparty : Str)
    (hhex : isHex64 (trimLower receiver) = true) :
    SameBeside s (s.enforceRetention V receiver counterparty) ∧
      Dropped s (s.enforceRetention V receiver counterparty) fun env => (env.key, env) ∈
        beyond (fun a b => newerFirst a b = true) (keepOf V (trimLower counterparty))
          (s.conversation (trimLower receiver) (trimLower counterparty)) := by
  have hrows : ∀ r ∈ s.conversation (trimLower receiver) (trimLower counterparty),
      r ∈ s.byReceiver.iter := fun r hr => mem_iter_of_mem_rowsOf (List.mem_of_mem_filter hr)
  unfold TmailStore.enforceRetention
  simp only [hhex, Bool.not_true, Bool.false_eq_true, if_false]
  exact h.pruneBeyond _ _ hrows

theorem Indexed.enforceAnonymousCap (h : s.Indexed) {receiver : Str}
    (hhex : isHex64 (trimLower receiver) = true) :
    SameBeside s (s.enforceAnonymousCap V receiver) ∧
      Dropped s (s.enforceAnonymousCap V receiver) fun env => (env.key, env) ∈
        beyond (fun a b => s.verifiedFirst a b = true) (s.anonKeepFor V (trimLower receiver))
          (s.anonymousRows (trimLower receiver)) := by
  have hrows : ∀ r ∈ s.anonymousRows (trimLower receiver), r ∈ s.byReceiver.iter :=
    fun r hr => mem_iter_of_mem_rowsOf (List.mem_of_mem_filter hr)
  unfold TmailStore.enforceAnonymousCap
  simp only [hhex, Bool.not_true, Bool.false_eq_true, if_false]
  exact h.pruneBeyond _ _ hrows

theorem not_live_of_mem_staleTombs {now : Nat} {k receiver : Str} (h : k ∈ s.staleTombs now) :
    s.byMsgId.get k ≠ some (.live receiver) := by
  unfold staleTombs at h
  obtain ⟨⟨k', row⟩, hrow, hstale⟩ := List.mem_filterMap.mp h
  have hk : row ≠ .live receiver ∧ k' = k := by
    cases row with
    | live _ => cases hstale
    | burned e => exact ⟨MsgRow.noConfusion, Option.some.inj (Option.ite_none_right_eq_some.mp hstale).2⟩
    | pruned e => exact ⟨MsgRow.noConfusion, Option.some.inj (Option.ite_none_right_eq_some.mp hstale).2⟩
  rw [← hk.2, Tree.mem_iter.mp hrow]
  exact fun heq => hk.1 (Option.some.inj heq)

/-- Removing tombstones leaves every message where it is. -/
theorem Indexed.reapTombs (h : s.Indexed) (now : Nat) :
    Dropped s { s with byMsgId := (s.staleTombs now).foldl Tree.remove s.byMsgId }
      fun _ => False := by
  refine ⟨⟨h.keyed, ?_, h.unique, h.valid⟩, fun env => ⟨fun hs => ⟨hs, id⟩, fun hs => hs.1⟩⟩
  intro env hheld
  show ((s.staleTombs now).foldl Tree.remove s.byMsgId).get env.id = _
  have hlive := h.live env hheld
  rw [Tree.get_foldl_remove, if_neg fun hmem => not_live_of_mem_staleTombs hmem hlive, hlive]

theorem Indexed.pruneExpired (h : s.Indexed) (now : Nat) :
    SameBeside s (s.pruneExpired V now) ∧
      Dropped s (s.pruneExpired V now) fun env => isExpired V env now = true := by
  unfold TmailStore.pruneExpired
  have hrows : ∀ r ∈ s.byReceiver.iter.filter fun r => isExpired V r.2 now, r ∈ s.byReceiver.iter :=
    fun r hr => List.mem_of_mem_filter hr
  obtain ⟨hsame, hdrop⟩ := h.dropRows (fun _ => none) _ (h.rows_only hrows)
  have htombs := hdrop.indexed.reapTombs now
  refine ⟨hsame.trans rfl, (hdrop.trans htombs).congr fun env hheld => ?_⟩
  rw [or_false, List.mem_map]
  constructor
  · rintro ⟨r, hr, rfl⟩
    exact (List.mem_filter.mp hr).2
  · intro hexp
    exact ⟨(env.key, env), List.mem_filter.mpr ⟨h.mem_iter.mpr ⟨rfl, hheld⟩, hexp⟩, rfl⟩

/-- No message has the id. -/
theorem Indexed.dropped_none (h : s.Indexed) {msgId : Str} (hfind : s.indexKeyForMsgId msgId = none) :
    Dropped s s fun env => env.id = msgId := by
  refine (Dropped.refl h).congr fun env hheld => ⟨False.elim, fun hid => ?_⟩
  cases hfind.symm.trans (h.indexKeyForMsgId_iff.mpr ⟨env, hheld, hid, rfl⟩)

/-- The message of the id goes. -/
theorem Indexed.dropped_some (h : s.Indexed) {msgId : Str} {k : IndexKey}
    (hfind : s.indexKeyForMsgId msgId = some k) (mark : Option MsgRow) :
    Dropped s (s.dropRow k msgId mark) fun env => env.id = msgId := by
  obtain ⟨env, hheld, rfl, rfl⟩ := h.indexKeyForMsgId_iff.mp hfind
  have honly : ∀ env', s.Holds env' → env'.id = env.id → env' = env :=
    fun env' henv' hid => h.unique env' env henv' hheld hid
  exact (h.dropRow mark honly).congr fun env' henv' => ⟨fun heq => congrArg _ heq, honly env' henv'⟩

theorem Indexed.forgetByMsgId (h : s.Indexed) (msgId : Str) :
    SameBeside s (s.forgetByMsgId msgId) ∧
      Dropped s (s.forgetByMsgId msgId) fun env => env.id = trim msgId := by
  unfold TmailStore.forgetByMsgId
  cases hfind : s.indexKeyForMsgId (trim msgId) with
  | none => exact ⟨SameBeside.refl s, h.dropped_none hfind⟩
  | some k => exact ⟨dropRow_same s k _ _, h.dropped_some hfind none⟩

theorem Indexed.deleteByMsgId (h : s.Indexed) (msgId : Str) :
    SameBeside s (s.deleteByMsgId V M msgId) ∧
      Dropped s (s.deleteByMsgId V M msgId) fun env => env.id = trim msgId := by
  unfold TmailStore.deleteByMsgId
  cases hfind : s.indexKeyForMsgId (trim msgId) with
  | none => exact ⟨SameBeside.refl s, h.dropped_none hfind⟩
  | some k => exact ⟨dropRow_same s k _ _, h.dropped_some hfind _⟩

/-! ## Storing -/

/-- A message under an id without a row. -/
theorem Indexed.addRows (h : s.Indexed) (hid : s.byMsgId.get env.id = none)
    (hvalid : isHex64 env.receiver = true ∧ env.id ≠ []) :
    (s.addRows env).Indexed ∧ ∀ env', (s.addRows env).Holds env' ↔ s.Holds env' ∨ env' = env := by
  have hfresh : ∀ env', s.Holds env' → env'.id ≠ env.id := by
    intro env' hheld heq
    have hlive := h.live env' hheld
    rw [heq, hid] at hlive
    cases hlive
  have hholds : ∀ env', (s.addRows env).Holds env' ↔ s.Holds env' ∨ env' = env := by
    intro env'
    show (s.byReceiver.insert env.key env).get env'.key = some env' ↔ _
    rw [Tree.get_insert]
    by_cases hk : env.key = env'.key
    · rw [if_pos hk]
      constructor
      · intro heq
        exact Or.inr (Option.some.inj heq).symm
      · rintro (hheld | rfl)
        · exact absurd (congrArg IndexKey.msgId hk).symm (hfresh env' hheld)
        · rfl
    · rw [if_neg hk]
      refine ⟨Or.inl, fun hor => hor.resolve_right ?_⟩
      rintro rfl
      exact hk rfl
  refine ⟨⟨?_, ?_, ?_, ?_⟩, hholds⟩
  · intro k env' hget
    have hget : (s.byReceiver.insert env.key env).get k = some env' := hget
    rw [Tree.get_insert] at hget
    by_cases hk : env.key = k
    · rw [if_pos hk] at hget
      rw [← hk, Option.some.inj hget]
    · rw [if_neg hk] at hget
      exact h.keyed k env' hget
  · intro env' hheld
    show (s.byMsgId.insert env.id (.live env.receiver)).get env'.id = _
    rcases (hholds env').mp hheld with hold | rfl
    · rw [Tree.get_insert_ne (Ne.symm (hfresh env' hold))]
      exact h.live env' hold
    · exact Tree.get_insert_self _ _ _
  · intro a b ha hb hab
    rcases (hholds a).mp ha with ha' | rfl
    · rcases (hholds b).mp hb with hb' | rfl
      · exact h.unique a b ha' hb' hab
      · exact absurd hab (hfresh a ha')
    · rcases (hholds b).mp hb with hb' | rfl
      · exact absurd hab.symm (hfresh b hb')
      · rfl
  · intro a ha
    rcases (hholds a).mp ha with ha | rfl
    · exact h.valid a ha
    · exact hvalid

/-- The message is past the limit of the conversation `new` is stored in. -/
def PastGroup (V : Vars) (s : TmailStore) (new env : TmailEnvelopeV1) : Prop :=
  (env.key, env) ∈ beyond (fun a b => newerFirst a b = true)
    (keepOf V (trimLower (s.conversationKey new)))
    (s.conversation new.receiver (trimLower (s.conversationKey new)))

/-- The message is past the anonymous cap of the receiver. -/
def PastCap (V : Vars) (s : TmailStore) (receiver : Str) (env : TmailEnvelopeV1) : Prop :=
  (env.key, env) ∈ beyond (fun a b => s.verifiedFirst a b = true) (s.anonKeepFor V receiver)
    (s.anonymousRows receiver)

/-- The store between the two limits. -/
def afterGroup (V : Vars) (s : TmailStore) (env : TmailEnvelopeV1) : TmailStore :=
  (s.addRows env).enforceRetention V env.receiver ((s.addRows env).conversationKey env)

theorem Indexed.afterGroup (h : s.Indexed) (hid : s.byMsgId.get env.id = none)
    (hvalid : isHex64 env.receiver = true ∧ env.id ≠ []) :
    SameBeside s (s.afterGroup V env) ∧ (s.afterGroup V env).Indexed ∧
      ∀ env', (s.afterGroup V env).Holds env' ↔
        (s.Holds env' ∨ env' = env) ∧ ¬ PastGroup V (s.addRows env) env env' := by
  have htrim : trimLower env.receiver = env.receiver := trimLower_trimLower _
  obtain ⟨hadd, hholds⟩ := h.addRows hid hvalid
  have hret := hadd.enforceRetention (V := V) ((s.addRows env).conversationKey env)
    (show isHex64 (trimLower env.receiver) = true by rw [htrim]; exact hvalid.1)
  rw [htrim] at hret
  have hsame : SameBeside s (s.addRows env) := rfl
  refine ⟨hsame.trans hret.1, hret.2.indexed, fun env' => ?_⟩
  rw [← hholds]
  exact hret.2.holds env'

/-- **What storing an anonymous message leaves**: all that was held and the message, less what is past
the limit of its conversation and then past the cap of its receiver. -/
theorem Indexed.insertRow (h : s.Indexed) (hid : s.byMsgId.get env.id = none)
    (hvalid : isHex64 env.receiver = true ∧ env.id ≠ []) :
    SameBeside s (s.insertRow V env) ∧ (s.insertRow V env).Indexed ∧
      ∀ env', (s.insertRow V env).Holds env' ↔ (s.afterGroup V env).Holds env' ∧
        ¬ (env.isAnonymous = true ∧ PastCap V (s.afterGroup V env) env.receiver env') := by
  have htrim : trimLower env.receiver = env.receiver := trimLower_trimLower _
  obtain ⟨hsame, hgroup, -⟩ := h.afterGroup (V := V) hid hvalid
  by_cases hanon : env.isAnonymous = true
  · have hinsert : s.insertRow V env = (s.afterGroup V env).enforceAnonymousCap V env.receiver :=
      if_pos hanon
    rw [hinsert]
    have hcap := hgroup.enforceAnonymousCap (V := V)
      (show isHex64 (trimLower env.receiver) = true by rw [htrim]; exact hvalid.1)
    rw [htrim] at hcap
    refine ⟨hsame.trans hcap.1, hcap.2.indexed, fun env' => ?_⟩
    rw [hcap.2.holds]
    exact and_congr_right fun _ => not_congr (and_iff_right hanon).symm
  · have hinsert : s.insertRow V env = s.afterGroup V env := if_neg hanon
    rw [hinsert]
    exact ⟨hsame, hgroup, fun env' => ⟨fun hh => ⟨hh, fun hc => hanon hc.1⟩, fun hh => hh.1⟩⟩

theorem Indexed.makeRoom (h : s.Indexed) :
    SameBeside s (s.makeRoom V M) ∧ Dropped s (s.makeRoom V M) fun env =>
      s.byReceiver.iter.length ≥ V.maxEntriesCap ∧ isExpired V env M.now = true := by
  unfold TmailStore.makeRoom
  by_cases hfull : s.byReceiver.iter.length ≥ V.maxEntriesCap
  · rw [if_pos hfull]
    obtain ⟨hsame, hdrop⟩ := h.pruneExpired (V := V) M.now
    exact ⟨hsame, hdrop.congr fun env _ => (and_iff_right hfull).symm⟩
  · rw [if_neg hfull]
    exact ⟨SameBeside.refl s, (Dropped.refl h).congr fun env _ =>
      ⟨False.elim, fun hf => hfull hf.1⟩⟩

theorem dropRows_byMsgId {k : Str} : ∀ (rows : List (IndexKey × TmailEnvelopeV1)) {s : TmailStore},
    s.byMsgId.get k = none →
      (rows.foldl (fun s r => s.dropRow r.1 r.2.id none) s).byMsgId.get k = none := by
  intro rows
  induction rows with
  | nil => exact fun h => h
  | cons r rows ih =>
    intro s h
    refine ih ?_
    show (if r.2.id = [] then s.byMsgId else s.byMsgId.remove r.2.id).get k = none
    by_cases hnil : r.2.id = []
    · rw [if_pos hnil]
      exact h
    · rw [if_neg hnil, Tree.get_remove, h, ite_self]

/-- Making room gives no message id a row. -/
theorem makeRoom_byMsgId {k : Str} (h : s.byMsgId.get k = none) :
    (s.makeRoom V M).byMsgId.get k = none := by
  unfold TmailStore.makeRoom
  by_cases hfull : s.byReceiver.iter.length ≥ V.maxEntriesCap
  · rw [if_pos hfull]
    unfold TmailStore.pruneExpired
    show (List.foldl Tree.remove _ _).get k = none
    rw [Tree.get_foldl_remove, dropRows_byMsgId _ h, ite_self]
  · rw [if_neg hfull]
    exact h

/-- What the ballot gate does: it refuses, or records the verdict of the ballot. -/
theorem pollBallotGate_cases (V : Vars) (M : Moment) (s : TmailStore) (env : TmailEnvelopeV1) :
    (∃ reason, s.pollBallotGate V M env = (.error reason, s)) ∨
      ∃ n t, verifyAnonymousProof M env = .verified n t ∧
        s.pollBallotGate V M env = (.ok n, s.setAnonVerdict V M env.id (.verified n t)) := by
  unfold TmailStore.pollBallotGate
  by_cases hflag : (!(env.isAnonymous && env.flagAnonymous)) = true
  · rw [if_pos hflag]
    exact Or.inl ⟨_, rfl⟩
  rw [if_neg hflag]
  cases env.proof with
  | none => exact Or.inl ⟨_, rfl⟩
  | some proof =>
    simp only
    by_cases hdep : (!M.receiptDeposited proof.receiptSha256Hex) = true
    · rw [if_pos hdep]
      exact Or.inl ⟨_, rfl⟩
    rw [if_neg hdep]
    cases verifyAnonymousProof M env with
    | verified n t => exact Or.inr ⟨n, t, rfl, rfl⟩
    | failed reason t => exact Or.inl ⟨_, rfl⟩
    | pending => exact Or.inl ⟨_, rfl⟩

theorem error_ne_ok {ε α : Type} {e : ε} {a : α} : (Except.error e : Except ε α) ≠ .ok a := by
  intro h
  cases h

/-- What `store_tmail_inner` does: nothing but make room, or it stores the message, in a poll with
the verdict of its ballot. -/
theorem storeTmailInner_cases (V : Vars) (M : Moment) (s : TmailStore) (env : TmailEnvelopeV1) :
    ((s.storeTmailInner V M env).1 ≠ .ok true ∧
      ((s.storeTmailInner V M env).2 = s ∨ (s.storeTmailInner V M env).2 = s.makeRoom V M)) ∨
    ((s.storeTmailInner V M env).1 = .ok true ∧ (isHex64 env.receiver = true ∧ env.id ≠ []) ∧
      s.byMsgId.get env.id = none ∧
      (((s.makeRoom V M).isPoll env.receiver = false ∧
          (s.storeTmailInner V M env).2 = (s.makeRoom V M).insertRow V env) ∨
        (s.makeRoom V M).isPoll env.receiver = true ∧
          ∃ n t, verifyAnonymousProof M env = .verified n t ∧
            (s.storeTmailInner V M env).2 =
              ((s.makeRoom V M).setAnonVerdict V M env.id (.verified n t)).insertRow V env)) := by
  unfold TmailStore.storeTmailInner
  by_cases hid : env.id = []
  · rw [if_pos hid]
    exact Or.inl ⟨error_ne_ok, Or.inl rfl⟩
  rw [if_neg hid]
  by_cases hhex : isHex64 env.receiver = true
  case neg =>
    rw [if_pos (by simp [hhex])]
    exact Or.inl ⟨error_ne_ok, Or.inl rfl⟩
  rw [if_neg (by simp [hhex])]
  by_cases hknown : (s.byMsgId.get env.id).isSome = true
  · rw [if_pos hknown]
    refine Or.inl ⟨?_, Or.inl rfl⟩
    intro hf
    cases hf
  rw [if_neg hknown]
  have hnone : s.byMsgId.get env.id = none := by simpa using hknown
  simp only
  by_cases hfull : (s.makeRoom V M).byReceiver.iter.length ≥ V.maxEntriesCap
  · rw [if_pos hfull]
    exact Or.inl ⟨error_ne_ok, Or.inr rfl⟩
  rw [if_neg hfull]
  by_cases hpoll : (s.makeRoom V M).isPoll env.receiver = true
  · rw [if_pos hpoll]
    rcases pollBallotGate_cases V M (s.makeRoom V M) env with ⟨reason, hgate⟩ | ⟨n, t, hver, hgate⟩
    · rw [hgate]
      exact Or.inl ⟨error_ne_ok, Or.inr rfl⟩
    · rw [hgate]
      exact Or.inr ⟨rfl, ⟨hhex, hid⟩, hnone, Or.inr ⟨hpoll, n, t, hver, rfl⟩⟩
  · rw [if_neg hpoll]
    exact Or.inr ⟨rfl, ⟨hhex, hid⟩, hnone, Or.inl ⟨Bool.not_eq_true _ ▸ hpoll, rfl⟩⟩

end TmailStore

end TetCore.Tmail
