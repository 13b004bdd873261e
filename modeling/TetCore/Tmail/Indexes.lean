import TetCore.Tmail.Runs

/-!
# The two indexes of the Tmail store

Every call touches the two indexes by dropping rows of held messages, reaping tombstones and adding one
message under an id without a row. A property of the indexes that each of these edits keeps
(`IndexInvariant`) is kept by every call: one lemma for each operation.

`Rows.lean` shows that a message held has its live row. Here the other way: a live row in `by_msg_id`
is of a message that is held (`Located`), so the two indexes agree (`Agreed`).
-/

namespace TetCore.Tmail

open TetCore.Lib

namespace TmailStore

/-- A property that the edits of the indexes keep, when what has run out by `now` is reaped. -/
structure IndexInvariant (now : Nat) (P : TmailStore → Prop) : Prop where
  indexed : ∀ {s : TmailStore}, P s → s.Indexed
  congr : ∀ {s s' : TmailStore}, P s → s'.byReceiver = s.byReceiver → s'.byMsgId = s.byMsgId → P s'
  drop : ∀ {s : TmailStore} {env : TmailEnvelopeV1} {mark : Option MsgRow}, P s → s.Holds env →
    (∀ receiver, mark ≠ some (.live receiver)) → P (s.dropRow env.key env.id mark)
  reap : ∀ {s : TmailStore}, P s →
    P { s with byMsgId := (s.staleTombs now).foldl Tree.remove s.byMsgId }
  add : ∀ {s : TmailStore} {env : TmailEnvelopeV1}, P s → s.byMsgId.get env.id = none →
    isHex64 env.receiver = true ∧ env.id ≠ [] → P (s.addRows env)

variable {V : Vars} {M : Moment} {s s' : TmailStore} {env : TmailEnvelopeV1}

/-- The verdict of a ballot is recorded before the ballot is stored, under an id without a row. -/
theorem Indexed.gate_records (h : s.Indexed) (hfresh : s.byMsgId.get env.id = none) (n : Str)
    (t : Nat) : s.setAnonVerdict V M env.id (.verified n t) = s.recorded env.id (.verified n t) := by
  rw [h.setVerified_unheld, trim_id]
  intro e he hid
  exact absurd (hid.trans (trim_id env)) (h.not_held hfresh he)

namespace IndexInvariant

variable {P : TmailStore → Prop}

/-! ## Removals -/

theorem dropRows {now : Nat} (hP : IndexInvariant now P)
    (mark : IndexKey × TmailEnvelopeV1 → Option MsgRow)
    (hmark : ∀ r receiver, mark r ≠ some (.live receiver)) :
    ∀ (rows : List (IndexKey × TmailEnvelopeV1)) {s : TmailStore}, P s → rows.Nodup →
      (∀ r ∈ rows, r ∈ s.byReceiver.iter) →
      P (rows.foldl (fun s r => s.dropRow r.1 r.2.id (mark r)) s) := by
  intro rows
  induction rows with
  | nil => exact fun h _ _ => h
  | cons r rows ih =>
    intro s h hnodup hrows
    obtain ⟨hnew, hnodup⟩ := List.nodup_cons.mp hnodup
    have hindexed := hP.indexed h
    obtain ⟨hkey, hheld⟩ := hindexed.mem_iter.mp (hrows r List.mem_cons_self)
    have hfirst := hP.drop h hheld (hmark r)
    have hdrop := hindexed.dropRow (mark r) fun e he hid => hindexed.unique e r.2 he hheld hid
    rw [← hkey] at hfirst hdrop
    refine ih hfirst hnodup fun r' hr' => ?_
    -- the other rows are of other messages
    obtain ⟨hkey', hheld'⟩ := hindexed.mem_iter.mp (hrows r' (List.mem_cons_of_mem r hr'))
    refine hdrop.indexed.mem_iter.mpr ⟨hkey', (hdrop.holds r'.2).mpr ⟨hheld', fun heq => ?_⟩⟩
    exact hnew (Prod.ext (hkey'.trans ((congrArg _ heq).trans hkey.symm)) heq ▸ hr')

theorem pruneRows {now : Nat} (hP : IndexInvariant now P) (h : P s)
    {rows : List (IndexKey × TmailEnvelopeV1)} (hnodup : rows.Nodup)
    (hrows : ∀ r ∈ rows, r ∈ s.byReceiver.iter) : P (s.pruneRows V rows) :=
  hP.dropRows _ (fun _ _ hm => by cases hm) rows h hnodup hrows

theorem enforceRetention {now : Nat} (hP : IndexInvariant now P) (h : P s)
    (receiver counterparty : Str) : P (s.enforceRetention V receiver counterparty) := by
  unfold TmailStore.enforceRetention
  simp only
  by_cases hhex : (!isHex64 (trimLower receiver)) = true
  · rw [if_pos hhex]
    exact h
  · rw [if_neg hhex]
    exact hP.pruneRows h (beyond_nodup ((rowsOf_nodup _ _).filter _)) fun r hr =>
      mem_iter_of_mem_rowsOf (List.mem_of_mem_filter (mem_of_mem_beyond hr))

theorem enforceAnonymousCap {now : Nat} (hP : IndexInvariant now P) (h : P s) (receiver : Str) :
    P (s.enforceAnonymousCap V receiver) := by
  unfold TmailStore.enforceAnonymousCap
  simp only
  by_cases hhex : (!isHex64 (trimLower receiver)) = true
  · rw [if_pos hhex]
    exact h
  · rw [if_neg hhex]
    exact hP.pruneRows h (beyond_nodup ((rowsOf_nodup _ _).filter _)) fun r hr =>
      mem_iter_of_mem_rowsOf (List.mem_of_mem_filter (mem_of_mem_beyond hr))

theorem pruneExpired {now : Nat} (hP : IndexInvariant now P) (h : P s) :
    P (s.pruneExpired V now) := by
  unfold TmailStore.pruneExpired
  exact hP.reap (hP.dropRows (fun _ => none) (fun _ _ hm => by cases hm) _ h
    ((Tree.iter_nodup _).filter _) fun r hr => List.mem_of_mem_filter hr)

/-- The message of an id goes, with its row. -/
theorem dropFound {now : Nat} (hP : IndexInvariant now P) (h : P s) {msgId : Str} {k : IndexKey}
    (hfind : s.indexKeyForMsgId msgId = some k) {mark : Option MsgRow}
    (hmark : ∀ receiver, mark ≠ some (.live receiver)) : P (s.dropRow k msgId mark) := by
  obtain ⟨e, hheld, rfl, rfl⟩ := (hP.indexed h).indexKeyForMsgId_iff.mp hfind
  exact hP.drop h hheld hmark

theorem forgetByMsgId {now : Nat} (hP : IndexInvariant now P) (h : P s) (msgId : Str) :
    P (s.forgetByMsgId msgId) := by
  unfold TmailStore.forgetByMsgId
  cases hfind : s.indexKeyForMsgId (trim msgId) with
  | none => exact h
  | some k => exact hP.dropFound h hfind fun _ hm => by cases hm

theorem deleteByMsgId {now : Nat} (hP : IndexInvariant now P) (h : P s) (msgId : Str) :
    P (s.deleteByMsgId V M msgId) := by
  unfold TmailStore.deleteByMsgId
  cases hfind : s.indexKeyForMsgId (trim msgId) with
  | none => exact h
  | some k => exact hP.dropFound h hfind fun _ hm => by cases hm

/-! ## Verdicts and posting keys -/

/-- Held posts let go one after the other, each with its message. -/
theorem letGo {now : Nat} (hP : IndexInvariant now P) {f : TmailStore → Str → TmailStore}
    (hf : ∀ {s : TmailStore} (msgId : Str), P s → P (f s msgId)) :
    ∀ (ps : List PendingKey) {s : TmailStore}, P s →
      P (ps.foldl (fun s p => f { s with fastPending := s.fastPending.remove p } p.msgId) s) := by
  intro ps
  induction ps with
  | nil => exact fun h => h
  | cons p ps ih => exact fun h => ih (hf p.msgId (hP.congr h rfl rfl))

theorem pruneFast {now : Nat} (hP : IndexInvariant now P) (h : P s) : P (s.pruneFast V M) :=
  hP.letGo (f := TmailStore.forgetByMsgId) (fun msgId h => hP.forgetByMsgId h msgId) _
    (hP.congr h rfl rfl)

theorem dropFastPending {now : Nat} (hP : IndexInvariant now P) (h : P s) (name : FastName)
    (definitive : Bool) : P (s.dropFastPending V M name definitive) := by
  unfold TmailStore.dropFastPending
  cases definitive with
  | true => exact hP.letGo (fun msgId h => hP.deleteByMsgId (V := V) (M := M) h msgId) _ h
  | false => exact hP.letGo (fun msgId h => hP.forgetByMsgId h msgId) _ h

theorem registerFastKey {now : Nat} (hP : IndexInvariant now P) (h : P s) (name : FastName)
    (n : Str) : P (s.registerFastKey V M env name n) := by
  unfold TmailStore.registerFastKey
  by_cases hpoll : s.isPoll env.receiver = true
  · rw [if_pos hpoll]
    exact h
  rw [if_neg hpoll]
  simp only
  generalize hreg : (if (s.fastKeys.get name).isNone then
    { s with fastKeys := s.fastKeys.insert name ⟨n, M.now, env.id⟩ } else s) = s₁
  have hsame : s₁.byReceiver = s.byReceiver ∧ s₁.byMsgId = s.byMsgId := by
    rw [← hreg]
    split_ifs <;> exact ⟨rfl, rfl⟩
  obtain ⟨-, heq⟩ := verifyHeld_fold (M := M) n (s₁.waiting name) s₁
  have hheld : P ((s₁.waiting name).foldl (verifyHeld M n) s₁) := by
    rw [heq]
    exact hP.congr h hsame.1 hsame.2
  exact hP.pruneFast hheld

theorem followVerdict {now : Nat} (hP : IndexInvariant now P) (h : P s) (msgId : Str)
    (verdict : AnonVerdict) : P (s.followVerdict V M msgId verdict) := by
  unfold TmailStore.followVerdict
  cases s.getByMsgId msgId with
  | none => exact h
  | some e =>
    simp only
    by_cases hproof : e.proof.isNone = true
    · rw [if_pos hproof]
      exact h
    rw [if_neg hproof]
    have hone : P { s with fastRegpending := s.fastRegpending.remove e.fastName } :=
      hP.congr h rfl rfl
    cases verdict with
    | pending => exact hP.congr h rfl rfl
    | verified n t => exact hP.registerFastKey hone e.fastName n
    | failed reason t => exact hP.dropFastPending hone e.fastName _

theorem setAnonVerdict {now : Nat} (hP : IndexInvariant now P) (h : P s) (msgId : Str)
    (verdict : AnonVerdict) : P (s.setAnonVerdict V M msgId verdict) := by
  have hrecorded : P (s.recorded (trim msgId) verdict) := hP.congr h rfl rfl
  have hfollowed := hP.followVerdict (V := V) (M := M) hrecorded msgId verdict
  cases verdict with
  | pending => exact hfollowed
  | verified n t => exact hfollowed
  | failed reason t =>
    unfold TmailStore.setAnonVerdict
    simp only
    by_cases hdef : failureIsDefinitive reason = true
    · rw [if_pos hdef]
      exact hP.deleteByMsgId hfollowed msgId
    · rw [if_neg hdef]
      exact hP.forgetByMsgId hfollowed msgId

/-! ## Storing -/

theorem insertRow {now : Nat} (hP : IndexInvariant now P) (h : P s)
    (hid : s.byMsgId.get env.id = none)
    (hvalid : isHex64 env.receiver = true ∧ env.id ≠ []) : P (s.insertRow V env) := by
  unfold TmailStore.insertRow
  simp only
  have hret := hP.enforceRetention (V := V) (hP.add h hid hvalid) env.receiver
    ((s.addRows env).conversationKey env)
  by_cases hanon : env.isAnonymous = true
  · rw [if_pos hanon]
    exact hP.enforceAnonymousCap hret env.receiver
  · rw [if_neg hanon]
    exact hret

theorem makeRoom (hP : IndexInvariant M.now P) (h : P s) : P (s.makeRoom V M) := by
  unfold TmailStore.makeRoom
  by_cases hfull : s.byReceiver.iter.length ≥ V.maxEntriesCap
  · rw [if_pos hfull]
    exact hP.pruneExpired h
  · rw [if_neg hfull]
    exact h

theorem storeTmailInner (hP : IndexInvariant M.now P) (h : P s) :
    P (s.storeTmailInner V M env).2 := by
  have hroom := hP.makeRoom (V := V) h
  rcases storeTmailInner_cases V M s env with
    ⟨-, heq | heq⟩ | ⟨-, hvalid, hfresh, ⟨-, heq⟩ | ⟨-, n, t, -, heq⟩⟩
  · rw [heq]
    exact h
  · rw [heq]
    exact hroom
  · rw [heq]
    exact hP.insertRow hroom (makeRoom_byMsgId hfresh) hvalid
  · have hfresh' := makeRoom_byMsgId (V := V) (M := M) hfresh
    rw [heq, (hP.indexed hroom).gate_records hfresh']
    have hrecorded : P ((s.makeRoom V M).recorded env.id (.verified n t)) :=
      hP.congr hroom rfl rfl
    exact hP.insertRow hrecorded hfresh' hvalid

theorem storeTmail (hP : IndexInvariant M.now P) (h : P s) : P (s.storeTmail V M env).2 := by
  unfold TmailStore.storeTmail
  by_cases hfast : env.isFastPost = true
  · rw [if_pos hfast]
    exact h
  rw [if_neg hfast]
  by_cases hshelter : (!env.flagAnonymous && M.isShelterBoard env.receiver &&
      !M.shelterMayPost (trimLower env.senderWalletId)) = true
  · rw [if_pos hshelter]
    exact h
  · rw [if_neg hshelter]
    exact hP.storeTmailInner h

theorem sendAnonymous (hP : IndexInvariant M.now P) (h : P s) :
    P (s.sendAnonymous V M env).2 := by
  have hstored : P (s.storeTmail V M env).2 := hP.storeTmail h
  rcases sendAnonymous_cases V M s env with
    ⟨-, heq | ⟨-, heq⟩⟩ | ⟨_, n, t, _, _, _, _, _, heq⟩
  · rw [heq]
    exact h
  · rw [heq]
    exact hstored
  · rw [heq]
    exact hP.setAnonVerdict (V := V) (M := M) hstored env.id (.verified n t)

theorem storeRegistered (hP : IndexInvariant M.now P) (h : P s) (reg : FastKey) :
    P (s.storeRegistered V M env reg).2 := by
  have hinner : P (s.storeTmailInner V M env).2 := hP.storeTmailInner h
  rcases storeRegistered_cases V M s env reg with ⟨-, heq | ⟨-, heq⟩⟩ | ⟨-, heq⟩ <;> rw [heq]
  · exact h
  · exact hinner
  · exact hP.congr hinner rfl rfl

theorem storeHeld (hP : IndexInvariant M.now P) (h : P s) : P (s.storeHeld V M env).2 := by
  have hpruned := hP.pruneFast (V := V) (M := M) h
  have hinner : P ((s.pruneFast V M).storeTmailInner V M env).2 := hP.storeTmailInner hpruned
  rcases storeHeld_cases V M s env with ⟨-, heq | ⟨-, heq⟩⟩ | ⟨-, heq⟩ <;> rw [heq]
  · exact hpruned
  · exact hinner
  · exact hP.congr hinner rfl rfl

theorem sendFastAnonymous (hP : IndexInvariant M.now P) (h : P s) :
    P (s.sendFastAnonymous V M env).2 := by
  rcases sendFastAnonymous_cases V M s env with ⟨-, heq⟩ | ⟨reg, -, -, heq⟩ <;> rw [heq]
  · exact h
  · exact hP.storeRegistered h reg

theorem receiveFastAnonymous (hP : IndexInvariant M.now P) (h : P s) :
    P (s.receiveFastAnonymous V M env).2 := by
  rcases receiveFastAnonymous_cases V M s env with
    heq | ⟨-, -, ⟨reg, -, heq⟩ | ⟨-, heq⟩⟩ <;> rw [heq]
  · exact h
  · exact hP.storeRegistered h reg
  · exact hP.storeHeld h

end IndexInvariant

/-! ## Live rows -/

/-- A live row is of a held message. -/
def Located (s : TmailStore) : Prop :=
  ∀ id receiver, s.byMsgId.get id = some (.live receiver) →
    ∃ e, s.Holds e ∧ e.id = id ∧ e.receiver = receiver

/-- Held messages have live rows and live rows are of held messages. -/
structure Agreed (s : TmailStore) : Prop where
  indexed : s.Indexed
  located : s.Located

theorem Agreed.new : TmailStore.new.Agreed :=
  ⟨Indexed.new, fun id _ h => by cases h.symm.trans (Tree.get_empty id)⟩

/-- The other trees do not matter. -/
theorem Agreed.congr (h : s.Agreed) (hrows : s'.byReceiver = s.byReceiver)
    (hids : s'.byMsgId = s.byMsgId) : s'.Agreed := by
  refine ⟨h.indexed.congr hrows hids, fun id receiver hlive => ?_⟩
  rw [hids] at hlive
  obtain ⟨e, hheld, hid⟩ := h.located id receiver hlive
  refine ⟨e, ?_, hid⟩
  unfold Holds
  rw [hrows]
  exact hheld

/-- Messages go, and their live rows with them. -/
theorem Agreed.of_drop {gone : TmailEnvelopeV1 → Prop} (h : s.Agreed) (hdrop : Dropped s s' gone)
    (hlive : ∀ id receiver, s'.byMsgId.get id = some (.live receiver) →
      s.byMsgId.get id = some (.live receiver) ∧ ∀ e, s.Holds e → e.id = id → ¬ gone e) :
    s'.Agreed := by
  refine ⟨hdrop.indexed, fun id receiver hrow => ?_⟩
  obtain ⟨hbefore, hkept⟩ := hlive id receiver hrow
  obtain ⟨e, hheld, hid, hreceiver⟩ := h.located id receiver hbefore
  exact ⟨e, (hdrop.holds e).mpr ⟨hheld, hkept e hheld hid⟩, hid, hreceiver⟩

theorem get_dropRow {k : IndexKey} {msgId id : Str} {mark : Option MsgRow} (hne : msgId ≠ []) :
    (s.dropRow k msgId mark).byMsgId.get id =
      if msgId = id then mark else s.byMsgId.get id := by
  show (if msgId = [] then s.byMsgId else _).get id = _
  rw [if_neg hne]
  cases mark with
  | none => exact Tree.get_remove _ _ _
  | some m => exact Tree.get_insert _ _ _ _

/-- The live rows after a message is dropped. -/
theorem dropRow_live {k : IndexKey} {msgId id receiver : Str} {mark : Option MsgRow}
    (hmark : ∀ receiver, mark ≠ some (.live receiver)) (hne : msgId ≠ [])
    (h : (s.dropRow k msgId mark).byMsgId.get id = some (.live receiver)) :
    s.byMsgId.get id = some (.live receiver) ∧ msgId ≠ id := by
  rw [get_dropRow hne] at h
  by_cases heq : msgId = id
  · rw [if_pos heq] at h
    exact absurd h (hmark receiver)
  · rw [if_neg heq] at h
    exact ⟨h, heq⟩

theorem Agreed.drop (h : s.Agreed) {mark : Option MsgRow} (hheld : s.Holds env)
    (hmark : ∀ receiver, mark ≠ some (.live receiver)) :
    (s.dropRow env.key env.id mark).Agreed := by
  have honly : ∀ e, s.Holds e → e.id = env.id → e = env :=
    fun e he hid => h.indexed.unique e env he hheld hid
  refine h.of_drop (h.indexed.dropRow mark honly) fun id receiver hrow => ?_
  obtain ⟨hbefore, hne⟩ := dropRow_live hmark (h.indexed.valid env hheld).2 hrow
  exact ⟨hbefore, fun e _ hid heq => hne ((congrArg _ heq).symm.trans hid)⟩

theorem Agreed.addRows (h : s.Agreed) (hid : s.byMsgId.get env.id = none)
    (hvalid : isHex64 env.receiver = true ∧ env.id ≠ []) : (s.addRows env).Agreed := by
  obtain ⟨hindexed, hholds⟩ := h.indexed.addRows hid hvalid
  refine ⟨hindexed, fun id receiver hrow => ?_⟩
  have hrow : (s.byMsgId.insert env.id (.live env.receiver)).get id = some (.live receiver) := hrow
  rw [Tree.get_insert] at hrow
  by_cases heq : env.id = id
  · rw [if_pos heq] at hrow
    cases hrow
    exact ⟨env, (hholds env).mpr (Or.inr rfl), heq, rfl⟩
  · rw [if_neg heq] at hrow
    obtain ⟨e, hheld, he⟩ := h.located id receiver hrow
    exact ⟨e, (hholds e).mpr (Or.inl hheld), he⟩

/-- **The two indexes agree** after every edit. -/
theorem Agreed.invariant (now : Nat) : IndexInvariant now Agreed where
  indexed h := h.indexed
  congr h := h.congr
  drop h := h.drop
  reap h := h.of_drop (h.indexed.reapTombs now) fun _ _ hrow =>
    ⟨Tree.get_of_foldl_remove _ hrow, fun _ _ _ hf => hf⟩
  add h := h.addRows

end TmailStore

end TetCore.Tmail
