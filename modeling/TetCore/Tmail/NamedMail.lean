import Mathlib.Data.List.Dedup
import Mathlib.Data.List.Induction
import TetCore.Tmail.Retention

/-!
# Named mail in any order

`store_tmail` enforces the limit of a conversation each time it stores a message of it, so a message
may be dropped before older ones arrive. What is left is the same in every order: among the messages
delivered so far, with duplicates and re-deliveries, exactly the newest of each conversation are
stored and the others have their markers (`Retained`), one delivery after the other.

`named_retention` is about receivers that take the mail: a poll takes only ballots, and Shelter's board
only its members' posts (`storeTmail_refused`).
-/

namespace TetCore.Tmail

open TetCore.Lib TmailStore

/-! ## What is newest -/

/-- Both are from one sender to one receiver. -/
def sameConversation (a b : TmailEnvelopeV1) : Bool :=
  a.receiver == b.receiver && trimLower a.senderWalletId == trimLower b.senderWalletId

/-- `a` is newer than `b`, by time and message id. -/
def newerMail (a b : TmailEnvelopeV1) : Bool :=
  b.sentAtMs < a.sentAtMs || (b.sentAtMs == a.sentAtMs && compare b.id a.id == .lt)

/-- How many of the envelopes are newer and of the same conversation. -/
def newerCount (es : List TmailEnvelopeV1) (e : TmailEnvelopeV1) : Nat :=
  es.dedup.countP fun e' => sameConversation e' e && newerMail e' e

/-- The message ids tell the envelopes apart. -/
def Distinct (es : List TmailEnvelopeV1) : Prop :=
  ∀ a ∈ es, ∀ b ∈ es, a.id = b.id → a = b

variable {V : Vars} {M : Moment} {s s₀ : TmailStore} {env e : TmailEnvelopeV1}
  {es es' : List TmailEnvelopeV1}

theorem sameConversation_iff {a b : TmailEnvelopeV1} : sameConversation a b = true ↔
    a.receiver = b.receiver ∧ trimLower a.senderWalletId = trimLower b.senderWalletId := by
  unfold sameConversation
  rw [Bool.and_eq_true, beq_iff_eq, beq_iff_eq]

theorem sameConversation_congr {a b : TmailEnvelopeV1} (h : sameConversation a b = true)
    (x : TmailEnvelopeV1) : sameConversation x a = sameConversation x b := by
  obtain ⟨hreceiver, hsender⟩ := sameConversation_iff.mp h
  unfold sameConversation
  rw [hreceiver, hsender]

/-- The same envelopes, in any order and as often as may be. -/
theorem newerCount_congr (h : ∀ x, x ∈ es ↔ x ∈ es') (e : TmailEnvelopeV1) :
    newerCount es e = newerCount es' e := by
  have hperm : es.dedup.Perm es'.dedup :=
    (List.perm_ext_iff_of_nodup (List.nodup_dedup _) (List.nodup_dedup _)).mpr fun x => by
      rw [List.mem_dedup, List.mem_dedup, h]
  exact hperm.countP_eq _

theorem newerCount_cons (hnew : env ∉ es) (e : TmailEnvelopeV1) : newerCount (env :: es) e =
    newerCount es e + if sameConversation env e && newerMail env e then 1 else 0 := by
  unfold newerCount
  rw [List.dedup_cons_of_notMem hnew, List.countP_cons]

/-- Keys of one receiver and one time are in the order of their ids. -/
theorem compare_key {a b : TmailEnvelopeV1} (hreceiver : a.receiver = b.receiver)
    (hsent : a.sentAtMs = b.sentAtMs) : compare a.key b.key = compare a.id b.id := by
  show compareFields IndexKey.receiver IndexKey.sentAtMs IndexKey.msgId a.key b.key = _
  unfold compareFields compareLex compareOn
  show (compare a.receiver b.receiver).then
    ((compare a.sentAtMs b.sentAtMs).then (compare a.id b.id)) = _
  rw [hreceiver, hsent, Std.ReflOrd.compare_self, Std.ReflOrd.compare_self]
  rfl

/-- The rows of a conversation. -/
def rowsFor (es : List TmailEnvelopeV1) (e : TmailEnvelopeV1) : List (IndexKey × TmailEnvelopeV1) :=
  (es.dedup.filter fun e' => sameConversation e' e).map fun e' => (e'.key, e')

theorem mem_rowsFor {r : IndexKey × TmailEnvelopeV1} : r ∈ rowsFor es e ↔
    r.1 = r.2.key ∧ r.2 ∈ es ∧ sameConversation r.2 e = true := by
  unfold rowsFor
  rw [List.mem_map]
  constructor
  · rintro ⟨e', he', rfl⟩
    obtain ⟨hmem, hsame⟩ := List.mem_filter.mp he'
    exact ⟨rfl, List.mem_dedup.mp hmem, hsame⟩
  · rintro ⟨hkey, hmem, hsame⟩
    exact ⟨r.2, List.mem_filter.mpr ⟨List.mem_dedup.mpr hmem, hsame⟩, Prod.ext hkey.symm rfl⟩

theorem rowsFor_nodup : (rowsFor es e).Nodup := by
  refine ((List.nodup_dedup es).filter _).map ?_
  intro a b hab
  exact (Prod.mk.inj hab).2

/-- The rank of a message among the rows of its conversation counts the newer ones. -/
theorem rank_rowsFor (hdistinct : Distinct es) (he : e ∈ es) :
    rank (fun a b => newerFirst a b = true) (rowsFor es e) (e.key, e) = newerCount es e := by
  unfold rank rowsFor newerCount
  rw [List.countP_map, List.countP_filter]
  refine List.countP_congr fun e' he' => ?_
  have he' : e' ∈ es := List.mem_dedup.mp he'
  rw [Bool.and_comm, Bool.and_eq_true, Bool.and_eq_true]
  refine and_congr_right fun hsame => ?_
  obtain ⟨hreceiver, -⟩ := sameConversation_iff.mp hsame
  show decide (newerFirst (e'.key, e') (e.key, e) = true ∧ (e'.key, e') ≠ (e.key, e)) = true ↔
    newerMail e' e = true
  rw [decide_eq_true_eq, newerFirst_iff]
  unfold newerMail
  rw [Bool.or_eq_true, Bool.and_eq_true, decide_eq_true_eq, beq_iff_eq, beq_iff_eq]
  constructor
  · rintro ⟨hlt | ⟨heq, hle⟩, hne⟩
    · exact Or.inl hlt
    · refine Or.inr ⟨heq, ?_⟩
      have hle : (compare e.key e'.key).isLE = true := hle
      rw [compare_key hreceiver.symm heq] at hle
      cases hcmp : compare e.id e'.id with
      | lt => rfl
      | eq =>
        -- one id, one envelope
        have hid : e.id = e'.id := Std.LawfulEqCmp.eq_of_compare hcmp
        exact absurd (by rw [hdistinct e he e' he' hid]) hne
      | gt =>
        rw [hcmp] at hle
        cases hle
  · rintro (hlt | ⟨heq, hcmp⟩)
    · refine ⟨Or.inl hlt, fun hrow => ?_⟩
      rw [(Prod.mk.inj hrow).2] at hlt
      exact Nat.lt_irrefl _ hlt
    · refine ⟨Or.inr ⟨heq, ?_⟩, fun hrow => ?_⟩
      · show (compare e.key e'.key).isLE = true
        rw [compare_key hreceiver.symm heq, hcmp]
        rfl
      · rw [(Prod.mk.inj hrow).2, Std.ReflOrd.compare_self] at hcmp
        cases hcmp

/-- Rows of distinct messages that are each before the other are one. -/
theorem rowsFor_antisymm (hdistinct : Distinct es) {a b : IndexKey × TmailEnvelopeV1}
    (ha : a ∈ rowsFor es e) (hb : b ∈ rowsFor es e) (hab : newerFirst a b = true)
    (hba : newerFirst b a = true) : a = b := by
  obtain ⟨hakey, hamem, -⟩ := mem_rowsFor.mp ha
  obtain ⟨hbkey, hbmem, -⟩ := mem_rowsFor.mp hb
  rw [newerFirst_iff] at hab hba
  have hle : (compare b.1 a.1).isLE = true ∧ (compare a.1 b.1).isLE = true := by
    rcases hab with hab | ⟨hab, hle⟩
    · rcases hba with hba | ⟨hba, -⟩ <;> omega
    · rcases hba with hba | ⟨-, hle'⟩
      · omega
      · exact ⟨hle, hle'⟩
  have hkey : a.1 = b.1 :=
    Std.LawfulEqCmp.eq_of_compare (Std.OrientedCmp.isLE_antisymm hle.2 hle.1)
  have hid : a.2.id = b.2.id := by
    have hboth : a.2.key = b.2.key := by rw [← hakey, ← hbkey, hkey]
    exact congrArg IndexKey.msgId hboth
  exact Prod.ext hkey (hdistinct a.2 hamem b.2 hbmem hid)

/-! ## One delivery -/

/-- A named envelope as `verify_tmail_envelope_v1` lets it through, with a message id. -/
def isNamedMail (env : TmailEnvelopeV1) : Bool :=
  env.wellFormed && !env.isAnonymous && env.id ≠ []

/-- The receiver is no poll, and Shelter's board takes the sender's posts. -/
def TmailStore.takes (s : TmailStore) (M : Moment) (env : TmailEnvelopeV1) : Bool :=
  !s.isPoll env.receiver &&
    (!M.isShelterBoard env.receiver || M.shelterMayPost (trimLower env.senderWalletId))

/-- The message is one of the newest of its conversation. -/
def Newest (V : Vars) (es : List TmailEnvelopeV1) (e : TmailEnvelopeV1) : Prop :=
  newerCount es e < V.retainConversation

/-- What is left of the named mail `es` that came to the store `s₀`. -/
structure Retained (V : Vars) (s₀ : TmailStore) (es : List TmailEnvelopeV1) (s : TmailStore) :
    Prop where
  beside : SameBeside s₀ s
  indexed : s.Indexed
  holds : ∀ e, s.Holds e ↔ e ∈ es ∧ Newest V es e
  pruned : ∀ e ∈ es, ¬ Newest V es e → s.byMsgId.get e.id = some (.pruned (expireAt V e))
  unseen : ∀ k, (∀ e ∈ es, e.id ≠ k) → s.byMsgId.get k = none

theorem Newest.mono (hnew : env ∉ es) (h : Newest V (env :: es) e) : Newest V es e := by
  unfold Newest at *
  rw [newerCount_cons hnew] at h
  omega

theorem Newest.congr (h : ∀ x, x ∈ es ↔ x ∈ es') : Newest V es e ↔ Newest V es' e := by
  unfold Newest
  rw [newerCount_congr h]

theorem Retained.congr (hret : Retained V s₀ es s) (h : ∀ x, x ∈ es ↔ x ∈ es') :
    Retained V s₀ es' s := by
  refine ⟨hret.beside, hret.indexed, fun e => ?_, fun e he hold => ?_, fun k hk => ?_⟩
  · rw [hret.holds, h, Newest.congr h]
  · exact hret.pruned e ((h e).mpr he) fun hnewest => hold ((Newest.congr h).mp hnewest)
  · exact hret.unseen k fun e he => hk e ((h e).mp he)

/-- An envelope that came before has a row. -/
theorem Retained.known (h : Retained V s₀ es s) (he : e ∈ es) :
    (s.byMsgId.get e.id).isSome = true := by
  by_cases hnewest : Newest V es e
  · rw [h.indexed.live e ((h.holds e).mpr ⟨he, hnewest⟩)]
    rfl
  · rw [h.pruned e he hnewest]
    rfl

/-- The messages under limit are no more than what came. -/
theorem Retained.length_le (h : Retained V s₀ es s) :
    s.byReceiver.iter.length ≤ es.dedup.length := by
  have hmap : s.byReceiver.iter.length = (s.byReceiver.iter.map Prod.snd).length := by simp
  rw [hmap]
  refine (List.subperm_of_subset ?_ ?_).length_le
  · refine (Tree.iter_nodup s.byReceiver).map_on ?_
    intro a ha b hb hab
    have ha := h.indexed.mem_iter.mp ha
    have hb := h.indexed.mem_iter.mp hb
    exact Prod.ext (by rw [ha.1, hb.1, hab]) hab
  · intro e he
    obtain ⟨r, hr, rfl⟩ := List.mem_map.mp he
    have hheld := (h.indexed.mem_iter.mp hr).2
    exact List.mem_dedup.mpr ((h.holds r.2).mp hheld).1

theorem isNamedMail_iff : isNamedMail env = true ↔
    env.wellFormed = true ∧ env.isAnonymous = false ∧ env.id ≠ [] := by
  unfold isNamedMail
  simp [and_assoc]

/-- The conversation of a named message is its sender's. -/
theorem conversationKey_of_named (h : isNamedMail env = true) :
    s.conversationKey env = trimLower env.senderWalletId := by
  obtain ⟨-, hnamed, -⟩ := isNamedMail_iff.mp h
  unfold TmailStore.conversationKey
  rw [hnamed]
  rfl

theorem keepOf_of_named (h : isNamedMail env = true) :
    keepOf V (trimLower env.senderWalletId) = V.retainConversation := by
  obtain ⟨hwf, hnamed, -⟩ := isNamedMail_iff.mp h
  unfold keepOf
  refine if_neg fun hprefix => ?_
  obtain ⟨x, hx⟩ := List.isPrefixOf_iff_prefix.mp hprefix
  have hanon := conversationKey_named (s := TmailStore.new) hwf
    ((conversationKey_of_named h).trans hx.symm)
  rw [hnamed] at hanon
  cases hanon

/-- The markers that pruning leaves, as one batch. -/
theorem pruneRows_byMsgId : ∀ (rows : List (IndexKey × TmailEnvelopeV1)) {s : TmailStore},
    (∀ r ∈ rows, r.2.id ≠ []) → (s.pruneRows V rows).byMsgId =
      s.byMsgId.applyBatch (rows.map fun r => (r.2.id, .pruned (expireAt V r.2))) := by
  intro rows
  induction rows with
  | nil => exact fun _ => rfl
  | cons r rows ih =>
    intro s hid
    have hfirst : (s.dropRow r.1 r.2.id (some (.pruned (expireAt V r.2)))).byMsgId =
        s.byMsgId.insert r.2.id (.pruned (expireAt V r.2)) :=
      if_neg (hid r List.mem_cons_self)
    rw [List.map_cons, Tree.applyBatch_cons, ← hfirst]
    exact ih fun r' hr' => hid r' (List.mem_cons_of_mem r hr')

/-! ## A new message -/

/-- A named message comes for the first time. -/
structure Arrives (V : Vars) (s₀ : TmailStore) (es : List TmailEnvelopeV1) (s : TmailStore)
    (env : TmailEnvelopeV1) : Prop where
  retained : Retained V s₀ es s
  named : ∀ e ∈ env :: es, isNamedMail e = true
  distinct : Distinct (env :: es)
  new : env ∉ es

/-- The conversation of the new message, with it. -/
def gathered (s : TmailStore) (env : TmailEnvelopeV1) : List (IndexKey × TmailEnvelopeV1) :=
  (s.addRows env).conversation env.receiver (trimLower env.senderWalletId)

theorem Arrives.fresh (h : Arrives V s₀ es s env) : s.byMsgId.get env.id = none := by
  refine h.retained.unseen env.id fun e he heq => h.new ?_
  rw [h.distinct env List.mem_cons_self e (List.mem_cons_of_mem env he) heq.symm]
  exact he

theorem Arrives.valid (h : Arrives V s₀ es s env) :
    isHex64 env.receiver = true ∧ env.id ≠ [] := by
  obtain ⟨hwf, -, hid⟩ := isNamedMail_iff.mp (h.named env List.mem_cons_self)
  unfold TmailEnvelopeV1.wellFormed at hwf
  rw [Bool.and_eq_true, Bool.and_eq_true] at hwf
  exact ⟨hwf.1.2, hid⟩

theorem Arrives.added (h : Arrives V s₀ es s env) :
    (s.addRows env).Indexed ∧
      ∀ e, (s.addRows env).Holds e ↔ (e ∈ es ∧ Newest V es e) ∨ e = env := by
  obtain ⟨hindexed, hholds⟩ := h.retained.indexed.addRows h.fresh h.valid
  refine ⟨hindexed, fun e => ?_⟩
  rw [hholds, h.retained.holds]

theorem Arrives.mem_gathered (h : Arrives V s₀ es s env) {r : IndexKey × TmailEnvelopeV1} :
    r ∈ gathered s env ↔ r.1 = r.2.key ∧
      ((r.2 ∈ es ∧ Newest V es r.2) ∨ r.2 = env) ∧ sameConversation r.2 env = true := by
  obtain ⟨hindexed, hholds⟩ := h.added
  unfold gathered
  rw [hindexed.mem_conversation, hholds, sameConversation_iff]
  refine and_congr_right fun _ => and_congr_right fun hcame => and_congr_right fun _ => ?_
  have hmem : r.2 ∈ env :: es := by
    rcases hcame with ⟨hin, -⟩ | heq
    · exact List.mem_cons_of_mem env hin
    · rw [heq]
      exact List.mem_cons_self
  rw [conversationKey_of_named (h.named r.2 hmem)]

/-- The rank in what is left of the conversation, below the limit, is the rank in all that came. -/
theorem Arrives.rank_lt_iff (h : Arrives V s₀ es s env) (he : e ∈ env :: es)
    (hsame : sameConversation e env = true) :
    rank (fun a b => newerFirst a b = true) (gathered s env) (e.key, e) < V.retainConversation ↔
      Newest V (env :: es) e := by
  have hgroup : ∀ x, sameConversation x env = sameConversation x e :=
    fun x => (sameConversation_congr hsame x).symm
  have hnodup : (gathered s env).Nodup := conversation_nodup _ _ _
  have hrow : (e.key, e) ∈ rowsFor (env :: es) e := by
    refine mem_rowsFor.mpr ⟨rfl, he, ?_⟩
    rw [← hgroup]
    exact hsame
  unfold Newest
  rw [← rank_rowsFor h.distinct he]
  refine rank_lt_iff_of_kept rowsFor_nodup
    (fun a ha b hb hab hba => rowsFor_antisymm h.distinct ha hb hab hba) hnodup ?_ ?_ hrow
  · intro r hr
    obtain ⟨hkey, hcame, hin⟩ := h.mem_gathered.mp hr
    refine mem_rowsFor.mpr ⟨hkey, ?_, (hgroup r.2).symm.trans hin⟩
    rcases hcame with ⟨hmem, -⟩ | heq
    · exact List.mem_cons_of_mem env hmem
    · rw [heq]
      exact List.mem_cons_self
  · intro r hr hlt
    obtain ⟨hkey, hmem, hin⟩ := mem_rowsFor.mp hr
    refine h.mem_gathered.mpr ⟨hkey, ?_, (hgroup r.2).trans hin⟩
    rcases List.mem_cons.mp hmem with heq | hmem
    · exact Or.inr heq
    · refine Or.inl ⟨hmem, Newest.mono h.new ?_⟩
      -- the rank of the row counts what is newer than it in its own conversation
      have hrows : rowsFor (env :: es) e = rowsFor (env :: es) r.2 := by
        unfold rowsFor
        rw [funext fun x => sameConversation_congr hin x]
      rw [hrows, show r = (r.2.key, r.2) from Prod.ext hkey rfl,
        rank_rowsFor h.distinct (List.mem_cons_of_mem env hmem)] at hlt
      exact hlt

/-- What the limit takes. -/
def dropped (V : Vars) (s : TmailStore) (env : TmailEnvelopeV1) :
    List (IndexKey × TmailEnvelopeV1) :=
  beyond (fun a b => newerFirst a b = true) V.retainConversation (gathered s env)

theorem Arrives.mem_of_dropped (h : Arrives V s₀ es s env) {r : IndexKey × TmailEnvelopeV1}
    (hr : r ∈ dropped V s env) : r.1 = r.2.key ∧ r.2 ∈ env :: es ∧
      sameConversation r.2 env = true := by
  obtain ⟨hkey, hcame, hsame⟩ := h.mem_gathered.mp (mem_of_mem_beyond hr)
  refine ⟨hkey, ?_, hsame⟩
  rcases hcame with ⟨hin, -⟩ | heq
  · exact List.mem_cons_of_mem env hin
  · rw [heq]
    exact List.mem_cons_self

theorem Arrives.pastGroup (h : Arrives V s₀ es s env) (e : TmailEnvelopeV1) :
    PastGroup V (s.addRows env) env e ↔ (e.key, e) ∈ dropped V s env := by
  have henv := h.named env List.mem_cons_self
  unfold PastGroup dropped gathered
  rw [conversationKey_of_named henv,
    show trimLower (trimLower env.senderWalletId) = _ from trimLower_trimLower _,
    keepOf_of_named henv]

/-- Of the conversation of the message, all but the newest. -/
theorem Arrives.dropped_iff (h : Arrives V s₀ es s env) (hheld : (s.addRows env).Holds e) :
    (e.key, e) ∈ dropped V s env ↔ ¬ Newest V (env :: es) e := by
  obtain ⟨hindexed, hholds⟩ := h.added
  have hmem : e ∈ env :: es := by
    rcases (hholds e).mp hheld with ⟨hin, -⟩ | heq
    · exact List.mem_cons_of_mem env hin
    · rw [heq]
      exact List.mem_cons_self
  by_cases hsame : sameConversation e env = true
  · have hin : (e.key, e) ∈ gathered s env :=
      h.mem_gathered.mpr ⟨rfl, (hholds e).mp hheld, hsame⟩
    have hrows : ∀ r ∈ gathered s env, r ∈ (s.addRows env).byReceiver.iter :=
      fun r hr => mem_iter_of_mem_rowsOf (List.mem_of_mem_filter hr)
    rw [← h.rank_lt_iff hmem hsame, Nat.not_lt]
    exact mem_beyond_newer (conversation_nodup _ _ _) hrows hin
  · -- another conversation is left alone
    have hstill : Newest V (env :: es) e := by
      have hother : sameConversation env e = false := by
        refine Bool.eq_false_iff.mpr fun hx => hsame ?_
        obtain ⟨hreceiver, hsender⟩ := sameConversation_iff.mp hx
        exact sameConversation_iff.mpr ⟨hreceiver.symm, hsender.symm⟩
      rcases (hholds e).mp hheld with ⟨-, hnewest⟩ | heq
      · unfold Newest
        rw [newerCount_cons h.new, hother]
        exact hnewest
      · rw [heq] at hsame
        exact absurd (sameConversation_iff.mpr ⟨rfl, rfl⟩) hsame
    constructor
    · intro hpast
      exact absurd (h.mem_of_dropped hpast).2.2 hsame
    · exact fun hold => absurd hstill hold

/-- The index by message id after the limit. -/
theorem Arrives.markers (h : Arrives V s₀ es s env) : (s.afterGroup V env).byMsgId =
    (s.byMsgId.insert env.id (.live env.receiver)).applyBatch
      ((dropped V s env).map fun r => (r.2.id, .pruned (expireAt V r.2))) := by
  have henv := h.named env List.mem_cons_self
  have hreceiver : trimLower env.receiver = env.receiver := trimLower_trimLower _
  have hids : ∀ r ∈ dropped V s env, r.2.id ≠ [] := fun r hr =>
    (isNamedMail_iff.mp (h.named r.2 (h.mem_of_dropped hr).2.1)).2.2
  have hprune : s.afterGroup V env = (s.addRows env).pruneRows V (dropped V s env) := by
    unfold afterGroup enforceRetention
    simp only [hreceiver, h.valid.1, Bool.not_true, Bool.false_eq_true, if_false]
    rw [conversationKey_of_named henv,
      show trimLower (trimLower env.senderWalletId) = _ from trimLower_trimLower _,
      keepOf_of_named henv]
    rfl
  rw [hprune, pruneRows_byMsgId _ hids]
  rfl

/-- The marker of what the limit took. -/
theorem Arrives.marked (h : Arrives V s₀ es s env) (hdrop : (e.key, e) ∈ dropped V s env) :
    (s.afterGroup V env).byMsgId.get e.id = some (.pruned (expireAt V e)) := by
  rw [h.markers]
  refine Tree.get_applyBatch_of_mem _ _ ?_ (Or.inr ?_)
  · intro u hu
    obtain ⟨r, hr, heq⟩ := List.mem_map.mp hu
    obtain ⟨hid, rfl⟩ := Prod.mk.inj heq
    rw [h.distinct r.2 (h.mem_of_dropped hr).2.1 e (h.mem_of_dropped hdrop).2.1 hid]
  · rw [List.map_map]
    exact List.mem_map.mpr ⟨(e.key, e), hdrop, rfl⟩

/-- Other ids keep their rows. -/
theorem Arrives.unmarked (h : Arrives V s₀ es s env) {k : Str} (hk : env.id ≠ k)
    (hdrop : ∀ r ∈ dropped V s env, r.2.id ≠ k) :
    (s.afterGroup V env).byMsgId.get k = s.byMsgId.get k := by
  rw [h.markers, Tree.get_applyBatch_of_notMem, Tree.get_insert_ne hk]
  rw [List.map_map]
  intro hmem
  obtain ⟨r, hr, heq⟩ := List.mem_map.mp hmem
  exact hdrop r hr heq

/-- **A new message**: what was retained is retained with it. -/
theorem Arrives.insertRow (h : Arrives V s₀ es s env) :
    Retained V s₀ (env :: es) (s.insertRow V env) := by
  obtain ⟨hindexed, hholds⟩ := h.added
  obtain ⟨-, hnamed, -⟩ := isNamedMail_iff.mp (h.named env List.mem_cons_self)
  have hinsert : s.insertRow V env = s.afterGroup V env :=
    if_neg (by rw [hnamed]; exact Bool.false_ne_true)
  obtain ⟨hsame, hafter, hleft⟩ := h.retained.indexed.afterGroup (V := V) h.fresh h.valid
  rw [hinsert]
  refine ⟨h.retained.beside.trans hsame, hafter, fun e => ?_, fun e he hold => ?_, fun k hk => ?_⟩
  · rw [hleft, h.retained.holds, ← hholds, h.pastGroup]
    constructor
    · rintro ⟨hheld, hkept⟩
      rw [h.dropped_iff hheld, not_not] at hkept
      refine ⟨?_, hkept⟩
      rcases (hholds e).mp hheld with ⟨hin, -⟩ | heq
      · exact List.mem_cons_of_mem env hin
      · rw [heq]
        exact List.mem_cons_self
    · rintro ⟨hmem, hnewest⟩
      have hheld : (s.addRows env).Holds e := by
        rw [hholds]
        rcases List.mem_cons.mp hmem with heq | hin
        · exact Or.inr heq
        · exact Or.inl ⟨hin, hnewest.mono h.new⟩
      exact ⟨hheld, fun hdrop => (h.dropped_iff hheld).mp hdrop hnewest⟩
  · by_cases hheld : (s.addRows env).Holds e
    · exact h.marked ((h.dropped_iff hheld).mpr hold)
    · -- it was dropped before
      have hne : e ≠ env := fun heq => hheld ((hholds e).mpr (Or.inr heq))
      have hin : e ∈ es := (List.mem_cons.mp he).resolve_left hne
      have hbefore : ¬ Newest V es e := fun hnewest =>
        hheld ((hholds e).mpr (Or.inl ⟨hin, hnewest⟩))
      rw [h.unmarked, h.retained.pruned e hin hbefore]
      · exact fun hid => hne (h.distinct e he env List.mem_cons_self hid.symm)
      · intro r hr hid
        have hr' := h.mem_of_dropped hr
        have heq : r.2 = e := h.distinct r.2 hr'.2.1 e he hid
        obtain ⟨-, hcame, -⟩ := h.mem_gathered.mp (mem_of_mem_beyond hr)
        rw [heq, ← hholds] at hcame
        exact hheld hcame
  · rw [h.unmarked (hk env List.mem_cons_self) fun r hr => hk r.2 (h.mem_of_dropped hr).2.1]
    exact h.retained.unseen k fun e he => hk e (List.mem_cons_of_mem env he)

/-! ## A delivery -/

/-- Storing a named message, but for Shelter's board. -/
theorem storeTmail_of_named (hnamed : env.isAnonymous = false) (hflag : env.flagAnonymous = false) :
    s.storeTmail V M env =
      if M.isShelterBoard env.receiver && !M.shelterMayPost (trimLower env.senderWalletId) then
        (.error (.shelter "only a member can post here".toList), s)
      else s.storeTmailInner V M env := by
  have hfast : ¬ env.isFastPost = true := by
    unfold TmailEnvelopeV1.isFastPost
    rw [hnamed]
    exact Bool.false_ne_true
  unfold storeTmail
  rw [if_neg hfast, hflag, Bool.not_false, Bool.true_and]

theorem flag_of_named (hwf : env.wellFormed = true) (hnamed : env.isAnonymous = false) :
    env.flagAnonymous = false := by
  unfold TmailEnvelopeV1.wellFormed at hwf
  rw [Bool.and_eq_true, Bool.and_eq_true, beq_iff_eq, hnamed] at hwf
  exact hwf.1.1

/-- An envelope that came before changes nothing. -/
theorem Retained.again (h : Retained V s₀ es s) (hnamed : isNamedMail env = true)
    (he : env ∈ es) (M : Moment) :
    (s.storeTmail V M env).1 ≠ .ok true ∧ (s.storeTmail V M env).2 = s := by
  obtain ⟨hwf, hanon, hid⟩ := isNamedMail_iff.mp hnamed
  have hhex : isHex64 env.receiver = true := by
    unfold TmailEnvelopeV1.wellFormed at hwf
    rw [Bool.and_eq_true, Bool.and_eq_true] at hwf
    exact hwf.1.2
  rw [storeTmail_of_named hanon (flag_of_named hwf hanon)]
  by_cases hshelter : (M.isShelterBoard env.receiver &&
      !M.shelterMayPost (trimLower env.senderWalletId)) = true
  · rw [if_pos hshelter]
    exact ⟨error_ne_ok, rfl⟩
  · rw [if_neg hshelter]
    unfold storeTmailInner
    rw [if_neg hid, if_neg (by simp [hhex]), if_pos (h.known he)]
    exact ⟨by simp, rfl⟩

/-- The first delivery of an envelope stores it. -/
theorem Arrives.storeTmail (h : Arrives V s₀ es s env) (htaken : s₀.takes M env = true)
    (hroom : (env :: es).dedup.length ≤ V.maxEntriesCap) :
    s.storeTmail V M env = (.ok true, s.insertRow V env) := by
  obtain ⟨hwf, hanon, hid⟩ := isNamedMail_iff.mp (h.named env List.mem_cons_self)
  have hpolls : s.pollRoots = s₀.pollRoots := by
    rw [show s = _ from h.retained.beside]
  unfold takes at htaken
  rw [Bool.and_eq_true] at htaken
  have hpoll : s.isPoll env.receiver = false := by
    unfold isPoll at htaken ⊢
    rw [hpolls]
    simpa using htaken.1
  have hlength : ¬ s.byReceiver.iter.length ≥ V.maxEntriesCap := by
    rw [List.dedup_cons_of_notMem h.new, List.length_cons] at hroom
    have hle := h.retained.length_le
    omega
  have hmake : s.makeRoom V M = s := if_neg hlength
  rw [storeTmail_of_named hanon (flag_of_named hwf hanon), if_neg]
  · unfold storeTmailInner
    rw [if_neg hid, if_neg (by simp [h.valid.1]), if_neg (by simp [h.fresh])]
    simp only [hmake]
    rw [if_neg hlength, hpoll]
    rfl
  · have hboard := htaken.2
    cases hshelter : M.isShelterBoard env.receiver with
    | false => exact Bool.false_ne_true
    | true =>
      rw [hshelter, Bool.not_true, Bool.false_or] at hboard
      rw [hboard]
      exact Bool.false_ne_true

/-- Named mail that its receiver does not take, or without an id, is not stored. -/
theorem TmailStore.Indexed.storeTmail_refused (h : s.Indexed) (hwf : env.wellFormed = true)
    (hnamed : env.isAnonymous = false) (hrefused : s.takes M env = false ∨ env.id = []) :
    (s.storeTmail V M env).1 ≠ .ok true := by
  rw [storeTmail_of_named hnamed (flag_of_named hwf hnamed)]
  by_cases hshelter : (M.isShelterBoard env.receiver &&
      !M.shelterMayPost (trimLower env.senderWalletId)) = true
  · rw [if_pos hshelter]
    exact error_ne_ok
  rw [if_neg hshelter]
  rcases storeTmailInner_cases V M s env with ⟨hne, -⟩ | ⟨-, ⟨-, hid⟩, -, hcase⟩
  · exact hne
  · have hpoll : s.isPoll env.receiver = true := by
      have hrefused := hrefused.resolve_right hid
      unfold takes at hrefused
      cases hboard : M.isShelterBoard env.receiver with
      | false => simpa [hboard] using hrefused
      | true =>
        rw [hboard, Bool.true_and] at hshelter
        simp only [hboard, Bool.not_true, Bool.false_or] at hrefused
        rw [Bool.not_eq_true, Bool.not_eq_false'] at hshelter
        simpa [hshelter] using hrefused
    have hroom : (s.makeRoom V M).isPoll env.receiver = s.isPoll env.receiver := by
      rw [show s.makeRoom V M = _ from h.makeRoom.1]
      rfl
    rcases hcase with ⟨hfree, -⟩ | ⟨-, n, t, hver, -⟩
    · rw [hroom, hpoll] at hfree
      cases hfree
    · -- a named message has no ballot's proof
      have hnone : env.anonymous = none := Option.not_isSome_iff_eq_none.mp (by
        unfold TmailEnvelopeV1.isAnonymous at hnamed
        rw [hnamed]
        exact Bool.false_ne_true)
      unfold verifyAnonymousProof at hver
      rw [hnone] at hver
      cases hver

/-! ## All deliveries -/

/-- The deliveries, one after the other. -/
def deliver (V : Vars) (s : TmailStore) (ds : List (Moment × TmailEnvelopeV1)) : TmailStore :=
  ds.foldl (fun s d => (s.storeTmail V d.1 d.2).2) s

/-- Deliveries of named mail, each when its receiver takes it, of no more messages than the store has
room for, with ids of their own, to a store without messages. -/
structure NamedMail (V : Vars) (s : TmailStore) (ds : List (Moment × TmailEnvelopeV1)) : Prop where
  empty : s.byReceiver = Tree.empty ∧ s.byMsgId = Tree.empty
  named : ∀ d ∈ ds, isNamedMail d.2 = true
  taken : ∀ d ∈ ds, s.takes d.1 d.2 = true
  distinct : Distinct (ds.map Prod.snd)
  capacity : (ds.map Prod.snd).dedup.length ≤ V.maxEntriesCap

variable {ds ds' : List (Moment × TmailEnvelopeV1)} {d : Moment × TmailEnvelopeV1}

/-- Fewer deliveries, in any order. -/
theorem NamedMail.subset (h : NamedMail V s ds) (hsub : ∀ d ∈ ds', d ∈ ds) :
    NamedMail V s ds' := by
  have hmap : ∀ e ∈ ds'.map Prod.snd, e ∈ ds.map Prod.snd := by
    intro e he
    obtain ⟨d, hd, rfl⟩ := List.mem_map.mp he
    exact List.mem_map.mpr ⟨d, hsub d hd, rfl⟩
  refine ⟨h.empty, fun d hd => h.named d (hsub d hd), fun d hd => h.taken d (hsub d hd),
    fun a ha b hb => h.distinct a (hmap a ha) b (hmap b hb), le_trans ?_ h.capacity⟩
  refine (List.subperm_of_subset (List.nodup_dedup _) fun e he => ?_).length_le
  exact List.mem_dedup.mpr (hmap e (List.mem_dedup.mp he))

/-- Nothing came. -/
theorem Retained.nil (h : s.byReceiver = Tree.empty ∧ s.byMsgId = Tree.empty) :
    Retained V s [] s := by
  have hnone : ∀ e, ¬ s.Holds e := by
    intro e hheld
    unfold Holds at hheld
    rw [h.1, Tree.get_empty] at hheld
    cases hheld
  refine ⟨SameBeside.refl s, ⟨?_, ?_, ?_, ?_⟩, fun e => ?_, fun e he => ?_, fun k _ => ?_⟩
  · intro k e hget
    rw [h.1, Tree.get_empty] at hget
    cases hget
  · exact fun e hheld => absurd hheld (hnone e)
  · exact fun a _ ha => absurd ha (hnone a)
  · exact fun e hheld => absurd hheld (hnone e)
  · simp [hnone e]
  · cases he
  · rw [h.2, Tree.get_empty]

/-- **All deliveries**: what is retained is of what came. -/
theorem NamedMail.retained (h : NamedMail V s ds) :
    Retained V s (ds.map Prod.snd) (deliver V s ds) := by
  induction ds using List.reverseRecOn with
  | nil => exact Retained.nil h.empty
  | append_singleton ds d ih =>
    have hret := ih (h.subset fun x hx => List.mem_append_left _ hx)
    have hlast : d ∈ ds ++ [d] := List.mem_append_right ds List.mem_cons_self
    have hmem : ∀ e, e ∈ d.2 :: ds.map Prod.snd ↔ e ∈ (ds ++ [d]).map Prod.snd := by
      intro e
      simp [or_comm]
    have hrun : deliver V s (ds ++ [d]) = ((deliver V s ds).storeTmail V d.1 d.2).2 :=
      List.foldl_append
    rw [hrun]
    by_cases hnew : d.2 ∈ ds.map Prod.snd
    · rw [(hret.again (h.named d hlast) hnew d.1).2]
      refine hret.congr fun e => ?_
      rw [← hmem, List.mem_cons]
      exact ⟨Or.inr, fun hor => hor.elim (fun heq => heq ▸ hnew) id⟩
    · have harrives : Arrives V s (ds.map Prod.snd) (deliver V s ds) d.2 := by
        refine ⟨hret, fun e he => ?_, fun a ha b hb => ?_, hnew⟩
        · obtain ⟨x, hx, rfl⟩ := List.mem_map.mp ((hmem e).mp he)
          exact h.named x hx
        · exact h.distinct a ((hmem a).mp ha) b ((hmem b).mp hb)
      have hroom : (d.2 :: ds.map Prod.snd).dedup.length ≤ V.maxEntriesCap := by
        refine le_trans ?_ h.capacity
        refine (List.subperm_of_subset (List.nodup_dedup _) fun e he => ?_).length_le
        exact List.mem_dedup.mpr ((hmem e).mp (List.mem_dedup.mp he))
      rw [harrives.storeTmail (h.taken d hlast) hroom]
      exact harrives.insertRow.congr hmem

/-- What is retained determines the store. -/
theorem Retained.eq (h : Retained V s₀ es s) (h' : Retained V s₀ es s') : s = s' := by
  have hholds : ∀ e, s.Holds e ↔ s'.Holds e := fun e => by rw [h.holds, h'.holds]
  have hreceiver : s.byReceiver = s'.byReceiver := by
    refine Tree.ext fun k => Option.ext fun e => ?_
    constructor
    · intro hget
      have hkey := h.indexed.keyed k e hget
      rw [hkey] at hget ⊢
      exact (hholds e).mp hget
    · intro hget
      have hkey := h'.indexed.keyed k e hget
      rw [hkey] at hget ⊢
      exact (hholds e).mpr hget
  have hids : s.byMsgId = s'.byMsgId := by
    refine Tree.ext fun k => ?_
    by_cases hknown : ∃ e ∈ es, e.id = k
    · obtain ⟨e, he, rfl⟩ := hknown
      by_cases hnewest : Newest V es e
      · have hheld := (h.holds e).mpr ⟨he, hnewest⟩
        rw [h.indexed.live e hheld, h'.indexed.live e ((hholds e).mp hheld)]
      · rw [h.pruned e he hnewest, h'.pruned e he hnewest]
    · have hnone : ∀ e ∈ es, e.id ≠ k := fun e he heq => hknown ⟨e, he, heq⟩
      rw [h.unseen k hnone, h'.unseen k hnone]
  rw [show s = _ from h.beside, show s' = _ from h'.beside, hreceiver, hids]

end TetCore.Tmail

namespace TetCore.Sample

open TetCore.Lib TetCore.Tmail

/-- A letter of one wallet to another. -/
def letter (msgId : Str) (sentAtMs : Nat) : TmailEnvelopeV1 :=
  ⟨msgId, false, List.replicate 64 'a', List.replicate 64 'b', sentAtMs, 0, [1], none⟩

/-- A store that keeps one message of a conversation. -/
def keepsOne : Vars := { retainPerConversation := some 1 }

/-- The newer letter comes before the older one, and again after it. -/
def letters : List (Moment × TmailEnvelopeV1) :=
  [(moment 3000 [], letter "n".toList 2000), (moment 3000 [], letter "o".toList 1000),
    (moment 4000 [], letter "n".toList 2000)]

/-- The letter goes to a poll. -/
def polled : TmailStore :=
  { TmailStore.new with pollRoots := Tree.empty.insert (List.replicate 64 'b') () }

end TetCore.Sample

namespace TetCore.Tmail

open TetCore.Lib TmailStore

/-- **Named mail in any order**: stored are exactly the newest messages of each conversation among all
that came, the others are marked and change nothing when they come again, and deliveries of the same
envelopes in another order, another number of times, leave the same store. -/
theorem named_retention {V : Vars} {s : TmailStore} {ds : List (Moment × TmailEnvelopeV1)}
    (h : NamedMail V s ds) :
    (∀ e, (deliver V s ds).Holds e ↔
      e ∈ ds.map Prod.snd ∧ Newest V (ds.map Prod.snd) e) ∧
    (∀ e ∈ ds.map Prod.snd, ¬ Newest V (ds.map Prod.snd) e →
      (deliver V s ds).byMsgId.get e.id = some (.pruned (expireAt V e)) ∧
      ∀ M, ((deliver V s ds).storeTmail V M e).1 ≠ .ok true ∧
        ((deliver V s ds).storeTmail V M e).2 = deliver V s ds) ∧
    ∀ ds', NamedMail V s ds' → (∀ e, e ∈ ds.map Prod.snd ↔ e ∈ ds'.map Prod.snd) →
      deliver V s ds' = deliver V s ds := by
  have hret := h.retained
  refine ⟨hret.holds, fun e he hold => ⟨hret.pruned e he hold, fun M => ?_⟩, ?_⟩
  · obtain ⟨d, hd, rfl⟩ := List.mem_map.mp he
    exact hret.again (h.named d hd) he M
  · intro ds' h' hsame
    exact (h'.retained.congr fun e => (hsame e).symm).eq hret

/-- Of two letters the newer one is kept, whichever comes first. -/
theorem named_retention_two :
    (deliver Sample.keepsOne TmailStore.new Sample.letters).byMsgId.get "o".toList =
      some (.pruned (expireAt Sample.keepsOne (Sample.letter "o".toList 1000))) ∧
    deliver Sample.keepsOne TmailStore.new Sample.letters.reverse =
      deliver Sample.keepsOne TmailStore.new Sample.letters := by
  have hall : (∀ d ∈ Sample.letters, isNamedMail d.2 = true ∧
      TmailStore.new.takes d.1 d.2 = true) ∧
      (∀ a ∈ Sample.letters.map Prod.snd, ∀ b ∈ Sample.letters.map Prod.snd, a.id = b.id → a = b) ∧
      (Sample.letters.map Prod.snd).dedup.length ≤ Vars.maxEntriesCap Sample.keepsOne ∧
      ¬ newerCount (Sample.letters.map Prod.snd) (Sample.letter "o".toList 1000) <
        Vars.retainConversation Sample.keepsOne := by
    decide +kernel
  obtain ⟨hmail, hdistinct, hroom, hold⟩ := hall
  have h : NamedMail Sample.keepsOne TmailStore.new Sample.letters :=
    ⟨⟨rfl, rfl⟩, fun d hd => (hmail d hd).1, fun d hd => (hmail d hd).2, hdistinct, hroom⟩
  have hmap : ∀ e, e ∈ Sample.letters.map Prod.snd ↔ e ∈ Sample.letters.reverse.map Prod.snd := by
    intro e
    rw [List.map_reverse, List.mem_reverse]
  obtain ⟨-, hpruned, hsame⟩ := named_retention h
  exact ⟨(hpruned _ (List.mem_cons_of_mem _ List.mem_cons_self) hold).1,
    hsame _ (h.subset fun d hd => List.mem_reverse.mp hd) hmap⟩

/-- A named message to a poll is not stored, with nothing newer. -/
theorem named_retention_polled :
    ¬ ∀ V s ds, s.byReceiver = Tree.empty ∧ s.byMsgId = Tree.empty →
      (∀ d ∈ ds, d.2.wellFormed = true ∧ d.2.isAnonymous = false) →
      Distinct (ds.map Prod.snd) → (ds.map Prod.snd).dedup.length ≤ V.maxEntriesCap →
      ∀ e, (deliver V s ds).Holds e ↔ e ∈ ds.map Prod.snd ∧ Newest V (ds.map Prod.snd) e := by
  intro h
  let e := Sample.letter "n".toList 2000
  have hall : (∀ d ∈ [(Sample.moment 3000 [], e)], d.2.wellFormed = true ∧
      d.2.isAnonymous = false) ∧
      (∀ a ∈ [e], ∀ b ∈ [e], a.id = b.id → a = b) ∧
      [e].dedup.length ≤ Vars.maxEntriesCap {} ∧
      newerCount [e] e < Vars.retainConversation {} ∧
      ¬ (deliver {} Sample.polled [(Sample.moment 3000 [], e)]).Holds e := by
    decide +kernel
  obtain ⟨hmail, hdistinct, hroom, hnewest, hgone⟩ := hall
  exact hgone ((h {} Sample.polled [(Sample.moment 3000 [], e)] ⟨rfl, rfl⟩ hmail hdistinct hroom
    e).mpr ⟨List.mem_cons_self, hnewest⟩)

end TetCore.Tmail
