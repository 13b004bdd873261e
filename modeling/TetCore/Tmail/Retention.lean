import TetCore.Tmail.Inbox
import TetCore.Tmail.Runs

/-!
# What becomes of an accepted post

`send_anonymous` and `send_fast_anonymous` store a post before they record its verdict, and the limits
run with the store. So the cap of the receiver ranks the new post as unverified, behind every verified
one however old, and on a full board the post that was accepted is the one that goes.

`accepted_post_kept` says exactly when an accepted post is kept and what else goes: the post must get
past both limits as they rank it before its verdict (`Within`), must not have expired, and no row of a
held fast post that is past its time may name it.
-/

namespace TetCore.Tmail

open TetCore.Lib TmailStore

/-- The call stored the post and left the store `s'`. -/
def Accepted (V : Vars) (M : Moment) (s s' : TmailStore) (env : TmailEnvelopeV1) : Prop :=
  s.sendAnonymous V M env = (.ok true, s') ∨ s.sendFastAnonymous V M env = (.ok true, s')

/-- How many verified anonymous posts of the receiver are newer. -/
def verifiedNewer (s : TmailStore) (env : TmailEnvelopeV1) : Nat :=
  (s.anonymousRows env.receiver).countP fun r =>
    s.isVerified r.2.id && newerFirst r (env.key, env)

/-- How many messages of the post's group, by its nullifier after the call, are newer. -/
def groupNewer (s s' : TmailStore) (env : TmailEnvelopeV1) : Nat :=
  (s.rowsOf env.receiver).countP fun r =>
    decide (s'.conversationKey r.2 = s'.conversationKey env) && newerFirst r (env.key, env)

/-- The post is among the newest of both limits. -/
def Fits (V : Vars) (s s' : TmailStore) (env : TmailEnvelopeV1) : Prop :=
  verifiedNewer s env < V.retainReceiver ∧ groupNewer s s' env < V.retainDailyId

/-- The post is stored, verified, and in the inbox of its receiver. -/
def Kept (V : Vars) (M : Moment) (s' : TmailStore) (env : TmailEnvelopeV1) : Prop :=
  s'.Holds env ∧ s'.isVerified env.id = true ∧
    ∃ n, ∀ limit, n ≤ limit → env ∈ s'.getInbox V M env.receiverWalletId limit

/-- With the post, there are as many newer messages in the group of `m` as the group keeps, or as many
newer verified posts to its receiver as the receiver keeps. -/
def Oldest (V : Vars) (s : TmailStore) (env m : TmailEnvelopeV1) : Prop :=
  V.retainDailyId ≤ rank (fun a b => newerFirst a b = true)
      ((s.addRows env).conversation m.receiver (s.conversationKey m)) (m.key, m) ∨
    V.retainReceiver ≤ rank (fun a b => newerFirst a b = true)
      (((s.addRows env).anonymousRows m.receiver).filter fun r => s.isVerified r.2.id) (m.key, m)

/-- A message that may go when the post comes: it has expired, or it is an anonymous post, unverified
or old. -/
def Expendable (V : Vars) (M : Moment) (s : TmailStore) (env m : TmailEnvelopeV1) : Prop :=
  isExpired V m M.now = true ∨
    m.isAnonymous = true ∧ (s.isVerified m.id = false ∨ Oldest V s env m)

/-- The messages the call removed may go. -/
def Removes (V : Vars) (M : Moment) (s s' : TmailStore) (env : TmailEnvelopeV1) : Prop :=
  ∀ m, s.Holds m → ¬ s'.Holds m → Expendable V M s env m

/-! ## The condition -/

/-- What is stored once room is made, and the post. -/
def arrival (V : Vars) (M : Moment) (s : TmailStore) (env : TmailEnvelopeV1) : TmailStore :=
  (s.makeRoom V M).addRows env

/-- The messages the post is filed with, by the verdict that is on record under its id before its
own. -/
def filed (V : Vars) (M : Moment) (s : TmailStore) (env : TmailEnvelopeV1) :
    List (IndexKey × TmailEnvelopeV1) :=
  (arrival V M s env).conversation env.receiver (trimLower (s.conversationKey env))

/-- The anonymous posts to the receiver that the limit of that group leaves. -/
def rivals (V : Vars) (M : Moment) (s : TmailStore) (env : TmailEnvelopeV1) :
    List (IndexKey × TmailEnvelopeV1) :=
  ((arrival V M s env).anonymousRows env.receiver).filter fun r =>
    r ∉ beyond (fun a b => newerFirst a b = true) V.retainDailyId (filed V M s env)

/-- Few enough messages come before the post, ranked by the verdicts there are before its own. -/
def Within (V : Vars) (M : Moment) (s : TmailStore) (env : TmailEnvelopeV1) : Prop :=
  ((env.key, env) ∈ filed V M s env →
      rank (fun a b => newerFirst a b = true) (filed V M s env) (env.key, env) < V.retainDailyId) ∧
    rank (fun a b => s.verifiedFirst a b = true) (rivals V M s env) (env.key, env) < V.retainReceiver

/-- The post outlasts the call. -/
def Stays (V : Vars) (M : Moment) (s : TmailStore) (env : TmailEnvelopeV1) : Prop :=
  Within V M s env ∧ isExpired V env M.now = false ∧
    (env.proof.isSome = true → ¬ HeldLate V M s env.fastName env)

/-- The rows of held posts past their time, which a registration lets go with what is stored under
their ids, name only messages that may go. -/
def Spares (V : Vars) (M : Moment) (s : TmailStore) (env : TmailEnvelopeV1) : Prop :=
  env.proof.isSome = true → Within V M s env → ∀ m, s.Holds m → HeldLate V M s env.fastName m →
    Expendable V M s env m

section Limits

variable {V : Vars} {M : Moment} {s s' : TmailStore} {env m : TmailEnvelopeV1}

/-! ## What the limits leave -/

theorem TmailStore.SameBeside.conversationKey (h : SameBeside s s') (env : TmailEnvelopeV1) :
    s'.conversationKey env = s.conversationKey env := by
  rw [show s' = _ from h]
  rfl

theorem TmailStore.SameBeside.verifiedFirst (h : SameBeside s s') :
    s'.verifiedFirst = s.verifiedFirst := by
  rw [show s' = _ from h]
  rfl

theorem TmailStore.SameBeside.heldLate (h : SameBeside s s') {name : FastName} :
    HeldLate V M s' name m ↔ HeldLate V M s name m := by
  rw [show s' = _ from h]
  rfl

theorem conversationKey_anonymous (h : env.isAnonymous = true) :
    ∃ x, s.conversationKey env = "anonymous:".toList ++ x := by
  unfold TmailStore.conversationKey
  rw [if_pos h]
  simp only
  cases (if env.proof.isSome = true then s.verifiedNullifier env.id
      else (s.fastRegistration env).map FastKey.nullifierHex) with
  | some n => exact ⟨n, rfl⟩
  | none => exact ⟨"unverified:".toList ++ env.id, rfl⟩

theorem trimLower_anonymous (x : Str) :
    ∃ y, trimLower ("anonymous:".toList ++ x) = "anonymous:".toList ++ y :=
  trimLower_append (by simp) (by simp [isWhitespace, asciiLower]) x

theorem keepOf_append (x : Str) : keepOf V ("anonymous:".toList ++ x) = V.retainDailyId :=
  if_pos (List.isPrefixOf_iff_prefix.mpr (List.prefix_append _ _))

theorem keepOf_anonymous (h : env.isAnonymous = true) :
    keepOf V (s.conversationKey env) = V.retainDailyId ∧
      keepOf V (trimLower (s.conversationKey env)) = V.retainDailyId := by
  obtain ⟨x, hx⟩ := conversationKey_anonymous (s := s) h
  obtain ⟨y, hy⟩ := trimLower_anonymous x
  rw [hx, hy]
  exact ⟨keepOf_append x, keepOf_append y⟩

theorem anonymousRows_nodup (s : TmailStore) (receiver : Str) : (s.anonymousRows receiver).Nodup :=
  (rowsOf_nodup s receiver).filter _

theorem conversation_nodup (s : TmailStore) (receiver counterparty : Str) :
    (s.conversation receiver counterparty).Nodup := (rowsOf_nodup s receiver).filter _

theorem TmailStore.Indexed.mem_anonymousRows (h : s.Indexed) {receiver : Str}
    {r : IndexKey × TmailEnvelopeV1} : r ∈ s.anonymousRows receiver ↔
      r.1 = r.2.key ∧ s.Holds r.2 ∧ r.2.receiver = receiver ∧ r.2.isAnonymous = true := by
  unfold anonymousRows
  rw [List.mem_filter, h.mem_rowsOf, and_assoc, and_assoc]

theorem TmailStore.Indexed.mem_conversation (h : s.Indexed) {receiver counterparty : Str}
    {r : IndexKey × TmailEnvelopeV1} : r ∈ s.conversation receiver counterparty ↔
      r.1 = r.2.key ∧ s.Holds r.2 ∧ r.2.receiver = receiver ∧
        s.conversationKey r.2 = counterparty := by
  unfold conversation
  rw [List.mem_filter, h.mem_rowsOf, and_assoc, and_assoc, decide_eq_true_eq]

/-- Past a limit on the messages of a receiver. -/
theorem mem_beyond_newer {k : Nat} {rows : List (IndexKey × TmailEnvelopeV1)}
    {x : IndexKey × TmailEnvelopeV1} (hnodup : rows.Nodup)
    (hrows : ∀ r ∈ rows, r ∈ s.byReceiver.iter) (hx : x ∈ rows) :
    x ∈ beyond (fun a b => newerFirst a b = true) k rows ↔
      k ≤ rank (fun a b => newerFirst a b = true) rows x :=
  mem_beyond_iff hnodup
    (fun a ha b hb hab hba => newerFirst_antisymm (hrows a ha) (hrows b hb) hab hba) hx

theorem mem_beyond_verified {k : Nat} {rows : List (IndexKey × TmailEnvelopeV1)}
    {x : IndexKey × TmailEnvelopeV1} (hnodup : rows.Nodup)
    (hrows : ∀ r ∈ rows, r ∈ s.byReceiver.iter) (hx : x ∈ rows) :
    x ∈ beyond (fun a b => s.verifiedFirst a b = true) k rows ↔
      k ≤ rank (fun a b => s.verifiedFirst a b = true) rows x :=
  mem_beyond_iff hnodup
    (fun a ha b hb hab hba => verifiedFirst_antisymm (hrows a ha) (hrows b hb) hab hba) hx

/-- A post that can be stored: to a receiver outside polls, under an id without a row. -/
structure Storable (s : TmailStore) (env : TmailEnvelopeV1) : Prop extends s.Healthy where
  fresh : s.byMsgId.get env.id = none
  valid : isHex64 env.receiver = true ∧ env.id ≠ []
  anonymous : env.isAnonymous = true
  poll : s.isPoll env.receiver = false

/-- The post stored, before its verdict. -/
def stored (V : Vars) (M : Moment) (s : TmailStore) (env : TmailEnvelopeV1) : TmailStore :=
  (s.makeRoom V M).insertRow V env

/-- The store between the two limits. -/
def filedStore (V : Vars) (M : Moment) (s : TmailStore) (env : TmailEnvelopeV1) : TmailStore :=
  (s.makeRoom V M).afterGroup V env

theorem Storable.arrival_holds (h : Storable s env) :
    SameBeside s (arrival V M s env) ∧ (arrival V M s env).Indexed ∧
      ∀ e, (arrival V M s env).Holds e ↔ (s.makeRoom V M).Holds e ∨ e = env := by
  obtain ⟨hsame, hroom⟩ := h.indexed.makeRoom (V := V) (M := M)
  have hadd := hroom.indexed.addRows (makeRoom_byMsgId (V := V) (M := M) h.fresh) h.valid
  exact ⟨hsame.trans rfl, hadd⟩

theorem Storable.filed_iff (h : Storable s env) {r : IndexKey × TmailEnvelopeV1} :
    r ∈ filed V M s env ↔ r.1 = r.2.key ∧ (arrival V M s env).Holds r.2 ∧
      r.2.receiver = env.receiver ∧ s.conversationKey r.2 = trimLower (s.conversationKey env) := by
  obtain ⟨hsame, hindexed, -⟩ := h.arrival_holds (V := V) (M := M)
  unfold filed
  rw [hindexed.mem_conversation, hsame.conversationKey]

/-- What the limit of the group takes. -/
theorem Storable.pastGroup_iff (h : Storable s env) :
    PastGroup V (arrival V M s env) env m ↔
      (m.key, m) ∈ beyond (fun a b => newerFirst a b = true) V.retainDailyId (filed V M s env) := by
  obtain ⟨hsame, -, -⟩ := h.arrival_holds (V := V) (M := M)
  unfold PastGroup
  rw [hsame.conversationKey, (keepOf_anonymous h.anonymous).2]
  rfl

theorem Storable.filedStore_holds (h : Storable s env) :
    SameBeside s (filedStore V M s env) ∧ (filedStore V M s env).Indexed ∧
      ∀ e, (filedStore V M s env).Holds e ↔ (arrival V M s env).Holds e ∧
        (e.key, e) ∉ beyond (fun a b => newerFirst a b = true) V.retainDailyId
          (filed V M s env) := by
  obtain ⟨hsame, hroom⟩ := h.indexed.makeRoom (V := V) (M := M)
  obtain ⟨hbeside, hindexed, hholds⟩ := hroom.indexed.afterGroup (V := V)
    (makeRoom_byMsgId (V := V) (M := M) h.fresh) h.valid
  refine ⟨hsame.trans hbeside, hindexed, fun e => ?_⟩
  rw [(h.arrival_holds (V := V) (M := M)).2.2]
  exact (hholds e).trans (and_congr_right fun _ => not_congr h.pastGroup_iff)

theorem Storable.mem_rivals (h : Storable s env) {r : IndexKey × TmailEnvelopeV1} :
    r ∈ rivals V M s env ↔ r ∈ (filedStore V M s env).anonymousRows env.receiver := by
  obtain ⟨-, hindexed, -⟩ := h.arrival_holds (V := V) (M := M)
  obtain ⟨-, hindexed', hholds⟩ := h.filedStore_holds (V := V) (M := M)
  unfold rivals
  rw [List.mem_filter, hindexed.mem_anonymousRows, hindexed'.mem_anonymousRows, hholds,
    decide_eq_true_eq]
  constructor
  · rintro ⟨⟨hkey, hheld, hrest⟩, hkept⟩
    exact ⟨hkey, ⟨hheld, hkey ▸ hkept⟩, hrest⟩
  · rintro ⟨hkey, ⟨hheld, hkept⟩, hrest⟩
    exact ⟨⟨hkey, hheld, hrest⟩, by rwa [← hkey] at hkept⟩

theorem Storable.anonKeepFor (h : Storable s env) (hpolls : s'.pollRoots = s.pollRoots) :
    s'.anonKeepFor V env.receiver = V.retainReceiver := by
  have hpoll := h.poll
  unfold TmailStore.isPoll at hpoll
  unfold TmailStore.anonKeepFor TmailStore.isPoll
  rw [hpolls, hpoll]
  exact if_neg Bool.false_ne_true

theorem rivals_nodup : (rivals V M s env).Nodup := (anonymousRows_nodup _ _).filter _

/-- What the cap of the receiver takes. -/
theorem Storable.pastCap_iff (h : Storable s env) (hheld : (filedStore V M s env).Holds m)
    (hreceiver : m.receiver = env.receiver) (hanon : m.isAnonymous = true) :
    PastCap V (filedStore V M s env) env.receiver m ↔
      V.retainReceiver ≤ rank (fun a b => s.verifiedFirst a b = true) (rivals V M s env)
        (m.key, m) := by
  obtain ⟨hsame, hindexed, -⟩ := h.filedStore_holds (V := V) (M := M)
  have hkeep := h.anonKeepFor (V := V) hsame.shrinks.polls
  have hrows : ∀ r ∈ (filedStore V M s env).anonymousRows env.receiver,
      r ∈ (filedStore V M s env).byReceiver.iter :=
    fun r hr => mem_iter_of_mem_rowsOf (List.mem_of_mem_filter hr)
  have hrank : rank (fun a b => s.verifiedFirst a b = true) (rivals V M s env) (m.key, m) =
      rank (fun a b => (filedStore V M s env).verifiedFirst a b = true)
        ((filedStore V M s env).anonymousRows env.receiver) (m.key, m) := by
    refine Nat.le_antisymm (rank_le rivals_nodup ?_)
      (rank_le (anonymousRows_nodup _ _) ?_)
    · intro r hr hbefore _
      rw [hsame.verifiedFirst]
      exact ⟨h.mem_rivals.mp hr, hbefore⟩
    · intro r hr hbefore _
      rw [hsame.verifiedFirst] at hbefore
      exact ⟨h.mem_rivals.mpr hr, hbefore⟩
  have hmem : (m.key, m) ∈ (filedStore V M s env).anonymousRows env.receiver :=
    hindexed.mem_anonymousRows.mpr ⟨rfl, hheld, hreceiver, hanon⟩
  have hpast := mem_beyond_verified (k := V.retainReceiver) (anonymousRows_nodup _ _) hrows hmem
  unfold PastCap
  rw [hkeep, hrank]
  exact hpast

theorem Storable.stored_holds (h : Storable s env) :
    SameBeside s (stored V M s env) ∧ (stored V M s env).Indexed ∧
      ∀ e, (stored V M s env).Holds e ↔ (filedStore V M s env).Holds e ∧
        ¬ PastCap V (filedStore V M s env) env.receiver e := by
  obtain ⟨hsame, hroom⟩ := h.indexed.makeRoom (V := V) (M := M)
  obtain ⟨hbeside, hindexed, hholds⟩ := hroom.indexed.insertRow (V := V)
    (makeRoom_byMsgId (V := V) (M := M) h.fresh) h.valid
  refine ⟨hsame.trans hbeside, hindexed, fun e => ?_⟩
  exact (hholds e).trans (and_congr_right fun _ => not_congr (and_iff_right h.anonymous))

/-- **The post outlasts its store** iff it is within both limits as ranked before its verdict. -/
theorem Storable.stored_iff (h : Storable s env) :
    (stored V M s env).Holds env ↔ Within V M s env := by
  obtain ⟨-, hindexed, harrival⟩ := h.arrival_holds (V := V) (M := M)
  obtain ⟨-, -, hfiled⟩ := h.filedStore_holds (V := V) (M := M)
  have hhere : (arrival V M s env).Holds env := (harrival env).mpr (Or.inr rfl)
  have hrows : ∀ r ∈ filed V M s env, r ∈ (arrival V M s env).byReceiver.iter :=
    fun r hr => mem_iter_of_mem_rowsOf (List.mem_of_mem_filter hr)
  -- the first limit
  have hgroup : (filedStore V M s env).Holds env ↔ ((env.key, env) ∈ filed V M s env →
      rank (fun a b => newerFirst a b = true) (filed V M s env) (env.key, env) <
        V.retainDailyId) := by
    rw [hfiled, and_iff_right hhere]
    by_cases hmem : (env.key, env) ∈ filed V M s env
    · have hpast := mem_beyond_newer (k := V.retainDailyId) (conversation_nodup _ _ _) hrows hmem
      refine ⟨fun hkept _ => Nat.not_le.mp fun hle => hkept (hpast.mpr hle), fun hlt hin => ?_⟩
      exact absurd (hpast.mp hin) (Nat.not_le.mpr (hlt hmem))
    · exact ⟨fun _ hin => absurd hin hmem, fun _ hpast => hmem (mem_of_mem_beyond hpast)⟩
  rw [h.stored_holds.2.2, hgroup]
  refine and_congr_right fun hlt => ?_
  rw [h.pastCap_iff (hgroup.mpr hlt) rfl h.anonymous, Nat.not_le]

/-- The rows the store had, and the post. -/
theorem Storable.addRows_holds (h : Storable s env) :
    (s.addRows env).Indexed ∧ ∀ e, (s.addRows env).Holds e ↔ s.Holds e ∨ e = env :=
  h.indexed.addRows h.fresh h.valid

theorem Storable.holds_of_arrival (h : Storable s env) (hm : (arrival V M s env).Holds m) :
    (s.addRows env).Holds m := by
  rw [h.addRows_holds.2]
  refine ((h.arrival_holds.2.2 m).mp hm).imp_left fun hheld => ?_
  exact ((h.indexed.makeRoom.2.holds m).mp hheld).1

/-- A named message is of no group of anonymous posts. -/
theorem conversationKey_named (hwf : m.wellFormed = true) {x : Str}
    (hkey : s.conversationKey m = "anonymous:".toList ++ x) : m.isAnonymous = true := by
  by_contra hnamed
  unfold TmailStore.conversationKey at hkey
  rw [if_neg hnamed] at hkey
  have hhex : isHex64 (trimLower m.senderWalletId) = true := by
    unfold TmailEnvelopeV1.wellFormed at hwf
    rw [if_neg hnamed] at hwf
    exact (Bool.and_eq_true_iff.mp hwf).2
  rw [hkey] at hhex
  have hall := (Bool.and_eq_true_iff.mp hhex).2
  rw [List.all_append] at hall
  cases (Bool.and_eq_true_iff.mp hall).1

theorem Storable.anonymous_of_filed (h : Storable s env) (hmem : (m.key, m) ∈ filed V M s env) :
    m.isAnonymous = true := by
  obtain ⟨-, hheld, -, hkey⟩ := h.filed_iff.mp hmem
  rcases (h.addRows_holds.2 m).mp (h.holds_of_arrival hheld) with hold | rfl
  · obtain ⟨x, hx⟩ := conversationKey_anonymous (s := s) h.anonymous
    obtain ⟨y, hy⟩ := trimLower_anonymous x
    rw [hx, hy] at hkey
    exact conversationKey_named (h.wellFormed m hold) hkey
  · exact h.anonymous

/-- What the limit of the group takes is old in its group. -/
theorem Storable.oldest_of_pastGroup (h : Storable s env)
    (hpast : (m.key, m) ∈ beyond (fun a b => newerFirst a b = true) V.retainDailyId
      (filed V M s env)) : m.isAnonymous = true ∧ Oldest V s env m := by
  have hmem := mem_of_mem_beyond hpast
  have hrows : ∀ r ∈ filed V M s env, r ∈ (arrival V M s env).byReceiver.iter :=
    fun r hr => mem_iter_of_mem_rowsOf (List.mem_of_mem_filter hr)
  have hrank := (mem_beyond_newer (conversation_nodup _ _ _) hrows hmem).mp hpast
  obtain ⟨-, -, hreceiver, hkey⟩ := h.filed_iff.mp hmem
  refine ⟨h.anonymous_of_filed hmem,
    Or.inl (hrank.trans (rank_le (conversation_nodup _ _ _) fun r hr hnewer _ => ?_))⟩
  obtain ⟨hrow, hheld, hrreceiver, hrkey⟩ := h.filed_iff.mp hr
  refine ⟨h.addRows_holds.1.mem_conversation.mpr ⟨hrow, h.holds_of_arrival hheld,
    hrreceiver.trans hreceiver.symm, hrkey.trans hkey.symm⟩, hnewer⟩

/-- What the cap of the receiver takes is unverified, or old among the verified posts. -/
theorem Storable.oldest_of_pastCap (h : Storable s env) (hheld : (filedStore V M s env).Holds m)
    (hpast : PastCap V (filedStore V M s env) env.receiver m) :
    m.isAnonymous = true ∧ (s.isVerified m.id = false ∨ Oldest V s env m) := by
  obtain ⟨-, hindexed, hholds⟩ := h.filedStore_holds (V := V) (M := M)
  obtain ⟨-, -, hreceiver, hanon⟩ := hindexed.mem_anonymousRows.mp (mem_of_mem_beyond hpast)
  refine ⟨hanon, ?_⟩
  by_cases hver : s.isVerified m.id = true
  case neg => exact Or.inl (Bool.not_eq_true _ ▸ hver)
  have hrank := (h.pastCap_iff hheld hreceiver hanon).mp hpast
  refine Or.inr (Or.inr (hrank.trans (rank_le rivals_nodup fun r hr hbefore _ => ?_)))
  obtain ⟨hkey, hrheld, hrreceiver, hranon⟩ := hindexed.mem_anonymousRows.mp (h.mem_rivals.mp hr)
  have hboth : s.isVerified r.2.id = true ∧ newerFirst r (m.key, m) = true := by
    unfold TmailStore.verifiedFirst at hbefore
    by_cases heq : s.isVerified r.2.id = s.isVerified m.id
    · rw [if_pos heq] at hbefore
      exact ⟨heq.trans hver, hbefore⟩
    · rw [if_neg heq] at hbefore
      exact absurd (hbefore.trans hver.symm) heq
  refine ⟨List.mem_filter.mpr ⟨h.addRows_holds.1.mem_anonymousRows.mpr ⟨hkey, ?_,
    hrreceiver.trans hreceiver.symm, hranon⟩, hboth.1⟩, hboth.2⟩
  exact h.holds_of_arrival ((hholds r.2).mp hrheld).1

/-- Storing the post takes only messages that may go. -/
theorem Storable.expendable (h : Storable s env) (hheld : s.Holds m)
    (hgone : ¬ (stored V M s env).Holds m) : Expendable V M s env m := by
  obtain ⟨-, -, hstored⟩ := h.stored_holds (V := V) (M := M)
  obtain ⟨-, -, hfiled⟩ := h.filedStore_holds (V := V) (M := M)
  by_cases hfile : (filedStore V M s env).Holds m
  · have hpast : PastCap V (filedStore V M s env) env.receiver m := by
      by_contra hin
      exact hgone ((hstored m).mpr ⟨hfile, hin⟩)
    exact Or.inr (h.oldest_of_pastCap hfile hpast)
  by_cases hroom : (s.makeRoom V M).Holds m
  · have hhere := (h.arrival_holds (V := V) (M := M)).2.2 m |>.mpr (Or.inl hroom)
    have hpast := not_not.mp fun hin => hfile ((hfiled m).mpr ⟨hhere, hin⟩)
    obtain ⟨hanon, hold⟩ := h.oldest_of_pastGroup hpast
    exact Or.inr ⟨hanon, Or.inr hold⟩
  · -- reaped to make room
    have hreaped := h.indexed.makeRoom (V := V) (M := M) |>.2.holds m
    rw [hreaped] at hroom
    have hexp := not_not.mp fun hin => hroom ⟨hheld, hin⟩
    exact Or.inl hexp.2

end Limits

section Calls

variable {V : Vars} {M : Moment} {s s' : TmailStore} {env m : TmailEnvelopeV1}

/-! ## What the call leaves -/

/-- What an accepted post leaves: all its store did, less what the registration of its key lets go. -/
structure Landed (V : Vars) (M : Moment) (s s' : TmailStore) (env : TmailEnvelopeV1) : Prop where
  storable : Storable s env
  indexed : s'.Indexed
  polls : s'.pollRoots = s.pollRoots
  verified : s'.isVerified env.id = true
  holds : ∀ e, s'.Holds e ↔ (stored V M s env).Holds e ∧
    ¬ (env.proof.isSome = true ∧ (stored V M s env).Holds env ∧ HeldLate V M s env.fastName e)

theorem isVerified_of_get {n : Str} {t : Nat} (h : s.anonVerdict.get env.id = some (.verified n t)) :
    s.isVerified env.id = true := by
  unfold TmailStore.isVerified verifiedNullifier getAnonVerdict
  rw [trim_id, h]
  rfl

/-- A store outside polls that returns `Ok(true)`. -/
theorem storable_of_inner (h : s.Healthy) (hpoll : s.isPoll env.receiver = false)
    (hanon : env.isAnonymous = true) (hok : (s.storeTmailInner V M env).1 = .ok true) :
    Storable s env ∧ (s.storeTmailInner V M env).2 = stored V M s env := by
  have hsame := (h.indexed.makeRoom (V := V) (M := M)).1
  rcases storeTmailInner_cases V M s env with
    ⟨hne, -⟩ | ⟨-, hvalid, hfresh, ⟨-, heq⟩ | ⟨hpoll', -⟩⟩
  · exact absurd hok hne
  · exact ⟨⟨h, hfresh, hvalid, hanon, hpoll⟩, heq⟩
  · rw [hsame.isPoll, hpoll] at hpoll'
    cases hpoll'

/-- The verdict of a fast post. -/
theorem Storable.landed_fast (h : Storable s env) (hproof : env.proof = none) (n : Str) (t : Nat) :
    Landed V M s ((stored V M s env).recorded env.id (.verified n t)) env := by
  obtain ⟨hsame, hindexed, -⟩ := h.stored_holds (V := V) (M := M)
  have hrec := hindexed.recorded env.id (.verified n t)
  refine ⟨h, hrec.indexed, hsame.shrinks.polls, isVerified_of_get (Tree.get_insert_self _ _ _), ?_⟩
  intro e
  rw [hrec.holds, hproof]
  simp

/-- The verdict of a post with a proof: it registers the posting key if the post is still there. -/
theorem Storable.landed_proof (h : Storable s env) (hproof : env.proof.isSome = true) (n : Str)
    (t : Nat) :
    Landed V M s ((stored V M s env).setAnonVerdict V M env.id (.verified n t)) env := by
  obtain ⟨hsame, hindexed, hholds⟩ := h.stored_holds (V := V) (M := M)
  have hrec := hindexed.recorded env.id (.verified n t)
  have hget : ((stored V M s env).recorded env.id (.verified n t)).anonVerdict.get env.id =
      some (.verified n t) := Tree.get_insert_self _ _ _
  by_cases hhere : (stored V M s env).Holds env
  · have hpoll : (stored V M s env).isPoll env.receiver = false := by
      rw [hsame.isPoll]
      exact h.poll
    have hreg := hindexed.setVerified_held (V := V) (M := M) (n := n) (t := t) hhere hproof hpoll
    refine ⟨h, hreg.rows.indexed, hreg.polls.trans hsame.shrinks.polls, ?_, fun e => ?_⟩
    · rcases hreg.records env.id with hold | ⟨v, hv, -, rfl⟩
      · exact isVerified_of_get (hold.trans hget)
      · exact isVerified_of_get hv
    · have hlate : HeldLate V M ((stored V M s env).recorded env.id (.verified n t)) env.fastName e ↔
          HeldLate V M s env.fastName e := hsame.heldLate
      rw [hreg.rows.holds, hrec.holds, not_false_eq_true, and_true, hlate]
      exact and_congr_right fun _ => not_congr ⟨fun hl => ⟨hproof, hhere, hl⟩, fun hl => hl.2.2⟩
  · -- the post is gone already: the verdict is recorded and nothing follows
    have hset : (stored V M s env).setAnonVerdict V M env.id (.verified n t) =
        (stored V M s env).recorded env.id (.verified n t) := by
      rw [hindexed.setVerified_unheld, trim_id]
      intro e he hid
      have harr := ((h.filedStore_holds.2.2 e).mp ((hholds e).mp he).1).1
      rcases (h.addRows_holds.2 e).mp (h.holds_of_arrival harr) with hold | rfl
      · exact absurd (hid.trans (trim_id env)) (h.indexed.not_held h.fresh hold)
      · exact absurd he hhere
    rw [hset]
    refine ⟨h, hrec.indexed, hsame.shrinks.polls, isVerified_of_get hget, fun e => ?_⟩
    rw [hrec.holds, not_false_eq_true, and_true]
    exact ⟨fun he => ⟨he, fun hl => hhere hl.2.1⟩, fun he => he.1⟩

theorem sendFastAnonymous_ok (hcall : s.sendFastAnonymous V M env = (.ok true, s')) :
    ∃ reg : FastKey, env.isFastPost = true ∧ (s.storeTmailInner V M env).1 = .ok true ∧
      s' = (s.storeTmailInner V M env).2.recorded env.id (.verified reg.nullifierHex M.now) := by
  rcases sendFastAnonymous_cases V M s env with ⟨hno, -⟩ | ⟨reg, hchecks, -, heq⟩
  · rw [hcall] at hno
    exact absurd rfl hno
  rw [hcall] at heq
  rcases storeRegistered_cases V M s env reg with ⟨hno, -⟩ | ⟨hr, hafter⟩
  · rw [← heq] at hno
    exact absurd rfl hno
  · rw [← heq] at hafter
    exact ⟨reg, (fastChecks_ok hchecks).2.1, hr, hafter⟩

theorem TmailStore.Healthy.landed (h : s.Healthy) (hpoll : s.isPoll env.receiver = false)
    (hcall : Accepted V M s s' env) : Landed V M s s' env := by
  rcases hcall with hcall | hcall
  · rcases sendAnonymous_cases V M s env with
      ⟨⟨e, hfail⟩, -⟩ | ⟨proof, n, t, stored, hproof, -, -, hok, heq⟩
    · rw [hcall] at hfail
      cases hfail
    rw [hcall] at heq
    cases heq
    have hproof : env.proof.isSome = true := by rw [hproof]; rfl
    have hinner : s.storeTmail V M env = s.storeTmailInner V M env := by
      unfold TmailStore.storeTmail at hok ⊢
      by_cases hfast : env.isFastPost = true
      · rw [if_pos hfast] at hok
        cases hok
      rw [if_neg hfast] at hok ⊢
      by_cases hshelter : (!env.flagAnonymous && M.isShelterBoard env.receiver &&
          !M.shelterMayPost (trimLower env.senderWalletId)) = true
      · rw [if_pos hshelter] at hok
        cases hok
      · rw [if_neg hshelter]
    rw [hinner] at hok ⊢
    obtain ⟨hstorable, hafter⟩ := storable_of_inner h hpoll (isAnonymous_of_proof hproof) hok
    rw [hafter]
    exact hstorable.landed_proof hproof n t
  · obtain ⟨reg, hfast, hok, heq⟩ := sendFastAnonymous_ok hcall
    have hanon : env.isAnonymous = true ∧ env.proof.isNone = true := by
      simpa [TmailEnvelopeV1.isFastPost] using hfast
    obtain ⟨hstorable, hafter⟩ := storable_of_inner h hpoll hanon.1 hok
    rw [heq, hafter]
    exact hstorable.landed_fast (Option.isNone_iff_eq_none.mp hanon.2) _ _

/-- What is held after the call was held before, or is the post. -/
theorem Landed.held (h : Landed V M s s' env) (hm : s'.Holds m) : s.Holds m ∨ m = env := by
  have hfiled := ((h.storable.stored_holds.2.2 m).mp ((h.holds m).mp hm).1).1
  have harrival := ((h.storable.filedStore_holds.2.2 m).mp hfiled).1
  exact (h.storable.addRows_holds.2 m).mp (h.storable.holds_of_arrival harrival)

/-- After the cap the other anonymous posts of the receiver are fewer than it allows. -/
theorem Landed.anonymous_lt (h : Landed V M s s' env) (hheld : s'.Holds env) :
    (s'.anonymousRows env.receiver).countP (fun r => decide (r ≠ (env.key, env))) <
      V.retainReceiver := by
  obtain ⟨hsame, hindexed, -⟩ := h.storable.filedStore_holds (V := V) (M := M)
  have hkeep := h.storable.anonKeepFor (V := V) hsame.shrinks.polls
  have hsub : ∀ r ∈ s'.anonymousRows env.receiver,
      r ∈ (filedStore V M s env).anonymousRows env.receiver ∧
        r ∉ beyond (fun a b => (filedStore V M s env).verifiedFirst a b = true) V.retainReceiver
          ((filedStore V M s env).anonymousRows env.receiver) := by
    intro r hr
    obtain ⟨hkey, hrheld, hreceiver, hanon⟩ := h.indexed.mem_anonymousRows.mp hr
    obtain ⟨hfiled, hcap⟩ := (h.storable.stored_holds.2.2 r.2).mp ((h.holds r.2).mp hrheld).1
    refine ⟨hindexed.mem_anonymousRows.mpr ⟨hkey, hfiled, hreceiver, hanon⟩, ?_⟩
    unfold PastCap at hcap
    rwa [hkeep, ← hkey] at hcap
  have hmem : (env.key, env) ∈ s'.anonymousRows env.receiver :=
    h.indexed.mem_anonymousRows.mpr ⟨rfl, hheld, rfl, h.storable.anonymous⟩
  have hall := length_le_of_notMem_beyond (anonymousRows_nodup _ _) hsub
  refine lt_of_lt_of_le ?_ hall
  rw [List.countP_eq_length_filter, List.length_filter_lt_length_iff_exists]
  exact ⟨_, hmem, by simp⟩

theorem Landed.kept_iff (h : Landed V M s s' env) (hfits : Fits V s s' env) :
    Kept V M s' env ↔ Stays V M s env := by
  have hwithin := h.storable.stored_iff (V := V) (M := M)
  constructor
  · rintro ⟨hheld, -, n, hinbox⟩
    obtain ⟨hstored, hlate⟩ := (h.holds env).mp hheld
    refine ⟨hwithin.mp hstored, live_of_mem_getInbox (hinbox n (Nat.le_refl n)), ?_⟩
    exact fun hproof hl => hlate ⟨hproof, hstored, hl⟩
  · rintro ⟨hin, hlive, hlate⟩
    have hheld : s'.Holds env :=
      (h.holds env).mpr ⟨hwithin.mpr hin, fun hl => hlate hl.1 hl.2.2⟩
    refine ⟨hheld, h.verified, (s'.rowsOf env.receiver).length + 1, fun limit hlimit => ?_⟩
    refine h.indexed.mem_getInbox hheld hlive ?_ ?_ (Nat.lt_of_succ_le hlimit)
    · rw [(keepOf_anonymous h.storable.anonymous).1]
      refine lt_of_le_of_lt (countP_le_of_nodup (rowsOf_nodup _ _) fun r hr hgroup => ?_) hfits.2
      obtain ⟨hconv, hnewer, hne⟩ := of_decide_eq_true hgroup
      obtain ⟨hkey, hrheld, hreceiver⟩ := h.indexed.mem_rowsOf.mp hr
      rcases h.held hrheld with hold | hself
      · refine ⟨h.storable.indexed.mem_rowsOf.mpr ⟨hkey, hold, hreceiver⟩, ?_⟩
        rw [decide_eq_true hconv, hnewer]
        rfl
      · exact absurd (Prod.ext (hkey.trans (congrArg _ hself)) hself) hne
    · rw [h.storable.anonKeepFor h.polls]
      exact h.anonymous_lt hheld

theorem Landed.removes_iff (h : Landed V M s s' env) :
    Removes V M s s' env ↔ Spares V M s env := by
  have hwithin := h.storable.stored_iff (V := V) (M := M)
  constructor
  · intro hrem hproof hin m hheld hlate
    exact hrem m hheld fun hstill =>
      ((h.holds m).mp hstill).2 ⟨hproof, hwithin.mpr hin, hlate⟩
  · intro hspares m hheld hgone
    by_cases hstored : (stored V M s env).Holds m
    · have hlate := not_not.mp fun hl => hgone ((h.holds m).mpr ⟨hstored, hl⟩)
      exact hspares hlate.1 (hwithin.mp hlate.2.1) m hheld hlate.2.2
    · exact h.storable.expendable hheld hstored

end Calls

/-- **When an accepted post is kept.** A post for which `send_anonymous` or `send_fast_anonymous`
returns `Ok(true)` in a reachable store is kept wherever its two counts say so, and the call removes
only messages that may go, iff in that case the post gets past both limits as they rank it before its
verdict, has not expired and is not named by a late held row, and no other late held row names a
message that may not go. -/
theorem accepted_post_kept {V : Vars} {M : Moment} {x : Traced} {s' : TmailStore}
    {env : TmailEnvelopeV1} (hrun : StoreRun V (fun _ _ => True) x)
    (hcall : Accepted V M x.store s' env) (hpoll : x.store.isPoll env.receiver = false) :
    ((Fits V x.store s' env → Kept V M s' env) ∧ Removes V M x.store s' env) ↔
      (Fits V x.store s' env → Stays V M x.store env) ∧ Spares V M x.store env := by
  have hlanded := hrun.healthy.landed hpoll hcall
  exact and_congr (forall_congr' fun hfits => hlanded.kept_iff hfits) hlanded.removes_iff

theorem accepted_fast {V : Vars} {M : Moment} {s : TmailStore} {env : TmailEnvelopeV1}
    (h : (s.sendFastAnonymous V M env).1 = .ok true) :
    Accepted V M s (s.sendFastAnonymous V M env).2 env := Or.inr (Prod.ext h rfl)

/-- A fast post that follows the post of its member is kept. -/
theorem accepted_post_kept_fast :
    ∃ x s' env, StoreRun {} (fun _ _ => True) x ∧ Accepted {} (Sample.moment 3000 [1]) x.store s' env ∧
      Fits {} x.store s' env ∧ Kept {} (Sample.moment 3000 [1]) s' env := by
  let old := Sample.post "m".toList 1000 (some Sample.anchorProof) [1]
  let env := Sample.post "f".toList 2000 none [2]
  let M := Sample.moment 3000 [1]
  let x := (⟨TmailStore.new, []⟩ : Traced).step {} (.sendAnonymous M old)
  let s' := (x.store.sendFastAnonymous {} M env).2
  have hrun : StoreRun {} (fun _ _ => True) x := StoreRun.start.step (.sendAnonymous M old) trivial
  have hall : (x.store.sendFastAnonymous {} M env).1 = .ok true ∧
      x.store.isPoll env.receiver = false ∧
      (verifiedNewer x.store env < Vars.retainReceiver {} ∧
        groupNewer x.store s' env < Vars.retainDailyId {}) ∧
      (((env.key, env) ∈ filed {} M x.store env → rank (fun a b => newerFirst a b = true)
        (filed {} M x.store env) (env.key, env) < Vars.retainDailyId {}) ∧
      rank (fun a b => x.store.verifiedFirst a b = true) (rivals {} M x.store env)
        (env.key, env) < Vars.retainReceiver {}) ∧
      isExpired {} env M.now = false ∧ env.proof = none := by
    decide +kernel
  obtain ⟨hok, hpoll, hfits, hwithin, hlive, hproof⟩ := hall
  have hcall : Accepted {} M x.store s' env := accepted_fast hok
  have hnone : ¬ env.proof.isSome = true := by
    rw [hproof]
    exact Bool.false_ne_true
  have hkept := (accepted_post_kept hrun hcall hpoll).mpr
    ⟨fun _ => ⟨hwithin, hlive, fun hp => absurd hp hnone⟩, fun hp => absurd hp hnone⟩
  exact ⟨x, s', env, hrun, hcall, hfits, hkept.1 hfits⟩

/-- On a board that keeps one anonymous post a member's post is verified and stored. The fast post
after it is accepted and gone. -/
theorem accepted_post_gone :
    ¬ ∀ V M x s' env, StoreRun V (fun _ _ => True) x → Accepted V M x.store s' env →
      x.store.isPoll env.receiver = false →
      (Fits V x.store s' env → Kept V M s' env) ∧ Removes V M x.store s' env := by
  intro h
  let V : Vars := { anonRetainPerReceiver := some 1 }
  let old := Sample.post "m".toList 1000 (some Sample.anchorProof) [1]
  let env := Sample.post "f".toList 2000 none [2]
  let M := Sample.moment 3000 [1]
  let x := (⟨TmailStore.new, []⟩ : Traced).step V (.sendAnonymous M old)
  let s' := (x.store.sendFastAnonymous V M env).2
  have hrun : StoreRun V (fun _ _ => True) x := StoreRun.start.step (.sendAnonymous M old) trivial
  have hall : (x.store.sendFastAnonymous V M env).1 = .ok true ∧
      x.store.isPoll env.receiver = false ∧
      (verifiedNewer x.store env < V.retainReceiver ∧ groupNewer x.store s' env < V.retainDailyId) ∧
      ¬ s'.Holds env := by
    decide +kernel
  obtain ⟨hok, hpoll, hfits, hgone⟩ := hall
  exact hgone ((h V M x s' env hrun (accepted_fast hok) hpoll).1 hfits).1

end TetCore.Tmail
