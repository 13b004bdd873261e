import TetCore.Lib.Rank
import TetCore.Lib.Tree
import TetCore.Tmail.Policy

/-!
# The Tmail store

The message buffer of `tmail/store.rs` and what anonymous posting keeps beside it: the messages by
receiver, time and id, the index by message id with its tombstones, the verdicts, the registered
posting keys, and the fast posts held for a registration.

What a call finds outside these trees is in `Moment`: the clock, whether a proof's receipt was
deposited and what the checks of `verify_anonymous_proof` behind it say, the flood guard, and
Shelter's board and membership. The database does not fail here, and every stored row decodes.

The keys of the trees are the fields their byte strings are made of. A receiver is 64 hex digits where
a row is written, so the byte order of the keys is the order of the fields, and the rows that start
with a receiver are its rows.
-/

namespace TetCore.Tmail

open TetCore.Lib

/-! ## Envelopes -/

structure TmailAnchorProof where
  imageIdHex : Str
  journalB64 : Str
  receiptSha256Hex : Str
  deriving DecidableEq

structure TmailAnonymous where
  ephemeralWalletId : Str
  anchorProof : Option TmailAnchorProof
  deriving DecidableEq

/-- `TmailEnvelopeV1`, the fields the store reads, and `e2ee`, which tells envelopes apart. -/
structure TmailEnvelopeV1 where
  msgId : Str
  flagAnonymous : Bool
  senderWalletId : Str
  receiverWalletId : Str
  sentAtMs : Nat
  ttlMs : Nat
  e2ee : Bytes
  anonymous : Option TmailAnonymous
  deriving DecidableEq

namespace TmailEnvelopeV1

/-- `env.msg_id.trim()`. -/
def id (env : TmailEnvelopeV1) : Str := trim env.msgId

/-- The receiver, as the trees spell it. -/
def receiver (env : TmailEnvelopeV1) : Str := trimLower env.receiverWalletId

/-- `is_anonymous`. -/
def isAnonymous (env : TmailEnvelopeV1) : Bool := env.anonymous.isSome

/-- The proof of an anonymous post. -/
def proof (env : TmailEnvelopeV1) : Option TmailAnchorProof := env.anonymous.bind (·.anchorProof)

/-- `is_fast_post`: anonymous, without a proof of its own. -/
def isFastPost (env : TmailEnvelopeV1) : Bool := env.isAnonymous && env.proof.isNone

/-- The posting key, which signs an anonymous post. -/
def postingKey (env : TmailEnvelopeV1) : Str :=
  (env.anonymous.map fun a => trimLower a.ephemeralWalletId).getD []

end TmailEnvelopeV1

/-! ## Keys -/

/-- The order of keys made of three fields. -/
def compareFields {α : Type} (f : α → Str) (g : α → Nat) (h : α → Str) : α → α → Ordering :=
  compareLex (compareOn f) (compareLex (compareOn g) (compareOn h))

instance {α : Type} (f : α → Str) (g : α → Nat) (h : α → Str) :
    Std.TransCmp (compareFields f g h) :=
  inferInstanceAs (Std.TransCmp (compareLex _ (compareLex _ _)))

theorem compareFields_eq {α : Type} {f : α → Str} {g : α → Nat} {h : α → Str} {a b : α}
    (heq : compareFields f g h a b = .eq) : f a = f b ∧ g a = g b ∧ h a = h b := by
  unfold compareFields at heq
  rw [compareLex_eq_eq, compareLex_eq_eq] at heq
  obtain ⟨hf, hg, hh⟩ := heq
  exact ⟨Std.LawfulEqCmp.eq_of_compare hf, Std.LawfulEqCmp.eq_of_compare hg,
    Std.LawfulEqCmp.eq_of_compare hh⟩

/-- `receiver_index_key`: receiver, time, message id. -/
structure IndexKey where
  receiver : Str
  sentAtMs : Nat
  msgId : Str
  deriving DecidableEq

instance : Ord IndexKey := ⟨compareFields IndexKey.receiver IndexKey.sentAtMs IndexKey.msgId⟩

instance : Std.TransOrd IndexKey :=
  inferInstanceAs (Std.TransCmp (compareFields _ _ _))

instance : Std.LawfulEqOrd IndexKey where
  compare_self {a} := (Std.ReflCmp.compare_self : compareFields _ _ _ a a = .eq)
  eq_of_compare {a b} h := by
    obtain ⟨hr, hs, hm⟩ := compareFields_eq h
    cases a
    cases b
    cases hr
    cases hs
    cases hm
    rfl

/-- `fast_key`: a posting key on a board on a UTC day. -/
structure FastName where
  receiver : Str
  bucket : Nat
  postingKey : Str
  deriving DecidableEq

instance : Ord FastName := ⟨compareFields FastName.receiver FastName.bucket FastName.postingKey⟩

instance : Std.TransOrd FastName :=
  inferInstanceAs (Std.TransCmp (compareFields _ _ _))

instance : Std.LawfulEqOrd FastName where
  compare_self {a} := (Std.ReflCmp.compare_self : compareFields _ _ _ a a = .eq)
  eq_of_compare {a b} h := by
    obtain ⟨hr, hs, hm⟩ := compareFields_eq h
    cases a
    cases b
    cases hr
    cases hs
    cases hm
    rfl

/-- A held fast post: the posting key it waits for, and its message id. -/
structure PendingKey where
  name : FastName
  msgId : Str
  deriving DecidableEq

instance : Ord PendingKey := ⟨compareLex (compareOn PendingKey.name) (compareOn PendingKey.msgId)⟩

instance : Std.TransOrd PendingKey :=
  inferInstanceAs (Std.TransCmp (compareLex _ _))

instance : Std.LawfulEqOrd PendingKey where
  compare_self {a} := (Std.ReflCmp.compare_self :
    compareLex (compareOn PendingKey.name) (compareOn PendingKey.msgId) a a = .eq)
  eq_of_compare {a b} h := by
    have h : compareLex (compareOn PendingKey.name) (compareOn PendingKey.msgId) a b = .eq := h
    rw [compareLex_eq_eq] at h
    have hn : a.name = b.name := Std.LawfulEqCmp.eq_of_compare h.1
    have hm : a.msgId = b.msgId := Std.LawfulEqCmp.eq_of_compare h.2
    cases a
    cases b
    cases hn
    cases hm
    rfl

/-- The row of an envelope in `by_receiver`. -/
def TmailEnvelopeV1.key (env : TmailEnvelopeV1) : IndexKey := ⟨env.receiver, env.sentAtMs, env.id⟩

/-- The registration an anonymous envelope makes or relies on. -/
def TmailEnvelopeV1.fastName (env : TmailEnvelopeV1) : FastName :=
  ⟨env.receiver, bucketIndex env.sentAtMs, env.postingKey⟩

/-! ## The trees -/

/-- A row of `by_msg_id`: the receiver of a live message, or a tombstone with its expiry. -/
inductive MsgRow where
  | live (receiver : Str)
  | burned (expireAt : Nat)
  | pruned (expireAt : Nat)
  deriving DecidableEq

inductive AnonVerdict where
  | pending
  | verified (nullifierHex : Str) (verifiedAtMs : Nat)
  | failed (reason : Str) (failedAtMs : Nat)
  deriving DecidableEq

structure FastKey where
  nullifierHex : Str
  registeredAtMs : Nat
  byMsgId : Str
  deriving DecidableEq

structure TmailStore where
  byReceiver : Tree IndexKey TmailEnvelopeV1
  byMsgId : Tree Str MsgRow
  anonVerdict : Tree Str AnonVerdict
  fastKeys : Tree FastName FastKey
  fastPending : Tree PendingKey Nat
  fastRegpending : Tree FastName Str
  /-- The wallets that are polls. -/
  pollRoots : Tree Str Unit

def TmailStore.new : TmailStore :=
  ⟨Tree.empty, Tree.empty, Tree.empty, Tree.empty, Tree.empty, Tree.empty, Tree.empty⟩

inductive FastSendError where
  | notFast
  | poll
  | wrongDay
  | notRegistered
  | busy
  | dailyCap
  | store (e : TmailStoreError)
  deriving DecidableEq

inductive AnonSendError where
  | noProof
  | noReceipt
  | refused (reason : Str)
  /-- `Ballot` or `Store`, by the error (`from_store`). -/
  | store (e : TmailStoreError)
  deriving DecidableEq

/-- What a call finds outside the trees. -/
structure Moment where
  now : Nat
  /-- `get_anon_receipt` finds the receipt of this hash. -/
  receiptDeposited : Str → Bool
  /-- The checks of `verify_anonymous_proof` on an envelope with a proof. -/
  checkProof : TmailEnvelopeV1 → AnonVerdict
  /-- `fast_flood_take`. -/
  flood : Except FastSendError Unit
  isShelterBoard : Str → Bool
  /-- `may_post`, of the sender of a named post to Shelter's board. -/
  shelterMayPost : Str → Bool
  /-- `shelter_fast_registration_ok`. -/
  shelterRegistrationOk : FastKey → Bool

/-- `verify_anonymous_proof`. -/
def verifyAnonymousProof (M : Moment) (env : TmailEnvelopeV1) : AnonVerdict :=
  match env.anonymous with
  | none => .failed "not an anonymous envelope".toList M.now
  | some anon => match anon.anchorProof with
    | none => .failed ("no membership proof (a fast post is checked against its posting key's " ++
        "registration)").toList M.now
    | some _ => M.checkProof env

namespace TmailStore

variable (V : Vars) (M : Moment) (s : TmailStore)

/-! ## Reads -/

/-- When a message expires. -/
def expireAt (env : TmailEnvelopeV1) : Nat := satAdd env.sentAtMs (V.effectiveTtlMs env.ttlMs)

/-- `is_expired`. -/
def isExpired (env : TmailEnvelopeV1) (now : Nat) : Bool := expireAt V env < now

/-- The messages of a receiver, oldest first. -/
def rowsOf (receiver : Str) : List (IndexKey × TmailEnvelopeV1) :=
  s.byReceiver.iter.filter fun r => r.1.receiver = receiver

/-- `get_poll_root(..).is_some()`. -/
def isPoll (receiver : Str) : Bool := (s.pollRoots.get (trimLower receiver)).isSome

/-- `index_key_for_msg_id`. -/
def indexKeyForMsgId (msgId : Str) : Option IndexKey :=
  match s.byMsgId.get msgId with
  | some (.live receiver) =>
    if isHex64 receiver then
      ((s.rowsOf receiver).find? fun r => r.1.msgId ≠ [] ∧ r.1.msgId = msgId).map Prod.fst
    else none
  | _ => none

/-- `get_by_msg_id`. -/
def getByMsgId (msgId : Str) : Option TmailEnvelopeV1 :=
  (s.indexKeyForMsgId (trim msgId)).bind s.byReceiver.get

/-- `get_anon_verdict`. -/
def getAnonVerdict (msgId : Str) : Option AnonVerdict := s.anonVerdict.get (trim msgId)

/-- The nullifier of a `Verified` verdict. -/
def verifiedNullifier (msgId : Str) : Option Str :=
  match s.getAnonVerdict msgId with
  | some (.verified n _) => some n
  | _ => none

/-- `matches!(get_anon_verdict(..), Some(Verified { .. }))`. -/
def isVerified (msgId : Str) : Bool := (s.verifiedNullifier msgId).isSome

/-- `fast_registration`, for the key of an envelope. -/
def fastRegistration (env : TmailEnvelopeV1) : Option FastKey := s.fastKeys.get env.fastName

/-- `conversation_key`. -/
def conversationKey (env : TmailEnvelopeV1) : Str :=
  if env.isAnonymous then
    let nullifier :=
      if env.proof.isSome then s.verifiedNullifier env.id
      else (s.fastRegistration env).map FastKey.nullifierHex
    match nullifier with
    | some n => "anonymous:".toList ++ n
    | none => "anonymous:unverified:".toList ++ env.id
  else trimLower env.senderWalletId

/-- `anon_keep_for`: a poll keeps all its ballots. -/
def anonKeepFor (receiver : Str) : Nat := if s.isPoll receiver then u64Max else V.retainReceiver

/-- How many messages of a conversation are kept. -/
def keepOf (counterparty : Str) : Nat :=
  if "anonymous:".toList.isPrefixOf counterparty then V.retainDailyId else V.retainConversation

/-! ## Removals -/

/-- Remove a row of `by_receiver`, and mark or drop its message id. -/
def dropRow (key : IndexKey) (msgId : Str) (mark : Option MsgRow) : TmailStore :=
  { s with
    byReceiver := s.byReceiver.remove key
    byMsgId :=
      if msgId = [] then s.byMsgId
      else match mark with
        | some m => s.byMsgId.insert msgId m
        | none => s.byMsgId.remove msgId }

/-- Newest first, then by key, descending. -/
def newerFirst (a b : IndexKey × TmailEnvelopeV1) : Bool :=
  b.2.sentAtMs < a.2.sentAtMs || (b.2.sentAtMs == a.2.sentAtMs && (compare b.1 a.1).isLE)

/-- Verified posts first, then newest. -/
def verifiedFirst (a b : IndexKey × TmailEnvelopeV1) : Bool :=
  if s.isVerified a.2.id = s.isVerified b.2.id then newerFirst a b else s.isVerified a.2.id

/-- Delete rows past a limit, each leaving its retention marker. -/
def pruneRows (rows : List (IndexKey × TmailEnvelopeV1)) : TmailStore :=
  rows.foldl (fun s r => s.dropRow r.1 r.2.id (some (.pruned (expireAt V r.2)))) s

/-- `enforce_retention`. No conversation is pinned. -/
def enforceRetention (receiver counterparty : Str) : TmailStore :=
  let receiver := trimLower receiver
  let counterparty := trimLower counterparty
  if !isHex64 receiver then s
  else
    let rows := (s.rowsOf receiver).filter fun r => s.conversationKey r.2 = counterparty
    s.pruneRows V (beyond (fun a b => newerFirst a b = true) (keepOf V counterparty) rows)

/-- `enforce_anonymous_cap`. -/
def enforceAnonymousCap (receiver : Str) : TmailStore :=
  let receiver := trimLower receiver
  if !isHex64 receiver then s
  else
    let rows := (s.rowsOf receiver).filter fun r => r.2.isAnonymous
    s.pruneRows V (beyond (fun a b => s.verifiedFirst a b = true) (s.anonKeepFor V receiver) rows)

/-- The tombstones whose message would have expired. -/
def staleTombs (now : Nat) : List Str :=
  s.byMsgId.iter.filterMap fun r => match r.2 with
    | .burned e | .pruned e => if e < now then some r.1 else none
    | .live _ => none

/-- `prune_expired`. -/
def pruneExpired (now : Nat) : TmailStore :=
  let reaped := (s.byReceiver.iter.filter fun r => isExpired V r.2 now).foldl
    (fun s r => s.dropRow r.1 r.2.id none) s
  { reaped with byMsgId := (reaped.staleTombs now).foldl Tree.remove reaped.byMsgId }

/-- `forget_by_msg_id`: no tombstone. -/
def forgetByMsgId (msgId : Str) : TmailStore :=
  match s.indexKeyForMsgId (trim msgId) with
  | some key => s.dropRow key (trim msgId) none
  | none => s

/-- `delete_by_msg_id`: a tombstone until the message would have expired. -/
def deleteByMsgId (msgId : Str) : TmailStore :=
  match s.indexKeyForMsgId (trim msgId) with
  | some key =>
    let expiry := match s.byReceiver.get key with
      | some env => expireAt V env
      | none => satAdd M.now (V.effectiveTtlMs 0)
    s.dropRow key (trim msgId) (some (.burned expiry))
  | none => s

/-! ## Verdicts and posting keys -/

/-- `failure_is_definitive`. -/
def failureIsDefinitive (reason : Str) : Bool :=
  !"registry root not recognised".toList.isPrefixOf reason

/-- The held fast posts of a posting key. -/
def waiting (name : FastName) : List PendingKey :=
  (s.fastPending.iter.filter fun r => r.1.name = name).map Prod.fst

/-- `prune_fast`: registrations older than yesterday, and held posts past their time. -/
def pruneFast : TmailStore :=
  let today := bucketIndex M.now
  let oldKeys := (s.fastKeys.iter.filter fun r => r.1.bucket + 1 < today).map Prod.fst
  let late := (s.fastPending.iter.filter fun r => V.pendingTtlMs < M.now - r.2).map Prod.fst
  late.foldl
    (fun s p => forgetByMsgId { s with fastPending := s.fastPending.remove p } p.msgId)
    { s with fastKeys := oldKeys.foldl Tree.remove s.fastKeys }

/-- A held fast post follows its registration. -/
def verifyHeld (nullifier : Str) (s : TmailStore) (p : PendingKey) : TmailStore :=
  let s := { s with fastPending := s.fastPending.remove p }
  if (s.getByMsgId p.msgId).isSome then
    { s with anonVerdict := s.anonVerdict.insert p.msgId (.verified nullifier M.now) }
  else s

/-- `register_fast_key`. -/
def registerFastKey (env : TmailEnvelopeV1) (name : FastName) (nullifier : Str) : TmailStore :=
  if s.isPoll env.receiver then s
  else
    let registered :=
      if (s.fastKeys.get name).isNone then
        { s with fastKeys := s.fastKeys.insert name ⟨nullifier, M.now, env.id⟩ }
      else s
    pruneFast V M ((registered.waiting name).foldl (verifyHeld M nullifier) registered)

/-- `drop_fast_pending`. -/
def dropFastPending (name : FastName) (definitive : Bool) : TmailStore :=
  (s.waiting name).foldl
    (fun s p =>
      let s := { s with fastPending := s.fastPending.remove p }
      if definitive then s.deleteByMsgId V M p.msgId else s.forgetByMsgId p.msgId) s

/-- What a verdict does to the posting key of the message it is recorded for. -/
def followVerdict (msgId : Str) (verdict : AnonVerdict) : TmailStore :=
  match s.getByMsgId msgId with
  | none => s
  | some env =>
    if env.proof.isNone then s
    else match verdict with
      | .pending =>
        { s with fastRegpending := s.fastRegpending.insert env.fastName (trim msgId) }
      | .verified n _ =>
        registerFastKey V M { s with fastRegpending := s.fastRegpending.remove env.fastName } env
          env.fastName n
      | .failed reason _ =>
        dropFastPending V M { s with fastRegpending := s.fastRegpending.remove env.fastName }
          env.fastName (failureIsDefinitive reason)

/-- `set_anon_verdict`. -/
def setAnonVerdict (msgId : Str) (verdict : AnonVerdict) : TmailStore :=
  let s := { s with anonVerdict := s.anonVerdict.insert (trim msgId) verdict }
  let s := s.followVerdict V M msgId verdict
  match verdict with
  | .failed reason _ =>
    if failureIsDefinitive reason then s.deleteByMsgId V M msgId else s.forgetByMsgId msgId
  | _ => s

/-! ## Storing -/

/-- `poll_ballot_gate`: the ballot's nullifier, with its verdict recorded. -/
def pollBallotGate (env : TmailEnvelopeV1) : Except Str Str × TmailStore :=
  if !(env.isAnonymous && env.flagAnonymous) then
    (.error "it takes only anonymous ballots".toList, s)
  else match env.proof with
    | none => (.error "a ballot needs its own membership proof".toList, s)
    | some proof =>
      if !M.receiptDeposited proof.receiptSha256Hex then
        (.error "a ballot's proof receipt must be deposited first".toList, s)
      else match verifyAnonymousProof M env with
        | .verified n at' => (.ok n, s.setAnonVerdict V M env.id (.verified n at'))
        | .failed reason _ => (.error ("ballot refused: ".toList ++ reason), s)
        | .pending => (.error "ballot not verified: Pending".toList, s)

/-- Reap what has expired if the buffer is full. -/
def makeRoom : TmailStore :=
  if s.byReceiver.iter.length ≥ V.maxEntriesCap then s.pruneExpired V M.now else s

/-- The rows of a new message. -/
def addRows (env : TmailEnvelopeV1) : TmailStore :=
  { s with
    byReceiver := s.byReceiver.insert env.key env
    byMsgId := s.byMsgId.insert env.id (.live env.receiver) }

/-- The new rows, then the two limits. -/
def insertRow (env : TmailEnvelopeV1) : TmailStore :=
  let s := s.addRows env
  let s := s.enforceRetention V env.receiver (s.conversationKey env)
  if env.isAnonymous then s.enforceAnonymousCap V env.receiver else s

/-- `store_tmail_inner`, with its poll gate. -/
def storeTmailInner (env : TmailEnvelopeV1) : Except TmailStoreError Bool × TmailStore :=
  if env.id = [] then (.error .emptyMsgId, s)
  else if !isHex64 env.receiver then (.error .invalidReceiver, s)
  else if (s.byMsgId.get env.id).isSome then (.ok false, s)
  else
    let s := s.makeRoom V M
    if s.byReceiver.iter.length ≥ V.maxEntriesCap then (.error (.full V.maxEntriesCap), s)
    else if s.isPoll env.receiver then
      match s.pollBallotGate V M env with
      | (.error reason, s) => (.error (.pollBallot reason), s)
      | (.ok _, s) => (.ok true, s.insertRow V env)
    else (.ok true, s.insertRow V env)

/-- `store_tmail`. -/
def storeTmail (env : TmailEnvelopeV1) : Except TmailStoreError Bool × TmailStore :=
  if env.isFastPost then
    (.error (.fastPost "a fast post needs a registered posting key".toList), s)
  else if !env.flagAnonymous && M.isShelterBoard env.receiver &&
      !M.shelterMayPost (trimLower env.senderWalletId) then
    (.error (.shelter "only a member can post here".toList), s)
  else s.storeTmailInner V M env

/-- `send_anonymous`. A failed store gives the claim of the nullifier back, which is not kept here. -/
def sendAnonymous (env : TmailEnvelopeV1) : Except AnonSendError Bool × TmailStore :=
  match env.proof with
  | none => (.error .noProof, s)
  | some proof =>
    if !M.receiptDeposited proof.receiptSha256Hex then (.error .noReceipt, s)
    else match verifyAnonymousProof M env with
      | .verified n at' =>
        match s.storeTmail V M env with
        | (.ok stored, s) => (.ok stored, s.setAnonVerdict V M env.id (.verified n at'))
        | (.error e, s) => (.error (.store e), s)
      | .failed reason _ => (.error (.refused reason), s)
      | .pending => (.error (.refused "couldn't be checked yet".toList), s)

/-- `fast_checks`. -/
def fastChecks (env : TmailEnvelopeV1) : Except FastSendError Unit :=
  if !env.flagAnonymous || !env.isFastPost then .error .notFast
  else if s.isPoll env.receiver then .error .poll
  else if bucketIndex env.sentAtMs ≠ bucketIndex M.now then .error .wrongDay
  else .ok ()

/-- The verdict of a fast post that was stored. -/
def recordIf (stored : Bool) (env : TmailEnvelopeV1) (verdict : AnonVerdict) : TmailStore :=
  if stored then { s with anonVerdict := s.anonVerdict.insert env.id verdict } else s

/-- The store of a fast post whose key is registered. -/
def storeRegistered (env : TmailEnvelopeV1) (reg : FastKey) :
    Except FastSendError Bool × TmailStore :=
  match M.flood with
  | .error e => (.error e, s)
  | .ok () => match s.storeTmailInner V M env with
    | (.error e, s) => (.error (.store e), s)
    | (.ok stored, s) => (.ok stored, s.recordIf stored env (.verified reg.nullifierHex M.now))

/-- `send_fast_anonymous`. -/
def sendFastAnonymous (env : TmailEnvelopeV1) : Except FastSendError Bool × TmailStore :=
  match s.fastChecks M env with
  | .error e => (.error e, s)
  | .ok () => match s.fastRegistration env with
    | none => (.error .notRegistered, s)
    | some reg =>
      if M.isShelterBoard env.receiver && !M.shelterRegistrationOk reg then
        (.error .notRegistered, s)
      else if (s.byMsgId.get env.id).isSome then (.ok false, s)
      else s.storeRegistered V M env reg

/-- `FAST_PENDING_PER_KEY`, `FAST_PENDING_TOTAL`. -/
def heldFull (name : FastName) : Bool :=
  50 ≤ (s.waiting name).length || 5000 ≤ s.fastPending.iter.length

/-- The store of a fast post held for its registration. -/
def storeHeld (env : TmailEnvelopeV1) : Except FastSendError Bool × TmailStore :=
  let s := s.pruneFast V M
  if (s.fastRegpending.get env.fastName).isNone then (.error .notRegistered, s)
  else if s.heldFull env.fastName then (.error .busy, s)
  else match M.flood with
    | .error e => (.error e, s)
    | .ok () => match s.storeTmailInner V M env with
      | (.error e, s) => (.error (.store e), s)
      | (.ok stored, s) =>
        let s := s.recordIf stored env .pending
        (.ok stored, if stored then
          { s with fastPending := s.fastPending.insert ⟨env.fastName, env.id⟩ M.now } else s)

/-- `receive_fast_anonymous`. -/
def receiveFastAnonymous (env : TmailEnvelopeV1) : Except FastSendError Bool × TmailStore :=
  match s.fastChecks M env with
  | .error e => (.error e, s)
  | .ok () =>
    if (s.byMsgId.get env.id).isSome then (.ok false, s)
    else match (s.fastRegistration env).filter fun reg =>
        !M.isShelterBoard env.receiver || M.shelterRegistrationOk reg with
      | some reg => s.storeRegistered V M env reg
      | none => s.storeHeld V M env

/-! ## The inbox -/

/-- The running state of `get_inbox`. -/
structure Inbox where
  out : List TmailEnvelopeV1
  anonSeen : Nat
  perConversation : Tree Str Nat

/-- One row of the loop of `get_inbox`. -/
def inboxStep (receiver : Str) (limit : Nat) (acc : Inbox) (r : IndexKey × TmailEnvelopeV1) :
    Inbox :=
  if acc.out.length ≥ limit then acc
  else if isExpired V r.2 M.now then acc
  else if r.2.receiver ≠ receiver then acc
  else
    let counterparty := s.conversationKey r.2
    let slot := (acc.perConversation.get counterparty).getD 0
    if slot ≥ keepOf V counterparty then acc
    else if r.2.isAnonymous ∧ acc.anonSeen ≥ s.anonKeepFor V receiver then acc
    else
      ⟨acc.out ++ [r.2], if r.2.isAnonymous then acc.anonSeen + 1 else acc.anonSeen,
        acc.perConversation.insert counterparty (slot + 1)⟩

/-- `get_inbox`: newest first. -/
def getInbox (walletId : Str) (limit : Nat) : List TmailEnvelopeV1 :=
  let receiver := trimLower walletId
  if !isHex64 receiver then []
  else ((s.rowsOf receiver).reverse.foldl (s.inboxStep V M receiver limit)
    ⟨[], 0, Tree.empty⟩).out

end TmailStore

end TetCore.Tmail
