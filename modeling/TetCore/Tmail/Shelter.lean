import TetCore.Auth

/-!
# Shelter

Model of `tmail/shelter.rs`: the signed records, what their signatures cover, and the membership that
replaying them gives. `ShelterState.apply` is one record on the state; the maps are trees by wallet,
and a member's number is a 32-bit word, as a release build counts.

The state machine is split by action, each under the name of what it does. `apply_cases` says once
what a record can do: a refused one leaves the state as it is, an accepted one is a `ShelterStep`,
with the checks it passed.
-/

namespace TetCore.Tmail

open TetCore.Lib

/-! ## Records -/

/-- `TmailHybridSig`. -/
structure TmailHybridSig where
  ed25519PubkeyHex : Str
  ed25519SigB64 : Str
  mldsaPubkeyB64 : Str
  mldsaSigB64 : Str
  deriving DecidableEq

/-- `verify_hybrid`: both signatures on the same bytes. -/
def verifyHybrid (A : Auth) (walletIdHex : Str) (sig : TmailHybridSig) (msg : Bytes) :
    Except String Unit := do
  A.verifyEd25519 walletIdHex sig.ed25519SigB64 msg
  A.verifyMldsaB64 sig.mldsaPubkeyB64 sig.mldsaSigB64 msg

/-- `SHELTER_MOD_INVITES`. -/
def shelterModInvites : Nat := 10

/-- `SHELTER_VOUCHES`. -/
def shelterVouches : Nat := 3

/-- `SHELTER_SUSPEND_MS`. -/
def shelterSuspendMs : Nat := 90 * 86400000

/-- `SHELTER_APPEAL_MS`. -/
def shelterAppealMs : Nat := 14 * 86400000

/-- `SHELTER_RECORD_SKEW_MS`. -/
def shelterRecordSkewMs : Nat := 10 * 60000

/-- `REASON_MAX_CHARS`. -/
def reasonMaxChars : Nat := 280

/-- `NICKNAME_MAX_CHARS`. -/
def nicknameMaxChars : Nat := 24

structure ShelterConfig where
  moderator : Str
  board : Str
  deriving DecidableEq

/-- `config_from_env`, of the two variables. -/
def shelterConfigFromEnv (moderatorVar boardVar : Option Str) : Option ShelterConfig := do
  let moderator ← (moderatorVar.map trimLower).filter isHex64
  let board ← (boardVar.map trimLower).filter isHex64
  if moderator = board then none else some ⟨moderator, board⟩

inductive ShelterAction where
  | invite
  | vouch
  | withdraw
  | nickname
  /-- `Case`. -/
  | decide
  | appeal
  deriving DecidableEq

def ShelterAction.asStr : ShelterAction → Str
  | .invite => "invite".toList
  | .vouch => "vouch".toList
  | .withdraw => "withdraw".toList
  | .nickname => "nickname".toList
  | .decide => "case".toList
  | .appeal => "appeal".toList

structure ShelterRecordV1 where
  v : Nat
  kind : Str
  action : ShelterAction
  signer : Str
  /-- A wallet, or the id of a case. -/
  subject : Str
  metInPerson : Bool
  text : Str
  decision : Str
  atMs : Nat
  hybridSig : TmailHybridSig
  deriving DecidableEq

/-- `record_auth_message_bytes`, on the record's own ML-DSA key. -/
def recordAuthMessageBytes (A : Auth) (W : World) (r : ShelterRecordV1) : Bytes :=
  utf8 (A.header "tet shelter record v1".toList ++ "|action=".toList ++ r.action.asStr ++
    "|signer=".toList ++ trimLower r.signer ++ "|subject=".toList ++ trimLower r.subject ++
    "|met_in_person=".toList ++ Json.bool r.metInPerson ++
    "|text_sha256=".toList ++ W.sha256Hex (utf8 r.text) ++ "|decision=".toList ++ r.decision ++
    "|at_ms=".toList ++ Json.decimal r.atMs ++
    "|mldsa_pk=".toList ++ trim r.hybridSig.mldsaPubkeyB64)

/-- `record_id`. -/
def recordId (A : Auth) (W : World) (r : ShelterRecordV1) : Str :=
  W.sha256Hex (recordAuthMessageBytes A W r)

inductive ShelterError where
  | off
  | version
  | malformed (field : Str)
  | signerMismatch
  | signature
  | clock
  | refused (reason : Str)
  | duplicate
  deriving DecidableEq

/-- `verify_record`. -/
def verifyRecord (A : Auth) (W : World) (r : ShelterRecordV1) : Except ShelterError Unit :=
  if r.v ≠ 1 ∨ r.kind ≠ "tet_shelter_record_v1".toList then .error .version
  else
    let signer := trimLower r.signer
    if !isHex64 signer ∨ r.signer ≠ signer then .error (.malformed "signer".toList)
    else if !isHex64 r.subject ∨ r.subject ≠ toAsciiLowercase r.subject then
      .error (.malformed "subject".toList)
    else if trimLower r.hybridSig.ed25519PubkeyHex ≠ signer then .error .signerMismatch
    else match verifyHybrid A signer r.hybridSig (recordAuthMessageBytes A W r) with
      | .error _ => .error .signature
      | .ok _ => .ok ()

/-! ## Nicknames -/

/-- `nickname_char_ok`. -/
def nicknameCharOk (c : Char) : Bool :=
  let n := c.toNat
  (48 ≤ n && n ≤ 57) || (65 ≤ n && n ≤ 90) || (97 ≤ n && n ≤ 122) ||
    c == ' ' || c == '_' || c == '-' || c == '.' ||
    (0x3041 ≤ n && n ≤ 0x3096) || (0x30A1 ≤ n && n ≤ 0x30FA) || n == 0x30FC ||
    (0x4E00 ≤ n && n ≤ 0x9FFF)

/-- The separators a nickname is compared without. -/
def nicknameSeparator (c : Char) : Bool :=
  c == ' ' || c == '_' || c == '-' || c == '.' || c == 'ー' || c == '一'

/-- Look-alike letters and digits, and hiragana as katakana. -/
def foldLatin (c : Char) : Char :=
  let c := asciiLower c
  if c == 'i' || c == '1' || c == '|' then 'l'
  else if c == '0' then 'o'
  else if c == '5' then 's'
  else if 0x3041 ≤ c.toNat && c.toNat ≤ 0x3096 then Char.ofNat (c.toNat + 0x60)
  else c

/-- Small kana as full ones, and the katakana and kanji that look alike. -/
def foldKana (c : Char) : Char :=
  match ("ァィゥェォッャュョヮヵヶンツ工口力二八夕卜三".toList.zip
      "アイウエオツヤユヨワカケソシエロカニハタトミ".toList).lookup c with
  | some d => d
  | none => c

/-- `str::replace` of a pair of characters by one. -/
def replacePair (a b c : Char) : Str → Str
  | x :: y :: rest =>
    if x = a ∧ y = b then c :: replacePair a b c rest else x :: replacePair a b c (y :: rest)
  | rest => rest

/-- `nickname_skeleton`. -/
def nicknameSkeleton (n : Str) : Str :=
  let folded := ((n.filter fun c => !nicknameSeparator c).map foldLatin).map foldKana
  replacePair 'c' 'l' 'd' (replacePair 'v' 'v' 'w' (replacePair 'r' 'n' 'm' folded))

/-- The words no nickname may look like. -/
def reservedNicknames : List Str :=
  ["anonymous".toList, "anon".toList, "moderator".toList, "mod".toList, "tet".toList,
    "匿名".toList, "管理人".toList, "モデレーター".toList, "版主".toList, "管理員".toList]

/-- `nickname_ok`. -/
def nicknameOk (n : Str) : Bool :=
  if n.length = 0 ∨ n.length > nicknameMaxChars ∨ trim n ≠ n ∨ !n.all nicknameCharOk then false
  else
    let sk := nicknameSkeleton n
    sk ≠ [] && !reservedNicknames.any fun r => nicknameSkeleton r == sk

/-! ## The state -/

structure ShelterMember where
  wallet : Str
  number : Nat
  /-- Who let them in; `none` for the moderator. -/
  via : Option Str
  joinedAtMs : Nat
  nickname : Option Str
  deriving DecidableEq

structure ShelterCase where
  id : Str
  subject : Str
  /-- Who had let the subject in. -/
  voucher : Option Str
  atMs : Nat
  reason : Str
  appeal : Option Str
  wasMember : Bool
  appealAtMs : Option Nat
  deriving DecidableEq

/-- `stands`. -/
def ShelterCase.stands (c : ShelterCase) : Bool := c.appeal ≠ some "overturn".toList

structure ShelterState where
  members : Tree Str ShelterMember
  /-- Invites or vouches given, by giver. -/
  given : Tree Str Nat
  cases : List ShelterCase
  /-- Members removed by a case. -/
  removed : Tree Str ShelterMember
  nextNumber : Nat
  /-- Members who left, as they were. -/
  left : Tree Str ShelterMember

/-- `u32::MAX`. -/
def u32Max : Nat := 2 ^ 32 - 1

namespace ShelterState

/-- `ShelterState::new`. -/
def new (cfg : ShelterConfig) : ShelterState where
  members := Tree.empty.insert cfg.moderator ⟨cfg.moderator, 1, none, 0, none⟩
  given := Tree.empty
  cases := []
  removed := Tree.empty
  nextNumber := 2
  left := Tree.empty

variable (s : ShelterState) (cfg : ShelterConfig)

/-- `is_member`. -/
def isMember (w : Str) : Bool := (s.members.get (trimLower w)).isSome

/-- `standing_cases_against_voucher`. -/
def standingCasesAgainstVoucher (voucher : Str) : List ShelterCase :=
  s.cases.filter fun c => c.stands && c.voucher == some voucher

/-- How many a wallet can let in. -/
def limitOf (cfg : ShelterConfig) (w : Str) : Nat :=
  if w = cfg.moderator then shelterModInvites else shelterVouches

/-- What a wallet has given. -/
def givenBy (w : Str) : Nat := (s.given.get w).getD 0

/-- `vouches_left`. -/
def vouchesLeft (w : Str) : Nat :=
  if !s.isMember w then 0
  else if w ≠ cfg.moderator ∧ s.standingCasesAgainstVoucher w ≠ [] then 0
  else limitOf cfg w - s.givenBy w

/-- `suspended_until`. -/
def suspendedUntil (w : Str) : Option Nat :=
  (s.standingCasesAgainstVoucher w)[1]?.map fun c => satAdd c.atMs shelterSuspendMs

/-- `may_post`. -/
def mayPost (w : Str) (nowMs : Nat) : Bool :=
  s.isMember w && ((s.suspendedUntil w).all fun t => t ≤ nowMs)

/-- `anon_eligible`. -/
def anonEligible (nowMs : Nat) : List Str :=
  (s.members.iter.map Prod.fst).filter fun w => s.mayPost w nowMs

/-- A current member other than `except` has a nickname that looks like `sk`. -/
def nicknameTaken (sk : Str) (except : Option Str) : Bool :=
  s.members.iter.any fun r =>
    (except ≠ some r.2.wallet) && r.2.nickname.map nicknameSkeleton == some sk

/-- The reason of a case or an appeal has its length. -/
def reasonOk (text : Str) : Bool := (trim text).length ≠ 0 && (trim text).length ≤ reasonMaxChars

/-- The new member of an invite or a vouch. -/
def admitted (r : ShelterRecordV1) : ShelterState :=
  { s with
    given := s.given.insert r.signer (s.givenBy r.signer + 1)
    left := s.left.remove r.subject
    -- `u32` addition, which wraps
    nextNumber := (s.nextNumber + 1) % 2 ^ 32
    members := s.members.insert r.subject
      ⟨r.subject, s.nextNumber, some r.signer, r.atMs, none⟩ }

/-- `apply`, an invite or a vouch. -/
def letIn (r : ShelterRecordV1) : Except ShelterError Unit × ShelterState :=
  if r.action = .invite ∧ r.signer ≠ cfg.moderator then
    (.error (.refused "only the moderator invites; members vouch".toList), s)
  else if r.action = .vouch ∧ r.signer = cfg.moderator then
    (.error (.refused "the moderator invites; members vouch".toList), s)
  else if !r.metInPerson then
    (.error (.refused "you can only let in someone you met in person".toList), s)
  else if !s.isMember r.signer then (.error (.refused "only a member can vouch".toList), s)
  else if r.subject = cfg.board then
    (.error (.refused "that is the Shelter board itself".toList), s)
  else if s.isMember r.subject then (.error (.refused "already a member".toList), s)
  else if (s.removed.get r.subject).isSome then
    (.error (.refused "this key was removed by a case".toList), s)
  else if s.vouchesLeft cfg r.signer = 0 then
    (.error (.refused
      (if r.action = .invite then "the moderator's invites are used".toList
      else if s.givenBy r.signer ≥ shelterVouches then
        "you have vouched for 3 people already".toList
      else "you can't vouch: someone you vouched for was confirmed as a bot".toList)), s)
  else (.ok (), s.admitted r)

/-- A member who leaves, as they were. -/
def gone (w : Str) (m : ShelterMember) : ShelterState :=
  { s with members := s.members.remove w, left := s.left.insert w m }

/-- `apply`, a withdrawal. -/
def withdraw (r : ShelterRecordV1) : Except ShelterError Unit × ShelterState :=
  if r.signer ≠ r.subject then
    (.error (.refused "only a member can withdraw their own key".toList), s)
  else if r.signer = cfg.moderator then (.error (.refused "the moderator can't leave".toList), s)
  else match s.members.get r.subject with
    | none => (.error (.refused "not a member".toList), s)
    | some m => (.ok (), s.gone r.subject m)

/-- A member with a nickname. -/
def named (w : Str) (m : ShelterMember) (text : Str) : ShelterState :=
  { s with members := s.members.insert w { m with nickname := some text } }

/-- `apply`, a nickname. -/
def setNickname (r : ShelterRecordV1) : Except ShelterError Unit × ShelterState :=
  if r.signer ≠ r.subject ∨ !s.isMember r.signer then
    (.error (.refused "only a member sets their own nickname".toList), s)
  else if !nicknameOk r.text then
    (.error (.refused ("a nickname is 1–24 letters (English, Japanese or Chinese), digits, " ++
      "spaces, _ - or .").toList), s)
  else if s.nicknameTaken (nicknameSkeleton r.text) (some r.signer) then
    (.error (.refused "another member has that nickname".toList), s)
  else match s.members.get r.signer with
    | none => (.ok (), s)
    | some m => (.ok (), s.named r.signer m r.text)

/-- The case a record makes against `m`. -/
def newCase (A : Auth) (W : World) (r : ShelterRecordV1) (m : ShelterMember) : ShelterCase :=
  ⟨recordId A W r, r.subject, m.via.filter (· ≠ cfg.moderator), r.atMs, trim r.text, none,
    (s.members.get r.subject).isSome, none⟩

/-- The subject of a case goes, from the members or from those who left. -/
def accused (A : Auth) (W : World) (r : ShelterRecordV1) (m : ShelterMember) : ShelterState :=
  { s with
    members := s.members.remove r.subject
    left := if (s.members.get r.subject).isSome then s.left else s.left.remove r.subject
    cases := s.cases ++ [s.newCase cfg A W r m]
    removed := s.removed.insert r.subject m }

/-- `apply`, a case. -/
def decideCase (A : Auth) (W : World) (r : ShelterRecordV1) :
    Except ShelterError Unit × ShelterState :=
  if r.signer ≠ cfg.moderator then
    (.error (.refused "only the moderator decides cases".toList), s)
  else if r.subject = cfg.moderator then
    (.error (.refused "the moderator can't be a case's subject".toList), s)
  else if !reasonOk r.text then
    (.error (.refused "a case needs its reason (up to 280 characters)".toList), s)
  -- a member, or one who left; `remove` is tried on the second map when the first has no entry
  else match s.members.get r.subject <|> s.left.get r.subject with
    | none => (.error (.refused "not a member".toList),
        { s with members := s.members.remove r.subject, left := s.left.remove r.subject })
    | some m => (.ok (), s.accused cfg A W r m)

/-- A member as they go back: without a nickname taken meanwhile. -/
def returning (m : ShelterMember) : ShelterMember :=
  if (m.nickname.map nicknameSkeleton).any fun sk => s.nicknameTaken sk none then
    { m with nickname := none }
  else m

/-- The member a case removed goes back where they were. -/
def restoreMember (who : Str) (wasMember : Bool) : ShelterState :=
  match s.removed.get who with
  | none => s
  | some m =>
    if wasMember then
      { s with
        removed := s.removed.remove who
        members := s.members.insert who (s.returning m) }
    else
      { s with
        removed := s.removed.remove who
        left := s.left.insert who (s.returning m) }

/-- The first case of this id. -/
def caseOf (id : Str) : Option ShelterCase := s.cases.find? fun c => c.id = id

/-- The case `c` with the decision of its appeal. -/
def answered (r : ShelterRecordV1) (c : ShelterCase) : ShelterState :=
  let c' := { c with appeal := some r.decision, appealAtMs := some r.atMs }
  { s with cases := s.cases.set (s.cases.findIdx fun c => c.id = r.subject) c' }

/-- `apply`, an appeal. -/
def decideAppeal (r : ShelterRecordV1) : Except ShelterError Unit × ShelterState :=
  if r.signer ≠ cfg.moderator then
    (.error (.refused "only the moderator decides appeals".toList), s)
  else if r.decision ≠ "overturn".toList ∧ r.decision ≠ "keep".toList then
    (.error (.refused "an appeal's decision is overturn or keep".toList), s)
  else if !reasonOk r.text then
    (.error (.refused "an appeal needs its reason (up to 280 characters)".toList), s)
  else match s.caseOf r.subject with
    | none => (.error (.refused "no such case".toList), s)
    | some c =>
      if c.appeal.isSome then
        (.error (.refused "this case's appeal was already decided".toList), s)
      else if r.atMs > satAdd c.atMs shelterAppealMs then
        (.error (.refused "the 14 days for an appeal have passed".toList), s)
      else if r.decision = "overturn".toList then
        (.ok (), (s.answered r c).restoreMember c.subject c.wasMember)
      else (.ok (), s.answered r c)

/-- `ShelterState::apply`. -/
def apply (A : Auth) (W : World) (r : ShelterRecordV1) : Except ShelterError Unit × ShelterState :=
  match r.action with
  | .invite => s.letIn cfg r
  | .vouch => s.letIn cfg r
  | .withdraw => s.withdraw cfg r
  | .nickname => s.setNickname r
  | .decide => s.decideCase cfg A W r
  | .appeal => s.decideAppeal cfg r

/-! ## What a record does -/

/-- What an accepted record does, with the checks it passed. -/
inductive Step (A : Auth) (W : World) (r : ShelterRecordV1) : ShelterState → Prop
  | letsIn (kind : r.action = .invite ∨ r.action = .vouch) (giver : s.isMember r.signer = true)
      (fresh : s.isMember r.subject = false) (clear : s.removed.get r.subject = none)
      (room : 0 < s.vouchesLeft cfg r.signer) : Step A W r (s.admitted r)
  | leaves (kind : r.action = .withdraw) (m : ShelterMember) (notModerator : r.subject ≠ cfg.moderator)
      (member : s.members.get r.subject = some m) : Step A W r (s.gone r.subject m)
  | names (kind : r.action = .nickname) (m : ShelterMember)
      (free : s.nicknameTaken (nicknameSkeleton r.text) (some r.signer) = false)
      (member : s.members.get r.signer = some m) : Step A W r (s.named r.signer m r.text)
  | accuses (kind : r.action = .decide) (m : ShelterMember) (notModerator : r.subject ≠ cfg.moderator)
      (found : (s.members.get r.subject <|> s.left.get r.subject) = some m) :
      Step A W r (s.accused cfg A W r m)
  | keeps (kind : r.action = .appeal) (c : ShelterCase) (found : s.caseOf r.subject = some c)
      (undecided : c.appeal = none) (decision : r.decision = "keep".toList) :
      Step A W r (s.answered r c)
  | overturns (kind : r.action = .appeal) (c : ShelterCase) (found : s.caseOf r.subject = some c)
      (undecided : c.appeal = none) (decision : r.decision = "overturn".toList) :
      Step A W r ((s.answered r c).restoreMember c.subject c.wasMember)

end ShelterState

/-- A verified record names its wallets as the maps do. -/
structure ShelterRecordV1.Signed (r : ShelterRecordV1) : Prop where
  signerHex : isHex64 r.signer = true
  signer : trimLower r.signer = r.signer
  subjectHex : isHex64 r.subject = true
  subject : trimLower r.subject = r.subject

theorem verifyRecord_ok {A : Auth} {W : World} {r : ShelterRecordV1}
    (h : verifyRecord A W r = .ok ()) : r.Signed := by
  unfold verifyRecord at h
  simp only [Bool.not_eq_true'] at h
  split at h
  · cases h
  split at h
  · cases h
  rename_i hsigner
  split at h
  · cases h
  rename_i hsubject
  simp only [not_or, Bool.not_eq_false, not_not] at hsigner hsubject
  refine ⟨hsigner.2 ▸ hsigner.1, hsigner.2.symm, hsubject.1, ?_⟩
  unfold trimLower
  rw [trim_of_isHex64 hsubject.1]
  exact hsubject.2.symm

/-- What makes a record verify. -/
theorem verifyRecord_of {A : Auth} {W : World} {r : ShelterRecordV1} (hv : r.v = 1)
    (hkind : r.kind = "tet_shelter_record_v1".toList) (hr : r.Signed)
    (hkey : trimLower r.hybridSig.ed25519PubkeyHex = r.signer)
    (hsig : verifyHybrid A r.signer r.hybridSig (recordAuthMessageBytes A W r) = .ok ()) :
    verifyRecord A W r = .ok () := by
  have hsubject : r.subject = toAsciiLowercase r.subject := by
    have hlower := hr.subject
    unfold trimLower at hlower
    rw [trim_of_isHex64 hr.subjectHex] at hlower
    exact hlower.symm
  unfold verifyRecord
  rw [if_neg (not_or.mpr ⟨not_not_intro hv, not_not_intro hkind⟩)]
  simp only [hr.signer]
  rw [if_neg (by simp [hr.signerHex]), if_neg (by simpa [hr.subjectHex] using hsubject),
    if_neg (not_not_intro hkey), hsig]

namespace ShelterState

variable {A : Auth} {W : World} {cfg : ShelterConfig} {s s' : ShelterState} {r : ShelterRecordV1}

theorem isMember_eq {w : Str} (h : trimLower w = w) : s.isMember w = (s.members.get w).isSome := by
  unfold isMember
  rw [h]

theorem orElse_eq_none {α : Type} {x y : Option α} (h : (x <|> y) = none) : x = none ∧ y = none := by
  cases x with
  | none => exact ⟨rfl, h⟩
  | some a => cases h

theorem letIn_cases (s : ShelterState) (cfg : ShelterConfig) (r : ShelterRecordV1) :
    (∃ e, s.letIn cfg r = (.error e, s)) ∨
      s.letIn cfg r = (.ok (), s.admitted r) ∧ s.isMember r.signer = true ∧
        s.isMember r.subject = false ∧ s.removed.get r.subject = none ∧
        0 < s.vouchesLeft cfg r.signer := by
  unfold letIn
  by_cases hinvite : r.action = .invite ∧ r.signer ≠ cfg.moderator
  · exact Or.inl ⟨_, if_pos hinvite⟩
  by_cases hvouch : r.action = .vouch ∧ r.signer = cfg.moderator
  · exact Or.inl ⟨_, (if_neg hinvite).trans (if_pos hvouch)⟩
  rw [if_neg hinvite, if_neg hvouch]
  by_cases hmet : (!r.metInPerson) = true
  · exact Or.inl ⟨_, if_pos hmet⟩
  by_cases hgiver : (!s.isMember r.signer) = true
  · exact Or.inl ⟨_, (if_neg hmet).trans (if_pos hgiver)⟩
  rw [if_neg hmet, if_neg hgiver]
  by_cases hboard : r.subject = cfg.board
  · exact Or.inl ⟨_, if_pos hboard⟩
  by_cases hfresh : s.isMember r.subject = true
  · exact Or.inl ⟨_, (if_neg hboard).trans (if_pos hfresh)⟩
  rw [if_neg hboard, if_neg hfresh]
  by_cases hclear : (s.removed.get r.subject).isSome = true
  · exact Or.inl ⟨_, if_pos hclear⟩
  by_cases hroom : s.vouchesLeft cfg r.signer = 0
  · exact Or.inl ⟨_, (if_neg hclear).trans (if_pos hroom)⟩
  rw [if_neg hclear, if_neg hroom]
  refine Or.inr ⟨rfl, ?_, Bool.not_eq_true _ ▸ hfresh, ?_, Nat.pos_of_ne_zero hroom⟩
  · simpa using hgiver
  · simpa using hclear

/-- Whom an invite or a vouch lets in. -/
theorem apply_admits (hkind : r.action = .invite ∧ r.signer = cfg.moderator ∨
      r.action = .vouch ∧ r.signer ≠ cfg.moderator) (hmet : r.metInPerson = true)
    (hgiver : s.isMember r.signer = true) (hboard : r.subject ≠ cfg.board)
    (hfresh : s.isMember r.subject = false) (hclear : s.removed.get r.subject = none)
    (hroom : 0 < s.vouchesLeft cfg r.signer) : s.apply cfg A W r = (.ok (), s.admitted r) := by
  have hin : s.letIn cfg r = (.ok (), s.admitted r) := by
    unfold letIn
    rw [if_neg (by rcases hkind with ⟨-, h⟩ | ⟨h, -⟩ <;> simp [h]),
      if_neg (by rcases hkind with ⟨h, -⟩ | ⟨-, h⟩ <;> simp [h]), if_neg (by simp [hmet]),
      if_neg (by simp [hgiver]), if_neg hboard, if_neg (by simp [hfresh]), if_neg (by simp [hclear]),
      if_neg (Nat.ne_of_gt hroom)]
  unfold apply
  rcases hkind with ⟨h, -⟩ | ⟨h, -⟩ <;> rw [h] <;> exact hin

theorem withdraw_cases (s : ShelterState) (cfg : ShelterConfig) (r : ShelterRecordV1) :
    (∃ e, s.withdraw cfg r = (.error e, s)) ∨
      ∃ m, s.withdraw cfg r = (.ok (), s.gone r.subject m) ∧ r.subject ≠ cfg.moderator ∧
        s.members.get r.subject = some m := by
  unfold withdraw
  by_cases hown : r.signer ≠ r.subject
  · exact Or.inl ⟨_, if_pos hown⟩
  by_cases hmod : r.signer = cfg.moderator
  · exact Or.inl ⟨_, (if_neg hown).trans (if_pos hmod)⟩
  rw [if_neg hown, if_neg hmod]
  cases hm : s.members.get r.subject with
  | none => exact Or.inl ⟨_, rfl⟩
  | some m => exact Or.inr ⟨m, rfl, fun h => hmod (by rw [not_not.mp hown, h]), rfl⟩

theorem setNickname_cases (s : ShelterState) {r : ShelterRecordV1} (hr : r.Signed) :
    (∃ e, s.setNickname r = (.error e, s)) ∨
      ∃ m, s.setNickname r = (.ok (), s.named r.signer m r.text) ∧
        s.nicknameTaken (nicknameSkeleton r.text) (some r.signer) = false ∧
        s.members.get r.signer = some m := by
  unfold setNickname
  by_cases hown : r.signer ≠ r.subject ∨ (!s.isMember r.signer) = true
  · exact Or.inl ⟨_, if_pos hown⟩
  by_cases hok : (!nicknameOk r.text) = true
  · exact Or.inl ⟨_, (if_neg hown).trans (if_pos hok)⟩
  by_cases htaken : s.nicknameTaken (nicknameSkeleton r.text) (some r.signer) = true
  · exact Or.inl ⟨_, (if_neg hown).trans ((if_neg hok).trans (if_pos htaken))⟩
  rw [if_neg hown, if_neg hok, if_neg htaken]
  simp only [isMember_eq hr.signer, not_or, Bool.not_eq_true', Bool.not_eq_false,
    Option.isSome_iff_exists] at hown
  obtain ⟨-, m, hm⟩ := hown
  rw [hm]
  exact Or.inr ⟨m, rfl, Bool.not_eq_true _ ▸ htaken, rfl⟩

theorem decideCase_cases (s : ShelterState) (cfg : ShelterConfig) (A : Auth) (W : World)
    (r : ShelterRecordV1) :
    (∃ e, s.decideCase cfg A W r = (.error e, s)) ∨
      ∃ m, s.decideCase cfg A W r = (.ok (), s.accused cfg A W r m) ∧ r.subject ≠ cfg.moderator ∧
        (s.members.get r.subject <|> s.left.get r.subject) = some m := by
  unfold decideCase
  by_cases hsigner : r.signer ≠ cfg.moderator
  · exact Or.inl ⟨_, if_pos hsigner⟩
  by_cases hmod : r.subject = cfg.moderator
  · exact Or.inl ⟨_, (if_neg hsigner).trans (if_pos hmod)⟩
  by_cases hreason : (!reasonOk r.text) = true
  · exact Or.inl ⟨_, (if_neg hsigner).trans ((if_neg hmod).trans (if_pos hreason))⟩
  rw [if_neg hsigner, if_neg hmod, if_neg hreason]
  cases hm : (s.members.get r.subject <|> s.left.get r.subject) with
  | some m => exact Or.inr ⟨m, rfl, hmod, rfl⟩
  | none =>
    -- `remove` finds an entry in neither map
    obtain ⟨hin, hleft⟩ := orElse_eq_none hm
    refine Or.inl ⟨.refused "not a member".toList, ?_⟩
    simp only [Tree.remove_of_get_none hin, Tree.remove_of_get_none hleft]

theorem decideAppeal_cases (s : ShelterState) (cfg : ShelterConfig) (r : ShelterRecordV1) :
    (∃ e, s.decideAppeal cfg r = (.error e, s)) ∨
      ∃ c, s.caseOf r.subject = some c ∧ c.appeal = none ∧
        (s.decideAppeal cfg r = (.ok (), s.answered r c) ∧ r.decision = "keep".toList ∨
          s.decideAppeal cfg r = (.ok (), (s.answered r c).restoreMember c.subject c.wasMember) ∧
            r.decision = "overturn".toList) := by
  unfold decideAppeal
  by_cases hsigner : r.signer ≠ cfg.moderator
  · exact Or.inl ⟨_, if_pos hsigner⟩
  by_cases hdec : r.decision ≠ "overturn".toList ∧ r.decision ≠ "keep".toList
  · exact Or.inl ⟨_, (if_neg hsigner).trans (if_pos hdec)⟩
  by_cases hreason : (!reasonOk r.text) = true
  · exact Or.inl ⟨_, (if_neg hsigner).trans ((if_neg hdec).trans (if_pos hreason))⟩
  rw [if_neg hsigner, if_neg hdec, if_neg hreason]
  cases hc : s.caseOf r.subject with
  | none => exact Or.inl ⟨_, rfl⟩
  | some c =>
    simp only
    by_cases hdecided : c.appeal.isSome = true
    · exact Or.inl ⟨_, if_pos hdecided⟩
    by_cases hlate : r.atMs > satAdd c.atMs shelterAppealMs
    · exact Or.inl ⟨_, (if_neg hdecided).trans (if_pos hlate)⟩
    rw [if_neg hdecided, if_neg hlate]
    refine Or.inr ⟨c, rfl, by simpa using hdecided, ?_⟩
    by_cases hover : r.decision = "overturn".toList
    · exact Or.inr ⟨if_pos hover, hover⟩
    · refine Or.inl ⟨if_neg hover, ?_⟩
      by_contra hkeep
      exact hdec ⟨hover, hkeep⟩

/-- **What a record does**: refused, it leaves the state as it is; accepted, it is a step. -/
theorem apply_cases (cfg : ShelterConfig) (A : Auth) (W : World) (s : ShelterState)
    {r : ShelterRecordV1} (hr : r.Signed) :
    (∃ e, s.apply cfg A W r = (.error e, s)) ∨
      ∃ s', s.apply cfg A W r = (.ok (), s') ∧ s.Step cfg A W r s' := by
  have hin : (r.action = .invite ∨ r.action = .vouch) →
      (∃ e, s.letIn cfg r = (.error e, s)) ∨
        ∃ s', s.letIn cfg r = (.ok (), s') ∧ s.Step cfg A W r s' := by
    intro kind
    rcases letIn_cases s cfg r with h | ⟨h, hgiver, hfresh, hclear, hroom⟩
    · exact Or.inl h
    · exact Or.inr ⟨_, h, .letsIn kind hgiver hfresh hclear hroom⟩
  unfold apply
  cases hkind : r.action with
  | invite => exact hin (Or.inl hkind)
  | vouch => exact hin (Or.inr hkind)
  | withdraw =>
    rcases withdraw_cases s cfg r with h | ⟨m, h, hmod, hm⟩
    · exact Or.inl h
    · exact Or.inr ⟨_, h, .leaves hkind m hmod hm⟩
  | nickname =>
    rcases setNickname_cases s hr with h | ⟨m, h, hfree, hm⟩
    · exact Or.inl h
    · exact Or.inr ⟨_, h, .names hkind m hfree hm⟩
  | decide =>
    rcases decideCase_cases s cfg A W r with h | ⟨m, h, hmod, hm⟩
    · exact Or.inl h
    · exact Or.inr ⟨_, h, .accuses hkind m hmod hm⟩
  | appeal =>
    rcases decideAppeal_cases s cfg r with h | ⟨c, hfound, hnone, ⟨h, hdec⟩ | ⟨h, hdec⟩⟩
    · exact Or.inl h
    · exact Or.inr ⟨_, h, .keeps hkind c hfound hnone hdec⟩
    · exact Or.inr ⟨_, h, .overturns hkind c hfound hnone hdec⟩

theorem apply_of_ok (h : (s.apply cfg A W r).1 = .ok ()) :
    s.apply cfg A W r = (.ok (), (s.apply cfg A W r).2) := Prod.ext h rfl

end ShelterState

/-- `replay`. -/
def replay (A : Auth) (W : World) (cfg : ShelterConfig) (records : List ShelterRecordV1) :
    ShelterState :=
  records.foldl (fun s r => (s.apply cfg A W r).2) (ShelterState.new cfg)

end TetCore.Tmail
