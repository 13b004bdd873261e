import TetCore.Payouts.Grants

/-!
# The sponsor of file fees

`DemoSponsor` of `demo_sponsor.rs`: `record_upload` at an upload, `decide` on a sender's request,
`commit` once the fee is in the mempool. The limits of a day are counters keyed by texts that start
with the day: of a client (a hash under the salt of the day), of a sender, of all. The first request of
a day that comes to the counters draws a new salt and drops the counters of all other days.

* `countKey_inj`, `get_pruneBefore`: the keys of different days, clients and senders are different,
  and the counters of the day stay.
* `decide_state`: a decision leaves the records as they are, but for that.
* `decide_sponsors`: what a request that is sponsored has passed.
* `count_bumps`: the counters after a sponsorship.
-/

namespace TetCore.Payouts

open TetCore.Lib TetCore.Tmail

/-- `DAY_MS`. -/
def dayMs : Nat := 86400000

/-- `REQUEST_SKEW_MS`. -/
def requestSkewMs : Nat := 5 * 60000

/-- `SponsorFeeRequestV1`. -/
structure SponsorFeeRequestV1 where
  fileId : Str
  senderWalletId : Str
  requestedAtMs : Nat
  hybridSig : HybridSigV1
  deriving DecidableEq

/-- `Refusal`. -/
inductive Refusal where
  | noSponsor
  | badRequest (why : String)
  | badSignature
  | staleRequest
  | notSponsorable
  | dailyCapIp
  | dailyCapWallet
  | dailyCapGlobal
  | sponsorLow
  | submit (why : String)
  deriving DecidableEq

/-- `demo_sponsor::Caps`. -/
structure SponsorCaps where
  perClient : Nat
  perWallet : Nat
  global : Nat
  floorMicro : Nat
  /-- The counters and their caps are of type `u32`. -/
  counts_u32 : perClient < 2 ^ 32 ∧ perWallet < 2 ^ 32 ∧ global < 2 ^ 32

/-- The sponsor wallet, its caps, and what the sponsor takes from outside. -/
structure DemoSponsor where
  auth : Auth
  world : World
  walletId : Str
  caps : SponsorCaps
  /-- `Uuid::parse_str` succeeds. -/
  isUuid : Str → Bool
  /-- `verify_mldsa44_b64` on key, signature and message. -/
  verifyMldsa44B64 : Str → Str → Bytes → Except String Unit
  /-- `sign_file_fee`: the signatures of the sponsor wallet on a transaction. -/
  sign : TxV1 → Except String HybridSigV1

/-- The trees of the sponsor, and the day and salt in memory. -/
structure SponsorState where
  uploaded : Tree Str Str
  sponsored : Tree Str Unit
  counts : Tree Str Nat
  salt : Nat × Bytes

/-- A new database. -/
def SponsorState.new (fresh : Bytes) : SponsorState :=
  ⟨Tree.empty, Tree.empty, Tree.empty, (0, fresh)⟩

/-- What `commit` records. -/
structure SponsorCommit where
  fileId : Str
  keys : List Str
  deriving DecidableEq

/-! ## Counters -/

/-- `{day:010}`. -/
def paddedDay (day : Nat) : Str :=
  List.replicate (10 - (Json.decimal day).length) '0' ++ Json.decimal day

/-- The key of a counter: the day, and what is counted. -/
def countKey (day : Nat) (what : Str) : Str := paddedDay day ++ '|' :: what

/-- What is counted of a client. -/
def clientPart (hash : Str) : Str := "c|".toList ++ hash

/-- What is counted of a sender. -/
def walletPart (sender : Str) : Str := "w|".toList ++ sender

/-- What is counted of all. -/
def globalPart : Str := "g".toList

/-- `prune_before`: every counter goes whose key does not start with the day. -/
def pruneBefore (day : Nat) (counts : Tree Str Nat) : Tree Str Nat :=
  ((counts.iter.map Prod.fst).filter fun k => !(paddedDay day ++ ['|']).isPrefixOf k).foldl
    (fun t k => t.remove k) counts

namespace SponsorState

/-- `count`. -/
def count (s : SponsorState) (key : Str) : Nat := (s.counts.get key).getD 0

/-- `bump`, on a `u32`. -/
def bump (s : SponsorState) (key : Str) : SponsorState :=
  { s with counts := s.counts.insert key (min (s.count key + 1) (2 ^ 32 - 1)) }

/-- `record_upload`. -/
def recordUpload (s : SponsorState) (fileId senderWalletId : Str) : SponsorState :=
  { s with uploaded := s.uploaded.insert (trim fileId) (trimLower senderWalletId) }

/-- What `client_hash` does to the state: on a new day a fresh salt, and the pruning. -/
def saltFor (s : SponsorState) (day : Nat) (fresh : Bytes) : SponsorState :=
  if s.salt.1 = day then s
  else { s with salt := (day, fresh), counts := pruneBefore day s.counts }

/-- The hash of a client under the salt. -/
def clientHash (W : World) (s : SponsorState) (clientKey : Str) : Str :=
  W.sha256Hex (s.salt.2 ++ utf8 clientKey)

/-- `commit`. -/
def commit (s : SponsorState) (c : SponsorCommit) : SponsorState :=
  c.keys.foldl bump { s with sponsored := s.sponsored.insert c.fileId () }

end SponsorState

/-! ## Decisions -/

/-- `sponsor_request_auth_message_bytes`. -/
def sponsorRequestAuthMessageBytes (A : Auth) (fileId senderWalletId : Str) (requestedAtMs : Nat)
    (mldsaPubkeyB64 : Str) : Bytes :=
  utf8 (A.header "tet demo sponsor fee v1".toList ++ "|file_id=".toList ++ trim fileId ++
    "|sender=".toList ++ trimLower senderWalletId ++ "|requested_at_ms=".toList ++
    Json.decimal requestedAtMs ++ "|mldsa_pk=".toList ++ trim mldsaPubkeyB64)

section Sponsor

variable (S : DemoSponsor)

/-- `verify_request_signature`. -/
def DemoSponsor.verifyRequestSignature (req : SponsorFeeRequestV1) : Except Refusal Unit := do
  let sender := trimLower req.senderWalletId
  require (trimLower req.hybridSig.ed25519PubkeyHex = sender) .badSignature
  let msg := sponsorRequestAuthMessageBytes S.auth req.fileId sender req.requestedAtMs
    req.hybridSig.mldsaPubkeyB64
  (S.auth.verifyEd25519 sender req.hybridSig.ed25519SigB64 msg).mapError fun _ => .badSignature
  (S.verifyMldsa44B64 req.hybridSig.mldsaPubkeyB64 req.hybridSig.mldsaSigB64 msg).mapError
    fun _ => .badSignature

/-- The checks of `decide` before the counters: the request, and the file. -/
def DemoSponsor.requestChecks (s : SponsorState) (req : SponsorFeeRequestV1) (nowMs : Nat)
    (fileSender : Option Str) : Except Refusal Unit := do
  require (S.isUuid (trim req.fileId) = true) (.badRequest "file_id must be a UUID")
  let sender := trimLower req.senderWalletId
  require (isHex64 sender = true) (.badRequest "sender_wallet_id must be 64 hex")
  S.verifyRequestSignature req
  require (absDiff nowMs req.requestedAtMs ≤ requestSkewMs) .staleRequest
  require (s.uploaded.get (trim req.fileId) = some sender ∧ fileSender.map trimLower = some sender ∧
    s.sponsored.get (trim req.fileId) = none) .notSponsorable

/-- The keys a request is counted under. -/
def DemoSponsor.countKeys (s : SponsorState) (day : Nat) (clientKey sender : Str) :
    Str × Str × Str :=
  (countKey day (clientPart (s.clientHash S.world clientKey)), countKey day (walletPart sender),
    countKey day globalPart)

/-- The checks of `decide` from the counters on. -/
def DemoSponsor.capChecks (s : SponsorState) (keys : Str × Str × Str)
    (sponsorSpendableMicro : Nat) : Except Refusal Unit := do
  require (s.count keys.1 < S.caps.perClient) .dailyCapIp
  require (s.count keys.2.1 < S.caps.perWallet) .dailyCapWallet
  require (s.count keys.2.2 < S.caps.global) .dailyCapGlobal
  require (satAdd S.caps.floorMicro fileFeeMicro ≤ sponsorSpendableMicro) .sponsorLow

/-- `sign_file_fee`. -/
def DemoSponsor.signFileFee (fileId : Str) : Except String SignedTxEnvelopeV1 := do
  let sig ← S.sign (.fileFee S.walletId S.world.localNodeId fileId fileFeeMicro)
  .ok ⟨1, .fileFee S.walletId S.world.localNodeId fileId fileFeeMicro, sig, ⟨[], []⟩⟩

/-- `decide`. `fresh` is the salt drawn if the day is new. -/
def DemoSponsor.decide (s : SponsorState) (req : SponsorFeeRequestV1) (clientKey : Str)
    (nowMs sponsorSpendableMicro : Nat) (fileSender : Option Str) (fresh : Bytes) :
    Except Refusal (SignedTxEnvelopeV1 × SponsorCommit) × SponsorState :=
  match S.requestChecks s req nowMs fileSender with
  | .error r => (.error r, s)
  | .ok _ =>
    let s := s.saltFor (nowMs / dayMs) fresh
    let keys := S.countKeys s (nowMs / dayMs) clientKey (trimLower req.senderWalletId)
    (do
      S.capChecks s keys sponsorSpendableMicro
      let env ← (S.signFileFee (trim req.fileId)).mapError .submit
      .ok (env, ⟨trim req.fileId, [keys.1, keys.2.1, keys.2.2]⟩), s)

end Sponsor

/-! ## Keys -/

theorem ofDigitChars_zeros (l : Str) : ∀ n,
    Nat.ofDigitChars 10 (List.replicate n '0' ++ l) 0 = Nat.ofDigitChars 10 l 0 := by
  intro n
  induction n with
  | zero => rfl
  | succ n ih =>
    rw [List.replicate_succ, List.cons_append]
    exact ih

theorem paddedDay_inj {d e : Nat} (h : paddedDay d = paddedDay e) : d = e := by
  have hval := congrArg (fun ds => Nat.ofDigitChars 10 ds 0) h
  simp only [paddedDay, ofDigitChars_zeros, Json.decimal, Nat.ofDigitChars_ten_toDigits] at hval
  exact hval

theorem notMem_paddedDay (d : Nat) : '|' ∉ paddedDay d := by
  intro h
  rcases List.mem_append.mp h with h | h
  · exact absurd (List.eq_of_mem_replicate h) (by decide)
  · exact Json.notMem_decimal (by decide) h

/-- **Keys of counters** differ in the day or in what is counted. -/
theorem countKey_inj {d e : Nat} {x y : Str} (h : countKey d x = countKey e y) : d = e ∧ x = y := by
  obtain ⟨hday, hpart⟩ := cut_unique (notMem_paddedDay d) (notMem_paddedDay e) h
  exact ⟨paddedDay_inj hday, hpart⟩

/-- A key starts with its own day only. -/
theorem isPrefixOf_countKey (d e : Nat) (x : Str) :
    (paddedDay d ++ ['|']).isPrefixOf (countKey e x) = true ↔ d = e := by
  rw [List.isPrefixOf_iff_prefix]
  constructor
  · rintro ⟨rest, hrest⟩
    rw [List.append_assoc] at hrest
    exact (countKey_inj (x := rest) hrest).1
  · rintro rfl
    exact ⟨x, List.append_assoc _ _ _⟩

/-- The pruning leaves the counters of the day, and no other. -/
theorem get_pruneBefore (day d : Nat) (x : Str) (counts : Tree Str Nat) :
    (pruneBefore day counts).get (countKey d x) =
      if d = day then counts.get (countKey d x) else none := by
  unfold pruneBefore
  rw [Tree.get_foldl_remove]
  have hkey : (paddedDay day ++ ['|']).isPrefixOf (countKey d x) = true ↔ d = day :=
    (isPrefixOf_countKey day d x).trans eq_comm
  have hmem : countKey d x ∈ (counts.iter.map Prod.fst).filter
      (fun k => !(paddedDay day ++ ['|']).isPrefixOf k) ↔
        countKey d x ∈ counts.iter.map Prod.fst ∧ d ≠ day := by
    rw [List.mem_filter, Bool.not_eq_true', ← Bool.not_eq_true, hkey]
  by_cases hd : d = day
  · rw [if_pos hd, if_neg fun h => (hmem.mp h).2 hd]
  · rw [if_neg hd]
    by_cases hin : countKey d x ∈ counts.iter.map Prod.fst
    · rw [if_pos (hmem.mpr ⟨hin, hd⟩)]
    · rw [if_neg fun h => hin (hmem.mp h).1]
      cases hget : counts.get (countKey d x) with
      | none => rfl
      | some v => exact absurd (List.mem_map_of_mem (Tree.mem_iter.mpr hget)) hin

/-! ## The state -/

namespace SponsorState

variable {s : SponsorState} {day d : Nat} {fresh : Bytes} {x : Str}

@[simp] theorem saltFor_uploaded : (s.saltFor day fresh).uploaded = s.uploaded := by
  unfold saltFor
  split <;> rfl

@[simp] theorem saltFor_sponsored : (s.saltFor day fresh).sponsored = s.sponsored := by
  unfold saltFor
  split <;> rfl

@[simp] theorem saltFor_day : (s.saltFor day fresh).salt.1 = day := by
  unfold saltFor
  split
  · assumption
  · rfl

/-- A counter of the day stays, another may go. -/
theorem get_saltFor (s : SponsorState) (day d : Nat) (fresh : Bytes) (x : Str) :
    (s.saltFor day fresh).counts.get (countKey d x) =
      if s.salt.1 = day ∨ d = day then s.counts.get (countKey d x) else none := by
  unfold saltFor
  by_cases hsalt : s.salt.1 = day
  · rw [if_pos hsalt, if_pos (Or.inl hsalt)]
  · rw [if_neg hsalt]
    show (pruneBefore day s.counts).get (countKey d x) = _
    rw [get_pruneBefore]
    by_cases hd : d = day
    · rw [if_pos hd, if_pos (Or.inr hd)]
    · rw [if_neg hd, if_neg fun h => hd (h.resolve_left hsalt)]

theorem count_bump (s : SponsorState) (k a : Str) :
    (s.bump k).count a = if k = a then min (s.count a + 1) (2 ^ 32 - 1) else s.count a := by
  show ((s.counts.insert k _).get a).getD 0 = _
  rw [Tree.get_insert]
  by_cases h : k = a
  · subst h
    rw [if_pos rfl, if_pos rfl]
    rfl
  · rw [if_neg h, if_neg h]
    rfl

/-- Bumping different counters that have room adds one to each. -/
theorem count_bumps : ∀ (keys : List Str) (s : SponsorState) (a : Str), keys.Nodup →
    (∀ k ∈ keys, s.count k < 2 ^ 32 - 1) →
    (keys.foldl bump s).count a = s.count a + if a ∈ keys then 1 else 0 := by
  intro keys
  induction keys with
  | nil =>
    intro s a _ _
    rfl
  | cons k keys ih =>
    intro s a hnodup hroom
    obtain ⟨hk, hnodup⟩ := List.nodup_cons.mp hnodup
    rw [List.foldl_cons, ih (s.bump k) a hnodup]
    · rw [count_bump]
      have hlt := hroom k List.mem_cons_self
      by_cases hka : k = a
      · subst hka
        rw [if_pos rfl, if_neg hk, if_pos List.mem_cons_self]
        omega
      · rw [if_neg hka]
        have hmem : a ∈ k :: keys ↔ a ∈ keys :=
          List.mem_cons.trans ⟨fun h => h.resolve_left fun he => hka he.symm, Or.inr⟩
        simp only [hmem]
    · intro k' hk'
      have hne : k ≠ k' := fun he => hk (he ▸ hk')
      rw [count_bump, if_neg hne]
      exact hroom k' (List.mem_cons_of_mem _ hk')

@[simp] theorem foldl_bump_uploaded : ∀ (keys : List Str) (s : SponsorState),
    (keys.foldl bump s).uploaded = s.uploaded := by
  intro keys
  induction keys with
  | nil => exact fun _ => rfl
  | cons k keys ih => exact fun s => ih (s.bump k)

@[simp] theorem foldl_bump_sponsored : ∀ (keys : List Str) (s : SponsorState),
    (keys.foldl bump s).sponsored = s.sponsored := by
  intro keys
  induction keys with
  | nil => exact fun _ => rfl
  | cons k keys ih => exact fun s => ih (s.bump k)

@[simp] theorem foldl_bump_salt : ∀ (keys : List Str) (s : SponsorState),
    (keys.foldl bump s).salt = s.salt := by
  intro keys
  induction keys with
  | nil => exact fun _ => rfl
  | cons k keys ih => exact fun s => ih (s.bump k)

end SponsorState

/-- The keys of a sponsorship. -/
def sponsorKeys (day : Nat) (hash sender : Str) : List Str :=
  [countKey day (clientPart hash), countKey day (walletPart sender), countKey day globalPart]

theorem sponsorKeys_nodup (day : Nat) (hash sender : Str) : (sponsorKeys day hash sender).Nodup := by
  have hcw : clientPart hash ≠ walletPart sender := fun h =>
    absurd (List.cons.inj h).1 (by decide)
  have hcg : clientPart hash ≠ globalPart := fun h => absurd (List.cons.inj h).1 (by decide)
  have hwg : walletPart sender ≠ globalPart := fun h => absurd (List.cons.inj h).1 (by decide)
  unfold sponsorKeys
  rw [List.nodup_cons, List.nodup_cons, List.mem_cons, List.mem_singleton, List.mem_singleton]
  refine ⟨?_, fun h => hwg (countKey_inj h).2, List.nodup_singleton _⟩
  rintro (h | h)
  · exact hcw (countKey_inj h).2
  · exact hcg (countKey_inj h).2

theorem mem_sponsorKeys {day d : Nat} {hash sender x : Str} :
    countKey d x ∈ sponsorKeys day hash sender ↔
      d = day ∧ (x = clientPart hash ∨ x = walletPart sender ∨ x = globalPart) := by
  unfold sponsorKeys
  rw [List.mem_cons, List.mem_cons, List.mem_singleton]
  constructor
  · rintro (h | h | h)
    · exact ⟨(countKey_inj h).1, Or.inl (countKey_inj h).2⟩
    · exact ⟨(countKey_inj h).1, Or.inr (Or.inl (countKey_inj h).2)⟩
    · exact ⟨(countKey_inj h).1, Or.inr (Or.inr (countKey_inj h).2)⟩
  · rintro ⟨rfl, rfl | rfl | rfl⟩
    · exact Or.inl rfl
    · exact Or.inr (Or.inl rfl)
    · exact Or.inr (Or.inr rfl)

/-! ## What a decision does -/

section Decisions

variable {S : DemoSponsor} {s : SponsorState} {req : SponsorFeeRequestV1} {clientKey : Str}
  {nowMs spendable : Nat} {fileSender : Option Str} {fresh : Bytes} {env : SignedTxEnvelopeV1}
  {c : SponsorCommit}

/-- A decision changes nothing, or draws the salt of the day. -/
theorem decide_state (S : DemoSponsor) (s : SponsorState) (req : SponsorFeeRequestV1)
    (clientKey : Str) (nowMs spendable : Nat) (fileSender : Option Str) (fresh : Bytes) :
    (∃ r, (S.decide s req clientKey nowMs spendable fileSender fresh) = (.error r, s)) ∨
      (S.decide s req clientKey nowMs spendable fileSender fresh).2 =
        s.saltFor (nowMs / dayMs) fresh := by
  unfold DemoSponsor.decide
  split
  · exact Or.inl ⟨_, rfl⟩
  · exact Or.inr rfl

/-- What a sponsorship has passed: the sender uploaded the file here and it is not sponsored, the
counters of the day are below the caps, the sponsor stays above its floor; and the transaction is the
fee of the file. -/
structure Sponsored (S : DemoSponsor) (s : SponsorState) (day : Nat) (clientKey fileId sender : Str)
    (spendable : Nat) (env : SignedTxEnvelopeV1) (c : SponsorCommit) : Prop where
  uploaded : s.uploaded.get fileId = some sender
  sponsored : s.sponsored.get fileId = none
  client : s.count (countKey day (clientPart (s.clientHash S.world clientKey))) < S.caps.perClient
  wallet : s.count (countKey day (walletPart sender)) < S.caps.perWallet
  all : s.count (countKey day globalPart) < S.caps.global
  floor : satAdd S.caps.floorMicro fileFeeMicro ≤ spendable
  commit : c = ⟨fileId, sponsorKeys day (s.clientHash S.world clientKey) sender⟩
  fee : env.tx = .fileFee S.walletId S.world.localNodeId fileId fileFeeMicro

theorem signFileFee_tx {fileId : Str} (h : S.signFileFee fileId = .ok env) :
    env.tx = .fileFee S.walletId S.world.localNodeId fileId fileFeeMicro := by
  simp only [DemoSponsor.signFileFee, bind_eq_ok] at h
  obtain ⟨sig, -, h⟩ := h
  cases h
  rfl

/-- **A request that is sponsored** has passed every check, in the state with the salt of the day. -/
theorem decide_sponsors
    (h : (S.decide s req clientKey nowMs spendable fileSender fresh).1 = .ok (env, c)) :
    (S.decide s req clientKey nowMs spendable fileSender fresh).2 =
        s.saltFor (nowMs / dayMs) fresh ∧
      Sponsored S (s.saltFor (nowMs / dayMs) fresh) (nowMs / dayMs) clientKey (trim req.fileId)
        (trimLower req.senderWalletId) spendable env c := by
  unfold DemoSponsor.decide at h ⊢
  cases hreq : S.requestChecks s req nowMs fileSender with
  | error r =>
    rw [hreq] at h
    cases h
  | ok u =>
    rw [hreq] at h
    refine ⟨rfl, ?_⟩
    simp only [DemoSponsor.requestChecks, bind_eq_ok, require_eq_ok] at hreq
    obtain ⟨-, -, -, -, -, -, -, -, huploaded, -, hsponsored⟩ := hreq
    simp only [bind_eq_ok, DemoSponsor.capChecks, require_eq_ok] at h
    obtain ⟨-, ⟨-, hclient, -, hwallet, -, hall, hfloor⟩, env', hsign, h⟩ := h
    cases hfee : S.signFileFee (trim req.fileId) with
    | error e =>
      rw [hfee] at hsign
      cases hsign
    | ok env'' =>
      rw [hfee] at hsign
      cases hsign
      cases h
      exact ⟨by rw [SponsorState.saltFor_uploaded]; exact huploaded,
        by rw [SponsorState.saltFor_sponsored]; exact hsponsored, hclient, hwallet, hall, hfloor,
        rfl, signFileFee_tx hfee⟩

end Decisions

end TetCore.Payouts
