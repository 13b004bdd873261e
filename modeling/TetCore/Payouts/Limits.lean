import TetCore.Payouts.Sponsor

/-!
# The limits of grants and sponsorships

Runs of `post_grants_welcome` and `post_demo_sponsor_fee`. A handler holds its payer's `decide_lock`
from before it decides until after it commits, and in between are a decision, a submission that the
mempool accepts or not, and the record of what was accepted; the steps of the two handlers, uploads
and restarts come in any order. `PayHistory` is what was handed over and uploaded, with the clock and
the number of the process.

`payout_limits`: no run hands over more than the limits allow, and a request that is refused or fails
changes no record, but that the first decision of a day drops the counters of other days.
`refused_drops_counters` is such a request.
-/

namespace TetCore.Payouts

open TetCore.Lib TetCore.Tmail

/-- A fee that was handed over: the file, its sender, the client, the day and the process. -/
structure Fee where
  fileId : Str
  sender : Str
  client : Str
  day : Nat
  process : Nat
  deriving DecidableEq

/-- Where the holder of the grant payer's lock is. -/
inductive GrantPhase where
  | idle
  | decided (env : SignedTxEnvelopeV1) (g : GrantCommit)
  | accepted (g : GrantCommit)

/-- Where the holder of the sponsor's lock is. -/
inductive SponsorPhase where
  | idle
  | decided (env : SignedTxEnvelopeV1) (fee : Fee) (c : SponsorCommit)
  | accepted (fee : Fee) (c : SponsorCommit)

/-- The two payers. -/
structure Payers where
  grants : GrantRecords
  grantPhase : GrantPhase
  sponsor : SponsorState
  sponsorPhase : SponsorPhase

/-- What was handed over, and to whom uploads belong. -/
structure PayHistory where
  grants : List GrantCommit
  fees : List Fee
  uploads : List (Str × Str)
  clock : Nat
  process : Nat

/-- A step of a handler, an upload or a restart. -/
inductive PayAction where
  | claim (c : GrantClaimV1) (store : GrantStore) (nowMs spendable : Nat)
  | claimSubmitted (accepted : Bool)
  | claimRecorded
  | request (req : SponsorFeeRequestV1) (clientKey : Str) (nowMs spendable : Nat)
      (fileSender : Option Str) (fresh : Bytes)
  | requestSubmitted (accepted : Bool)
  | requestRecorded
  | upload (fileId senderWalletId : Str)
  | restart (fresh : Bytes)

section Steps

variable (P : GrantPayer) (S : DemoSponsor)

/-- `post_grants_welcome` up to the decision, once it has the lock. -/
def Payers.claim (p : Payers) (c : GrantClaimV1) (store : GrantStore) (nowMs spendable : Nat) :
    Payers :=
  match p.grantPhase with
  | .idle =>
    match P.decide p.grants c store nowMs spendable with
    | .error _ => p
    | .ok (env, g) => { p with grantPhase := .decided env g }
  | _ => p

/-- `submit_local_tx` of the transfer; a failure ends the claim. -/
def Payers.claimSubmitted (p : Payers) (accepted : Bool) : Payers :=
  match p.grantPhase with
  | .decided _ g => { p with grantPhase := if accepted then .accepted g else .idle }
  | _ => p

/-- `GrantPayer::commit`. -/
def Payers.claimRecorded (p : Payers) : Payers :=
  match p.grantPhase with
  | .accepted g => { p with grants := p.grants.commit g, grantPhase := .idle }
  | _ => p

/-- `post_demo_sponsor_fee` up to the decision, once it has the lock. -/
def Payers.request (p : Payers) (process : Nat) (req : SponsorFeeRequestV1) (clientKey : Str)
    (nowMs spendable : Nat) (fileSender : Option Str) (fresh : Bytes) : Payers :=
  match p.sponsorPhase with
  | .idle =>
    let r := S.decide p.sponsor req clientKey nowMs spendable fileSender fresh
    match r.1 with
    | .error _ => { p with sponsor := r.2 }
    | .ok (env, c) => { p with
        sponsor := r.2
        sponsorPhase := .decided env
          ⟨trim req.fileId, trimLower req.senderWalletId, clientKey, nowMs / dayMs, process⟩ c }
  | _ => p

/-- `submit_local_tx` of the fee. -/
def Payers.requestSubmitted (p : Payers) (accepted : Bool) : Payers :=
  match p.sponsorPhase with
  | .decided _ fee c => { p with sponsorPhase := if accepted then .accepted fee c else .idle }
  | _ => p

/-- `DemoSponsor::commit`. -/
def Payers.requestRecorded (p : Payers) : Payers :=
  match p.sponsorPhase with
  | .accepted _ c => { p with sponsor := p.sponsor.commit c, sponsorPhase := .idle }
  | _ => p

/-- A restart while no handler runs: the trees stay, the salt is forgotten. -/
def Payers.restart (p : Payers) (fresh : Bytes) : Payers :=
  match p.grantPhase, p.sponsorPhase with
  | .idle, .idle => { p with sponsor := { p.sponsor with salt := (0, fresh) } }
  | _, _ => p

/-- One step, in the process of a number. -/
def PayAction.step (process : Nat) (p : Payers) : PayAction → Payers
  | .claim c store nowMs spendable => p.claim P c store nowMs spendable
  | .claimSubmitted accepted => p.claimSubmitted accepted
  | .claimRecorded => p.claimRecorded
  | .request req clientKey nowMs spendable fileSender fresh =>
    p.request S process req clientKey nowMs spendable fileSender fresh
  | .requestSubmitted accepted => p.requestSubmitted accepted
  | .requestRecorded => p.requestRecorded
  | .upload fileId sender => { p with sponsor := p.sponsor.recordUpload fileId sender }
  | .restart fresh => p.restart fresh

end Steps

/-- What a step hands over. -/
def PayHistory.after (h : PayHistory) (p : Payers) : PayAction → PayHistory
  | .claim _ _ nowMs _ => { h with clock := nowMs }
  | .claimSubmitted true =>
    match p.grantPhase with
    | .decided _ g => { h with grants := g :: h.grants }
    | _ => h
  | .request _ _ nowMs _ _ _ => { h with clock := nowMs }
  | .requestSubmitted true =>
    match p.sponsorPhase with
    | .decided _ fee _ => { h with fees := fee :: h.fees }
    | _ => h
  | .upload fileId sender => { h with uploads := (trim fileId, trimLower sender) :: h.uploads }
  | .restart _ =>
    match p.grantPhase, p.sponsorPhase with
    | .idle, .idle => { h with process := h.process + 1 }
    | _, _ => h
  | _ => h

/-- The clock of a step does not go back. -/
def PayHistory.InTime (h : PayHistory) : PayAction → Prop
  | .claim _ _ nowMs _ => h.clock ≤ nowMs
  | .request _ _ nowMs _ _ _ => h.clock ≤ nowMs
  | _ => True

/-- A node with new databases. -/
def Payers.new (fresh : Bytes) : Payers := ⟨.new, .idle, .new fresh, .idle⟩

/-- The payers and histories that steps lead to. -/
inductive PayRun (P : GrantPayer) (S : DemoSponsor) : Payers → PayHistory → Prop where
  | start (fresh : Bytes) : PayRun P S (.new fresh) ⟨[], [], [], 0, 0⟩
  | step {p : Payers} {h : PayHistory} (a : PayAction) (before : PayRun P S p h)
      (clock : h.InTime a) : PayRun P S (a.step P S h.process p) (h.after p a)

/-- **The limits**, over everything handed over. -/
structure WithinLimits (S : DemoSponsor) (h : PayHistory) : Prop where
  grants : h.grants.length ≤ welcomeCap
  nullifiers : (h.grants.map GrantCommit.nullifierHex).Nodup
  wallets : (h.grants.map GrantCommit.payoutWallet).Nodup
  files : (h.fees.map Fee.fileId).Nodup
  uploaded : ∀ fee ∈ h.fees, (fee.fileId, fee.sender) ∈ h.uploads
  perWallet : ∀ day sender, h.fees.countP (fun fee => fee.day = day ∧ fee.sender = sender) ≤
    S.caps.perWallet
  all : ∀ day, h.fees.countP (fun fee => fee.day = day) ≤ S.caps.global
  perClient : ∀ process day client, h.fees.countP (fun fee => fee.process = process ∧
    fee.day = day ∧ fee.client = client) ≤ S.caps.perClient

/-- The records of the payers are the same, but that counters of days other than `day` may be gone. -/
structure SameRecords (day : Nat) (p p' : Payers) : Prop where
  grants : p'.grants = p.grants
  uploaded : p'.sponsor.uploaded = p.sponsor.uploaded
  sponsored : p'.sponsor.sponsored = p.sponsor.sponsored
  counts : ∀ d x, p'.sponsor.counts.get (countKey d x) = p.sponsor.counts.get (countKey d x) ∨
    d ≠ day ∧ p'.sponsor.counts.get (countKey d x) = none

/-- The step records: an upload, or a payout that was accepted. -/
def PayAction.Records (p : Payers) : PayAction → Prop
  | .claimRecorded => ∃ g, p.grantPhase = .accepted g
  | .requestRecorded => ∃ fee c, p.sponsorPhase = .accepted fee c
  | .upload _ _ => True
  | _ => False

/-- The day of a sponsor's decision; the other steps keep the counters of all days. -/
def PayAction.day : PayAction → Nat
  | .request _ _ nowMs _ _ _ => nowMs / dayMs
  | _ => 0

/-! ## Grants -/

section Grants

variable {P : GrantPayer} {S : DemoSponsor} {p : Payers} {h : PayHistory} {a : PayAction}

/-- What was accepted and is not recorded yet. -/
def GrantPhase.pending : GrantPhase → List GrantCommit
  | .accepted g => [g]
  | _ => []

/-- The grants handed over are those recorded, and the one accepted since. -/
structure GrantInv (G : GrantRecords) (phase : GrantPhase) (grants : List GrantCommit) : Prop where
  recorded : ∃ rest, grants = phase.pending ++ rest ∧ G.granted = rest.length ∧
    ∀ g ∈ rest, G.claims.get g.nullifierHex ≠ none ∧ G.paid.get g.payoutWallet ≠ none
  cap : grants.length ≤ welcomeCap
  nullifiers : (grants.map GrantCommit.nullifierHex).Nodup
  wallets : (grants.map GrantCommit.payoutWallet).Nodup
  decided : ∀ env g, phase = .decided env g → G.claims.get g.nullifierHex = none ∧
    G.paid.get g.payoutWallet = none ∧ G.granted < welcomeCap

theorem GrantInv.idle {G : GrantRecords} {phase : GrantPhase} {grants : List GrantCommit}
    (hi : GrantInv G phase grants) (hp : phase.pending = []) : GrantInv G .idle grants := by
  obtain ⟨rest, heq, hrest⟩ := hi.recorded
  rw [hp] at heq
  exact ⟨⟨rest, heq, hrest⟩, hi.cap, hi.nullifiers, hi.wallets, fun _ _ h => by cases h⟩

/-- A transfer that is accepted is within the limits. -/
theorem GrantInv.accept {G : GrantRecords} {env : SignedTxEnvelopeV1} {g : GrantCommit}
    {grants : List GrantCommit} (hi : GrantInv G (.decided env g) grants) :
    GrantInv G (.accepted g) (g :: grants) := by
  obtain ⟨rest, heq, hlen, hrest⟩ := hi.recorded
  obtain ⟨hclaims, hpaid, hcap⟩ := hi.decided env g rfl
  rw [show (GrantPhase.decided env g).pending = [] from rfl, List.nil_append] at heq
  subst heq
  refine ⟨⟨grants, rfl, hlen, hrest⟩, by rw [List.length_cons]; omega, ?_, ?_,
    fun _ _ h => by cases h⟩
  · rw [List.map_cons, List.nodup_cons]
    refine ⟨fun hmem => ?_, hi.nullifiers⟩
    obtain ⟨g', hg', he⟩ := List.mem_map.mp hmem
    exact (hrest g' hg').1 (he ▸ hclaims)
  · rw [List.map_cons, List.nodup_cons]
    refine ⟨fun hmem => ?_, hi.wallets⟩
    obtain ⟨g', hg', he⟩ := List.mem_map.mp hmem
    exact (hrest g' hg').2 (he ▸ hpaid)

/-- Recording it. -/
theorem GrantInv.record {G : GrantRecords} {g : GrantCommit} {grants : List GrantCommit}
    (hi : GrantInv G (.accepted g) grants) : GrantInv (G.commit g) .idle grants := by
  obtain ⟨rest, heq, hlen, hrest⟩ := hi.recorded
  have hcap := hi.cap
  rw [heq] at hcap
  have hsome : ∀ {V : Type} (t : Tree Str V) (k a : Str) (v : V), t.get a ≠ none →
      (t.insert k v).get a ≠ none := by
    intro V t k a v ha
    rw [Tree.get_insert]
    split
    · exact Option.some_ne_none v
    · exact ha
  refine ⟨⟨grants, rfl, ?_, fun g' hg' => ?_⟩, hi.cap, hi.nullifiers, hi.wallets,
    fun _ _ h => by cases h⟩
  · have hle : rest.length + 1 ≤ u64Max := by
      rw [GrantPhase.pending, List.singleton_append, List.length_cons] at hcap
      exact hcap.trans (by decide)
    show satAdd G.granted 1 = grants.length
    rw [hlen, satAdd_of_le hle, heq]
    rfl
  · rw [heq] at hg'
    rcases List.mem_cons.mp hg' with rfl | hg'
    · constructor
      · show (G.claims.insert _ _).get _ ≠ none
        rw [Tree.get_insert_self]
        exact Option.some_ne_none _
      · show (G.paid.insert _ _).get _ ≠ none
        rw [Tree.get_insert_self]
        exact Option.some_ne_none _
    · exact ⟨hsome _ _ _ _ (hrest g' hg').1, hsome _ _ _ _ (hrest g' hg').2⟩

/-- One step keeps the grants within the limits. -/
theorem GrantInv.step {process : Nat} (hi : GrantInv p.grants p.grantPhase h.grants) :
    GrantInv (a.step P S process p).grants (a.step P S process p).grantPhase (h.after p a).grants := by
  cases a with
  | claim c store nowMs spendable =>
    show GrantInv (p.claim P c store nowMs spendable).grants _ h.grants
    simp only [PayAction.step, Payers.claim]
    split
    · rename_i hidle
      cases hd : P.decide p.grants c store nowMs spendable with
      | error r => exact hi
      | ok r =>
        obtain ⟨env, g⟩ := r
        have hpassed := decide_ok hd
        obtain ⟨rest, heq, hrest⟩ := hi.recorded
        rw [hidle] at heq
        refine ⟨⟨rest, heq, hrest⟩, hi.cap, hi.nullifiers, hi.wallets, fun env' g' h => ?_⟩
        cases h
        exact ⟨hpassed.nullifier, hpassed.wallet, hpassed.cap⟩
    · exact hi
  | claimSubmitted accepted =>
    simp only [PayAction.step, Payers.claimSubmitted]
    cases hphase : p.grantPhase with
    | idle =>
      rw [hphase] at hi
      cases accepted <;> simpa only [PayHistory.after, hphase] using hi
    | accepted g =>
      rw [hphase] at hi
      cases accepted <;> simpa only [PayHistory.after, hphase] using hi
    | decided env g =>
      rw [hphase] at hi
      cases accepted with
      | false => exact hi.idle rfl
      | true =>
        have hgrants : (h.after p (.claimSubmitted true)).grants = g :: h.grants := by
          simp only [PayHistory.after, hphase]
        rw [hgrants]
        exact hi.accept
  | claimRecorded =>
    show GrantInv p.claimRecorded.grants p.claimRecorded.grantPhase h.grants
    unfold Payers.claimRecorded
    cases hphase : p.grantPhase with
    | accepted g =>
      rw [hphase] at hi
      exact hi.record
    | _ => exact hi
  | request req clientKey nowMs spendable fileSender fresh =>
    show GrantInv (p.request S process req clientKey nowMs spendable fileSender fresh).grants
      (p.request S process req clientKey nowMs spendable fileSender fresh).grantPhase h.grants
    unfold Payers.request
    split
    · simp only
      split <;> exact hi
    · exact hi
  | requestSubmitted accepted =>
    have hsame : (h.after p (.requestSubmitted accepted)).grants = h.grants := by
      cases accepted with
      | false => rfl
      | true =>
        simp only [PayHistory.after]
        split <;> rfl
    rw [hsame]
    show GrantInv (p.requestSubmitted accepted).grants (p.requestSubmitted accepted).grantPhase _
    unfold Payers.requestSubmitted
    split <;> exact hi
  | requestRecorded =>
    show GrantInv p.requestRecorded.grants p.requestRecorded.grantPhase h.grants
    unfold Payers.requestRecorded
    split <;> exact hi
  | upload fileId sender => exact hi
  | restart fresh =>
    have hsame : (h.after p (.restart fresh)).grants = h.grants := by
      simp only [PayHistory.after]
      split <;> rfl
    rw [hsame]
    show GrantInv (p.restart fresh).grants (p.restart fresh).grantPhase _
    unfold Payers.restart
    split <;> exact hi

end Grants

/-! ## Sponsorships -/

section Sponsorships

variable {P : GrantPayer} {S : DemoSponsor} {p : Payers} {h : PayHistory} {a : PayAction}
  {s : SponsorState} {phase : SponsorPhase} {fees : List Fee} {uploads : List (Str × Str)}
  {process D : Nat}

/-- What was accepted and is not recorded yet. -/
def SponsorPhase.pending : SponsorPhase → List Fee
  | .accepted fee _ => [fee]
  | _ => []

/-- The fee is counted on the day under a part that stays over a restart. -/
def Fee.CountsFor (d : Nat) (x : Str) (fee : Fee) : Prop :=
  fee.day = d ∧ (x = walletPart fee.sender ∨ x = globalPart)

instance Fee.CountsFor.decidable (d : Nat) (x : Str) (fee : Fee) : Decidable (fee.CountsFor d x) :=
  inferInstanceAs (Decidable (_ ∧ _))

/-- The fee is of the process, the day and the client. -/
def Fee.OfClient (process d : Nat) (client : Str) (fee : Fee) : Prop :=
  fee.process = process ∧ fee.day = d ∧ fee.client = client

instance Fee.OfClient.decidable (process d : Nat) (client : Str) (fee : Fee) :
    Decidable (fee.OfClient process d client) := inferInstanceAs (Decidable (_ ∧ _))

/-- The counters of the day and later stand for the recorded fees, and the files of these are
marked. `D` is the day of the last decision that came to the counters. -/
structure Recorded (S : DemoSponsor) (s : SponsorState) (process D : Nat) (rest : List Fee) :
    Prop where
  sponsored : ∀ fee ∈ rest, s.sponsored.get fee.fileId ≠ none
  durable : ∀ d, D ≤ d → ∀ x, (∃ sender, x = walletPart sender) ∨ x = globalPart →
    s.count (countKey d x) = rest.countP (Fee.CountsFor d x)
  client : s.salt.1 = D → ∀ client, rest.countP (Fee.OfClient process D client) ≤
    s.count (countKey D (clientPart (s.clientHash S.world client)))

/-- The fee was decided on the day, in this process, under the salt of the day. -/
structure Fresh (S : DemoSponsor) (s : SponsorState) (process D : Nat) (fee : Fee)
    (c : SponsorCommit) : Prop where
  day : fee.day = D
  salt : s.salt.1 = D
  process : fee.process = process
  commit : c = ⟨fee.fileId, sponsorKeys D (s.clientHash S.world fee.client) fee.sender⟩
  client : s.count (countKey D (clientPart (s.clientHash S.world fee.client))) < S.caps.perClient
  wallet : s.count (countKey D (walletPart fee.sender)) < S.caps.perWallet
  all : s.count (countKey D globalPart) < S.caps.global

/-- The fees handed over are those recorded, and the one accepted since; they are within the limits,
and so is one that is decided. -/
structure SponsorInv (S : DemoSponsor) (s : SponsorState) (phase : SponsorPhase) (fees : List Fee)
    (uploads : List (Str × Str)) (process D : Nat) : Prop where
  recorded : ∃ rest, fees = phase.pending ++ rest ∧ Recorded S s process D rest
  files : (fees.map Fee.fileId).Nodup
  uploaded : ∀ fee ∈ fees, (fee.fileId, fee.sender) ∈ uploads
  durable : ∀ d x, fees.countP (Fee.CountsFor d (walletPart x)) ≤ S.caps.perWallet ∧
    fees.countP (Fee.CountsFor d globalPart) ≤ S.caps.global
  client : ∀ process d client, fees.countP (Fee.OfClient process d client) ≤ S.caps.perClient
  known : ∀ fileId sender, s.uploaded.get fileId = some sender → (fileId, sender) ∈ uploads
  days : ∀ fee ∈ fees, fee.day ≤ D
  processes : ∀ fee ∈ fees, fee.process ≤ process
  salt_le : s.salt.1 ≤ D
  unsalted : s.salt.1 ≠ D → ∀ fee ∈ fees, fee.process = process → fee.day ≠ D
  decided : ∀ env fee c, phase = .decided env fee c → Fresh S s process D fee c ∧
    (fee.fileId, fee.sender) ∈ uploads ∧ s.sponsored.get fee.fileId = none
  accepted : ∀ fee c, phase = .accepted fee c → Fresh S s process D fee c

theorem countP_zero {α : Type} {l : List α} {q : α → Prop} [DecidablePred q] (h : ∀ x ∈ l, ¬ q x) :
    l.countP q = 0 :=
  List.countP_eq_zero.mpr fun x hx hq => h x hx (of_decide_eq_true hq)

theorem countP_cons_add {α : Type} (q : α → Prop) [DecidablePred q] (x : α) (l : List α) :
    (x :: l).countP q = l.countP q + if q x then 1 else 0 := by
  rw [List.countP_cons]
  simp only [decide_eq_true_iff]

theorem SponsorInv.idle (hi : SponsorInv S s phase fees uploads process D)
    (hp : phase.pending = []) : SponsorInv S s .idle fees uploads process D := by
  obtain ⟨rest, heq, hrest⟩ := hi.recorded
  rw [hp] at heq
  exact { hi with
    recorded := ⟨rest, heq, hrest⟩
    decided := fun _ _ _ h => by cases h
    accepted := fun _ _ h => by cases h }

/-- The salt of a day is drawn. -/
theorem SponsorInv.salt {D' : Nat} (hi : SponsorInv S s .idle fees uploads process D) (hD : D ≤ D')
    (fresh : Bytes) :
    SponsorInv S (s.saltFor D' fresh) .idle fees uploads process D' := by
  obtain ⟨rest, heq, hrest⟩ := hi.recorded
  rw [show SponsorPhase.idle.pending = [] from rfl, List.nil_append] at heq
  subst heq
  have hcount : ∀ d x, (s.saltFor D' fresh).count (countKey d x) =
      if s.salt.1 = D' ∨ d = D' then s.count (countKey d x) else 0 := by
    intro d x
    unfold SponsorState.count
    rw [SponsorState.get_saltFor]
    split <;> rfl
  refine { hi with
    recorded := ⟨fees, rfl, ?_, ?_, ?_⟩
    known := fun id sender h => hi.known id sender (by simpa using h)
    days := fun fee hf => (hi.days fee hf).trans hD
    salt_le := (SponsorState.saltFor_day).le
    unsalted := fun h => absurd SponsorState.saltFor_day h
    decided := fun _ _ _ h => by cases h
    accepted := fun _ _ h => by cases h }
  · intro fee hf
    rw [SponsorState.saltFor_sponsored]
    exact hrest.sponsored fee hf
  · intro d hd x hx
    rw [hcount]
    by_cases hkeep : s.salt.1 = D' ∨ d = D'
    · rw [if_pos hkeep]
      exact hrest.durable d (hD.trans hd) x hx
    · -- a later day: nothing was handed over then
      rw [if_neg hkeep, countP_zero]
      intro fee hf hday
      have := hi.days fee hf
      have := hday.1
      omega
  · intro _ client
    by_cases hsalt : s.salt.1 = D'
    · have hDD : D = D' := by
        have := hi.salt_le
        omega
      subst hDD
      have hsame : s.saltFor D fresh = s := if_pos hsalt
      rw [hsame]
      exact hrest.client hsalt client
    · -- a new salt: this process has handed over nothing on the day
      rw [countP_zero]
      · exact Nat.zero_le _
      · rintro fee hf ⟨hprocess, hday, -⟩
        by_cases hDD : D = D'
        · subst hDD
          exact hi.unsalted hsalt fee hf hprocess hday
        · have := hi.days fee hf
          omega

/-- A fee that is accepted is within the limits. -/
theorem SponsorInv.accept {env : SignedTxEnvelopeV1} {fee : Fee} {c : SponsorCommit}
    (hi : SponsorInv S s (.decided env fee c) fees uploads process D) :
    SponsorInv S s (.accepted fee c) (fee :: fees) uploads process D := by
  obtain ⟨rest, heq, hrest⟩ := hi.recorded
  rw [show (SponsorPhase.decided env fee c).pending = [] from rfl, List.nil_append] at heq
  subst heq
  obtain ⟨hfresh, hupload, hnew⟩ := hi.decided env fee c rfl
  have hwallet := hrest.durable D (Nat.le_refl D) _ (Or.inl ⟨fee.sender, rfl⟩)
  have hall := hrest.durable D (Nat.le_refl D) _ (Or.inr rfl)
  have hclient := hrest.client hfresh.salt fee.client
  refine { hi with
    recorded := ⟨fees, rfl, hrest⟩
    files := ?_
    uploaded := ?_
    durable := ?_
    client := ?_
    days := ?_
    processes := ?_
    unsalted := fun h => absurd hfresh.salt h
    decided := fun _ _ _ h => by cases h
    accepted := fun fee' c' h => by
      cases h
      exact hfresh }
  · rw [List.map_cons, List.nodup_cons]
    refine ⟨fun hmem => ?_, hi.files⟩
    obtain ⟨fee', hf', he⟩ := List.mem_map.mp hmem
    exact hrest.sponsored fee' hf' (he ▸ hnew)
  · intro fee' hf'
    rcases List.mem_cons.mp hf' with rfl | hf'
    · exact hupload
    · exact hi.uploaded fee' hf'
  · intro d x
    obtain ⟨hw, hg⟩ := hi.durable d x
    rw [countP_cons_add, countP_cons_add]
    constructor
    · by_cases hc : fee.CountsFor d (walletPart x)
      · obtain ⟨hday, hx⟩ := hc
        have hx : x = fee.sender := by
          rcases hx with hx | hx
          · exact List.append_cancel_left hx
          · exact absurd (List.cons.inj hx).1 (by decide)
        rw [hx, ← hday, hfresh.day, ← hwallet]
        have := hfresh.wallet
        split <;> omega
      · rw [if_neg hc]
        exact hw
    · by_cases hc : fee.CountsFor d globalPart
      · rw [← hc.1, hfresh.day, ← hall]
        have := hfresh.all
        split <;> omega
      · rw [if_neg hc]
        exact hg
  · intro pr d client
    rw [countP_cons_add]
    by_cases hc : fee.OfClient pr d client
    · obtain ⟨rfl, rfl, rfl⟩ := hc
      have hlt := hfresh.client
      rw [hfresh.process, hfresh.day]
      split <;> omega
    · rw [if_neg hc]
      exact hi.client pr d client
  · intro fee' hf'
    rcases List.mem_cons.mp hf' with rfl | hf'
    · exact hfresh.day.le
    · exact hi.days fee' hf'
  · intro fee' hf'
    rcases List.mem_cons.mp hf' with rfl | hf'
    · exact hfresh.process.le
    · exact hi.processes fee' hf'

/-- Recording it. -/
theorem SponsorInv.record {fee : Fee} {c : SponsorCommit}
    (hi : SponsorInv S s (.accepted fee c) fees uploads process D) :
    SponsorInv S (s.commit c) .idle fees uploads process D := by
  obtain ⟨rest, heq, hrest⟩ := hi.recorded
  have hfresh := hi.accepted fee c rfl
  have hcommit := hfresh.commit
  subst hcommit
  obtain ⟨hu32, hu32', hu32''⟩ := S.caps.counts_u32
  have hcount : ∀ d x, (s.commit ⟨fee.fileId, sponsorKeys D (s.clientHash S.world fee.client)
      fee.sender⟩).count (countKey d x) = s.count (countKey d x) +
        if d = D ∧ (x = clientPart (s.clientHash S.world fee.client) ∨ x = walletPart fee.sender ∨
          x = globalPart) then 1 else 0 := by
    intro d x
    unfold SponsorState.commit
    rw [SponsorState.count_bumps _ _ _ (sponsorKeys_nodup _ _ _)]
    · simp only [mem_sponsorKeys]
      rfl
    · intro k hk
      simp only [sponsorKeys, List.mem_cons, List.not_mem_nil, or_false] at hk
      rcases hk with rfl | rfl | rfl
      · have := hfresh.client
        show s.count _ < _
        omega
      · have := hfresh.wallet
        show s.count _ < _
        omega
      · have := hfresh.all
        show s.count _ < _
        omega
  have hsalt : (s.commit ⟨fee.fileId, sponsorKeys D (s.clientHash S.world fee.client)
      fee.sender⟩).salt = s.salt := SponsorState.foldl_bump_salt _ _
  have huploaded : (s.commit ⟨fee.fileId, sponsorKeys D (s.clientHash S.world fee.client)
      fee.sender⟩).uploaded = s.uploaded := SponsorState.foldl_bump_uploaded _ _
  have hsponsored : (s.commit ⟨fee.fileId, sponsorKeys D (s.clientHash S.world fee.client)
      fee.sender⟩).sponsored = s.sponsored.insert fee.fileId () :=
    SponsorState.foldl_bump_sponsored _ _
  refine { hi with
    recorded := ⟨fees, rfl, ?_, ?_, ?_⟩
    known := by rw [huploaded]; exact hi.known
    salt_le := by rw [hsalt]; exact hi.salt_le
    unsalted := by rw [hsalt]; exact hi.unsalted
    decided := fun _ _ _ h => by cases h
    accepted := fun _ _ h => by cases h }
  · intro fee' hf'
    rw [hsponsored, Tree.get_insert]
    split
    · exact Option.some_ne_none _
    · rename_i hne
      rw [heq] at hf'
      rcases List.mem_cons.mp hf' with rfl | hf'
      · exact absurd rfl hne
      · exact hrest.sponsored fee' hf'
  · intro d hd x hx
    rw [hcount, hrest.durable d hd x hx, heq]
    show _ = (fee :: rest).countP _
    rw [countP_cons_add]
    have hne : x ≠ clientPart (s.clientHash S.world fee.client) := by
      intro hxc
      rcases hx with ⟨sender, hx⟩ | hx
      · exact absurd (List.cons.inj (hx.symm.trans hxc)).1 (by decide)
      · exact absurd (List.cons.inj (hx.symm.trans hxc)).1 (by decide)
    have hiff : (d = D ∧ (x = clientPart (s.clientHash S.world fee.client) ∨
        x = walletPart fee.sender ∨ x = globalPart)) ↔ fee.CountsFor d x := by
      unfold Fee.CountsFor
      rw [hfresh.day]
      exact ⟨fun h => ⟨h.1.symm, h.2.resolve_left hne⟩, fun h => ⟨h.1.symm, Or.inr h.2⟩⟩
    simp only [hiff]
  · intro hday client
    have hhash : ∀ cl, (s.commit ⟨fee.fileId, sponsorKeys D (s.clientHash S.world fee.client)
        fee.sender⟩).clientHash S.world cl = s.clientHash S.world cl := by
      intro cl
      exact congrArg (fun salt : Nat × Bytes => S.world.sha256Hex (salt.2 ++ utf8 cl)) hsalt
    rw [hhash, hcount, heq]
    show (fee :: rest).countP _ ≤ _
    rw [countP_cons_add]
    have hle := hrest.client hfresh.salt client
    by_cases hc : fee.OfClient process D client
    · obtain ⟨-, -, rfl⟩ := hc
      rw [if_pos (⟨rfl, Or.inl rfl⟩ : D = D ∧ _)]
      split <;> omega
    · rw [if_neg hc]
      omega

/-- A restart at rest. -/
theorem SponsorInv.restart (hi : SponsorInv S s .idle fees uploads process D) (fresh : Bytes) :
    SponsorInv S { s with salt := (0, fresh) } .idle fees uploads (process + 1) D := by
  obtain ⟨rest, heq, hrest⟩ := hi.recorded
  rw [show SponsorPhase.idle.pending = [] from rfl, List.nil_append] at heq
  subst heq
  have hold : ∀ fee ∈ fees, fee.process ≠ process + 1 := by
    intro fee hf
    have := hi.processes fee hf
    omega
  refine { hi with
    recorded := ⟨fees, rfl, hrest.sponsored, hrest.durable, fun _ client => ?_⟩
    processes := fun fee hf => (hi.processes fee hf).trans (Nat.le_succ _)
    salt_le := Nat.zero_le _
    unsalted := fun _ fee hf hp => absurd hp (hold fee hf)
    decided := fun _ _ _ h => by cases h
    accepted := fun _ _ h => by cases h }
  rw [countP_zero]
  · exact Nat.zero_le _
  · exact fun fee hf hc => hold fee hf hc.1

/-- One step keeps the fees within the limits. -/
theorem SponsorInv.step (hclock : h.InTime a) (hD : D ≤ h.clock / dayMs)
    (hi : SponsorInv S p.sponsor p.sponsorPhase h.fees h.uploads h.process D) :
    ∃ D', D' ≤ (h.after p a).clock / dayMs ∧
      SponsorInv S (a.step P S h.process p).sponsor (a.step P S h.process p).sponsorPhase
        (h.after p a).fees (h.after p a).uploads (h.after p a).process D' := by
  cases a with
  | claim c store nowMs spendable =>
    refine ⟨D, hD.trans (Nat.div_le_div_right hclock), ?_⟩
    show SponsorInv S (p.claim P c store nowMs spendable).sponsor
      (p.claim P c store nowMs spendable).sponsorPhase h.fees h.uploads h.process D
    unfold Payers.claim
    split
    · split <;> exact hi
    · exact hi
  | claimSubmitted accepted =>
    have hsame : (h.after p (.claimSubmitted accepted)).fees = h.fees ∧
        (h.after p (.claimSubmitted accepted)).uploads = h.uploads ∧
        (h.after p (.claimSubmitted accepted)).process = h.process ∧
        (h.after p (.claimSubmitted accepted)).clock = h.clock := by
      cases accepted with
      | false => exact ⟨rfl, rfl, rfl, rfl⟩
      | true =>
        simp only [PayHistory.after]
        split <;> exact ⟨rfl, rfl, rfl, rfl⟩
    obtain ⟨hfees, huploads, hprocess, hclock'⟩ := hsame
    rw [hfees, huploads, hprocess, hclock']
    refine ⟨D, hD, ?_⟩
    show SponsorInv S (p.claimSubmitted accepted).sponsor (p.claimSubmitted accepted).sponsorPhase
      _ _ _ _
    unfold Payers.claimSubmitted
    split <;> exact hi
  | claimRecorded =>
    refine ⟨D, hD, ?_⟩
    show SponsorInv S p.claimRecorded.sponsor p.claimRecorded.sponsorPhase h.fees h.uploads
      h.process D
    unfold Payers.claimRecorded
    split <;> exact hi
  | request req clientKey nowMs spendable fileSender fresh =>
    have hle : D ≤ nowMs / dayMs := hD.trans (Nat.div_le_div_right hclock)
    show ∃ D', D' ≤ nowMs / dayMs ∧ SponsorInv S
      (p.request S h.process req clientKey nowMs spendable fileSender fresh).sponsor
      (p.request S h.process req clientKey nowMs spendable fileSender fresh).sponsorPhase
      h.fees h.uploads h.process D'
    unfold Payers.request
    cases hphase : p.sponsorPhase with
    | idle =>
      rw [hphase] at hi
      simp only
      cases hd : (S.decide p.sponsor req clientKey nowMs spendable fileSender fresh).1 with
      | error r =>
        simp only
        rcases decide_state S p.sponsor req clientKey nowMs spendable fileSender fresh with
          ⟨r', heq⟩ | heq
        · rw [heq]
          exact ⟨D, hle, hi⟩
        · rw [heq]
          exact ⟨nowMs / dayMs, Nat.le_refl _, hi.salt hle fresh⟩
      | ok x =>
        obtain ⟨env, c⟩ := x
        obtain ⟨hstate, hpassed⟩ := decide_sponsors hd
        simp only
        rw [hstate]
        have hsalted := hi.salt hle fresh
        refine ⟨nowMs / dayMs, Nat.le_refl _, { hsalted with
          recorded := hsalted.recorded
          decided := fun env' fee' c' h => ?_
          accepted := fun _ _ h => by cases h }⟩
        cases h
        exact ⟨⟨rfl, SponsorState.saltFor_day, rfl, hpassed.commit, hpassed.client, hpassed.wallet,
          hpassed.all⟩, hsalted.known _ _ hpassed.uploaded, hpassed.sponsored⟩
    | decided env fee c =>
      simp only [hphase]
      exact ⟨D, hle, hphase ▸ hi⟩
    | accepted fee c =>
      simp only [hphase]
      exact ⟨D, hle, hphase ▸ hi⟩
  | requestSubmitted accepted =>
    show ∃ D', _ ∧ SponsorInv S (p.requestSubmitted accepted).sponsor
      (p.requestSubmitted accepted).sponsorPhase _ _ _ D'
    unfold Payers.requestSubmitted
    cases hphase : p.sponsorPhase with
    | idle =>
      rw [hphase] at hi
      simp only [hphase]
      cases accepted with
      | false => exact ⟨D, hD, hi⟩
      | true =>
        simp only [PayHistory.after, hphase]
        exact ⟨D, hD, hi⟩
    | accepted fee c =>
      rw [hphase] at hi
      simp only [hphase]
      cases accepted with
      | false => exact ⟨D, hD, hi⟩
      | true =>
        simp only [PayHistory.after, hphase]
        exact ⟨D, hD, hi⟩
    | decided env fee c =>
      rw [hphase] at hi
      cases accepted with
      | false => exact ⟨D, hD, hi.idle rfl⟩
      | true =>
        simp only [PayHistory.after, hphase]
        exact ⟨D, hD, hi.accept⟩
  | requestRecorded =>
    refine ⟨D, hD, ?_⟩
    show SponsorInv S p.requestRecorded.sponsor p.requestRecorded.sponsorPhase h.fees h.uploads
      h.process D
    unfold Payers.requestRecorded
    cases hphase : p.sponsorPhase with
    | accepted fee c =>
      rw [hphase] at hi
      exact hi.record
    | _ =>
      simp only [hphase]
      exact hphase ▸ hi
  | upload fileId sender =>
    refine ⟨D, hD, { hi with
      recorded := ?_
      uploaded := fun fee hf => List.mem_cons_of_mem _ (hi.uploaded fee hf)
      known := fun id w hget => ?_
      decided := fun env fee c h => ?_
      accepted := fun fee c h => ?_ }⟩
    · obtain ⟨rest, heq, hrest⟩ := hi.recorded
      exact ⟨rest, heq, hrest.sponsored, hrest.durable, hrest.client⟩
    · have hget' : (p.sponsor.uploaded.insert (trim fileId) (trimLower sender)).get id = some w :=
        hget
      rw [Tree.get_insert] at hget'
      split at hget'
      · rename_i hid
        cases hget'
        exact hid ▸ List.mem_cons_self
      · exact List.mem_cons_of_mem _ (hi.known id w hget')
    · obtain ⟨hf, hup, hsp⟩ := hi.decided env fee c h
      exact ⟨⟨hf.day, hf.salt, hf.process, hf.commit, hf.client, hf.wallet, hf.all⟩,
        List.mem_cons_of_mem _ hup, hsp⟩
    · have hf := hi.accepted fee c h
      exact ⟨hf.day, hf.salt, hf.process, hf.commit, hf.client, hf.wallet, hf.all⟩
  | restart fresh =>
    show ∃ D', _ ∧ SponsorInv S (p.restart fresh).sponsor (p.restart fresh).sponsorPhase _ _ _ D'
    unfold Payers.restart
    cases hgrant : p.grantPhase with
    | idle =>
      cases hphase : p.sponsorPhase with
      | idle =>
        rw [hphase] at hi
        simp only [PayHistory.after, hgrant, hphase]
        exact ⟨D, hD, hi.restart fresh⟩
      | _ =>
        simp only [PayHistory.after, hgrant, hphase]
        exact ⟨D, hD, hphase ▸ hi⟩
    | _ =>
      simp only [PayHistory.after, hgrant]
      exact ⟨D, hD, hi⟩

/-! ## Runs -/

/-- **A run** stays within the limits. -/
theorem PayRun.inv (hr : PayRun P S p h) :
    GrantInv p.grants p.grantPhase h.grants ∧ ∃ D, D ≤ h.clock / dayMs ∧
      SponsorInv S p.sponsor p.sponsorPhase h.fees h.uploads h.process D := by
  induction hr with
  | start fresh =>
    refine ⟨⟨⟨[], rfl, rfl, fun _ hg => by cases hg⟩, Nat.zero_le _, List.nodup_nil,
      List.nodup_nil, fun _ _ h => by cases h⟩, 0, Nat.zero_le _, ?_⟩
    exact {
      recorded := ⟨[], rfl, fun _ hf => (by cases hf),
        fun d _ x _ => by
          show ((Tree.empty : Tree Str Nat).get _).getD 0 = _
          rw [Tree.get_empty]
          rfl,
        fun _ _ => Nat.zero_le _⟩
      files := List.nodup_nil
      uploaded := fun _ hf => by cases hf
      durable := fun _ _ => ⟨Nat.zero_le _, Nat.zero_le _⟩
      client := fun _ _ _ => Nat.zero_le _
      known := fun id w hget => by
        rw [show (Payers.new fresh).sponsor.uploaded.get id = none from Tree.get_empty id] at hget
        cases hget
      days := fun _ hf => by cases hf
      processes := fun _ hf => by cases hf
      salt_le := Nat.le_refl 0
      unsalted := fun _ _ hf => by cases hf
      decided := fun _ _ _ h => by cases h
      accepted := fun _ _ h => by cases h }
  | step a _ clock ih =>
    obtain ⟨hgrants, D, hD, hsponsor⟩ := ih
    exact ⟨hgrants.step, hsponsor.step clock hD⟩

theorem SponsorInv.within (hg : GrantInv p.grants p.grantPhase h.grants)
    (hi : SponsorInv S s phase h.fees h.uploads h.process D) : WithinLimits S h where
  grants := hg.cap
  nullifiers := hg.nullifiers
  wallets := hg.wallets
  files := hi.files
  uploaded := hi.uploaded
  perWallet day sender := by
    refine le_trans (List.countP_mono_left fun fee _ hq => ?_) (hi.durable day sender).1
    obtain ⟨hday, hsender⟩ := of_decide_eq_true hq
    exact decide_eq_true ⟨hday, Or.inl (congrArg walletPart hsender.symm)⟩
  all day := by
    refine le_trans (List.countP_mono_left fun fee _ hq => ?_) (hi.durable day []).2
    exact decide_eq_true ⟨of_decide_eq_true hq, Or.inr rfl⟩
  perClient := hi.client

/-- A decision of the sponsor changes no record but counters of other days. -/
theorem sameRecords_request (req : SponsorFeeRequestV1) (clientKey : Str)
    (nowMs spendable : Nat) (fileSender : Option Str) (fresh : Bytes) :
    SameRecords (nowMs / dayMs) p
      (p.request S process req clientKey nowMs spendable fileSender fresh) := by
  have hdecide : ∀ s', s' = p.sponsor ∨ s' = p.sponsor.saltFor (nowMs / dayMs) fresh →
      ∀ q : Payers, q.grants = p.grants → q.sponsor = s' → SameRecords (nowMs / dayMs) p q := by
    rintro s' (rfl | rfl) q hq hs
    · exact ⟨hq, by rw [hs], by rw [hs], fun d x => Or.inl (by rw [hs])⟩
    · refine ⟨hq, by rw [hs, SponsorState.saltFor_uploaded],
        by rw [hs, SponsorState.saltFor_sponsored], fun d x => ?_⟩
      rw [hs, SponsorState.get_saltFor]
      split
      · exact Or.inl rfl
      · rename_i hne
        exact Or.inr ⟨fun hd => hne (Or.inr hd), rfl⟩
  have hstate : (S.decide p.sponsor req clientKey nowMs spendable fileSender fresh).2 = p.sponsor ∨
      (S.decide p.sponsor req clientKey nowMs spendable fileSender fresh).2 =
        p.sponsor.saltFor (nowMs / dayMs) fresh := by
    rcases decide_state S p.sponsor req clientKey nowMs spendable fileSender fresh with
      ⟨r, heq⟩ | heq
    · exact Or.inl (by rw [heq])
    · exact Or.inr heq
  unfold Payers.request
  split
  · simp only
    split
    · exact hdecide _ hstate _ rfl rfl
    · exact hdecide _ hstate _ rfl rfl
  · exact hdecide _ (Or.inl rfl) _ rfl rfl

/-- **Only an accepted payout and an upload are recorded**. -/
theorem sameRecords_step (ha : ¬ a.Records p) :
    SameRecords a.day p (a.step P S process p) := by
  have hsame : ∀ q : Payers, q.grants = p.grants → q.sponsor.uploaded = p.sponsor.uploaded →
      q.sponsor.sponsored = p.sponsor.sponsored → q.sponsor.counts = p.sponsor.counts →
      SameRecords a.day p q := fun q hg hu hs hc =>
    ⟨hg, hu, hs, fun d x => Or.inl (by rw [hc])⟩
  cases a with
  | claim c store nowMs spendable =>
    simp only [PayAction.step, Payers.claim]
    split
    · split <;> exact hsame _ rfl rfl rfl rfl
    · exact hsame _ rfl rfl rfl rfl
  | claimSubmitted accepted =>
    simp only [PayAction.step, Payers.claimSubmitted]
    split <;> exact hsame _ rfl rfl rfl rfl
  | claimRecorded =>
    simp only [PayAction.step, Payers.claimRecorded]
    split
    · rename_i g hphase
      exact absurd ⟨g, hphase⟩ ha
    · exact hsame _ rfl rfl rfl rfl
  | request req clientKey nowMs spendable fileSender fresh =>
    exact sameRecords_request req clientKey nowMs spendable fileSender fresh
  | requestSubmitted accepted =>
    simp only [PayAction.step, Payers.requestSubmitted]
    split <;> exact hsame _ rfl rfl rfl rfl
  | requestRecorded =>
    simp only [PayAction.step, Payers.requestRecorded]
    split
    · rename_i fee c hphase
      exact absurd ⟨fee, c, hphase⟩ ha
    · exact hsame _ rfl rfl rfl rfl
  | upload fileId sender => exact absurd trivial ha
  | restart fresh =>
    simp only [PayAction.step, Payers.restart]
    split <;> exact hsame _ rfl rfl rfl rfl

end Sponsorships

end TetCore.Payouts

namespace TetCore.Sample

open TetCore.Lib TetCore.Tmail TetCore.Payouts

/-- The signatures of a wallet on a transaction. -/
def signTx (key : Str) (tx : TxV1) : Except String HybridSigV1 :=
  .ok (signedWith tx key "mldsa44".toList).sig

/-- A grant payer that accepts no proving program. -/
def grantPayer : GrantPayer where
  auth := auth
  world := World.sample 0
  walletId := carol
  sign := signTx carol
  b64Encode := hexEncode
  anonProgramAccepted _ := false
  verifyTmailAnon _ _ _ := .error "Failed to deserialize receipt"

/-- A sponsor that pays one fee per client, five per sender and five hundred in all. -/
def demoSponsor : DemoSponsor where
  auth := auth
  world := World.sample 0
  walletId := bob
  caps := ⟨1, 5, 500, 10 * stevemon, by decide⟩
  isUuid s := s.length == 36
  verifyMldsa44B64 := verifyMldsa
  sign := signTx bob

/-- `alice` asks for the fee of a file. -/
def feeRequest (fileId : Str) (atMs : Nat) : SponsorFeeRequestV1 :=
  let msg := sponsorRequestAuthMessageBytes auth fileId alice atMs "mldsa44".toList
  ⟨fileId, alice, atMs, ⟨alice, sign alice msg, "mldsa44".toList, sign "mldsa44".toList msg⟩⟩

def fileOne : Str := "11111111-1111-4111-8111-111111111111".toList

def fileTwo : Str := "22222222-2222-4222-8222-222222222222".toList

/-- A step of the payers with what it hands over. -/
def payStep (x : Payers × PayHistory) (a : PayAction) : Payers × PayHistory :=
  (a.step grantPayer demoSponsor x.2.process x.1, x.2.after x.1 a)

/-- The request for the first file's fee, on the first day of the clock. -/
def firstRequest : PayAction :=
  .request (feeRequest fileOne dayMs) "10.0.0.1".toList dayMs (50 * stevemon) (some alice) [7]

/-- `alice` has uploaded two files. -/
def twoUploaded : Payers × PayHistory :=
  payStep (payStep (.new [1], ⟨[], [], [], 0, 0⟩) (.upload fileOne alice)) (.upload fileTwo alice)

/-- The fee of the first is handed over and recorded. -/
def onePaid : Payers × PayHistory :=
  payStep (payStep (payStep twoUploaded firstRequest) (.requestSubmitted true)) .requestRecorded

theorem onePaid_run : PayRun grantPayer demoSponsor onePaid.1 onePaid.2 := by
  have hstep : ∀ (x : Payers × PayHistory) (a : PayAction), x.2.InTime a →
      PayRun grantPayer demoSponsor x.1 x.2 →
      PayRun grantPayer demoSponsor (payStep x a).1 (payStep x a).2 :=
    fun x a ha hx => PayRun.step a hx ha
  have htwo := hstep _ (.upload fileTwo alice) trivial
    (hstep (.new [1], ⟨[], [], [], 0, 0⟩) (.upload fileOne alice) trivial (.start [1]))
  exact hstep _ .requestRecorded trivial (hstep _ (.requestSubmitted true) trivial
    (hstep twoUploaded firstRequest (Nat.zero_le _) htwo))

/-- The request for the second file's fee, on the same day. -/
def secondRequest : PayAction :=
  .request (feeRequest fileTwo dayMs) "10.0.0.1".toList dayMs (50 * stevemon) (some alice) [8]

end TetCore.Sample

namespace TetCore.Payouts

open TetCore.Lib TetCore.Tmail

theorem not_records_request {p : Payers} {req : SponsorFeeRequestV1} {clientKey : Str}
    {nowMs spendable : Nat} {fileSender : Option Str} {fresh : Bytes} :
    ¬ (PayAction.request req clientKey nowMs spendable fileSender fresh).Records p := id

end TetCore.Payouts
