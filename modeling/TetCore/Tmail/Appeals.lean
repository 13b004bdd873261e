import Mathlib.Data.List.Nodup
import TetCore.Tmail.Members

/-!
# Overturned cases

What an overturn gives back (`ShelterState::apply`, `Appeal`). A voucher's rights are read off the
list of standing cases against them: any takes the right to vouch, the second by position suspends
them. So an overturn of one of the first two of three moves the suspension to the third
(`overturn_suspends_longer`), although an overturn is to restore what its case took.
`overturn_gives_back`: an overturn only gives back exactly when this does not make the suspension end
later.
-/

namespace TetCore.Tmail

open TetCore.Lib

/-- No later, `none` the earliest. -/
def NoLater : Option Nat → Option Nat → Prop
  | none, _ => True
  | some _, none => False
  | some t, some t' => t ≤ t'

namespace ShelterState

/-- An overturn takes no membership, no vouch, and no time. -/
def GivesBack (cfg : ShelterConfig) (s s' : ShelterState) : Prop :=
  ∀ w, (s.isMember w = true → s'.isMember w = true) ∧
    s.vouchesLeft cfg w ≤ s'.vouchesLeft cfg w ∧ NoLater (s'.suspendedUntil w) (s.suspendedUntil w)

/-- What an overturn right after its case brings back: the subject's entry, and everybody's vouches
and suspension. -/
def Restores (cfg : ShelterConfig) (s₀ s' : ShelterState) (subject : Str) : Prop :=
  s'.members.get subject = s₀.members.get subject ∧
    ∀ w, s'.vouchesLeft cfg w = s₀.vouchesLeft cfg w ∧ s'.suspendedUntil w = s₀.suspendedUntil w

/-- The overturned case is not one of the first two of three standing cases against its voucher, or
the third's suspension ends no later than the second's. -/
def ThirdNoLater (s : ShelterState) (c : ShelterCase) : Prop :=
  ∀ v c₂ c₃, c.voucher = some v → (s.standingCasesAgainstVoucher v)[1]? = some c₂ →
    (s.standingCasesAgainstVoucher v)[2]? = some c₃ →
    c ∈ (s.standingCasesAgainstVoucher v).take 2 →
    satAdd c₃.atMs shelterSuspendMs ≤ satAdd c₂.atMs shelterSuspendMs

variable {A : Auth} {W : World} {cfg : ShelterConfig} {s s' s₀ : ShelterState}
  {r r₀ : ShelterRecordV1} {w : Str} {m : ShelterMember} {c : ShelterCase}

/-! ## The standing cases after an overturn -/

/-- A list without its element at a position, from the position on. -/
theorem getElem?_without {α : Type} (before after : List α) (x : α) (i : Nat) :
    (before ++ after)[i]? =
      if before.length ≤ i then (before ++ x :: after)[i + 1]? else (before ++ x :: after)[i]? := by
  split_ifs with h
  · rw [List.getElem?_append_right h, List.getElem?_append_right (by omega),
      show i + 1 - before.length = (i - before.length) + 1 by omega, List.getElem?_cons_succ]
  · rw [List.getElem?_append_left (by omega), List.getElem?_append_left (by omega)]

/-- The standing cases against a voucher before and after an overturn: the overturned one is out. -/
theorem standing_overturned (v : Str) (hfound : s.caseOf r.subject = some c)
    (hnone : c.appeal = none) (hdec : r.decision = "overturn".toList) :
    c.voucher ≠ some v ∧
        (s.answered r c).standingCasesAgainstVoucher v = s.standingCasesAgainstVoucher v ∨
      c.voucher = some v ∧ ∃ before after,
        s.standingCasesAgainstVoucher v = before ++ c :: after ∧
          (s.answered r c).standingCasesAgainstVoucher v = before ++ after := by
  obtain ⟨before, after, hsplit, hsplit'⟩ := caseOf_split hfound
  have hst := stands_of_undecided hnone
  have hst' : ({ c with appeal := some r.decision, appealAtMs := some r.atMs } :
      ShelterCase).stands = false := by simp [ShelterCase.stands, hdec]
  let against : ShelterCase → Bool := fun c => c.stands && c.voucher == some v
  unfold standingCasesAgainstVoucher
  rw [hsplit, hsplit']
  by_cases hv : c.voucher = some v
  · refine Or.inr ⟨hv, before.filter against, after.filter against, ?_, ?_⟩
    · simp [hst, hv, against]
    · simp [hst', against]
  · refine Or.inl ⟨hv, ?_⟩
    simp [hst', hv]

theorem standing_nodup (h : s.Inv cfg) (v : Str) : (s.standingCasesAgainstVoucher v).Nodup := by
  have hnodup : (s.cases.filter ShelterCase.stands).Nodup := List.Nodup.of_map _ h.sole
  have hsub : s.standingCasesAgainstVoucher v =
      (s.cases.filter ShelterCase.stands).filter fun c => c.voucher == some v := by
    rw [List.filter_filter]
    unfold standingCasesAgainstVoucher
    congr 1
    funext c
    rw [Bool.and_comm]
  rw [hsub]
  exact hnodup.filter _

/-! ## What an overturn gives back -/

/-- The state after an overturn. -/
theorem overturn_state (hr : r.Signed) (hkind : r.action = .appeal)
    (hdec : r.decision = "overturn".toList) (happ : s.apply cfg A W r = (.ok (), s')) :
    ∃ c, s.caseOf r.subject = some c ∧ c.appeal = none ∧
      s' = (s.answered r c).restoreMember c.subject c.wasMember := by
  rcases apply_cases cfg A W s hr with ⟨e, heq⟩ | ⟨s'', heq, hstep⟩
  · rw [heq] at happ
    cases happ
  · rw [heq] at happ
    cases happ
    cases hstep with
    | letsIn kind => simp [hkind] at kind
    | leaves kind => simp [hkind] at kind
    | names kind => simp [hkind] at kind
    | accuses kind => simp [hkind] at kind
    | keeps _ c _ _ hkeep =>
      rw [hdec] at hkeep
      exact absurd hkeep (by decide)
    | overturns _ c hfound hnone _ => exact ⟨c, hfound, hnone, rfl⟩

theorem standing_restored (s : ShelterState) (who : Str) (was : Bool) (v : Str) :
    (s.restoreMember who was).standingCasesAgainstVoucher v = s.standingCasesAgainstVoucher v := by
  unfold standingCasesAgainstVoucher
  rw [(restoreMember_rest s who was).2.1]

theorem isMember_restored (s : ShelterState) (who : Str) (was : Bool)
    (h : s.isMember w = true) : (s.restoreMember who was).isMember w = true := by
  cases hm : s.removed.get who with
  | none =>
    unfold restoreMember
    rw [hm]
    exact h
  | some m =>
    unfold isMember at h ⊢
    rw [restoreMember_members s was hm]
    cases was with
    | false => exact h
    | true =>
      simp only [if_true, Tree.get_insert]
      split_ifs
      · rfl
      · exact h

theorem vouchesLeft_mono (hmember : s.isMember w = true → s'.isMember w = true)
    (hstanding : s.standingCasesAgainstVoucher w = [] → s'.standingCasesAgainstVoucher w = [])
    (hgiven : s'.givenBy w = s.givenBy w) : s.vouchesLeft cfg w ≤ s'.vouchesLeft cfg w := by
  unfold vouchesLeft
  by_cases hin : s.isMember w = true
  · simp only [hin, hmember hin, hgiven]
    by_cases hmod : w = cfg.moderator
    · simp [hmod]
    · by_cases hnil : s.standingCasesAgainstVoucher w = []
      · simp [hnil, hstanding hnil]
      · simp [hmod, hnil]
  · simp [hin]

/-- The suspension after an overturn, by the place of its case. -/
theorem suspendedUntil_overturned {v : Str} {before after : List ShelterCase}
    (hold : s.standingCasesAgainstVoucher v = before ++ c :: after)
    (hnew : s'.standingCasesAgainstVoucher v = before ++ after) :
    NoLater (s'.suspendedUntil v) (s.suspendedUntil v) ↔
      ∀ c₂ c₃, (s.standingCasesAgainstVoucher v)[1]? = some c₂ →
        (s.standingCasesAgainstVoucher v)[2]? = some c₃ → before.length ≤ 1 →
        satAdd c₃.atMs shelterSuspendMs ≤ satAdd c₂.atMs shelterSuspendMs := by
  unfold suspendedUntil
  rw [hnew, getElem?_without before after c 1, ← hold]
  generalize s.standingCasesAgainstVoucher v = S
  split_ifs with hplace
  · cases h₃ : S[2]? with
    | none => simp [NoLater]
    | some c₃ =>
      obtain ⟨hlen, -⟩ := List.getElem?_eq_some_iff.mp h₃
      have h₂ : S[1]? = some S[1] := List.getElem?_eq_getElem (by omega)
      simp [h₂, hplace, NoLater]
  · cases S[1]? <;> simp [hplace, NoLater]

theorem mem_take_two_iff {before after : List ShelterCase} (h : (before ++ c :: after).Nodup) :
    c ∈ (before ++ c :: after).take 2 ↔ before.length ≤ 1 := by
  constructor
  · intro hmem
    by_contra hlen
    rw [List.take_append_of_le_length (by omega)] at hmem
    exact (List.nodup_cons.mp (List.perm_middle.nodup_iff.mp h)).1
      (List.mem_append_left _ (List.mem_of_mem_take hmem))
  · intro hlen
    rw [List.take_append]
    refine List.mem_append_right _ ?_
    rw [show 2 - before.length = (1 - before.length) + 1 by omega, List.take_succ_cons]
    exact List.mem_cons_self

/-- **An overturn only gives back** exactly when the third case does not suspend for longer. -/
theorem givesBack_iff (h : s.Inv cfg) (hfound : s.caseOf r.subject = some c)
    (hnone : c.appeal = none) (hdec : r.decision = "overturn".toList) :
    GivesBack cfg s ((s.answered r c).restoreMember c.subject c.wasMember) ↔ s.ThirdNoLater c := by
  have hmember : ∀ w, s.isMember w = true →
      ((s.answered r c).restoreMember c.subject c.wasMember).isMember w = true :=
    fun w hw => isMember_restored (s.answered r c) _ _ hw
  have hgiven : ∀ w, ((s.answered r c).restoreMember c.subject c.wasMember).givenBy w =
      s.givenBy w := by
    intro w
    unfold givenBy
    rw [(restoreMember_rest _ _ _).1]
    rfl
  constructor
  · intro hback v c₂ c₃ hv h₂ h₃ hmem
    rcases standing_overturned v hfound hnone hdec with ⟨hne, -⟩ | ⟨-, before, after, hold, hnew⟩
    · exact absurd hv hne
    · have hlater := (hback v).2.2
      rw [suspendedUntil_overturned hold (by rw [standing_restored, hnew])] at hlater
      refine hlater c₂ c₃ h₂ h₃ ((mem_take_two_iff ?_).mp (hold ▸ hmem))
      exact hold ▸ standing_nodup h v
  · intro hthird w
    refine ⟨hmember w, ?_, ?_⟩
    · refine vouchesLeft_mono (hmember w) ?_ (hgiven w)
      intro hnil
      rw [standing_restored]
      rcases standing_overturned w hfound hnone hdec with ⟨-, heq⟩ | ⟨-, before, after, hold, -⟩
      · rw [heq, hnil]
      · rw [hold] at hnil
        simp at hnil
    · rcases standing_overturned w hfound hnone hdec with ⟨-, heq⟩ | ⟨hv, before, after, hold, hnew⟩
      · unfold suspendedUntil
        rw [standing_restored, heq]
        cases (s.standingCasesAgainstVoucher w)[1]? <;> simp [NoLater]
      · rw [suspendedUntil_overturned hold (by rw [standing_restored, hnew])]
        intro c₂ c₃ h₂ h₃ hlen
        refine hthird w c₂ c₃ hv h₂ h₃ ?_
        rw [hold]
        exact (mem_take_two_iff (hold ▸ standing_nodup h w)).mpr hlen

/-! ## An overturn right after its case -/

theorem returning_of_free (h : ∀ n, m.nickname = some n → ∀ w m', s.members.get w = some m' →
    ∀ n', m'.nickname = some n' → nicknameSkeleton n' ≠ nicknameSkeleton n) :
    s.returning m = m := by
  unfold returning
  refine if_neg ?_
  cases hn : m.nickname with
  | none => simp
  | some n =>
    simp only [Option.map_some, Option.any_some, Bool.not_eq_true]
    unfold nicknameTaken
    rw [List.any_eq_false]
    rintro ⟨w, m'⟩ hmem
    have hm' : s.members.get w = some m' := Tree.mem_iter.mp hmem
    cases hn' : m'.nickname with
    | none => simp
    | some n' => simpa using h n hn w m' hm' n' hn'

/-- The state a case made. -/
theorem case_state (hr : r₀.Signed) (hkind : r₀.action = .decide)
    (happ : s₀.apply cfg A W r₀ = (.ok (), s)) :
    ∃ m, (s₀.members.get r₀.subject <|> s₀.left.get r₀.subject) = some m ∧
      s = s₀.accused cfg A W r₀ m := by
  rcases apply_cases cfg A W s₀ hr with ⟨e, heq⟩ | ⟨s'', heq, hstep⟩
  · rw [heq] at happ
    cases happ
  · rw [heq] at happ
    cases happ
    cases hstep with
    | letsIn kind => simp [hkind] at kind
    | leaves kind => simp [hkind] at kind
    | names kind => simp [hkind] at kind
    | accuses _ m _ hm => exact ⟨m, hm, rfl⟩
    | keeps kind => simp [hkind] at kind
    | overturns kind => simp [hkind] at kind

theorem without_last {α : Type} [DecidableEq α] {before after l : List α} {x : α}
    (hnodup : (l ++ [x]).Nodup) (h : l ++ [x] = before ++ x :: after) : before ++ after = l := by
  have hl : x ∉ l := (List.nodup_cons.mp (List.perm_append_comm.nodup_iff.mp hnodup)).1
  have hbefore : x ∉ before := fun hin =>
    (List.nodup_cons.mp (List.perm_middle.nodup_iff.mp (h ▸ hnodup))).1
      (List.mem_append_left _ hin)
  have herase := congrArg (fun l => l.erase x) h
  simpa [List.erase_append_right, hl, hbefore] using herase.symm

theorem Restores.of_maps {subject : Str} (hmembers : ∀ w, s'.members.get w = s₀.members.get w)
    (hgiven : s'.given = s₀.given)
    (hstanding : ∀ w, s'.standingCasesAgainstVoucher w = s₀.standingCasesAgainstVoucher w) :
    Restores cfg s₀ s' subject := by
  refine ⟨hmembers subject, fun w => ⟨?_, ?_⟩⟩
  · unfold vouchesLeft isMember givenBy
    rw [hmembers, hgiven, hstanding]
  · unfold suspendedUntil
    rw [hstanding]

/-- A member goes back with their nickname: nobody had time to take it. -/
theorem Inv.returning_accused (h₀ : s₀.Inv cfg) (hin : s₀.members.get r₀.subject = some m)
    (hmembers : s.members = s₀.members.remove r₀.subject) : s.returning m = m := by
  refine returning_of_free fun n hn b m' hm' n' hn' hsk => ?_
  rw [hmembers] at hm'
  by_cases hne : r₀.subject = b
  · subst hne
    rw [Tree.get_remove_self] at hm'
    cases hm'
  · rw [Tree.get_remove_ne hne] at hm'
    exact hne (h₀.nicknames _ m b m' n n' hin hm' hn hn' hsk.symm)

/-- The subject's entry is as before the case, and so is every other. -/
theorem Inv.members_restored (h₀ : s₀.Inv cfg)
    (hm : (s₀.members.get r₀.subject <|> s₀.left.get r₀.subject) = some m)
    (hmembers : s.members = s₀.members.remove r₀.subject)
    (hremoved : s.removed.get r₀.subject = some m) (w : Str) :
    (s.restoreMember r₀.subject (s₀.members.get r₀.subject).isSome).members.get w =
      s₀.members.get w := by
  rw [restoreMember_members _ _ hremoved]
  rcases found_entry hm with hin | ⟨hin, -⟩
  · rw [hin, Option.isSome_some, if_pos rfl, h₀.returning_accused hin hmembers, hmembers]
    by_cases hw : r₀.subject = w
    · subst hw
      rw [Tree.get_insert_self, hin]
    · rw [Tree.get_insert_ne hw, Tree.get_remove_ne hw]
  · rw [hin, hmembers]
    by_cases hw : r₀.subject = w
    · subst hw
      exact (Tree.get_remove_self _ _).trans hin.symm
    · exact Tree.get_remove_ne hw

/-- Everybody stands as before the case. -/
theorem Inv.restores (h₀ : s₀.Inv cfg) (h : s.Inv cfg) (hr : r₀.Signed)
    (hkind : r₀.action = .decide) (happ : s₀.apply cfg A W r₀ = (.ok (), s))
    (hcases : s.cases = s₀.cases ++ [c]) (hfound : s.caseOf r.subject = some c)
    (hnone : c.appeal = none) (hdec : r.decision = "overturn".toList) :
    Restores cfg s₀ ((s.answered r c).restoreMember c.subject c.wasMember) r₀.subject := by
  obtain ⟨m, hm, rfl⟩ := case_state hr hkind happ
  obtain rfl : s₀.newCase cfg A W r₀ m = c := by
    simpa [ShelterState.accused] using hcases
  refine Restores.of_maps (h₀.members_restored hm rfl (Tree.get_insert_self _ _ _))
    (restoreMember_rest _ _ _).1 fun w => ?_
  rw [standing_restored]
  have hlist : (s₀.accused cfg A W r₀ m).standingCasesAgainstVoucher w =
      s₀.standingCasesAgainstVoucher w ++
        [s₀.newCase cfg A W r₀ m].filter fun c => c.stands && c.voucher == some w :=
    List.filter_append _ _
  have hst := stands_of_undecided hnone
  rcases standing_overturned w hfound hnone hdec with ⟨hv, heq⟩ | ⟨hv, before, after, hold, hnew⟩
  · rw [heq, hlist]
    simp [hv]
  · rw [List.filter_cons_of_pos (by simp [hst, hv]), List.filter_nil] at hlist
    have hnodup := standing_nodup h w
    rw [hnew, without_last (hlist ▸ hnodup) (hlist.symm.trans hold)]

end ShelterState

/-- What an overturn is to do: it only gives back, and right after its case it brings everything back
that the case took. -/
def OverturnLaw (A : Auth) (W : World) (cfg : ShelterConfig) (s s' : ShelterState)
    (c : ShelterCase) : Prop :=
  s.GivesBack cfg s' ∧
    ∀ s₀ r₀, ShelterRun A W cfg (fun _ _ => True) s₀ → verifyRecord A W r₀ = .ok () →
      r₀.action = .decide → s₀.apply cfg A W r₀ = (.ok (), s) → s.cases = s₀.cases ++ [c] →
      s₀.Restores cfg s' r₀.subject

/-- **An accepted overturn only gives back**, and right after its case brings everything back, exactly
when its case is not one of the first two of three against its voucher or the third suspends for no
longer than the second. -/
theorem overturn_gives_back {A : Auth} {W : World} {cfg : ShelterConfig} {s s' : ShelterState}
    {r : ShelterRecordV1} (hs : ShelterRun A W cfg (fun _ _ => True) s)
    (hr : verifyRecord A W r = .ok ()) (hkind : r.action = .appeal)
    (hdec : r.decision = "overturn".toList) (happ : s.apply cfg A W r = (.ok (), s')) :
    ∃ c, s.caseOf r.subject = some c ∧ (OverturnLaw A W cfg s s' c ↔ s.ThirdNoLater c) := by
  obtain ⟨c, hfound, hnone, rfl⟩ :=
    ShelterState.overturn_state (verifyRecord_ok hr) hkind hdec happ
  refine ⟨c, hfound, ?_⟩
  have hgives := ShelterState.givesBack_iff hs.inv hfound hnone hdec
  refine ⟨fun h => hgives.mp h.1, fun h => ⟨hgives.mpr h, ?_⟩⟩
  intro s₀ r₀ hs₀ hr₀ hkind₀ happ₀ hcases
  exact hs₀.inv.restores hs.inv (verifyRecord_ok hr₀) hkind₀ happ₀ hcases hfound hnone hdec

end TetCore.Tmail

namespace TetCore.Sample

open TetCore.Lib TetCore.Tmail

/-- The state after wallet `1`, let in by the moderator, lets in wallets `2`, `3` and `4`, and the
moderator decides cases against the wallets of `accused`. -/
def shelterAfter (accused : List Nat) : ShelterState :=
  replay auth (World.sample 0) shelter
    ([shelterRecord .invite (walletNo 0) (walletNo 1) [] [] 0,
      shelterRecord .vouch (walletNo 1) (walletNo 2) [] [] 0,
      shelterRecord .vouch (walletNo 1) (walletNo 3) [] [] 0,
      shelterRecord .vouch (walletNo 1) (walletNo 4) [] [] 0] ++
    accused.map fun n => shelterRecord .decide (walletNo 0) (walletNo n) "bot".toList [] (1000 * n))

/-- The overturn of the case against wallet `2`. -/
def overturn : ShelterRecordV1 :=
  shelterRecord .appeal (walletNo 0) (recordId auth (World.sample 0)
    (shelterRecord .decide (walletNo 0) (walletNo 2) "bot".toList [] 2000)) "no bot".toList
    "overturn".toList 9000

theorem shelterAfter_run (accused : List Nat) :
    ShelterRun auth (World.sample 0) shelter (fun _ _ => True) (shelterAfter accused) := by
  refine ShelterRun.replay fun r hr => ?_
  rcases List.mem_append.mp hr with hr | hr
  · simp only [List.mem_cons, List.not_mem_nil, or_false] at hr
    rcases hr with rfl | rfl | rfl | rfl <;> exact verify_shelterRecord _ _ _ _ _ _
  · obtain ⟨n, -, rfl⟩ := List.mem_map.mp hr
    exact verify_shelterRecord _ _ _ _ _ _

theorem verify_overturn : verifyRecord auth (World.sample 0) overturn = .ok () := by
  have hid : isHex64 (recordId auth (World.sample 0) (shelterRecord .decide (walletNo 0) (walletNo 2)
      "bot".toList [] 2000)) = true := by decide +kernel
  exact verify_signRecord rfl rfl ⟨walletNo_hex 0, walletNo_lower 0, hid, trimLower_hexEncode _⟩

end TetCore.Sample

namespace TetCore.Tmail

/-- The overturn of the only case. -/
theorem overturn_gives_back_one :
    ∃ s s' c, ShelterRun Sample.auth (World.sample 0) Sample.shelter (fun _ _ => True) s ∧
      s.isMember (Sample.walletNo 2) = false ∧ s'.isMember (Sample.walletNo 2) = true ∧
      OverturnLaw Sample.auth (World.sample 0) Sample.shelter s s' c := by
  have hall : (Sample.shelterAfter [2]).isMember (Sample.walletNo 2) = false ∧
      ((Sample.shelterAfter [2]).apply Sample.shelter Sample.auth (World.sample 0)
        Sample.overturn).2.isMember (Sample.walletNo 2) = true ∧
      ((Sample.shelterAfter [2]).apply Sample.shelter Sample.auth (World.sample 0)
        Sample.overturn).1 = .ok () ∧ (Sample.shelterAfter [2]).cases.length = 1 := by
    decide +kernel
  have hrun := Sample.shelterAfter_run [2]
  generalize Sample.shelterAfter [2] = s at hall hrun
  obtain ⟨hout, hin, hok, hlen⟩ := hall
  obtain ⟨c, -, hiff⟩ := overturn_gives_back hrun Sample.verify_overturn rfl rfl
    (ShelterState.apply_of_ok hok)
  refine ⟨s, _, c, hrun, hout, hin, hiff.mpr fun v c₂ c₃ _ h₂ _ _ => ?_⟩
  -- there is no second case
  have hfilter : (s.standingCasesAgainstVoucher v).length ≤ s.cases.length :=
    List.length_filter_le _ _
  rw [List.getElem?_eq_none (by omega)] at h₂
  cases h₂

/-- The overturn of the first of three cases moves the suspension of their voucher from the second to
the third. -/
theorem overturn_suspends_longer :
    ¬ ∀ (A : Auth) (W : World) (cfg : ShelterConfig) (s s' : ShelterState) (r : ShelterRecordV1),
      ShelterRun A W cfg (fun _ _ => True) s → verifyRecord A W r = .ok () → r.action = .appeal →
      r.decision = "overturn".toList → s.apply cfg A W r = (.ok (), s') →
      ∃ c, s.caseOf r.subject = some c ∧ OverturnLaw A W cfg s s' c := by
  intro h
  have hall : ((Sample.shelterAfter [2, 3, 4]).apply Sample.shelter Sample.auth (World.sample 0)
        Sample.overturn).1 = .ok () ∧
      (Sample.shelterAfter [2, 3, 4]).suspendedUntil (Sample.walletNo 1) = some 7776003000 ∧
      ((Sample.shelterAfter [2, 3, 4]).apply Sample.shelter Sample.auth (World.sample 0)
        Sample.overturn).2.suspendedUntil (Sample.walletNo 1) = some 7776004000 := by decide +kernel
  have hrun := Sample.shelterAfter_run [2, 3, 4]
  generalize Sample.shelterAfter [2, 3, 4] = s at hall hrun
  obtain ⟨hok, hbefore, hafter⟩ := hall
  obtain ⟨c, -, hback, -⟩ := h _ _ _ s _ _ hrun Sample.verify_overturn rfl rfl
    (ShelterState.apply_of_ok hok)
  have hlater := (hback (Sample.walletNo 1)).2.2
  rw [hbefore, hafter] at hlater
  exact absurd hlater (by unfold NoLater; omega)

end TetCore.Tmail
