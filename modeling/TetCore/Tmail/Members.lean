import TetCore.Tmail.Shelter

/-!
# Shelter's membership

What holds of Shelter's state after any signed records (`tmail/shelter.rs`), accepted or refused. The
maps and the cases keep their invariant `ShelterState.Inv` in every run. The numbers keep theirs
(`ShelterState.Numbered`) while the counter does not pass `u32::MAX`: it is a `u32` that the code adds
to without a check, and a release build wraps. After `2^32 - 2` members let in it is `0` again
(`shelter_numbers_wrap`).
-/

namespace TetCore.Tmail

open TetCore.Lib

namespace ShelterState

/-- A wallet's entry in one of the three maps. -/
def Entry (s : ShelterState) (w : Str) (m : ShelterMember) : Prop :=
  s.members.get w = some m ∨ s.removed.get w = some m ∨ s.left.get w = some m

/-- What holds of the maps and the cases. -/
structure Inv (cfg : ShelterConfig) (s : ShelterState) : Prop where
  moderator : ∃ m, s.members.get cfg.moderator = some m ∧ m.number = 1
  keyed : ∀ w m, s.Entry w m → m.wallet = w
  notRemoved : ∀ w m, s.members.get w = some m → s.removed.get w = none
  notLeft : ∀ w m, s.members.get w = some m → s.left.get w = none
  leftNotRemoved : ∀ w m, s.left.get w = some m → s.removed.get w = none
  nicknames : ∀ w m w' m' n n', s.members.get w = some m → s.members.get w' = some m' →
    m.nickname = some n → m'.nickname = some n' → nicknameSkeleton n = nicknameSkeleton n' → w = w'
  given : ∀ w, s.givenBy w ≤ limitOf cfg w
  standing : ∀ c ∈ s.cases, c.stands = true → (s.removed.get c.subject).isSome = true
  sole : ((s.cases.filter ShelterCase.stands).map ShelterCase.subject).Nodup

/-- What holds of the numbers. -/
structure Numbered (s : ShelterState) : Prop where
  distinct : ∀ w m w' m', s.Entry w m → s.Entry w' m' → m.number = m'.number → w = w'
  below : ∀ w m, s.Entry w m → m.number < s.nextNumber

variable {A : Auth} {W : World} {cfg : ShelterConfig} {s s' : ShelterState} {r : ShelterRecordV1}
  {w : Str} {m : ShelterMember} {c : ShelterCase}

theorem Inv.new (cfg : ShelterConfig) : (ShelterState.new cfg).Inv cfg where
  moderator := ⟨_, Tree.get_insert_self _ _ _, rfl⟩
  keyed := by
    intro w m h
    simp only [Entry, ShelterState.new, Tree.get_insert, Tree.get_empty] at h
    grind
  notRemoved _ _ _ := Tree.get_empty _
  notLeft _ _ _ := Tree.get_empty _
  leftNotRemoved _ _ _ := Tree.get_empty _
  nicknames := by
    intro w m w' m' n n' h h' hn hn' _
    simp only [ShelterState.new, Tree.get_insert, Tree.get_empty] at h h'
    grind
  given _ := by simp [givenBy, ShelterState.new]
  standing _ h := by simp [ShelterState.new] at h
  sole := by simp [ShelterState.new]

theorem Numbered.new (cfg : ShelterConfig) : (ShelterState.new cfg).Numbered where
  distinct := by
    intro w m w' m' h h' _
    simp only [Entry, ShelterState.new, Tree.get_insert, Tree.get_empty] at h h'
    grind
  below := by
    intro w m h
    simp only [Entry, ShelterState.new, Tree.get_insert, Tree.get_empty] at h ⊢
    grind

/-! ## A new member -/

theorem vouchesLeft_le (s : ShelterState) (cfg : ShelterConfig) (w : Str) :
    s.vouchesLeft cfg w ≤ limitOf cfg w - s.givenBy w := by
  unfold vouchesLeft
  split_ifs <;> omega

theorem Entry.of_admitted (hclear : s.removed.get r.subject = none)
    (h : (s.admitted r).Entry w m) :
    w = r.subject ∧ m = ⟨r.subject, s.nextNumber, some r.signer, r.atMs, none⟩ ∨
      w ≠ r.subject ∧ s.Entry w m := by
  simp only [Entry, admitted, Tree.get_insert, Tree.get_remove] at h ⊢
  grind

theorem Inv.admitted (h : s.Inv cfg) (hfresh : s.members.get r.subject = none)
    (hclear : s.removed.get r.subject = none) (hroom : 0 < s.vouchesLeft cfg r.signer) :
    (s.admitted r).Inv cfg where
  moderator := by
    obtain ⟨m, hm, hnum⟩ := h.moderator
    refine ⟨m, ?_, hnum⟩
    have hne : r.subject ≠ cfg.moderator := by
      intro heq
      rw [← heq, hfresh] at hm
      cases hm
    rw [ShelterState.admitted, Tree.get_insert_ne hne, hm]
  keyed w m hm := by
    rcases hm.of_admitted hclear with ⟨rfl, rfl⟩ | ⟨-, hm⟩
    · rfl
    · exact h.keyed w m hm
  notRemoved w m hm := by
    have := h.notRemoved w m
    simp only [ShelterState.admitted, Tree.get_insert] at hm ⊢
    grind
  notLeft w m hm := by
    have := h.notLeft w m
    simp only [ShelterState.admitted, Tree.get_insert, Tree.get_remove] at hm ⊢
    grind
  leftNotRemoved w m hm := by
    have := h.leftNotRemoved w m
    simp only [ShelterState.admitted, Tree.get_remove] at hm ⊢
    grind
  nicknames w m w' m' n n' hm hm' := by
    have := h.nicknames w m w' m' n n'
    simp only [ShelterState.admitted, Tree.get_insert] at hm hm'
    grind
  given w := by
    have hle := vouchesLeft_le s cfg r.signer
    have := h.given w
    simp only [givenBy, ShelterState.admitted, Tree.get_insert] at this hle ⊢
    split_ifs with hw
    · subst hw
      simp only [Option.getD_some]
      omega
    · exact this
  standing := h.standing
  sole := h.sole

theorem Numbered.admitted (h : s.Numbered) (hclear : s.removed.get r.subject = none)
    (hnumber : s.nextNumber < u32Max) : (s.admitted r).Numbered := by
  have hnext : (s.admitted r).nextNumber = s.nextNumber + 1 :=
    Nat.mod_eq_of_lt (by unfold u32Max at hnumber; omega)
  constructor
  · intro w m w' m' hm hm' hnum
    rcases hm.of_admitted hclear with ⟨rfl, rfl⟩ | ⟨-, hm⟩ <;>
      rcases hm'.of_admitted hclear with ⟨rfl, rfl⟩ | ⟨-, hm'⟩
    · rfl
    · exact absurd hnum (Nat.ne_of_gt (h.below w' m' hm'))
    · exact absurd hnum (Nat.ne_of_lt (h.below w m hm))
    · exact h.distinct w m w' m' hm hm' hnum
  · intro w m hm
    rw [hnext]
    rcases hm.of_admitted hclear with ⟨-, rfl⟩ | ⟨-, hm⟩
    · exact Nat.lt_succ_self _
    · exact Nat.lt_succ_of_lt (h.below w m hm)

/-- The numbers when the entries move or change their nicknames. -/
theorem Numbered.of_entries (h : s.Numbered) (hnext : s'.nextNumber = s.nextNumber)
    (hentry : ∀ w m', s'.Entry w m' → ∃ m, s.Entry w m ∧ m.number = m'.number) : s'.Numbered where
  distinct w m w' m' hm hm' hnum := by
    obtain ⟨m₁, hm₁, hnum₁⟩ := hentry w m hm
    obtain ⟨m₂, hm₂, hnum₂⟩ := hentry w' m' hm'
    exact h.distinct w m₁ w' m₂ hm₁ hm₂ (by rw [hnum₁, hnum₂, hnum])
  below w m hm := by
    obtain ⟨m₁, hm₁, hnum₁⟩ := hentry w m hm
    rw [hnext, ← hnum₁]
    exact h.below w m₁ hm₁

/-! ## A member who leaves -/

theorem Entry.of_gone {a : Str} {m' : ShelterMember} (hm : s.members.get w = some m)
    (h : (s.gone w m).Entry a m') : s.Entry a m' := by
  simp only [Entry, gone, Tree.get_insert, Tree.get_remove] at h ⊢
  grind

theorem Inv.gone (h : s.Inv cfg) (hmod : w ≠ cfg.moderator) (hm : s.members.get w = some m) :
    (s.gone w m).Inv cfg where
  moderator := by
    obtain ⟨m₁, hm₁, hnum⟩ := h.moderator
    exact ⟨m₁, by rw [ShelterState.gone, Tree.get_remove_ne hmod, hm₁], hnum⟩
  keyed a m' hm' := h.keyed a m' (hm'.of_gone hm)
  notRemoved a m' hm' := by
    have := h.notRemoved a m'
    simp only [ShelterState.gone, Tree.get_remove] at hm' ⊢
    grind
  notLeft a m' hm' := by
    have := h.notLeft a m'
    simp only [ShelterState.gone, Tree.get_insert, Tree.get_remove] at hm' ⊢
    grind
  leftNotRemoved a m' hm' := by
    have := h.leftNotRemoved a m'
    have := h.notRemoved w m hm
    simp only [ShelterState.gone, Tree.get_insert] at hm' ⊢
    grind
  nicknames a m₁ b m₂ n n' hm₁ hm₂ := by
    have := h.nicknames a m₁ b m₂ n n'
    simp only [ShelterState.gone, Tree.get_remove] at hm₁ hm₂
    grind
  given := h.given
  standing := h.standing
  sole := h.sole

/-! ## A nickname -/

theorem nicknameTaken_eq_false {sk : Str} {except : Option Str}
    (h : s.nicknameTaken sk except = false) (hm : s.members.get w = some m)
    (hother : except ≠ some m.wallet) : m.nickname.map nicknameSkeleton ≠ some sk := by
  intro hsk
  unfold nicknameTaken at h
  rw [List.any_eq_false] at h
  refine h (w, m) (Tree.mem_iter.mpr hm) ?_
  simp [hother, hsk]

theorem Entry.of_named {a text : Str} {m' : ShelterMember} (hm : s.members.get w = some m)
    (h : (s.named w m text).Entry a m') :
    ∃ m₁, s.Entry a m₁ ∧ m₁.number = m'.number ∧ m₁.wallet = m'.wallet := by
  simp only [Entry, named, Tree.get_insert] at h ⊢
  by_cases ha : w = a
  · subst ha
    rw [if_pos rfl] at h
    rcases h with h | h
    · cases h
      exact ⟨m, Or.inl hm, rfl, rfl⟩
    · exact ⟨m', Or.inr h, rfl, rfl⟩
  · rw [if_neg ha] at h
    exact ⟨m', h, rfl, rfl⟩

theorem Inv.named (h : s.Inv cfg) {text : Str}
    (hfree : s.nicknameTaken (nicknameSkeleton text) (some w) = false)
    (hm : s.members.get w = some m) : (s.named w m text).Inv cfg where
  moderator := by
    obtain ⟨m₁, hm₁, hnum⟩ := h.moderator
    by_cases hw : w = cfg.moderator
    · subst hw
      cases hm.symm.trans hm₁
      exact ⟨_, Tree.get_insert_self _ _ _, hnum⟩
    · exact ⟨m₁, by rw [ShelterState.named, Tree.get_insert_ne hw, hm₁], hnum⟩
  keyed a m' hm' := by
    obtain ⟨m₁, hm₁, -, hw⟩ := hm'.of_named hm
    exact hw ▸ h.keyed a m₁ hm₁
  notRemoved a m' hm' := by
    have := h.notRemoved a
    simp only [ShelterState.named, Tree.get_insert] at hm' ⊢
    grind
  notLeft a m' hm' := by
    have := h.notLeft a
    simp only [ShelterState.named, Tree.get_insert] at hm' ⊢
    grind
  leftNotRemoved := h.leftNotRemoved
  nicknames a m₁ b m₂ n n' hm₁ hm₂ hn hn' hsk := by
    -- the other members' nicknames look otherwise
    have hother : ∀ b m₂ n', w ≠ b → s.members.get b = some m₂ → m₂.nickname = some n' →
        nicknameSkeleton n' ≠ nicknameSkeleton text := by
      intro b m₂ n' hb hm₂ hn' hsk
      refine nicknameTaken_eq_false hfree hm₂ ?_ (by rw [hn', Option.map_some, hsk])
      rw [h.keyed b m₂ (Or.inl hm₂)]
      simpa using hb
    have := h.nicknames a m₁ b m₂ n n'
    simp only [ShelterState.named, Tree.get_insert] at hm₁ hm₂
    grind
  given := h.given
  standing := h.standing
  sole := h.sole

/-! ## A case -/

theorem Entry.of_accused {a : Str} {m' : ShelterMember}
    (hm : (s.members.get r.subject <|> s.left.get r.subject) = some m)
    (h : (s.accused cfg A W r m).Entry a m') : s.Entry a m' := by
  simp only [Entry, accused, Tree.get_insert, Tree.get_remove] at h ⊢
  cases hin : s.members.get r.subject with
  | none =>
    simp only [hin, Option.isSome_none, Bool.false_eq_true, if_false, Tree.get_remove] at h hm
    grind
  | some m₁ =>
    simp only [hin, Option.isSome_some, if_true] at h hm
    grind

/-- The subject of a case is an entry of the members or of those who left. -/
theorem Inv.found_entry (hm : (s.members.get w <|> s.left.get w) = some m) :
    s.members.get w = some m ∨ s.members.get w = none ∧ s.left.get w = some m := by
  cases hin : s.members.get w with
  | none =>
    rw [hin] at hm
    exact Or.inr ⟨rfl, hm⟩
  | some m₁ =>
    rw [hin] at hm
    exact Or.inl hm

theorem Inv.not_removed (h : s.Inv cfg) (hm : (s.members.get w <|> s.left.get w) = some m) :
    s.removed.get w = none := by
  rcases Inv.found_entry hm with hm | ⟨-, hm⟩
  · exact h.notRemoved w m hm
  · exact h.leftNotRemoved w m hm

theorem Inv.accused (h : s.Inv cfg) (hmod : r.subject ≠ cfg.moderator)
    (hm : (s.members.get r.subject <|> s.left.get r.subject) = some m) :
    (s.accused cfg A W r m).Inv cfg := by
  have hclear := h.not_removed hm
  -- a standing case has its subject among the removed, so none is against this one
  have hsubject : ∀ c ∈ s.cases, c.stands = true → c.subject ≠ r.subject := by
    intro c hc hst heq
    have := h.standing c hc hst
    rw [heq, hclear] at this
    cases this
  constructor
  · obtain ⟨m₁, hm₁, hnum⟩ := h.moderator
    exact ⟨m₁, by rw [ShelterState.accused, Tree.get_remove_ne hmod, hm₁], hnum⟩
  · exact fun a m' hm' => h.keyed a m' (hm'.of_accused hm)
  · intro a m' hm'
    have := h.notRemoved a m'
    simp only [ShelterState.accused, Tree.get_insert, Tree.get_remove] at hm' ⊢
    grind
  · intro a m' hm'
    have := h.notLeft a m'
    simp only [ShelterState.accused, Tree.get_remove] at hm' ⊢
    split_ifs
    · grind
    · rw [Tree.get_remove]
      grind
  · intro a m' hm'
    have := h.leftNotRemoved a m'
    rcases Inv.found_entry hm with hin | ⟨hin, -⟩
    · have := h.notLeft r.subject m hin
      simp only [ShelterState.accused, hin, Option.isSome_some, if_true] at hm'
      simp only [ShelterState.accused, Tree.get_insert]
      grind
    · simp only [ShelterState.accused, hin, Option.isSome_none, Bool.false_eq_true, if_false,
        Tree.get_remove] at hm'
      simp only [ShelterState.accused, Tree.get_insert]
      grind
  · intro a m₁ b m₂ n n' hm₁ hm₂
    have := h.nicknames a m₁ b m₂ n n'
    simp only [ShelterState.accused, Tree.get_remove] at hm₁ hm₂
    grind
  · exact h.given
  · intro c hc hst
    simp only [ShelterState.accused, Tree.get_insert]
    rcases List.mem_append.mp hc with hc | hc
    · rw [if_neg fun heq => hsubject c hc hst heq.symm]
      exact h.standing c hc hst
    · rw [List.mem_singleton.mp hc]
      exact if_pos rfl ▸ rfl
  · simp only [ShelterState.accused, List.filter_append, List.map_append]
    refine List.nodup_append.mpr ⟨h.sole, ?_, ?_⟩
    · by_cases hst : (s.newCase cfg A W r m).stands = true <;> simp [hst]
    · intro a ha b hb
      obtain ⟨c, hc, rfl⟩ := List.mem_map.mp ha
      obtain ⟨c', hc', rfl⟩ := List.mem_map.mp hb
      rw [List.mem_filter] at hc hc'
      rw [List.mem_singleton.mp hc'.1]
      exact hsubject c hc.1 hc.2

/-! ## An appeal -/

/-- The case an appeal is about, among the cases, and with its decision. -/
theorem caseOf_split (h : s.caseOf r.subject = some c) :
    ∃ before after, s.cases = before ++ c :: after ∧
      (s.answered r c).cases =
        before ++ { c with appeal := some r.decision, appealAtMs := some r.atMs } :: after := by
  unfold caseOf at h
  obtain ⟨hc, before, after, hsplit, hbefore⟩ := List.find?_eq_some_iff_append.mp h
  have hidx : s.cases.findIdx (fun c => decide (c.id = r.subject)) = before.length := by
    have hnone : before.findIdx (fun c => decide (c.id = r.subject)) = before.length :=
      List.findIdx_eq_length_of_false fun c hc => by simpa using hbefore c hc
    rw [hsplit, List.findIdx_append, hnone, if_neg (Nat.lt_irrefl _), List.findIdx_cons, hc]
    exact Nat.zero_add _
  refine ⟨before, after, hsplit, ?_⟩
  simp only [answered, hidx]
  rw [hsplit, List.set_append_right _ _ (Nat.le_refl _), Nat.sub_self, List.set_cons_zero]

/-- The standing cases' subjects, with the case an appeal is about among them. -/
theorem standing_split {before after : List ShelterCase} (hst : c.stands = true) :
    ((before ++ c :: after).filter ShelterCase.stands).map ShelterCase.subject =
      (before.filter ShelterCase.stands).map ShelterCase.subject ++
        c.subject :: (after.filter ShelterCase.stands).map ShelterCase.subject := by
  simp [hst]

theorem standing_split_of_not {before after : List ShelterCase} (hst : c.stands = false) :
    (before ++ c :: after).filter ShelterCase.stands =
      before.filter ShelterCase.stands ++ after.filter ShelterCase.stands := by
  simp [hst]

theorem stands_of_undecided (h : c.appeal = none) : c.stands = true := by
  simp [ShelterCase.stands, h]

theorem Inv.answered (h : s.Inv cfg) (hfound : s.caseOf r.subject = some c)
    (hnone : c.appeal = none) : (s.answered r c).Inv cfg := by
  obtain ⟨before, after, hsplit, hsplit'⟩ := caseOf_split hfound
  have hst := stands_of_undecided hnone
  refine ⟨h.moderator, h.keyed, h.notRemoved, h.notLeft, h.leftNotRemoved, h.nicknames, h.given,
    ?_, ?_⟩
  · intro c' hc' hst'
    rw [hsplit'] at hc'
    rcases List.mem_append.mp hc' with hc' | hc'
    · exact h.standing c' (hsplit ▸ List.mem_append_left _ hc') hst'
    · rcases List.mem_cons.mp hc' with rfl | hc'
      · exact h.standing c (hsplit ▸ List.mem_append_right _ List.mem_cons_self) hst
      · exact h.standing c' (hsplit ▸ List.mem_append_right _ (List.mem_cons_of_mem _ hc')) hst'
  · have hsole := h.sole
    rw [hsplit, standing_split hst] at hsole
    rw [hsplit']
    generalize hc' : ({ c with appeal := some r.decision, appealAtMs := some r.atMs } :
      ShelterCase) = c'
    cases hst' : c'.stands with
    | true =>
      rw [standing_split hst', ← hc']
      exact hsole
    | false =>
      rw [standing_split_of_not hst', List.map_append]
      exact hsole.sublist (List.Sublist.append_left (List.sublist_cons_self _ _) _)

/-- After an overturn no standing case is against the subject. -/
theorem Inv.not_standing (h : s.Inv cfg) (hfound : s.caseOf r.subject = some c)
    (hnone : c.appeal = none) (hdec : r.decision = "overturn".toList) :
    ∀ c' ∈ (s.answered r c).cases, c'.stands = true → c'.subject ≠ c.subject := by
  obtain ⟨before, after, hsplit, hsplit'⟩ := caseOf_split hfound
  have hsole := h.sole
  rw [hsplit, standing_split (stands_of_undecided hnone)] at hsole
  intro c' hc' hst' heq
  have hnot : c.subject ∉ (before.filter ShelterCase.stands).map ShelterCase.subject ++
      (after.filter ShelterCase.stands).map ShelterCase.subject :=
    (List.nodup_cons.mp (List.perm_middle.nodup_iff.mp hsole)).1
  refine hnot ?_
  rw [← List.map_append, ← List.filter_append, ← heq]
  refine List.mem_map_of_mem (List.mem_filter.mpr ⟨?_, hst'⟩)
  rw [hsplit'] at hc'
  rcases List.mem_append.mp hc' with hc' | hc'
  · exact List.mem_append_left _ hc'
  · rcases List.mem_cons.mp hc' with rfl | hc'
    · simp [ShelterCase.stands, hdec] at hst'
    · exact List.mem_append_right _ hc'

@[simp] theorem returning_number (s : ShelterState) (m : ShelterMember) :
    (s.returning m).number = m.number := by
  unfold returning
  split <;> rfl

@[simp] theorem returning_wallet (s : ShelterState) (m : ShelterMember) :
    (s.returning m).wallet = m.wallet := by
  unfold returning
  split <;> rfl

/-- A nickname somebody goes back with looks like no member's. -/
theorem returning_nickname {n : Str} (hn : (s.returning m).nickname = some n) {w : Str}
    {m' : ShelterMember} (hm' : s.members.get w = some m') {n' : Str} (hn' : m'.nickname = some n') :
    nicknameSkeleton n' ≠ nicknameSkeleton n := by
  unfold returning at hn
  split_ifs at hn with htaken
  rw [hn, Option.map_some, Option.any_some, Bool.not_eq_true] at htaken
  have hother := nicknameTaken_eq_false htaken hm' (by simp)
  rw [hn', Option.map_some] at hother
  simpa using hother

theorem restoreMember_members {who : Str} (s : ShelterState) (was : Bool)
    (hm : s.removed.get who = some m) : (s.restoreMember who was).members =
      if was then s.members.insert who (s.returning m) else s.members := by
  unfold restoreMember
  rw [hm]
  cases was <;> rfl

theorem restoreMember_left {who : Str} (s : ShelterState) (was : Bool)
    (hm : s.removed.get who = some m) : (s.restoreMember who was).left =
      if was then s.left else s.left.insert who (s.returning m) := by
  unfold restoreMember
  rw [hm]
  cases was <;> rfl

theorem restoreMember_removed {who : Str} (s : ShelterState) (was : Bool)
    (hm : s.removed.get who = some m) :
    (s.restoreMember who was).removed = s.removed.remove who := by
  unfold restoreMember
  rw [hm]
  cases was <;> rfl

/-- Nothing else changes. -/
theorem restoreMember_rest (s : ShelterState) (who : Str) (was : Bool) :
    (s.restoreMember who was).given = s.given ∧ (s.restoreMember who was).cases = s.cases ∧
      (s.restoreMember who was).nextNumber = s.nextNumber := by
  unfold restoreMember
  cases s.removed.get who with
  | none => exact ⟨rfl, rfl, rfl⟩
  | some m => cases was <;> exact ⟨rfl, rfl, rfl⟩

theorem Entry.of_restored {who a : Str} {was : Bool} {m' : ShelterMember}
    (hm : s.removed.get who = some m) (h : (s.restoreMember who was).Entry a m') :
    ∃ m₁, s.Entry a m₁ ∧ m₁.number = m'.number ∧ m₁.wallet = m'.wallet := by
  simp only [Entry, restoreMember_members s was hm, restoreMember_left s was hm,
    restoreMember_removed s was hm, Tree.get_remove] at h ⊢
  by_cases ha : who = a
  · subst ha
    cases was with
    | true =>
      simp only [if_true, Tree.get_insert_self] at h
      rcases h with h | h | h
      · cases h
        exact ⟨m, Or.inr (Or.inl hm), (returning_number s m).symm, (returning_wallet s m).symm⟩
      · cases h
      · exact ⟨m', Or.inr (Or.inr h), rfl, rfl⟩
    | false =>
      simp only [Bool.false_eq_true, if_false, if_true, Tree.get_insert_self] at h
      rcases h with h | h | h
      · exact ⟨m', Or.inl h, rfl, rfl⟩
      · cases h
      · cases h
        exact ⟨m, Or.inr (Or.inl hm), (returning_number s m).symm, (returning_wallet s m).symm⟩
  · refine ⟨m', ?_, rfl, rfl⟩
    cases was <;> simpa [Tree.get_insert_ne ha, ha] using h

theorem Inv.restored (h : s.Inv cfg) {who : Str} (was : Bool) (hm : s.removed.get who = some m)
    (hcases : ∀ c ∈ s.cases, c.stands = true → c.subject ≠ who) :
    (s.restoreMember who was).Inv cfg := by
  have hout : s.members.get who = none := by
    cases hin : s.members.get who with
    | none => rfl
    | some m₁ => exact absurd (h.notRemoved who m₁ hin) (by simp [hm])
  have hleft : s.left.get who = none := by
    cases hin : s.left.get who with
    | none => rfl
    | some m₁ => exact absurd (h.leftNotRemoved who m₁ hin) (by simp [hm])
  have hmembers := restoreMember_members s was hm
  have hlefts := restoreMember_left s was hm
  have hremoved := restoreMember_removed s was hm
  obtain ⟨hgiven, hkept, -⟩ := restoreMember_rest s who was
  constructor
  · obtain ⟨m₁, hm₁, hnum⟩ := h.moderator
    have hne : who ≠ cfg.moderator := by
      rintro rfl
      rw [hout] at hm₁
      cases hm₁
    refine ⟨m₁, ?_, hnum⟩
    rw [hmembers]
    cases was <;> simp [Tree.get_insert_ne hne, hm₁]
  · intro a m' hm'
    obtain ⟨m₁, hm₁, -, hw⟩ := hm'.of_restored hm
    exact hw ▸ h.keyed a m₁ hm₁
  · intro a m' hm'
    have := h.notRemoved a
    rw [hmembers] at hm'
    rw [hremoved, Tree.get_remove]
    cases was <;> simp only [Bool.false_eq_true, if_false, if_true, Tree.get_insert] at hm' <;> grind
  · intro a m' hm'
    have := h.notLeft a
    rw [hmembers] at hm'
    rw [hlefts]
    cases was <;>
      simp only [Bool.false_eq_true, if_false, if_true, Tree.get_insert] at hm' ⊢ <;> grind
  · intro a m' hm'
    have := h.leftNotRemoved a
    rw [hlefts] at hm'
    rw [hremoved, Tree.get_remove]
    cases was <;> simp only [Bool.false_eq_true, if_false, if_true, Tree.get_insert] at hm' <;> grind
  · intro a m₁ b m₂ n n' hm₁ hm₂ hn hn' hsk
    have hold := h.nicknames a m₁ b m₂ n n'
    have hback := fun (b : Str) (m₂ : ShelterMember) (n n' : Str)
        (hn : (s.returning m).nickname = some n) (hm₂ : s.members.get b = some m₂)
        (hn' : m₂.nickname = some n') => returning_nickname hn hm₂ hn'
    rw [hmembers] at hm₁ hm₂
    cases was with
    | false => exact hold hm₁ hm₂ hn hn' hsk
    | true =>
      simp only [if_true, Tree.get_insert] at hm₁ hm₂
      grind
  · intro a
    have := h.given a
    unfold givenBy at this ⊢
    rw [hgiven]
    exact this
  · intro c hc hst
    rw [hkept] at hc
    rw [hremoved, Tree.get_remove_ne (hcases c hc hst).symm]
    exact h.standing c hc hst
  · rw [hkept]
    exact h.sole

/-! ## Runs -/

/-- The subject of an undecided case is among the removed. -/
theorem Inv.subject_removed (h : s.Inv cfg) (hfound : s.caseOf r.subject = some c)
    (hnone : c.appeal = none) : ∃ m, s.removed.get c.subject = some m :=
  Option.isSome_iff_exists.mp
    (h.standing c (List.mem_of_find?_eq_some hfound) (stands_of_undecided hnone))

/-- **A step keeps the invariant.** -/
theorem Inv.step (h : s.Inv cfg) (hr : r.Signed) (hstep : s.Step cfg A W r s') : s'.Inv cfg := by
  cases hstep with
  | letsIn _ _ hfresh hclear hroom =>
    rw [isMember_eq hr.subject] at hfresh
    exact h.admitted (by simpa using hfresh) hclear hroom
  | leaves _ m hmod hm => exact h.gone hmod hm
  | names _ m hfree hm => exact h.named hfree hm
  | accuses _ m hmod hm => exact h.accused hmod hm
  | keeps _ c hfound hnone _ => exact h.answered hfound hnone
  | overturns _ c hfound hnone hdec =>
    obtain ⟨m, hm⟩ := h.subject_removed hfound hnone
    exact (h.answered hfound hnone).restored c.wasMember hm (h.not_standing hfound hnone hdec)

/-- **A step keeps the numbers** where the counter is not at its end. -/
theorem Numbered.step (h : s.Numbered) (hinv : s.Inv cfg)
    (hnumber : r.action = .invite ∨ r.action = .vouch → s.nextNumber < u32Max)
    (hstep : s.Step cfg A W r s') : s'.Numbered := by
  cases hstep with
  | letsIn kind _ _ hclear _ => exact h.admitted hclear (hnumber kind)
  | leaves _ m _ hm => exact h.of_entries rfl fun a m' hm' => ⟨m', hm'.of_gone hm, rfl⟩
  | names _ m _ hm =>
    refine h.of_entries rfl fun a m' hm' => ?_
    obtain ⟨m₁, hm₁, hnum, -⟩ := hm'.of_named hm
    exact ⟨m₁, hm₁, hnum⟩
  | accuses _ m _ hm => exact h.of_entries rfl fun a m' hm' => ⟨m', hm'.of_accused hm, rfl⟩
  | keeps _ c _ _ _ => exact h.of_entries rfl fun a m' hm' => ⟨m', hm', rfl⟩
  | overturns _ c hfound hnone _ =>
    obtain ⟨m, hm⟩ := hinv.subject_removed hfound hnone
    refine h.of_entries (restoreMember_rest _ _ _).2.2 fun a m' hm' => ?_
    obtain ⟨m₁, hm₁, hnum, -⟩ := Entry.of_restored (s := s.answered r c) hm hm'
    exact ⟨m₁, hm₁, hnum⟩

end ShelterState

/-- What signed records lead to, each where `ok` allows it. -/
inductive ShelterRun (A : Auth) (W : World) (cfg : ShelterConfig)
    (ok : ShelterState → ShelterRecordV1 → Prop) : ShelterState → Prop
  | new : ShelterRun A W cfg ok (ShelterState.new cfg)
  | apply {s : ShelterState} (r : ShelterRecordV1) (before : ShelterRun A W cfg ok s)
      (signed : verifyRecord A W r = .ok ()) (allowed : ok s r) :
      ShelterRun A W cfg ok (s.apply cfg A W r).2

/-- The counter of the numbers is not at its end where somebody is to be let in. -/
def CounterLeft (s : ShelterState) (r : ShelterRecordV1) : Prop :=
  r.action = .invite ∨ r.action = .vouch → s.nextNumber < u32Max

/-- Who Shelter's members are: the moderator is number 1; nobody is in two of the maps; the numbers
of the three maps are different and below the counter; the members' nicknames look different; nobody
has given more than they may; and no standing case is against a member. -/
structure ShelterMembership (cfg : ShelterConfig) (s : ShelterState) : Prop where
  moderator : ∃ m, s.members.get cfg.moderator = some m ∧ m.number = 1
  disjoint : ∀ w, (s.members.get w ≠ none → s.removed.get w = none ∧ s.left.get w = none) ∧
    (s.left.get w ≠ none → s.removed.get w = none)
  numbers : ∀ w m w' m', s.Entry w m → s.Entry w' m' → m.number = m'.number → w = w'
  below : ∀ w m, s.Entry w m → m.number < s.nextNumber
  nicknames : ∀ w m w' m' n n', s.members.get w = some m → s.members.get w' = some m' →
    m.nickname = some n → m'.nickname = some n' → nicknameSkeleton n = nicknameSkeleton n' → w = w'
  given : ∀ w, s.givenBy w ≤ if w = cfg.moderator then shelterModInvites else shelterVouches
  cases : ∀ c ∈ s.cases, c.stands = true → s.members.get c.subject = none

section Runs

variable {A : Auth} {W : World} {cfg : ShelterConfig} {s : ShelterState}
  {ok : ShelterState → ShelterRecordV1 → Prop}

/-- Every run keeps the invariant of the maps and the cases. -/
theorem ShelterRun.inv (h : ShelterRun A W cfg ok s) : s.Inv cfg := by
  induction h with
  | new => exact ShelterState.Inv.new cfg
  | @apply s r _ signed _ ih =>
    have hr := verifyRecord_ok signed
    rcases ShelterState.apply_cases cfg A W s hr with ⟨e, heq⟩ | ⟨s', heq, hstep⟩ <;> rw [heq]
    · exact ih
    · exact ih.step hr hstep

/-- A run in which the counter is not passed keeps the numbers. -/
theorem ShelterRun.numbered (h : ShelterRun A W cfg CounterLeft s) : s.Numbered := by
  induction h with
  | new => exact ShelterState.Numbered.new cfg
  | @apply s r before signed allowed ih =>
    rcases ShelterState.apply_cases cfg A W s (verifyRecord_ok signed) with
      ⟨e, heq⟩ | ⟨s', heq, hstep⟩ <;> rw [heq]
    · exact ih
    · exact ih.step before.inv allowed hstep

theorem ShelterRun.foldl {records : List ShelterRecordV1}
    (hs : ShelterRun A W cfg (fun _ _ => True) s)
    (h : ∀ r ∈ records, verifyRecord A W r = .ok ()) :
    ShelterRun A W cfg (fun _ _ => True)
      (records.foldl (fun s r => (s.apply cfg A W r).2) s) := by
  induction records generalizing s with
  | nil => exact hs
  | cons r records ih =>
    exact ih (.apply r hs (h r List.mem_cons_self) trivial)
      fun x hx => h x (List.mem_cons_of_mem _ hx)

/-- Replaying signed records is a run. -/
theorem ShelterRun.replay {records : List ShelterRecordV1}
    (h : ∀ r ∈ records, verifyRecord A W r = .ok ()) :
    ShelterRun A W cfg (fun _ _ => True) (Tmail.replay A W cfg records) :=
  ShelterRun.new.foldl h

theorem ShelterMembership.of_inv (h : s.Inv cfg) (hnum : s.Numbered) : ShelterMembership cfg s where
  moderator := h.moderator
  disjoint w := by
    constructor
    · intro hin
      obtain ⟨m, hm⟩ := Option.ne_none_iff_exists'.mp hin
      exact ⟨h.notRemoved w m hm, h.notLeft w m hm⟩
    · intro hin
      obtain ⟨m, hm⟩ := Option.ne_none_iff_exists'.mp hin
      exact h.leftNotRemoved w m hm
  numbers := hnum.distinct
  below := hnum.below
  nicknames := h.nicknames
  given := h.given
  cases c hc hst := by
    by_contra hin
    obtain ⟨m, hm⟩ := Option.ne_none_iff_exists'.mp hin
    have hremoved := h.standing c hc hst
    rw [h.notRemoved c.subject m hm] at hremoved
    cases hremoved

/-- **Shelter's membership**, after any signed records, accepted or refused, none of which is to let
somebody in when the counter is at `u32::MAX`; and a refused record changes nothing. -/
theorem shelter_membership (h : ShelterRun A W cfg CounterLeft s) :
    ShelterMembership cfg s ∧
      ∀ r, verifyRecord A W r = .ok () → ∀ e s', s.apply cfg A W r = (.error e, s') → s' = s := by
  refine ⟨.of_inv h.inv h.numbered, fun r hr e s' heq => ?_⟩
  rcases ShelterState.apply_cases cfg A W s (verifyRecord_ok hr) with ⟨e', h'⟩ | ⟨s'', h', -⟩
  · rw [h'] at heq
    cases heq
    rfl
  · rw [h'] at heq
    cases heq

end Runs

end TetCore.Tmail

namespace TetCore.Sample

open TetCore.Lib TetCore.Tmail

/-- An ML-DSA key, as text. -/
def mldsaKey : Str := "mldsa44".toList

/-- A record signed with its signer's two keys. -/
def signRecord (r : ShelterRecordV1) : ShelterRecordV1 :=
  let msg := recordAuthMessageBytes auth (World.sample 0)
    { r with hybridSig := ⟨[], [], mldsaKey, []⟩ }
  { r with hybridSig := ⟨r.signer, sign r.signer msg, mldsaKey, sign mldsaKey msg⟩ }

def shelterRecord (action : ShelterAction) (signer subject text decision : Str) (atMs : Nat) :
    ShelterRecordV1 :=
  signRecord ⟨1, "tet_shelter_record_v1".toList, action, signer, subject, true, text, decision, atMs,
    ⟨[], [], [], []⟩⟩

theorem verifyEd25519_sign {signer : Str} (h : isHex64 signer = true) (msg : Bytes) :
    auth.verifyEd25519 signer (sign signer msg) msg = .ok () := by
  show (if isHex64 signer && sign signer msg == sign signer msg then _ else _) = _
  simp [h]

theorem verifyMldsaB64_sign (msg : Bytes) :
    auth.verifyMldsaB64 mldsaKey (sign mldsaKey msg) msg = .ok () := by
  have hkey : trim mldsaKey = mldsaKey ∧ isKeyText mldsaKey = true := by decide
  show verifyMldsa _ _ _ = _
  simp [verifyMldsa, hkey]

theorem verifyHybrid_sign {signer : Str} (h : isHex64 signer = true) (msg : Bytes) :
    verifyHybrid auth signer ⟨signer, sign signer msg, mldsaKey, sign mldsaKey msg⟩ msg = .ok () := by
  unfold verifyHybrid
  simp only [verifyEd25519_sign h, verifyMldsaB64_sign]
  rfl

theorem verify_signRecord {r : ShelterRecordV1} (hv : r.v = 1)
    (hkind : r.kind = "tet_shelter_record_v1".toList) (hr : r.Signed) :
    verifyRecord auth (World.sample 0) (signRecord r) = .ok () :=
  verifyRecord_of (r := signRecord r) hv hkind ⟨hr.signerHex, hr.signer, hr.subjectHex, hr.subject⟩
    hr.signer (verifyHybrid_sign hr.signerHex _)

/-- The wallets in the order they are let in, the moderator first. -/
def walletNo (n : Nat) : Str := hexEncode (beBytes 32 n)

theorem walletNo_hex (n : Nat) : isHex64 (walletNo n) = true :=
  isHex64_hexEncode (by simp [beBytes])

theorem walletNo_lower (n : Nat) : trimLower (walletNo n) = walletNo n := trimLower_hexEncode _

theorem walletNo_injective {m n : Nat} (hm : m < 2 ^ 40) (hn : n < 2 ^ 40)
    (h : walletNo m = walletNo n) : m = n := by
  have hbytes := List.reverse_injective (hexEncode_injective h)
  exact leBytes_injective (Nat.lt_of_lt_of_le hm (by norm_num))
    (Nat.lt_of_lt_of_le hn (by norm_num)) hbytes

/-- A Shelter with its moderator. -/
def shelter : ShelterConfig := ⟨walletNo 0, walletNo (2 ^ 39)⟩

/-- The moderator lets in wallet `1`, which lets in wallet `2`, and so on. -/
def chainRecord (k : Nat) : ShelterRecordV1 :=
  shelterRecord (if k = 0 then .invite else .vouch) (walletNo k) (walletNo (k + 1)) [] [] 0

/-- The state after `k` of them. -/
structure Chained (k : Nat) (s : ShelterState) : Prop where
  next : s.nextNumber = (k + 2) % 2 ^ 32
  names : ∀ w m, s.members.get w = some m → ∃ i ≤ k, w = walletNo i
  last : (s.members.get (walletNo k)).isSome = true
  given : ∀ i, k ≤ i → i < 2 ^ 40 → s.given.get (walletNo i) = none
  removed : ∀ w, s.removed.get w = none
  cases : s.cases = []

theorem Chained.step {k : Nat} {s : ShelterState} (h : Chained k s) (hk : k < 2 ^ 32) :
    Chained (k + 1) (s.apply shelter auth (World.sample 0) (chainRecord k)).2 := by
  have hne : ∀ i ≤ k, walletNo i ≠ walletNo (k + 1) := by
    intro i hi heq
    have := walletNo_injective (by omega) (by omega) heq
    omega
  have hgiver : s.isMember (walletNo k) = true := by
    rw [ShelterState.isMember_eq (walletNo_lower k), h.last]
  have hfresh : s.members.get (walletNo (k + 1)) = none := by
    by_contra hin
    obtain ⟨m, hm⟩ := Option.ne_none_iff_exists'.mp hin
    obtain ⟨i, hi, heq⟩ := h.names _ m hm
    exact hne i hi heq.symm
  have hroom : 0 < s.vouchesLeft shelter (walletNo k) := by
    have hstanding : s.standingCasesAgainstVoucher (walletNo k) = [] := by
      simp [ShelterState.standingCasesAgainstVoucher, h.cases]
    have hgiven : s.givenBy (walletNo k) = 0 := by
      simp [ShelterState.givenBy, h.given k (Nat.le_refl k) (by omega)]
    unfold ShelterState.vouchesLeft ShelterState.limitOf
    simp only [hgiver, hstanding, hgiven]
    split_ifs <;> simp_all [shelterModInvites, shelterVouches]
  have happ : s.apply shelter auth (World.sample 0) (chainRecord k) =
      (.ok (), s.admitted (chainRecord k)) := by
    refine ShelterState.apply_admits ?_ rfl hgiver ?_ ?_ (h.removed _) hroom
    · by_cases h0 : k = 0
      · subst h0
        exact Or.inl ⟨rfl, rfl⟩
      · refine Or.inr ⟨if_neg h0, fun heq => h0 (walletNo_injective (by omega) (by omega) heq)⟩
    · intro heq
      have := walletNo_injective (by omega) (by omega) heq
      omega
    · show s.isMember (walletNo (k + 1)) = false
      rw [ShelterState.isMember_eq (walletNo_lower (k + 1)), hfresh]
      rfl
  rw [happ]
  constructor
  · show (s.nextNumber + 1) % 2 ^ 32 = _
    rw [h.next]
    omega
  · intro w m hm
    have hm : (s.members.insert (walletNo (k + 1)) _).get w = some m := hm
    by_cases hw : walletNo (k + 1) = w
    · exact ⟨k + 1, Nat.le_refl _, hw.symm⟩
    · rw [Tree.get_insert_ne hw] at hm
      obtain ⟨i, hi, heq⟩ := h.names w m hm
      exact ⟨i, by omega, heq⟩
  · show ((s.members.insert (walletNo (k + 1)) _).get (walletNo (k + 1))).isSome = true
    rw [Tree.get_insert_self]
    rfl
  · intro i hi hlt
    show (s.given.insert (walletNo k) _).get (walletNo i) = none
    rw [Tree.get_insert_ne fun heq => ?_]
    · exact h.given i (by omega) hlt
    · have := walletNo_injective (by omega) hlt heq
      omega
  · exact h.removed
  · exact h.cases

theorem chained_new : Chained 0 (ShelterState.new shelter) := by
  refine ⟨rfl, ?_, ?_, ?_, ?_, rfl⟩
  · intro w m hm
    simp only [ShelterState.new, Tree.get_insert, Tree.get_empty] at hm
    refine ⟨0, Nat.le_refl 0, ?_⟩
    by_contra hne
    rw [if_neg (show ¬ shelter.moderator = w from Ne.symm hne)] at hm
    cases hm
  · show ((Tree.empty.insert (walletNo 0) _).get (walletNo 0)).isSome = true
    rw [Tree.get_insert_self]
    rfl
  · exact fun i _ _ => Tree.get_empty _
  · exact fun w => Tree.get_empty _

theorem verify_shelterRecord (action : ShelterAction) (i j : Nat) (text decision : Str)
    (atMs : Nat) : verifyRecord auth (World.sample 0)
      (shelterRecord action (walletNo i) (walletNo j) text decision atMs) = .ok () :=
  verify_signRecord rfl rfl ⟨walletNo_hex i, walletNo_lower i, walletNo_hex j, walletNo_lower j⟩

theorem chained : ∀ k < 2 ^ 32, ∃ s, Chained k s ∧
    ShelterRun auth (World.sample 0) shelter (fun _ _ => True) s := by
  intro k
  induction k with
  | zero => exact fun _ => ⟨_, chained_new, .new⟩
  | succ k ih =>
    intro hk
    obtain ⟨s, hs, hrun⟩ := ih (by omega)
    exact ⟨_, hs.step (by omega), .apply (chainRecord k) hrun (verify_shelterRecord _ _ _ _ _ _) trivial⟩

end TetCore.Sample

namespace TetCore.Tmail

/-- The moderator's first invite. -/
theorem shelter_membership_invited :
    ∃ s, s.isMember (Sample.walletNo 1) = true ∧ ShelterMembership Sample.shelter s := by
  have hnew : Sample.Chained 0 (ShelterState.new Sample.shelter) := Sample.chained_new
  have hrun : ShelterRun Sample.auth (World.sample 0) Sample.shelter CounterLeft _ :=
    .apply (Sample.chainRecord 0) .new (Sample.verify_shelterRecord _ _ _ _ _ _) fun _ => by decide
  refine ⟨_, ?_, (shelter_membership hrun).1⟩
  rw [ShelterState.isMember_eq (Sample.walletNo_lower 1), (hnew.step (by norm_num)).last]

/-- After `2^32 - 2` members are let in the counter is `0`, below the moderator's number. -/
theorem shelter_numbers_wrap :
    ¬ ∀ (A : Auth) (W : World) (cfg : ShelterConfig) (s : ShelterState),
      ShelterRun A W cfg (fun _ _ => True) s → ShelterMembership cfg s := by
  intro h
  obtain ⟨s, hs, hrun⟩ := Sample.chained (2 ^ 32 - 2) (by norm_num)
  have hmem := h _ _ _ s hrun
  obtain ⟨m, hm, hnum⟩ := hmem.moderator
  have hbelow := hmem.below _ m (Or.inl hm)
  rw [hnum, hs.next] at hbelow
  omega

end TetCore.Tmail
