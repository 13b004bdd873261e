import TetCore.Tmail.Members
import TetCore.Tmail.ShelterBoard

/-!
# The roots that count on Shelter's board

A refresh keeps the earlier roots while the set of members only grows, so a kept root's leaves are
among the newest set's (`ShelterRoots.Kept`). Acceptance refreshes first: the leaves of an accepted
root are commitments of the members who may post at that moment (`shelter_root_current`).
-/

namespace TetCore.Tmail

open TetCore.Lib

/-- The kept roots are of sets that were seen, large enough, of distinct wallets, and lost no leaf
since. -/
structure ShelterRoots.Kept (W : World) (seen : KeptRoot → Prop) (st : ShelterRoots) : Prop where
  seen : ∀ k ∈ st.roots, seen k
  root : ∀ k ∈ st.roots, k.root = ShelterRoots.rootOf W k.builtFrom
  enough : ∀ k ∈ st.roots, shelterAnonMin ≤ k.builtFrom.length
  distinct : ∀ k ∈ st.roots, (k.builtFrom.map Prod.fst).Nodup
  current : ∀ k ∈ st.roots, ∀ c ∈ k.builtFrom.map Prod.snd, c ∈ st.leaves

namespace ShelterRoots

variable {W : World} {seen : KeptRoot → Prop} {set : List (Str × Bytes)} {now : Nat}
  {st : ShelterRoots}

/-- A set that loses no leaf has every leaf of the newest one. -/
theorem mem_of_not_loses (h : st.loses set = false) {c : Bytes} (hc : c ∈ st.leaves) :
    c ∈ set.map Prod.snd := by
  unfold loses at h
  rw [List.any_eq_false] at h
  simpa using h c hc

/-- The roots after a refresh: earlier ones, if no leaf is lost, and the root of the set. -/
theorem mem_refreshed (k : KeptRoot) (h : k ∈ (st.refreshed W set now).roots) :
    shelterAnonMin ≤ set.length ∧
      (st.loses set = false ∧ k ∈ st.roots ∨ k = ⟨rootOf W set, now, set⟩) := by
  unfold refreshed at h
  by_cases hmin : shelterAnonMin ≤ set.length
  case neg => simp [hmin] at h
  refine ⟨hmin, ?_⟩
  simp only [if_pos hmin] at h
  have hmem := List.mem_of_mem_drop h
  have hkept : k ∈ (if st.loses set then [] else st.roots) → st.loses set = false ∧ k ∈ st.roots := by
    intro hk
    cases hloses : st.loses set with
    | true => simp [hloses] at hk
    | false => exact ⟨rfl, by simpa [hloses] using hk⟩
  by_cases hthere : ((if st.loses set then [] else st.roots).any fun k => k.root = rootOf W set) =
      true
  · rw [if_pos hthere] at hmem
    exact Or.inl (hkept hmem)
  · rw [if_neg hthere, List.mem_append, List.mem_singleton] at hmem
    exact hmem.imp_left hkept

/-- A refresh keeps the invariant. -/
theorem Kept.refreshed (h : st.Kept W seen) (hset : (set.map Prod.fst).Nodup)
    (hseen : seen ⟨rootOf W set, now, set⟩) : (st.refreshed W set now).Kept W seen := by
  have hcases := fun k (hk : k ∈ (st.refreshed W set now).roots) => mem_refreshed k hk
  constructor
  · intro k hk
    rcases (hcases k hk).2 with ⟨-, hold⟩ | rfl
    · exact h.seen k hold
    · exact hseen
  · intro k hk
    rcases (hcases k hk).2 with ⟨-, hold⟩ | hnew
    · exact h.root k hold
    · rw [hnew]
  · intro k hk
    rcases hcases k hk with ⟨hmin, ⟨-, hold⟩ | rfl⟩
    · exact h.enough k hold
    · exact hmin
  · intro k hk
    rcases (hcases k hk).2 with ⟨-, hold⟩ | rfl
    · exact h.distinct k hold
    · exact hset
  · intro k hk c hc
    rcases (hcases k hk).2 with ⟨hloses, hold⟩ | rfl
    · exact mem_of_not_loses hloses (h.current k hold c hc)
    · exact hc

end ShelterRoots

namespace ShelterBoard

variable {A : Auth} {W : World} {cfg : ShelterConfig} {V : Vars} {M : Moment} {now t : Nat}
  {s : ShelterBoard} {env : TmailEnvelopeV1}

/-- The set is of the wallets that may post, with their registered commitments. -/
theorem mem_anonSet {w : Str} {c : Bytes} : (w, c) ∈ s.anonSet A W cfg now ↔
    w ∈ (s.members A W cfg).anonEligible now ∧ s.commitmentOf w = some c := by
  unfold anonSet
  rw [List.mem_filterMap]
  constructor
  · rintro ⟨w', hw, heq⟩
    obtain ⟨c', hc, hpair⟩ := Option.map_eq_some_iff.mp heq
    cases hpair
    exact ⟨hw, hc⟩
  · rintro ⟨hw, hc⟩
    exact ⟨w, hw, by rw [hc]; rfl⟩

theorem anonSet_distinct : ((s.anonSet A W cfg now).map Prod.fst).Nodup := by
  have hnames : (s.anonSet A W cfg now).map Prod.fst =
      ((s.members A W cfg).anonEligible now).filter fun w => (s.commitmentOf w).isSome := by
    unfold anonSet
    induction (s.members A W cfg).anonEligible now with
    | nil => rfl
    | cons w ws ih =>
      cases hc : s.commitmentOf w with
      | none => simpa [hc] using ih
      | some c => simpa [hc] using ih
  rw [hnames]
  exact ((Tree.keys_nodup _).filter _).filter _

theorem countedRegistration_cases (A : Auth) (W : World) (cfg : ShelterConfig) (M : Moment)
    (s : ShelterBoard) (env : TmailEnvelopeV1) :
    (s.countedRegistration A W cfg M env).2 = s ∨
    (s.countedRegistration A W cfg M env).2 = s.refresh A W cfg M.now := by
  unfold countedRegistration
  cases s.store.fastRegistration env with
  | none => exact Or.inl rfl
  | some reg =>
    by_cases hboard : env.receiver = cfg.board
    · simp only [if_pos hboard]
      exact Or.inr trivial
    · simp only [if_neg hboard]
      exact Or.inl trivial

theorem sendFast_roots : (s.sendFast A W cfg V M env).2.roots = s.roots ∨
    (s.sendFast A W cfg V M env).2.roots = (s.refresh A W cfg M.now).roots := by
  unfold sendFast
  cases s.store.fastChecks M env with
  | error e => exact Or.inl rfl
  | ok _ =>
    have hcount := countedRegistration_cases A W cfg M s env
    generalize s.countedRegistration A W cfg M env = r at hcount ⊢
    have hroots : r.2.roots = s.roots ∨ r.2.roots = (s.refresh A W cfg M.now).roots :=
      hcount.imp (congrArg roots) (congrArg roots)
    rcases r with ⟨_ | reg, s'⟩
    · exact hroots
    · simp only
      by_cases hknown : (s'.store.byMsgId.get env.id).isSome = true
      · rw [if_pos hknown]
        exact hroots
      · rw [if_neg hknown]
        exact hroots

theorem receiveFast_roots : (s.receiveFast A W cfg V M env).2.roots = s.roots ∨
    (s.receiveFast A W cfg V M env).2.roots = (s.refresh A W cfg M.now).roots := by
  unfold receiveFast
  cases s.store.fastChecks M env with
  | error e => exact Or.inl rfl
  | ok _ =>
    simp only
    by_cases hknown : (s.store.byMsgId.get env.id).isSome = true
    · rw [if_pos hknown]
      exact Or.inl rfl
    rw [if_neg hknown]
    have hcount := countedRegistration_cases A W cfg M s env
    generalize s.countedRegistration A W cfg M env = r at hcount ⊢
    have hroots : r.2.roots = s.roots ∨ r.2.roots = (s.refresh A W cfg M.now).roots :=
      hcount.imp (congrArg roots) (congrArg roots)
    rcases r with ⟨_ | reg, s'⟩
    · exact hroots
    · exact hroots

theorem rootAcceptedFor_cases (A : Auth) (W : World) (cfg : ShelterConfig) (M : Moment)
    (s : ShelterBoard) (env : TmailEnvelopeV1) (root : Bytes) (elsewhere : Option (List Bytes)) :
    (s.rootAcceptedFor A W cfg M env root elsewhere).2 = s ∨
      (s.rootAcceptedFor A W cfg M env root elsewhere).2 = s.refresh A W cfg M.now := by
  unfold rootAcceptedFor
  by_cases hboard : env.receiver = cfg.board
  case neg =>
    rw [if_neg hboard]
    exact Or.inl rfl
  rw [if_pos hboard]
  by_cases hbucket : absDiff (bucketIndex env.sentAtMs) (bucketIndex M.now) > 1
  · rw [if_pos hbucket]
    exact Or.inl rfl
  · rw [if_neg hbucket]
    exact Or.inr rfl

theorem check_cases (A : Auth) (W : World) (cfg : ShelterConfig) (M : Moment) (s : ShelterBoard)
    (env : TmailEnvelopeV1) (root : Bytes) (elsewhere : Option (List Bytes)) :
    s.check A W cfg M env root elsewhere = s ∨
      ∃ s' sending, (s' = s ∨ s' = s.refresh A W cfg M.now) ∧
        s.check A W cfg M env root elsewhere = { s' with sending := sending } := by
  unfold check
  by_cases hbusy : s.sending.isSome = true
  · rw [if_pos hbusy]
    exact Or.inl rfl
  rw [if_neg hbusy]
  cases env.proof with
  | none => exact Or.inl rfl
  | some proof =>
    simp only
    by_cases hdep : (!M.receiptDeposited proof.receiptSha256Hex) = true
    · rw [if_pos hdep]
      exact Or.inl rfl
    rw [if_neg hdep]
    cases verifyAnonymousProof M env with
    | pending => exact Or.inl rfl
    | failed reason t => exact Or.inl rfl
    | verified n t =>
      have hroot := rootAcceptedFor_cases A W cfg M s env root elsewhere
      generalize s.rootAcceptedFor A W cfg M env root elsewhere = r at hroot ⊢
      rcases r with ⟨_ | leaves, s'⟩
      · exact Or.inr ⟨s', s'.sending, hroot, rfl⟩
      · exact Or.inr ⟨s', _, hroot, rfl⟩

/-- What a record does to the board: nothing, or it is appended. -/
theorem appendRecord_cases (A : Auth) (W : World) (cfg : ShelterConfig) (s : ShelterBoard)
    (r : ShelterRecordV1) (now : Nat) :
    (s.appendRecord A W cfg r now).2 = s ∨
    (s.appendRecord A W cfg r now).2 = { s with records := s.records ++ [r] } := by
  unfold appendRecord
  cases verifyRecord A W r with
  | error e => exact Or.inl rfl
  | ok _ =>
    simp only
    by_cases hskew : absDiff r.atMs now > shelterRecordSkewMs
    · rw [if_pos hskew]
      exact Or.inl rfl
    by_cases hdup : (s.records.any fun x => recordId A W x = recordId A W r) = true
    · rw [if_neg hskew, if_pos hdup]
      exact Or.inl rfl
    rw [if_neg hskew, if_neg hdup]
    cases ((s.members A W cfg).apply cfg A W r).1 with
    | error e => exact Or.inl rfl
    | ok _ => exact Or.inr rfl

theorem storeSent_roots : (s.storeSent A W cfg V M).roots = s.roots := by
  unfold storeSent
  cases s.sending with
  | none => rfl
  | some p =>
    simp only
    by_cases hstored : p.stored = true
    · rw [if_pos hstored]
    · rw [if_neg hstored]
      generalize s.store.storeTmail V (s.moment A W cfg M) p.env = r
      rcases r with ⟨e | stored, store⟩ <;> rfl

theorem recordSent_roots : (s.recordSent V M).roots = s.roots := by
  unfold recordSent
  cases s.sending with
  | none => rfl
  | some p =>
    simp only
    by_cases hstored : p.stored = true
    · rw [if_pos hstored]
    · rw [if_neg hstored]

/-- What a step does to the roots: nothing, or a refresh. -/
theorem step_roots (A : Auth) (W : World) (cfg : ShelterConfig) (V : Vars) (now : Nat)
    (s : ShelterBoard) (a : BoardAction) : (a.step A W cfg V now s).roots = s.roots ∨
    ∃ readAt, (a.step A W cfg V now s).roots = (s.refresh A W cfg readAt).roots := by
  cases a with
  | append r readAt =>
    refine Or.inl ?_
    show (s.appendRecord A W cfg r readAt).2.roots = s.roots
    rcases appendRecord_cases A W cfg s r readAt with
      heq | heq <;> rw [heq]
  | refresh readAt => exact Or.inr ⟨readAt, rfl⟩
  | register reg => exact Or.inl rfl
  | check M env root elsewhere =>
    rcases check_cases A W cfg M s env root elsewhere with heq | ⟨s', sending, hs', heq⟩
    · exact Or.inl (congrArg roots heq)
    · have hroots : (s.check A W cfg M env root elsewhere).roots = s'.roots := by rw [heq]
      rcases hs' with rfl | rfl
      · exact Or.inl hroots
      · exact Or.inr ⟨M.now, hroots⟩
  | storeSent M => exact Or.inl storeSent_roots
  | recordSent M => exact Or.inl recordSent_roots
  | sendFast M env => exact sendFast_roots.imp_right fun h => ⟨M.now, h⟩
  | receiveFast M env => exact receiveFast_roots.imp_right fun h => ⟨M.now, h⟩

/-- The set a kept root was built from is the board's set at a moment of the run. -/
def Seen (A : Auth) (W : World) (cfg : ShelterConfig) (V : Vars)
    (ok : ShelterBoard → BoardAction → Prop) (k : KeptRoot) : Prop :=
  ∃ t s, BoardRun A W cfg V ok t s ∧ k.builtFrom = s.anonSet A W cfg k.seenAtMs

variable {ok : ShelterBoard → BoardAction → Prop}

/-- A refresh of a reached board. -/
theorem Kept.refresh (hrun : BoardRun A W cfg V ok t s) (h : s.roots.Kept W (Seen A W cfg V ok))
    (now : Nat) : (s.refresh A W cfg now).roots.Kept W (Seen A W cfg V ok) :=
  h.refreshed anonSet_distinct ⟨t, s, hrun, rfl⟩

theorem Kept.run (h : BoardRun A W cfg V ok t s) : s.roots.Kept W (Seen A W cfg V ok) := by
  induction h with
  | start => constructor <;> intro k hk <;> cases hk
  | step now a before _ _ _ ih =>
    rcases step_roots A W cfg V now _ a with
      heq | ⟨readAt, heq⟩
    · rw [heq]
      exact ih
    · rw [heq]
      exact Kept.refresh before ih readAt

end ShelterBoard

/-- **Only current members' leaves count on Shelter's board.** In every run, a root accepted at `now`
is a kept one: the root of a set that was the board's set at a moment of the run, of at least
`SHELTER_ANON_MIN` wallets, whose every leaf is the registered commitment of a member who may post
now. -/
theorem shelter_root_current {A : Auth} {W : World} {cfg : ShelterConfig} {V : Vars}
    {ok : ShelterBoard → BoardAction → Prop} {t : Nat} {s : ShelterBoard}
    (h : BoardRun A W cfg V ok t s) {now bucket nowBucket : Nat} {root : Bytes}
    (hacc : (s.acceptsRoot A W cfg now root bucket nowBucket).1 = true) :
    ∃ k ∈ (s.acceptsRoot A W cfg now root bucket nowBucket).2.roots.roots,
      k.root = root ∧ merkleRoot W (k.builtFrom.map Prod.snd) = root ∧
      (∃ t' s', BoardRun A W cfg V ok t' s' ∧ k.builtFrom = s'.anonSet A W cfg k.seenAtMs) ∧
      shelterAnonMin ≤ k.builtFrom.length ∧ (k.builtFrom.map Prod.fst).Nodup ∧
      ∀ c ∈ k.builtFrom.map Prod.snd, ∃ w, (s.members A W cfg).mayPost w now = true ∧
        s.commitmentOf w = some c := by
  unfold ShelterBoard.acceptsRoot at hacc ⊢
  by_cases hbucket : absDiff bucket nowBucket > 1
  · rw [if_pos hbucket] at hacc
    cases hacc
  rw [if_neg hbucket] at hacc ⊢
  simp only [List.any_eq_true, decide_eq_true_eq] at hacc ⊢
  obtain ⟨k, hk, hroot⟩ := hacc
  have hkept := ShelterBoard.Kept.refresh h (ShelterBoard.Kept.run h) now
  refine ⟨k, hk, hroot, (hkept.root k hk).symm.trans hroot, hkept.seen k hk, hkept.enough k hk,
    hkept.distinct k hk, ?_⟩
  intro c hc
  -- a kept leaf is one of the set of this refresh
  obtain ⟨⟨w, c'⟩, hw, rfl⟩ := List.mem_map.mp (hkept.current k hk c hc)
  obtain ⟨heligible, hcommit⟩ := ShelterBoard.mem_anonSet.mp hw
  exact ⟨w, (List.mem_filter.mp heligible).2, hcommit⟩

end TetCore.Tmail

namespace TetCore.Sample

open TetCore.Lib TetCore.Tmail

/-- A wallet joins the anonymity registry. -/
def joinsRegistry (i : Nat) : TmailAnonRegistrationV1 :=
  ⟨walletNo i, hexEncode (beBytes 32 (i + 1)), 1000⟩

/-- Actions one tick apart, from the clock `t`. -/
def boardAfter : Nat → ShelterBoard → List BoardAction → ShelterBoard
  | _, s, [] => s
  | t, s, a :: as => boardAfter (t + 1) (a.step auth (World.sample 0) shelter {} (t + 1) s) as

/-- Each of the actions is allowed where it falls. -/
def Allowed (ok : ShelterBoard → BoardAction → Prop) : Nat → ShelterBoard → List BoardAction → Prop
  | _, _, [] => True
  | t, s, a :: as => a.readsAt (t + 1) ∧ ok s a ∧
      Allowed ok (t + 1) (a.step auth (World.sample 0) shelter {} (t + 1) s) as

theorem boardRun {ok : ShelterBoard → BoardAction → Prop} : ∀ (as : List BoardAction) {t : Nat}
    {s : ShelterBoard}, BoardRun auth (World.sample 0) shelter {} ok t s → Allowed ok t s as →
      BoardRun auth (World.sample 0) shelter {} ok (t + as.length) (boardAfter t s as) := by
  intro as
  induction as with
  | nil => exact fun h _ => h
  | cons a as ih =>
    intro t s h hallowed
    obtain ⟨hreads, hok, hrest⟩ := hallowed
    have hnext := ih (h.step (t + 1) a (Nat.lt_succ_self t) hreads hok) hrest
    rwa [List.length_cons, show t + (as.length + 1) = t + 1 + as.length by omega]

/-- The moderator and two members join the board and the registry. -/
def joining : List BoardAction :=
  [.append (chainRecord 0) 1, .append (chainRecord 1) 2, .register (joinsRegistry 0),
    .register (joinsRegistry 1), .register (joinsRegistry 2)]

/-- The board's root then. -/
def boardRoot : Bytes :=
  merkleRoot (World.sample 0) [beBytes 32 1, beBytes 32 2, beBytes 32 3]

end TetCore.Sample

namespace TetCore.Tmail

/-- Three members' root is accepted. -/
theorem shelter_root_current_joined :
    ∃ k : KeptRoot, k.root = Sample.boardRoot ∧ shelterAnonMin ≤ k.builtFrom.length := by
  have hrun : BoardRun Sample.auth (World.sample 0) Sample.shelter {} (fun _ _ => True) 5
      (Sample.boardAfter 0 ShelterBoard.new Sample.joining) :=
    Sample.boardRun Sample.joining .start (by simp [Sample.Allowed, Sample.joining,
      BoardAction.readsAt])
  have hacc : ((Sample.boardAfter 0 ShelterBoard.new Sample.joining).acceptsRoot Sample.auth
      (World.sample 0) Sample.shelter 6 Sample.boardRoot 0 0).1 = true := by decide +kernel
  obtain ⟨k, -, hroot, -, -, henough, -⟩ := shelter_root_current hrun hacc
  exact ⟨k, hroot, henough⟩

end TetCore.Tmail
