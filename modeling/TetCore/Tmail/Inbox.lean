import TetCore.Tmail.Rows

/-!
# The order of messages, and the inbox

The limits order messages newest first (`newerFirst`), the anonymous cap verified posts first
(`verifiedFirst`). Both are total orders on the rows of a store, so what is past a limit is what has
that many messages before it.

`get_inbox` walks a receiver's rows in the same order and skips a row once its conversation, or the
anonymous posts, have had their share. `mem_getInbox`: a message that has not expired is returned if
few enough rows are newer.
-/

namespace TetCore.Tmail

open TetCore.Lib

namespace TmailStore

variable {V : Vars} {M : Moment} {s : TmailStore} {env : TmailEnvelopeV1}
  {a b c : IndexKey × TmailEnvelopeV1}

/-! ## The orders -/

theorem newerFirst_iff : newerFirst a b = true ↔ b.2.sentAtMs < a.2.sentAtMs ∨
    b.2.sentAtMs = a.2.sentAtMs ∧ (compare b.1 a.1).isLE = true := by
  unfold newerFirst
  rw [Bool.or_eq_true, Bool.and_eq_true, decide_eq_true_eq, beq_iff_eq]

theorem newerFirst_total (a b : IndexKey × TmailEnvelopeV1) :
    newerFirst a b = true ∨ newerFirst b a = true := by
  rw [newerFirst_iff, newerFirst_iff]
  rcases Nat.lt_trichotomy a.2.sentAtMs b.2.sentAtMs with hlt | heq | hlt
  · exact Or.inr (Or.inl hlt)
  · by_cases hle : (compare b.1 a.1).isLE = true
    · exact Or.inl (Or.inr ⟨heq.symm, hle⟩)
    · refine Or.inr (Or.inr ⟨heq, ?_⟩)
      have hgt : compare b.1 a.1 = .gt := by simpa using hle
      rw [Std.OrientedCmp.lt_of_gt hgt]
      rfl
  · exact Or.inl (Or.inl hlt)

theorem newerFirst_trans (hab : newerFirst a b = true) (hbc : newerFirst b c = true) :
    newerFirst a c = true := by
  rw [newerFirst_iff] at hab hbc ⊢
  rcases hab with hab | ⟨hab, hle⟩
  · rcases hbc with hbc | ⟨hbc, -⟩
    · exact Or.inl (hbc.trans hab)
    · exact Or.inl (hbc ▸ hab)
  · rcases hbc with hbc | ⟨hbc, hle'⟩
    · exact Or.inl (hab ▸ hbc)
    · exact Or.inr ⟨hbc.trans hab, Std.TransCmp.isLE_trans hle' hle⟩

instance : Std.Total fun a b => newerFirst a b = true := ⟨newerFirst_total⟩

instance : IsTrans (IndexKey × TmailEnvelopeV1) fun a b => newerFirst a b = true :=
  ⟨fun _ _ _ => newerFirst_trans⟩

instance (s : TmailStore) : Std.Total fun a b => s.verifiedFirst a b = true where
  total a b := by
    unfold verifiedFirst
    by_cases heq : s.isVerified a.2.id = s.isVerified b.2.id
    · rw [if_pos heq, if_pos heq.symm]
      exact newerFirst_total a b
    · rw [if_neg heq, if_neg (Ne.symm heq)]
      cases ha : s.isVerified a.2.id with
      | true => exact Or.inl rfl
      | false => exact Or.inr (by rw [ha] at heq; simpa using heq)

instance (s : TmailStore) :
    IsTrans (IndexKey × TmailEnvelopeV1) fun a b => s.verifiedFirst a b = true where
  trans a b c := by
    unfold verifiedFirst
    intro hab hbc
    cases ha : s.isVerified a.2.id <;> cases hb : s.isVerified b.2.id <;>
      cases hc : s.isVerified c.2.id <;> simp_all
    · exact newerFirst_trans hab hbc
    · exact newerFirst_trans hab hbc

/-- Rows of a store that are each before the other are one. -/
theorem newerFirst_antisymm (ha : a ∈ s.byReceiver.iter)
    (hb : b ∈ s.byReceiver.iter) (hab : newerFirst a b = true) (hba : newerFirst b a = true) :
    a = b := by
  rw [newerFirst_iff] at hab hba
  have hkeys : a.1 = b.1 := by
    rcases hab with hab | ⟨hab, hle⟩
    · rcases hba with hba | ⟨hba, -⟩
      · exact absurd hba (Nat.lt_asymm hab)
      · exact absurd hab (by omega)
    · rcases hba with hba | ⟨-, hle'⟩
      · exact absurd hba (by omega)
      · exact Std.LawfulEqCmp.eq_of_compare (Std.OrientedCmp.isLE_antisymm hle' hle)
  have henv : a.2 = b.2 := by
    have hget := Tree.mem_iter.mp ha
    rw [hkeys] at hget
    exact Option.some.inj (hget.symm.trans (Tree.mem_iter.mp hb))
  exact Prod.ext hkeys henv

theorem verifiedFirst_antisymm (ha : a ∈ s.byReceiver.iter) (hb : b ∈ s.byReceiver.iter)
    (hab : s.verifiedFirst a b = true) (hba : s.verifiedFirst b a = true) : a = b := by
  unfold verifiedFirst at hab hba
  by_cases heq : s.isVerified a.2.id = s.isVerified b.2.id
  · rw [if_pos heq] at hab
    rw [if_pos heq.symm] at hba
    exact newerFirst_antisymm ha hb hab hba
  · rw [if_neg heq] at hab
    rw [if_neg (Ne.symm heq)] at hba
    exact absurd (hab.trans hba.symm) heq

/-! ## The loop of `get_inbox` -/

/-- What the running state of the loop can be once the rows `seen` are behind it. -/
structure InboxBound (V : Vars) (M : Moment) (s : TmailStore)
    (seen : List (IndexKey × TmailEnvelopeV1)) (acc : Inbox) : Prop where
  out : acc.out.length ≤ seen.length
  anon : acc.anonSeen ≤ seen.countP fun r => r.2.isAnonymous
  slots : ∀ c, (acc.perConversation.get c).getD 0 ≤ seen.countP fun r => s.conversationKey r.2 = c
  live : ∀ e ∈ acc.out, isExpired V e M.now = false

variable {receiver : Str} {limit : Nat} {acc : Inbox} {seen : List (IndexKey × TmailEnvelopeV1)}
  {r : IndexKey × TmailEnvelopeV1}

/-- A row is skipped or returned. -/
theorem inboxStep_cases (V : Vars) (M : Moment) (s : TmailStore) (receiver : Str) (limit : Nat)
    (acc : Inbox) (r : IndexKey × TmailEnvelopeV1) :
    s.inboxStep V M receiver limit acc r = acc ∨
      isExpired V r.2 M.now = false ∧ s.inboxStep V M receiver limit acc r =
        ⟨acc.out ++ [r.2], if r.2.isAnonymous then acc.anonSeen + 1 else acc.anonSeen,
          acc.perConversation.insert (s.conversationKey r.2)
            ((acc.perConversation.get (s.conversationKey r.2)).getD 0 + 1)⟩ := by
  unfold inboxStep
  by_cases hfull : acc.out.length ≥ limit
  · exact Or.inl (if_pos hfull)
  rw [if_neg hfull]
  by_cases hexp : isExpired V r.2 M.now = true
  · exact Or.inl (if_pos hexp)
  rw [if_neg hexp]
  by_cases hother : r.2.receiver ≠ receiver
  · exact Or.inl (if_pos hother)
  rw [if_neg hother]
  simp only
  by_cases hslot : (acc.perConversation.get (s.conversationKey r.2)).getD 0 ≥
      keepOf V (s.conversationKey r.2)
  · exact Or.inl (if_pos hslot)
  rw [if_neg hslot]
  by_cases hanon : r.2.isAnonymous = true ∧ acc.anonSeen ≥ s.anonKeepFor V receiver
  · exact Or.inl (if_pos hanon)
  · exact Or.inr ⟨Bool.not_eq_true _ ▸ hexp, if_neg hanon⟩

theorem InboxBound.skip (h : InboxBound V M s seen acc) (r : IndexKey × TmailEnvelopeV1) :
    InboxBound V M s (seen ++ [r]) acc := by
  refine ⟨h.out.trans ?_, h.anon.trans ?_, fun c => (h.slots c).trans ?_, h.live⟩
  · rw [List.length_append]
    exact Nat.le_add_right _ _
  · rw [List.countP_append]
    exact Nat.le_add_right _ _
  · rw [List.countP_append]
    exact Nat.le_add_right _ _

theorem InboxBound.step (h : InboxBound V M s seen acc) (r : IndexKey × TmailEnvelopeV1) :
    InboxBound V M s (seen ++ [r]) (s.inboxStep V M receiver limit acc r) := by
  rcases inboxStep_cases V M s receiver limit acc r with heq | ⟨hlive, heq⟩
  · rw [heq]
    exact h.skip r
  rw [heq]
  refine ⟨?_, ?_, fun c => ?_, fun e he => ?_⟩
  · rw [List.length_append, List.length_append]
    exact Nat.add_le_add_right h.out 1
  · rw [List.countP_append, List.countP_singleton]
    have hanon := h.anon
    show (if r.2.isAnonymous = true then acc.anonSeen + 1 else acc.anonSeen) ≤ _
    by_cases ha : r.2.isAnonymous = true
    · rw [if_pos ha, if_pos ha]
      exact Nat.add_le_add_right hanon 1
    · rw [if_neg ha, if_neg ha]
      exact hanon
  · rw [List.countP_append, List.countP_singleton, Tree.get_insert]
    have hslot := h.slots c
    by_cases hc : s.conversationKey r.2 = c
    · subst hc
      rw [if_pos rfl, if_pos (decide_eq_true rfl), Option.getD_some]
      omega
    · rw [if_neg hc]
      exact hslot.trans (Nat.le_add_right _ _)
  · rcases List.mem_append.mp he with he | he
    · exact h.live e he
    · rw [List.mem_singleton.mp he]
      exact hlive

theorem InboxBound.fold (receiver : Str) (limit : Nat) : ∀ (rows : List (IndexKey × TmailEnvelopeV1))
    {seen : List (IndexKey × TmailEnvelopeV1)} {acc : Inbox}, InboxBound V M s seen acc →
    InboxBound V M s (seen ++ rows) (rows.foldl (s.inboxStep V M receiver limit) acc) := by
  intro rows
  induction rows with
  | nil =>
    intro seen acc h
    rw [List.append_nil]
    exact h
  | cons r rows ih =>
    intro seen acc h
    rw [← List.singleton_append, ← List.append_assoc]
    exact ih (h.step r)

theorem InboxBound.start : InboxBound V M s [] ⟨[], 0, Tree.empty⟩ := by
  refine ⟨Nat.le_refl _, Nat.le_refl _, fun c => ?_, fun e he => ?_⟩
  · rw [Tree.get_empty]
    exact Nat.le_refl _
  · cases he

/-- What was returned stays. -/
theorem mem_out_fold : ∀ (rows : List (IndexKey × TmailEnvelopeV1)) {acc : Inbox}, env ∈ acc.out →
    env ∈ (rows.foldl (s.inboxStep V M receiver limit) acc).out := by
  intro rows
  induction rows with
  | nil => exact fun h => h
  | cons r rows ih =>
    intro acc h
    refine ih ?_
    rcases inboxStep_cases V M s receiver limit acc r with heq | ⟨-, heq⟩
    · rw [heq]
      exact h
    · rw [heq]
      exact List.mem_append_left _ h

theorem live_of_mem_getInbox {walletId : Str} (h : env ∈ s.getInbox V M walletId limit) :
    isExpired V env M.now = false := by
  unfold getInbox at h
  simp only at h
  by_cases hhex : (!isHex64 (trimLower walletId)) = true
  · rw [if_pos hhex] at h
    cases h
  · rw [if_neg hhex] at h
    exact (InboxBound.start.fold _ _ _).live env h

/-- Only rows are returned. -/
theorem mem_rows_of_fold : ∀ (rows : List (IndexKey × TmailEnvelopeV1)) {acc : Inbox},
    env ∈ (rows.foldl (s.inboxStep V M receiver limit) acc).out →
      env ∈ acc.out ∨ env ∈ rows.map Prod.snd := by
  intro rows
  induction rows with
  | nil => exact fun h => Or.inl h
  | cons r rows ih =>
    intro acc h
    rw [List.map_cons, List.mem_cons]
    rcases ih h with hout | hrest
    · rcases inboxStep_cases V M s receiver limit acc r with heq | ⟨-, heq⟩
      · rw [heq] at hout
        exact Or.inl hout
      · rw [heq] at hout
        rcases List.mem_append.mp hout with hold | hnew
        · exact Or.inl hold
        · exact Or.inr (Or.inl (List.mem_singleton.mp hnew))
    · exact Or.inr (Or.inr hrest)

theorem Indexed.holds_of_mem_getInbox (h : s.Indexed) {walletId : Str}
    (hmem : env ∈ s.getInbox V M walletId limit) : s.Holds env := by
  unfold getInbox at hmem
  simp only at hmem
  by_cases hhex : (!isHex64 (trimLower walletId)) = true
  · rw [if_pos hhex] at hmem
    cases hmem
  · rw [if_neg hhex] at hmem
    rcases mem_rows_of_fold _ hmem with hnone | hrow
    · cases hnone
    · obtain ⟨r, hr, rfl⟩ := List.mem_map.mp hrow
      exact (h.mem_rowsOf.mp (List.mem_reverse.mp hr)).2.1

/-- A receiver's rows come newest first. -/
theorem rowsOf_reverse_newer (s : TmailStore) (receiver : Str) :
    (s.rowsOf receiver).reverse.Pairwise fun a b => compare b.1 a.1 = .lt := by
  rw [List.pairwise_reverse]
  exact (Tree.iter_sorted s.byReceiver).filter _

/-- Of one receiver, the greater key is newer. -/
theorem newerFirst_of_compare (ha : a.1 = a.2.key) (hb : b.1 = b.2.key)
    (hreceiver : a.2.receiver = b.2.receiver) (h : compare b.1 a.1 = .lt) : newerFirst a b = true := by
  rw [newerFirst_iff]
  by_cases hlt : b.2.sentAtMs < a.2.sentAtMs
  · exact Or.inl hlt
  refine Or.inr ⟨?_, by rw [h]; rfl⟩
  have hcmp : compareFields IndexKey.receiver IndexKey.sentAtMs IndexKey.msgId b.1 a.1 = .lt := h
  rw [ha, hb] at hcmp
  unfold compareFields compareLex compareOn at hcmp
  have hsame : compare b.2.key.receiver a.2.key.receiver = .eq := by
    show compare b.2.receiver a.2.receiver = .eq
    rw [hreceiver]
    exact Std.ReflCmp.compare_self
  rw [hsame] at hcmp
  have hcmp : (compare b.2.sentAtMs a.2.sentAtMs).then _ = .lt := hcmp
  rcases Nat.lt_trichotomy b.2.sentAtMs a.2.sentAtMs with hlt' | heq | hgt
  · exact absurd hlt' hlt
  · exact heq
  · rw [Nat.compare_eq_gt.mpr hgt] at hcmp
    cases hcmp

/-- **A message whose conversation and whose kind have room is returned.** -/
theorem Indexed.mem_getInbox (h : s.Indexed) (hheld : s.Holds env)
    (hlive : isExpired V env M.now = false)
    (hgroup : (s.rowsOf env.receiver).countP (fun r => decide (s.conversationKey r.2 =
      s.conversationKey env ∧ newerFirst r (env.key, env) = true ∧ r ≠ (env.key, env))) <
      keepOf V (s.conversationKey env))
    (hanon : (s.anonymousRows env.receiver).countP (fun r => decide (r ≠ (env.key, env))) <
      s.anonKeepFor V env.receiver)
    (hlimit : (s.rowsOf env.receiver).length < limit) :
    env ∈ s.getInbox V M env.receiverWalletId limit := by
  have hmem : (env.key, env) ∈ (s.rowsOf env.receiver).reverse :=
    List.mem_reverse.mpr (h.mem_rowsOf.mpr ⟨rfl, hheld, rfl⟩)
  obtain ⟨before, after, hsplit⟩ := List.append_of_mem hmem
  have hnodup : (before ++ (env.key, env) :: after).Nodup :=
    hsplit ▸ List.nodup_reverse.mpr (rowsOf_nodup s env.receiver)
  have hbefore : ∀ r ∈ before, r ∈ s.rowsOf env.receiver ∧ newerFirst r (env.key, env) = true ∧
      r ≠ (env.key, env) := by
    intro r hr
    have hrow : r ∈ s.rowsOf env.receiver :=
      List.mem_reverse.mp (hsplit ▸ List.mem_append_left _ hr)
    obtain ⟨hkey, -, hreceiver⟩ := h.mem_rowsOf.mp hrow
    have hsorted := hsplit ▸ rowsOf_reverse_newer s env.receiver
    exact ⟨hrow, newerFirst_of_compare hkey rfl hreceiver ((List.pairwise_append.mp hsorted).2.2 r hr _
      List.mem_cons_self), (List.nodup_append.mp hnodup).2.2 r hr _ List.mem_cons_self⟩
  have hbefore_nodup : before.Nodup := (List.nodup_append.mp hnodup).1
  -- the running state when the loop comes to the message
  have hbound := (InboxBound.start (V := V) (M := M) (s := s)).fold env.receiver limit before
  rw [List.nil_append] at hbound
  generalize hacc : before.foldl (s.inboxStep V M env.receiver limit) ⟨[], 0, Tree.empty⟩ = acc
    at hbound
  have hout : ¬ acc.out.length ≥ limit := by
    have hlen : (s.rowsOf env.receiver).length = before.length + (after.length + 1) := by
      rw [← List.length_reverse, hsplit, List.length_append, List.length_cons]
    have := hbound.out
    omega
  have hslot : ¬ (acc.perConversation.get (s.conversationKey env)).getD 0 ≥
      keepOf V (s.conversationKey env) := by
    refine Nat.not_le.mpr (((hbound.slots _).trans ?_).trans_lt hgroup)
    refine countP_le_of_nodup hbefore_nodup fun r hr hc => ?_
    obtain ⟨hrow, hnewer, hne⟩ := hbefore r hr
    exact ⟨hrow, decide_eq_true ⟨of_decide_eq_true hc, hnewer, hne⟩⟩
  have hseen : ¬ (env.isAnonymous = true ∧ acc.anonSeen ≥ s.anonKeepFor V env.receiver) := by
    rintro ⟨-, hge⟩
    refine absurd hge (Nat.not_le.mpr ((hbound.anon.trans ?_).trans_lt hanon))
    refine countP_le_of_nodup hbefore_nodup fun r hr ha => ?_
    obtain ⟨hrow, -, hne⟩ := hbefore r hr
    exact ⟨List.mem_filter.mpr ⟨hrow, ha⟩, decide_eq_true hne⟩
  have hstep : env ∈ (s.inboxStep V M env.receiver limit acc (env.key, env)).out := by
    unfold inboxStep
    rw [if_neg hout, if_neg (by rw [hlive]; exact Bool.false_ne_true), if_neg (not_not.mpr rfl)]
    simp only
    rw [if_neg hslot, if_neg hseen]
    exact List.mem_append_right _ (List.mem_singleton_self _)
  show env ∈ (if !isHex64 env.receiver then []
    else ((s.rowsOf env.receiver).reverse.foldl (s.inboxStep V M env.receiver limit)
      ⟨[], 0, Tree.empty⟩).out)
  rw [if_neg (by rw [(h.valid env hheld).1]; exact Bool.false_ne_true), hsplit, List.foldl_append,
    List.foldl_cons, hacc]
  exact mem_out_fold after hstep

end TmailStore

end TetCore.Tmail
