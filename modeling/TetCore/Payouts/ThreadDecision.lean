import Mathlib.Data.List.Sort
import TetCore.Lib.Utf16
import TetCore.Payouts.ThreadGrants

/-!
# Thread grants

`decideThreadGrants` (`thread_grants.mjs`): the threads of a day, oldest first, each granted if it is
eligible and three running totals allow it: one thread a person, an amount a person, an amount for all.

`Respects` says what the totals are for, about the grants alone: they are of eligible threads, with what
was granted before they keep the limits, and a thread was left out only where the grants to older
threads left no room.

* `grantRound_cases`: what one round does.
* `decideThreadGrants_respects`: the grants respect the limits.
* `decideThreadGrants_perm`: they do not depend on how the threads are listed, when no two have the
  same id.
-/

namespace TetCore.Payouts

open TetCore.Lib

/-! ## What is decided -/

/-- `MIN_REPLIERS`. -/
def minRepliers : Nat := 3

/-- `BASE_GRANT_MICRO`. -/
def baseGrantMicro : Nat := 10000000

/-- `GRANT_FLOOR_MICRO`. -/
def grantFloorMicro : Nat := 10000

/-- `HALVING_EVERY`. -/
def halvingEvery : Nat := 1000

/-- `PERSON_DAILY_CAP_MICRO`. -/
def personDailyCapMicro : Nat := 20000000

/-- `NETWORK_DAILY_CAP_MICRO`. -/
def networkDailyCapMicro : Nat := 200000000

/-- `grantMicro`. -/
def grantMicro (vouchedMembers : Int) : Nat :=
  let halvings := vouchedMembers.toNat / halvingEvery
  if 52 ≤ halvings then grantFloorMicro else max grantFloorMicro (baseGrantMicro / 2 ^ halvings)

/-- A thread of a board: `wallet` is its starter's. -/
structure BoardThread extends GrantThread where
  id : Units
  board : Str
  wallet : Option Str

/-- What a person was granted. -/
structure PersonTotal where
  threads : Nat
  micro : Nat
  deriving DecidableEq

/-- The argument of `decideThreadGrants`. -/
structure DecisionInput where
  threads : List BoardThread
  nowMs : Int
  alreadyGranted : List Units
  personToday : Tree Str PersonTotal
  networkTodayMicro : Nat
  vouchedMembers : Int

/-- An entry of `grants`. -/
structure ThreadGrant where
  thread : Units
  board : Str
  person : Str
  wallet : Str
  micro : Nat
  repliers : Nat
  deriving DecidableEq

/-- An entry of `skipped`. -/
structure SkippedThread where
  thread : Units
  reason : Str
  deriving DecidableEq

/-! ## The pass -/

/-- The variables of the loop. -/
structure GrantPass where
  person : Tree Str PersonTotal
  network : Nat
  grants : List ThreadGrant
  skipped : List SkippedThread

/-- What the person has so far. -/
def GrantPass.personTotal (s : GrantPass) (k : Str) : PersonTotal := (s.person.get k).getD ⟨0, 0⟩

/-- The comparator: by age, then by id. -/
def compareThreads (x y : BoardThread) : Int :=
  if x.openedAtMs - y.openedAtMs ≠ 0 then x.openedAtMs - y.openedAtMs
  else if compare x.id y.id = .lt then -1
  else 1

/-- The sort leaves `x` before `y`. -/
def StaysBefore (x y : BoardThread) : Prop := ¬ compareThreads y x < 0

instance : DecidableRel StaysBefore := fun x y =>
  inferInstanceAs (Decidable (¬ compareThreads y x < 0))

def GrantPass.skip (s : GrantPass) (t : BoardThread) (reason : Str) : GrantPass :=
  { s with skipped := s.skipped ++ [⟨t.id, reason⟩] }

/-- One round of the loop. -/
def grantRound (a : DecisionInput) (amount : Nat) (s : GrantPass) (t : BoardThread) : GrantPass :=
  if t.id ∈ a.alreadyGranted then s
  else
    let repliers := t.distinctRepliers
    if repliers < minRepliers then
      if a.nowMs > t.openedAtMs + windowMs then
        s.skip t ("closed with ".toList ++ Json.decimal repliers ++ " distinct repliers".toList)
      else s
    else if t.starter.kind ≠ .named ∨ t.wallet.getD [] = [] then
      s.skip t "anonymous starter: no payout wallet yet".toList
    else
      let p := s.personTotal t.starter.key
      if 1 ≤ p.threads then s.skip t "this person already has a granted thread today".toList
      else if personDailyCapMicro < p.micro + amount then
        s.skip t "this person's daily total is reached".toList
      else if networkDailyCapMicro < s.network + amount then
        s.skip t "today's grants are used up".toList
      else
        { s with
          person := s.person.insert t.starter.key ⟨p.threads + 1, p.micro + amount⟩
          network := s.network + amount
          grants := s.grants ++
            [⟨t.id, t.board, t.starter.key, t.wallet.getD [], amount, repliers⟩] }

/-- The threads, oldest first. -/
def oldestFirst (threads : List BoardThread) : List BoardThread := threads.insertionSort StaysBefore

/-- The pass over threads in the order given. -/
def grantPass (a : DecisionInput) (threads : List BoardThread) : GrantPass :=
  threads.foldl (grantRound a (grantMicro a.vouchedMembers))
    ⟨a.personToday, a.networkTodayMicro, [], []⟩

/-- `decideThreadGrants`. -/
def decideThreadGrants (a : DecisionInput) : List ThreadGrant × List SkippedThread :=
  let s := grantPass a (oldestFirst a.threads)
  (s.grants, s.skipped)

/-! ## What the limits are -/

/-- What the grants give a person. -/
def grantedTo (grants : List ThreadGrant) (k : Str) : PersonTotal :=
  ⟨(grants.filter fun g => g.person == k).length,
    ((grants.filter fun g => g.person == k).map ThreadGrant.micro).sum⟩

/-- What a person has with the grants, today's included. -/
def DecisionInput.totalFor (a : DecisionInput) (grants : List ThreadGrant) (k : Str) : PersonTotal :=
  let today := (a.personToday.get k).getD ⟨0, 0⟩
  ⟨today.threads + (grantedTo grants k).threads, today.micro + (grantedTo grants k).micro⟩

/-- What the network has given with the grants, today's included. -/
def DecisionInput.networkTotal (a : DecisionInput) (grants : List ThreadGrant) : Nat :=
  a.networkTodayMicro + (grants.map ThreadGrant.micro).sum

/-- The thread may be granted: not granted before, enough people replied, and a named starter can be
paid. -/
structure Eligible (a : DecisionInput) (t : BoardThread) : Prop where
  fresh : t.id ∉ a.alreadyGranted
  repliers : minRepliers ≤ t.distinctRepliers
  named : t.starter.kind = .named
  wallet : t.wallet.getD [] ≠ []

/-- After these grants one of the three limits leaves no room for the thread. -/
def NoRoom (a : DecisionInput) (grants : List ThreadGrant) (t : BoardThread) : Prop :=
  1 < (a.totalFor grants t.starter.key).threads + 1 ∨
    personDailyCapMicro <
      (a.totalFor grants t.starter.key).micro + grantMicro a.vouchedMembers ∨
    networkDailyCapMicro < a.networkTotal grants + grantMicro a.vouchedMembers

/-- The grants to threads older than `t`. -/
def grantsBefore (a : DecisionInput) (grants : List ThreadGrant) (t : BoardThread) :
    List ThreadGrant :=
  grants.filter fun g => a.threads.any fun u => u.id == g.thread && decide (compareThreads u t < 0)

/-- **What the grants must be.** -/
structure Respects (a : DecisionInput) (grants : List ThreadGrant) : Prop where
  onePerPerson : ∀ k, 0 < (grantedTo grants k).threads → (a.totalFor grants k).threads ≤ 1
  personCap : ∀ k, (a.totalFor grants k).micro ≤ personDailyCapMicro
  networkCap : a.networkTotal grants ≤ networkDailyCapMicro
  eligible : ∀ g ∈ grants, ∃ t ∈ a.threads, Eligible a t ∧
    g = ⟨t.id, t.board, t.starter.key, t.wallet.getD [], grantMicro a.vouchedMembers,
      t.distinctRepliers⟩
  once : (grants.map ThreadGrant.thread).Nodup
  leftOut : ∀ t ∈ a.threads, Eligible a t → (∀ g ∈ grants, g.thread ≠ t.id) →
    NoRoom a (grantsBefore a grants t) t

/-- Today's totals are within the limits. -/
structure WithinCaps (a : DecisionInput) : Prop where
  person : ∀ k, ((a.personToday.get k).getD ⟨0, 0⟩).threads ≤ 1 ∧
    ((a.personToday.get k).getD ⟨0, 0⟩).micro ≤ personDailyCapMicro
  network : a.networkTodayMicro ≤ networkDailyCapMicro

/-! ## The order of the threads -/

section Order

theorem compareThreads_lt_iff {x y : BoardThread} : compareThreads x y < 0 ↔
    x.openedAtMs < y.openedAtMs ∨ x.openedAtMs = y.openedAtMs ∧ compare x.id y.id = .lt := by
  unfold compareThreads
  by_cases htime : x.openedAtMs - y.openedAtMs ≠ 0
  · rw [if_pos htime]
    omega
  · rw [if_neg htime]
    by_cases hid : compare x.id y.id = .lt
    · rw [if_pos hid]
      exact iff_of_true (by decide) (Or.inr ⟨by omega, hid⟩)
    · rw [if_neg hid]
      refine iff_of_false (by decide) ?_
      rintro (hlt | ⟨-, hlt⟩)
      · omega
      · exact hid hlt

theorem staysBefore_iff {x y : BoardThread} : StaysBefore x y ↔
    x.openedAtMs < y.openedAtMs ∨
      x.openedAtMs = y.openedAtMs ∧ (compare x.id y.id).isLE = true := by
  have hswap : compare y.id x.id = (compare x.id y.id).swap := Std.OrientedCmp.eq_swap
  unfold StaysBefore
  rw [compareThreads_lt_iff, hswap]
  cases compare x.id y.id <;> simp <;> omega

instance : IsTrans BoardThread StaysBefore where
  trans x y z hxy hyz := by
    rw [staysBefore_iff] at hxy hyz ⊢
    rcases hxy with hxy | ⟨hxy, hid⟩
    · exact Or.inl (by omega)
    · rcases hyz with hyz | ⟨hyz, hid'⟩
      · exact Or.inl (by omega)
      · exact Or.inr ⟨by omega, Std.TransCmp.isLE_trans hid hid'⟩

instance : Std.Total StaysBefore where
  total x y := by
    have hswap : compare y.id x.id = (compare x.id y.id).swap := Std.OrientedCmp.eq_swap
    rw [staysBefore_iff, staysBefore_iff, hswap]
    cases compare x.id y.id <;> simp <;> omega

/-- Threads that stay before one another have the same id. -/
theorem id_eq_of_staysBefore {x y : BoardThread} (hxy : StaysBefore x y) (hyx : StaysBefore y x) :
    x.id = y.id := by
  rw [staysBefore_iff] at hxy hyx
  rcases hxy with hxy | ⟨htime, hxy⟩
  · rcases hyx with hyx | ⟨hyx, -⟩ <;> omega
  · rcases hyx with hyx | ⟨-, hid⟩
    · omega
    · exact Std.LawfulEqCmp.eq_of_compare (Std.OrientedCmp.isLE_antisymm hxy hid)

theorem compareThreads_self (x : BoardThread) : ¬ compareThreads x x < 0 := by
  have hself : compare x.id x.id = .eq := Std.ReflCmp.compare_self
  rw [compareThreads_lt_iff, hself]
  rintro (hlt | ⟨-, hlt⟩)
  · exact Int.lt_irrefl _ hlt
  · cases hlt

theorem mem_oldestFirst {threads : List BoardThread} {t : BoardThread} :
    t ∈ oldestFirst threads ↔ t ∈ threads := List.mem_insertionSort StaysBefore

theorem oldestFirst_perm (threads : List BoardThread) : (oldestFirst threads).Perm threads :=
  List.perm_insertionSort StaysBefore threads

theorem oldestFirst_ids {threads : List BoardThread} (h : (threads.map BoardThread.id).Nodup) :
    ((oldestFirst threads).map BoardThread.id).Nodup :=
  ((oldestFirst_perm threads).map BoardThread.id).nodup_iff.mpr h

/-- The thread of an id. -/
theorem eq_of_id {threads : List BoardThread} (h : (threads.map BoardThread.id).Nodup)
    {t u : BoardThread} (ht : t ∈ threads) (hu : u ∈ threads) (hid : t.id = u.id) : t = u :=
  List.inj_on_of_nodup_map h ht hu hid

/-- **The order of the threads is their own**, however they are listed. -/
theorem oldestFirst_congr {threads threads' : List BoardThread}
    (h : (threads.map BoardThread.id).Nodup) (hperm : threads'.Perm threads) :
    oldestFirst threads' = oldestFirst threads := by
  have hsame := ((oldestFirst_perm threads').trans hperm).trans (oldestFirst_perm threads).symm
  refine hsame.eq_of_pairwise (fun t u ht hu htu hut => ?_)
    (List.pairwise_insertionSort StaysBefore threads')
    (List.pairwise_insertionSort StaysBefore threads)
  exact eq_of_id h (hperm.mem_iff.mp (mem_oldestFirst.mp ht)) (mem_oldestFirst.mp hu)
    (id_eq_of_staysBefore htu hut)

end Order

/-! ## One round -/

section Round

variable {a : DecisionInput} {amount : Nat} {s : GrantPass} {t : BoardThread}

/-- The three tests of the round. -/
def GrantPass.Room (s : GrantPass) (amount : Nat) (t : BoardThread) : Prop :=
  (s.personTotal t.starter.key).threads < 1 ∧
    (s.personTotal t.starter.key).micro + amount ≤ personDailyCapMicro ∧
    s.network + amount ≤ networkDailyCapMicro

/-- The grant a thread gets. -/
def grantOf (amount : Nat) (t : BoardThread) : ThreadGrant :=
  ⟨t.id, t.board, t.starter.key, t.wallet.getD [], amount, t.distinctRepliers⟩

/-- Nothing is granted in the round. -/
structure GrantPass.LeavesOut (s s' : GrantPass) : Prop where
  person : s'.person = s.person
  network : s'.network = s.network
  grants : s'.grants = s.grants

theorem GrantPass.leavesOut_skip (s : GrantPass) (t : BoardThread) (reason : Str) :
    s.LeavesOut (s.skip t reason) := ⟨rfl, rfl, rfl⟩

/-- **One round** grants an eligible thread for which there is room, and no other. -/
theorem grantRound_cases (a : DecisionInput) (amount : Nat) (s : GrantPass) (t : BoardThread) :
    (Eligible a t ∧ s.Room amount t ∧ grantRound a amount s t = { s with
        person := s.person.insert t.starter.key ⟨(s.personTotal t.starter.key).threads + 1,
          (s.personTotal t.starter.key).micro + amount⟩
        network := s.network + amount
        grants := s.grants ++ [grantOf amount t] }) ∨
      (s.LeavesOut (grantRound a amount s t) ∧ (Eligible a t → ¬ s.Room amount t)) := by
  unfold grantRound
  by_cases hfresh : t.id ∈ a.alreadyGranted
  · rw [if_pos hfresh]
    exact Or.inr ⟨⟨rfl, rfl, rfl⟩, fun h => absurd hfresh h.fresh⟩
  rw [if_neg hfresh]
  dsimp only
  by_cases hfew : t.distinctRepliers < minRepliers
  · rw [if_pos hfew]
    refine Or.inr ⟨?_, fun h => absurd h.repliers (Nat.not_le_of_lt hfew)⟩
    by_cases hclosed : a.nowMs > t.openedAtMs + windowMs
    · rw [if_pos hclosed]
      exact s.leavesOut_skip t _
    · rw [if_neg hclosed]
      exact ⟨rfl, rfl, rfl⟩
  rw [if_neg hfew]
  by_cases hwallet : t.starter.kind ≠ .named ∨ t.wallet.getD [] = []
  · rw [if_pos hwallet]
    exact Or.inr ⟨s.leavesOut_skip t _, fun h => absurd hwallet (not_or.mpr ⟨not_not.mpr h.named,
      h.wallet⟩)⟩
  rw [if_neg hwallet]
  obtain ⟨hnamed, hpaid⟩ := not_or.mp hwallet
  have heligible : Eligible a t :=
    ⟨hfresh, Nat.le_of_not_lt hfew, not_not.mp hnamed, hpaid⟩
  by_cases hthreads : 1 ≤ (s.personTotal t.starter.key).threads
  · rw [if_pos hthreads]
    exact Or.inr ⟨s.leavesOut_skip t _, fun _ h => absurd hthreads (Nat.not_le_of_lt h.1)⟩
  by_cases hperson : personDailyCapMicro < (s.personTotal t.starter.key).micro + amount
  · rw [if_neg hthreads, if_pos hperson]
    exact Or.inr ⟨s.leavesOut_skip t _, fun _ h => absurd hperson (Nat.not_lt_of_le h.2.1)⟩
  by_cases hnetwork : networkDailyCapMicro < s.network + amount
  · rw [if_neg hthreads, if_neg hperson, if_pos hnetwork]
    exact Or.inr ⟨s.leavesOut_skip t _, fun _ h => absurd hnetwork (Nat.not_lt_of_le h.2.2)⟩
  rw [if_neg hthreads, if_neg hperson, if_neg hnetwork]
  exact Or.inl ⟨heligible, ⟨Nat.lt_of_not_le hthreads, Nat.le_of_not_lt hperson,
    Nat.le_of_not_lt hnetwork⟩, rfl⟩

theorem grantedTo_concat (grants : List ThreadGrant) (g : ThreadGrant) (k : Str) :
    grantedTo (grants ++ [g]) k = if g.person = k then
      ⟨(grantedTo grants k).threads + 1, (grantedTo grants k).micro + g.micro⟩
    else grantedTo grants k := by
  unfold grantedTo
  rw [List.filter_append, List.filter_cons, List.filter_nil]
  by_cases hk : g.person = k
  · rw [if_pos hk, if_pos (beq_iff_eq.mpr hk), List.length_append, List.map_append, List.sum_append]
    rfl
  · rw [if_neg hk, if_neg (fun h => hk (beq_iff_eq.mp h)), List.append_nil]

/-- The loop's totals are those of its grants, which keep the limits. -/
structure PassInv (a : DecisionInput) (done : List BoardThread) (s : GrantPass) : Prop where
  person : ∀ k, s.personTotal k = a.totalFor s.grants k
  network : s.network = a.networkTotal s.grants
  onePerPerson : ∀ k, 0 < (grantedTo s.grants k).threads → (a.totalFor s.grants k).threads ≤ 1
  personCap : ∀ k, (a.totalFor s.grants k).micro ≤ personDailyCapMicro
  networkCap : a.networkTotal s.grants ≤ networkDailyCapMicro
  eligible : ∀ g ∈ s.grants, ∃ t ∈ done, Eligible a t ∧ g = grantOf (grantMicro a.vouchedMembers) t
  inOrder : (s.grants.map ThreadGrant.thread).Sublist (done.map BoardThread.id)

/-- Before the first thread. -/
theorem passInv_start (h : WithinCaps a) :
    PassInv a [] ⟨a.personToday, a.networkTodayMicro, [], []⟩ where
  person _ := rfl
  network := rfl
  onePerPerson _ hk := absurd hk (Nat.lt_irrefl 0)
  personCap := fun k => (h.person k).2
  networkCap := h.network
  eligible _ hg := absurd hg List.not_mem_nil
  inOrder := List.nil_sublist _

/-- A grant for which there is room keeps the limits. -/
theorem PassInv.grant {done : List BoardThread} (h : PassInv a done s)
    (heligible : Eligible a t) (hroom : s.Room (grantMicro a.vouchedMembers) t) :
    PassInv a (done ++ [t]) { s with
      person := s.person.insert t.starter.key ⟨(s.personTotal t.starter.key).threads + 1,
        (s.personTotal t.starter.key).micro + grantMicro a.vouchedMembers⟩
      network := s.network + grantMicro a.vouchedMembers
      grants := s.grants ++ [grantOf (grantMicro a.vouchedMembers) t] } := by
  obtain ⟨hthreads, hmicro, hnetwork⟩ := hroom
  have htotal : ∀ k, a.totalFor (s.grants ++ [grantOf (grantMicro a.vouchedMembers) t]) k =
      if t.starter.key = k then ⟨(a.totalFor s.grants k).threads + 1,
        (a.totalFor s.grants k).micro + grantMicro a.vouchedMembers⟩
      else a.totalFor s.grants k := by
    intro k
    unfold DecisionInput.totalFor
    rw [grantedTo_concat]
    by_cases hk : t.starter.key = k
    · rw [if_pos hk, if_pos (show (grantOf _ t).person = k from hk), PersonTotal.mk.injEq]
      exact ⟨rfl, (Nat.add_assoc _ _ _).symm⟩
    · rw [if_neg hk, if_neg (show ¬ (grantOf _ t).person = k from hk)]
  have hnet : a.networkTotal (s.grants ++ [grantOf (grantMicro a.vouchedMembers) t]) =
      a.networkTotal s.grants + grantMicro a.vouchedMembers := by
    unfold DecisionInput.networkTotal
    rw [List.map_append, List.sum_append, ← Nat.add_assoc]
    rfl
  refine ⟨fun k => ?_, ?_, fun k hk => ?_, fun k => ?_, ?_, fun g hg => ?_, ?_⟩
  · show ((s.person.insert t.starter.key _).get k).getD ⟨0, 0⟩ = _
    rw [Tree.get_insert, htotal]
    by_cases hkey : t.starter.key = k
    · subst hkey
      rw [if_pos rfl, if_pos rfl, Option.getD_some, h.person]
    · rw [if_neg hkey, if_neg hkey]
      exact h.person k
  · show s.network + _ = _
    rw [hnet, h.network]
  · show (a.totalFor (s.grants ++ [_]) k).threads ≤ 1
    rw [htotal]
    by_cases hkey : t.starter.key = k
    · subst hkey
      rw [if_pos rfl, ← h.person]
      exact hthreads
    · rw [if_neg hkey]
      refine h.onePerPerson k ?_
      rwa [show grantedTo (s.grants ++ [_]) k = _ from grantedTo_concat _ _ _,
        if_neg (show ¬ (grantOf _ t).person = k from hkey)] at hk
  · show (a.totalFor (s.grants ++ [_]) k).micro ≤ _
    rw [htotal]
    by_cases hkey : t.starter.key = k
    · subst hkey
      rw [if_pos rfl, ← h.person]
      exact hmicro
    · rw [if_neg hkey]
      exact h.personCap k
  · show a.networkTotal (s.grants ++ [_]) ≤ _
    rw [hnet, ← h.network]
    exact hnetwork
  · rcases List.mem_append.mp hg with hg | hg
    · obtain ⟨u, hu, heq⟩ := h.eligible g hg
      exact ⟨u, List.mem_append_left _ hu, heq⟩
    · exact ⟨t, List.mem_append_right _ (List.mem_singleton_self t), heligible,
        List.mem_singleton.mp hg⟩
  · rw [List.map_append, List.map_append]
    exact h.inOrder.append (List.Sublist.refl _)

/-- **A round keeps the limits.** -/
theorem PassInv.round {done : List BoardThread} (h : PassInv a done s) (t : BoardThread) :
    PassInv a (done ++ [t]) (grantRound a (grantMicro a.vouchedMembers) s t) := by
  rcases grantRound_cases a (grantMicro a.vouchedMembers) s t with ⟨heligible, hroom, heq⟩ | ⟨hout, -⟩
  · rw [heq]
    exact h.grant heligible hroom
  · obtain ⟨hperson, hnetwork, hgrants⟩ := hout
    refine ⟨fun k => ?_, ?_, ?_, ?_, ?_, fun g hg => ?_, ?_⟩
    · rw [hgrants, GrantPass.personTotal, hperson]
      exact h.person k
    · rw [hnetwork, hgrants, h.network]
    · rw [hgrants]
      exact h.onePerPerson
    · rw [hgrants]
      exact h.personCap
    · rw [hgrants]
      exact h.networkCap
    · rw [hgrants] at hg
      obtain ⟨u, hu, heq⟩ := h.eligible g hg
      exact ⟨u, List.mem_append_left _ hu, heq⟩
    · rw [hgrants, List.map_append]
      exact h.inOrder.trans (List.sublist_append_left _ _)

end Round

/-! ## The pass -/

section Pass

variable {a : DecisionInput}

/-- The rounds over some threads. -/
def grantRounds (a : DecisionInput) (s : GrantPass) (threads : List BoardThread) : GrantPass :=
  threads.foldl (grantRound a (grantMicro a.vouchedMembers)) s

/-- **The pass keeps the limits** after every thread. -/
theorem PassInv.rounds {done : List BoardThread} {s : GrantPass} (h : PassInv a done s)
    (threads : List BoardThread) : PassInv a (done ++ threads) (grantRounds a s threads) := by
  induction threads generalizing done s with
  | nil =>
    rw [List.append_nil]
    exact h
  | cons t threads ih =>
    have hnext := ih (h.round t)
    rw [List.append_assoc, List.singleton_append] at hnext
    exact hnext

/-- What rounds add are grants to their threads. -/
theorem grants_rounds (s : GrantPass) (threads : List BoardThread) :
    ∃ more, (grantRounds a s threads).grants = s.grants ++ more ∧
      ∀ g ∈ more, ∃ u ∈ threads, u.id = g.thread := by
  induction threads generalizing s with
  | nil => exact ⟨[], (List.append_nil _).symm, fun _ hg => absurd hg List.not_mem_nil⟩
  | cons t threads ih =>
    obtain ⟨more, hmore, hids⟩ := ih (grantRound a (grantMicro a.vouchedMembers) s t)
    have htail : ∀ g ∈ more, ∃ u ∈ t :: threads, u.id = g.thread := by
      intro g hg
      obtain ⟨u, hu, hid⟩ := hids g hg
      exact ⟨u, List.mem_cons_of_mem t hu, hid⟩
    rcases grantRound_cases a (grantMicro a.vouchedMembers) s t with ⟨-, -, heq⟩ | ⟨hout, -⟩
    · refine ⟨grantOf (grantMicro a.vouchedMembers) t :: more, ?_, fun g hg => ?_⟩
      · show (grantRounds a (grantRound a _ s t) threads).grants = _
        rw [hmore, heq]
        exact List.append_assoc _ _ _
      · rcases List.mem_cons.mp hg with rfl | hg
        · exact ⟨t, List.mem_cons_self, rfl⟩
        · exact htail g hg
    · exact ⟨more, by rw [← hout.grants]; exact hmore, htail⟩

/-- The grants to threads older than one of the pass are those made before its turn. -/
theorem grantsBefore_eq (hids : (a.threads.map BoardThread.id).Nodup) {done rest : List BoardThread}
    {t : BoardThread} (hsplit : oldestFirst a.threads = done ++ t :: rest)
    {earlier later : List ThreadGrant} (hearlier : ∀ g ∈ earlier, ∃ u ∈ done, u.id = g.thread)
    (hlater : ∀ g ∈ later, ∃ u ∈ t :: rest, u.id = g.thread) :
    grantsBefore a (earlier ++ later) t = earlier := by
  have hmem : ∀ u, u ∈ done ++ t :: rest → u ∈ a.threads := by
    intro u hu
    rw [← hsplit] at hu
    exact mem_oldestFirst.mp hu
  have hsorted := List.pairwise_insertionSort StaysBefore a.threads
  rw [show a.threads.insertionSort StaysBefore = _ from hsplit, List.pairwise_append,
    List.pairwise_cons] at hsorted
  obtain ⟨-, ⟨hafter, -⟩, hbefore⟩ := hsorted
  have hfresh := oldestFirst_ids hids
  rw [hsplit, List.map_append, List.map_cons, List.nodup_append] at hfresh
  unfold grantsBefore
  rw [List.filter_append]
  have hall : earlier.filter (fun g => a.threads.any fun u =>
      u.id == g.thread && decide (compareThreads u t < 0)) = earlier := by
    refine List.filter_eq_self.mpr fun g hg => ?_
    obtain ⟨u, hu, hid⟩ := hearlier g hg
    refine List.any_eq_true.mpr ⟨u, hmem u (List.mem_append_left _ hu), ?_⟩
    rw [Bool.and_eq_true, beq_iff_eq, decide_eq_true_eq]
    refine ⟨hid, ?_⟩
    by_contra hnot
    -- then each would stay before the other
    refine hfresh.2.2 u.id (List.mem_map_of_mem hu) t.id List.mem_cons_self ?_
    exact id_eq_of_staysBefore (hbefore u hu t List.mem_cons_self) hnot
  have hnone : later.filter (fun g => a.threads.any fun u =>
      u.id == g.thread && decide (compareThreads u t < 0)) = [] := by
    refine List.filter_eq_nil_iff.mpr fun g hg hany => ?_
    obtain ⟨u, hu, hid⟩ := hlater g hg
    obtain ⟨v, hv, hboth⟩ := List.any_eq_true.mp hany
    rw [Bool.and_eq_true, beq_iff_eq, decide_eq_true_eq] at hboth
    obtain rfl := eq_of_id hids hv (hmem u (List.mem_append_right _ hu)) (hboth.1.trans hid.symm)
    rcases List.mem_cons.mp hu with rfl | hu
    · exact compareThreads_self v hboth.2
    · exact hafter v hu hboth.2
  rw [hall, hnone, List.append_nil]

/-- An eligible thread without a grant found no room. -/
theorem noRoom_of_leftOut (hids : (a.threads.map BoardThread.id).Nodup) (hcaps : WithinCaps a)
    {t : BoardThread} (ht : t ∈ a.threads) (heligible : Eligible a t)
    (hout : ∀ g ∈ (decideThreadGrants a).1, g.thread ≠ t.id) :
    NoRoom a (grantsBefore a (decideThreadGrants a).1 t) t := by
  obtain ⟨done, rest, hsplit⟩ := List.append_of_mem (mem_oldestFirst.mpr ht)
  let s := grantRounds a ⟨a.personToday, a.networkTodayMicro, [], []⟩ done
  have hinv : PassInv a done s := by
    have hrun := (passInv_start hcaps).rounds done
    rwa [List.nil_append] at hrun
  have hall : (decideThreadGrants a).1 = (grantRounds a s (t :: rest)).grants := by
    show (grantPass a (oldestFirst a.threads)).grants = _
    rw [hsplit, grantPass, List.foldl_append]
    rfl
  obtain ⟨later, hlater, hfrom⟩ := grants_rounds (a := a) s (t :: rest)
  have hearlier : ∀ g ∈ s.grants, ∃ u ∈ done, u.id = g.thread := by
    intro g hg
    obtain ⟨u, hu, -, rfl⟩ := hinv.eligible g hg
    exact ⟨u, hu, rfl⟩
  rw [hall, hlater, grantsBefore_eq hids hsplit hearlier hfrom]
  have hroom : ¬ s.Room (grantMicro a.vouchedMembers) t := by
    rcases grantRound_cases a (grantMicro a.vouchedMembers) s t with ⟨-, -, heq⟩ | ⟨-, hroom⟩
    · -- it would have its grant
      obtain ⟨more, hmore, -⟩ := grants_rounds (a := a)
        (grantRound a (grantMicro a.vouchedMembers) s t) rest
      refine absurd rfl (hout (grantOf (grantMicro a.vouchedMembers) t) ?_)
      rw [hall]
      show _ ∈ (grantRounds a (grantRound a _ s t) rest).grants
      rw [hmore, heq]
      exact List.mem_append_left _ (List.mem_append_right _ (List.mem_singleton_self _))
    · exact hroom heligible
  unfold GrantPass.Room at hroom
  unfold NoRoom
  rw [hinv.person, hinv.network] at hroom
  omega

theorem decision_respects (hids : (a.threads.map BoardThread.id).Nodup) (hcaps : WithinCaps a) :
    Respects a (decideThreadGrants a).1 := by
  have hinv : PassInv a (oldestFirst a.threads) (grantPass a (oldestFirst a.threads)) := by
    have hrun := (passInv_start hcaps).rounds (oldestFirst a.threads)
    rwa [List.nil_append] at hrun
  refine ⟨hinv.onePerPerson, hinv.personCap, hinv.networkCap, fun g hg => ?_, ?_, fun t ht => ?_⟩
  · obtain ⟨t, ht, hg⟩ := hinv.eligible g hg
    exact ⟨t, mem_oldestFirst.mp ht, hg⟩
  · exact hinv.inOrder.nodup (oldestFirst_ids hids)
  · exact noRoom_of_leftOut hids hcaps ht

end Pass

/-- **Thread grants respect every limit**, and do not depend on how the threads are listed, when no two
threads have the same id and today's totals are within the limits. -/
theorem decideThreadGrants_respects {a : DecisionInput}
    (hids : (a.threads.map BoardThread.id).Nodup) (hcaps : WithinCaps a) :
    Respects a (decideThreadGrants a).1 ∧ ∀ threads, threads.Perm a.threads →
      decideThreadGrants { a with threads := threads } = decideThreadGrants a := by
  refine ⟨decision_respects hids hcaps, fun threads hperm => ?_⟩
  have horder : oldestFirst threads = oldestFirst a.threads := oldestFirst_congr hids hperm
  show ((grantPass a (oldestFirst threads)).grants, (grantPass a (oldestFirst threads)).skipped) = _
  rw [horder]
  rfl

end TetCore.Payouts

namespace TetCore.Sample

open TetCore.Lib TetCore.Payouts

/-- A thread of `starter` with three named replies. -/
def repliedThread (id : UInt16) (starter : Char) (openedAtMs : Int) : BoardThread where
  starter := ⟨.named, [starter]⟩
  openedAtMs := openedAtMs
  replies := [⟨.named, ['x'], openedAtMs⟩, ⟨.named, ['y'], openedAtMs⟩, ⟨.named, ['z'], openedAtMs⟩]
  id := [id]
  board := ['b']
  wallet := some [starter]

/-- Two threads of one person, the older one listed last, and one of another. -/
def grantDay : DecisionInput where
  threads := [repliedThread 2 's' 5, repliedThread 3 'r' 4, repliedThread 1 's' 4]
  nowMs := 10
  alreadyGranted := []
  personToday := Tree.empty
  networkTodayMicro := 0
  vouchedMembers := 1000

theorem grantDay_withinCaps : WithinCaps grantDay where
  person k := by
    rw [show grantDay.personToday = Tree.empty from rfl, Tree.get_empty]
    decide
  network := Nat.zero_le _

end TetCore.Sample

namespace TetCore.Payouts

/-- The older thread of each person is granted. -/
theorem decideThreadGrants_respects_day :
    (decideThreadGrants Sample.grantDay).1.map ThreadGrant.thread = [[1], [3]] ∧
      Respects Sample.grantDay (decideThreadGrants Sample.grantDay).1 ∧
        ∀ threads, threads.Perm Sample.grantDay.threads →
          decideThreadGrants { Sample.grantDay with threads := threads } =
            decideThreadGrants Sample.grantDay :=
  ⟨by decide +kernel,
    decideThreadGrants_respects (by decide +kernel) Sample.grantDay_withinCaps⟩

end TetCore.Payouts
