import TetCore.Lib.Text
import TetCore.Lib.Tree

/-!
# Nullifier claims under concurrency

`claim_anon_nullifier` (`tmail/store.rs`) reads the claim of a nullifier and, where there is none,
writes its own. REST sends do so under `anon_send_lock`; the verification of a pulled receipt and the
ballot gate of a poll do not take it. A failed store gives the claim back
(`release_anon_nullifier`, a compare-and-swap). A step here is one operation on the database, or one
decision of a request between two.

`nullifier_one_message`: the message ids that hold a grant of one nullifier are one and the same, in
every run where a claim is read only while no request of another message stands between its read and
its write of it (two REST sends never do, by the lock), and given back only while no other request of
that message holds its grant.
-/

namespace TetCore.Tmail

open TetCore.Lib

/-- Who calls `verify_anonymous_proof`. -/
inductive Caller where
  /-- `send_anonymous`, under `anon_send_lock`. -/
  | rest
  /-- The verification of a gossiped message's receipt. -/
  | gossip
  /-- `poll_ballot_gate`, for a gossiped ballot. -/
  | ballot
  deriving DecidableEq

/-- Where a request stands. -/
inductive Phase where
  | arrived
  /-- In `verify_anonymous_proof`, before the claim. -/
  | checking
  /-- The claim was read and there was none. -/
  | seen
  /-- `verify_anonymous_proof` returned `Verified`. -/
  | verified
  /-- Stored, with its verdict. -/
  | kept
  /-- The store failed. -/
  | unstored
  | releasing
  | done
  deriving DecidableEq

/-- A request: its journal's nullifier, its message id, and whether it holds the grant. -/
structure Request where
  caller : Caller
  nullifierHex : Str
  msgId : Str
  phase : Phase
  granted : Bool
  deriving DecidableEq

/-- The key of the claim. -/
def Request.key (r : Request) : Str := trimLower r.nullifierHex

/-- The value of the claim. -/
def Request.id (r : Request) : Str := trim r.msgId

/-- Between taking `anon_send_lock` and releasing it, for a REST send. -/
def Phase.Inside : Phase → Prop
  | .checking | .seen | .verified | .unstored | .releasing => True
  | .arrived | .kept | .done => False

/-- The claims, the messages held, the holder of `anon_send_lock` and the requests. -/
structure Claims where
  anonNullifiers : Tree Str Str
  stored : List Str
  sending : Option Nat
  requests : List Request

/-- `release_anon_nullifier`: only the claim by this message is removed. -/
def releaseAnonNullifier (t : Tree Str Str) (nullifierHex msgId : Str) : Tree Str Str :=
  if t.get (trimLower nullifierHex) = some (trim msgId) then t.remove (trimLower nullifierHex) else t

inductive ClaimAction where
  | arrive (caller : Caller) (nullifierHex msgId : Str)
  | enter (i : Nat)
  | refuse (i : Nat)
  | read (i : Nat)
  | write (i : Nat)
  | again (i : Nat)
  | keep (i : Nat)
  | fail (i : Nat)
  | failGate (i : Nat)
  | look (i : Nat)
  | release (i : Nat)
  | deliver (msgId : Str)
  | drop (msgId : Str)

section Steps

variable (s : Claims) (i : Nat) (r : Request)

/-- Do `f` with the `i`-th request, if it stands at `p`. -/
def Claims.onRequest (p : Phase) (f : Request → Claims) : Claims :=
  match s.requests[i]? with
  | some r => if r.phase = p then f r else s
  | none => s

/-- The `i`-th request is now `r`. -/
def Claims.put : Claims := { s with requests := s.requests.set i r }

/-- A REST send gives `anon_send_lock` back. -/
def Claims.unlock : Claims := if r.caller = .rest then { s with sending := none } else s

/-- The call fails: a request that already holds the grant was storing. -/
def Claims.refused : Claims :=
  if r.granted then s.put i { r with phase := .unstored }
  else (s.put i { r with phase := .done }).unlock r

/-- Give the claim back. -/
def Claims.release : Claims :=
  { s with anonNullifiers := releaseAnonNullifier s.anonNullifiers r.nullifierHex r.msgId }

/-- One step. -/
def ClaimAction.step : ClaimAction → Claims
  | .arrive caller n m => { s with requests := s.requests ++ [⟨caller, n, m, .arrived, false⟩] }
  | .enter i => s.onRequest i .arrived fun r =>
      if r.caller = .rest then
        if s.sending = none then { s.put i { r with phase := .checking } with sending := some i }
        else s
      else s.put i { r with phase := .checking }
  -- one of the checks before the claim fails
  | .refuse i => s.onRequest i .checking fun r => s.refused i r
  | .read i => s.onRequest i .checking fun r =>
      match s.anonNullifiers.get r.key with
      | some m =>
        if m = r.id then s.put i { r with phase := .verified, granted := true } else s.refused i r
      | none => s.put i { r with phase := .seen }
  | .write i => s.onRequest i .seen fun r =>
      { s.put i { r with phase := .verified, granted := true } with
        anonNullifiers := s.anonNullifiers.insert r.key r.id }
  -- `send_anonymous` to a poll: `store_tmail` verifies the ballot again
  | .again i => s.onRequest i .verified fun r =>
      if r.caller = .rest then s.put i { r with phase := .checking } else s
  | .keep i => s.onRequest i .verified fun r =>
      Claims.unlock { s.put i { r with phase := .kept } with stored := r.id :: s.stored } r
  | .fail i => s.onRequest i .verified fun r =>
      match r.caller with
      | .rest => s.put i { r with phase := .unstored }
      | .ballot => s.put i { r with phase := .releasing }
      | .gossip => s
  -- the write of a ballot fails inside `store_tmail`, which gives the claim back itself
  | .failGate i => s.onRequest i .verified fun r =>
      if r.caller = .rest then
        (s.put i { r with phase := .unstored, granted := false }).release r
      else s
  | .look i => s.onRequest i .unstored fun r =>
      if r.id ∈ s.stored then (s.put i { r with phase := .done }).unlock r
      else s.put i { r with phase := .releasing }
  | .release i => s.onRequest i .releasing fun r =>
      ((s.put i { r with phase := .done, granted := false }).release r).unlock r
  -- what other deliveries, burns and pruning do to the messages held
  | .deliver m => { s with stored := m :: s.stored }
  | .drop m => { s with stored := s.stored.filter (· ≠ m) }

end Steps

/-- The states that steps lead to from any claims with no request under way, each step where `ok`
allows it. -/
inductive ClaimRun (ok : Claims → ClaimAction → Prop) : Claims → Prop where
  | start (t : Tree Str Str) (stored : List Str) : ClaimRun ok ⟨t, stored, none, []⟩
  | step {s : Claims} (a : ClaimAction) (before : ClaimRun ok s) (allowed : ok s a) :
      ClaimRun ok (a.step s)

/-- No request of another message stands between its read and its write of this claim, other than
under the lock this one holds. -/
def ReadsAlone (s : Claims) (r : Request) : Prop :=
  ∀ r' ∈ s.requests, r'.phase = .seen → r'.key = r.key →
    ¬ (r.caller = .rest ∧ r'.caller = .rest) → r'.id = r.id

/-- No other request of this message holds the grant. -/
def ReleasesAlone (s : Claims) (i : Nat) (r : Request) : Prop :=
  ∀ (j : Nat) (r' : Request), s.requests[j]? = some r' → j ≠ i → r'.granted = true →
    r'.key = r.key → r'.id ≠ r.id

/-- Reads and releases happen alone. -/
def Alone (s : Claims) : ClaimAction → Prop
  | .read i => ∀ r, s.requests[i]? = some r → ReadsAlone s r
  | .failGate i => ∀ r, s.requests[i]? = some r → ReleasesAlone s i r
  | .release i => ∀ r, s.requests[i]? = some r → ReleasesAlone s i r
  | _ => True

/-! ## The invariant -/

/-- A grant has its claim; a request that saw no claim finds none or its own; two that saw none of
one nullifier are of one message; a REST send at work holds the lock. -/
structure ClaimsInv (s : Claims) : Prop where
  claimed : ∀ (i : Nat) (r : Request), s.requests[i]? = some r → r.granted = true →
    s.anonNullifiers.get r.key = some r.id
  unclaimed : ∀ (i : Nat) (r : Request), s.requests[i]? = some r → r.phase = .seen →
    s.anonNullifiers.get r.key = none ∨ s.anonNullifiers.get r.key = some r.id
  alike : ∀ (i j : Nat) (r r' : Request), s.requests[i]? = some r → s.requests[j]? = some r' →
    r.phase = .seen → r'.phase = .seen → r.key = r'.key → r.id = r'.id
  locked : ∀ (i : Nat) (r : Request), s.requests[i]? = some r → r.caller = .rest →
    r.phase.Inside → s.sending = some i
  holds : ∀ (i : Nat) (r : Request), s.requests[i]? = some r →
    r.phase = .verified ∨ r.phase = .kept → r.granted = true

section Invariant

variable {s s' : Claims} {i j : Nat} {r x : Request} {p : Phase}

/-- The rule for a step of one request. -/
theorem ClaimsInv.onRequest {f : Request → Claims} (h : ClaimsInv s)
    (hf : ∀ r, s.requests[i]? = some r → r.phase = p → ClaimsInv (f r)) :
    ClaimsInv (s.onRequest i p f) := by
  unfold Claims.onRequest
  cases hi : s.requests[i]? with
  | none => exact h
  | some r =>
    by_cases hp : r.phase = p
    · simp only [if_pos hp]
      exact hf r hi hp
    · simp only [if_neg hp]
      exact h

/-- The requests after one of them moved. -/
theorem put_cases (h : (s.requests.set i r)[j]? = some x) :
    (j = i ∧ x = r) ∨ (j ≠ i ∧ s.requests[j]? = some x) := by
  rw [List.getElem?_set] at h
  by_cases hij : i = j
  · rw [if_pos hij] at h
    by_cases hlt : i < s.requests.length
    · rw [if_pos hlt] at h
      exact Or.inl ⟨hij.symm, (Option.some.inj h).symm⟩
    · rw [if_neg hlt] at h
      cases h
  · rw [if_neg hij] at h
    exact Or.inr ⟨Ne.symm hij, h⟩

/-- Nobody else holds the lock when the `i`-th request takes, keeps or gives it back. -/
theorem ClaimsInv.locked_others (h : ClaimsInv s) (hi : s.requests[i]? = some r)
    (hs : s'.sending = s.sending ∨ r.caller = .rest ∧ (r.phase.Inside ∨ s.sending = none))
    (hne : j ≠ i) (hj : s.requests[j]? = some x) (hx : x.caller = .rest) (hin : x.phase.Inside) :
    s'.sending = some j := by
  have hlock := h.locked j x hj hx hin
  rcases hs with hs | ⟨hrest, hinr | hnone⟩
  · rw [hs]
    exact hlock
  · have hsame := hlock.symm.trans (h.locked i r hi hrest hinr)
    exact absurd (Option.some.inj hsame) hne
  · rw [hnone] at hlock
    cases hlock

/-- A request that moves on without touching the claims, and not into the gap before the write. -/
theorem ClaimsInv.moved {g : Bool} (h : ClaimsInv s) (hi : s.requests[i]? = some r)
    (hreq : s'.requests = s.requests.set i { r with phase := p, granted := g })
    (htree : s'.anonNullifiers = s.anonNullifiers) (hp : p ≠ .seen)
    (hg : g = true → s.anonNullifiers.get r.key = some r.id)
    (hv : p = .verified ∨ p = .kept → g = true)
    (hin : r.caller = .rest → p.Inside → s'.sending = some i)
    (hs : s'.sending = s.sending ∨ r.caller = .rest ∧ (r.phase.Inside ∨ s.sending = none)) :
    ClaimsInv s' := by
  constructor
  · intro j x hj hx
    rw [hreq] at hj
    rw [htree]
    rcases put_cases hj with ⟨-, rfl⟩ | ⟨-, hj⟩
    · exact hg hx
    · exact h.claimed j x hj hx
  · intro j x hj hx
    rw [hreq] at hj
    rw [htree]
    rcases put_cases hj with ⟨-, rfl⟩ | ⟨-, hj⟩
    · exact absurd hx hp
    · exact h.unclaimed j x hj hx
  · intro j k x y hj hk hx hy hkey
    rw [hreq] at hj hk
    rcases put_cases hj with ⟨-, rfl⟩ | ⟨-, hj⟩
    · exact absurd hx hp
    rcases put_cases hk with ⟨-, rfl⟩ | ⟨-, hk⟩
    · exact absurd hy hp
    · exact h.alike j k x y hj hk hx hy hkey
  · intro j x hj hx hinx
    rw [hreq] at hj
    rcases put_cases hj with ⟨rfl, rfl⟩ | ⟨hne, hj⟩
    · exact hin hx hinx
    · exact h.locked_others hi hs hne hj hx hinx
  · intro j x hj hx
    rw [hreq] at hj
    rcases put_cases hj with ⟨-, rfl⟩ | ⟨-, hj⟩
    · exact hv hx
    · exact h.holds j x hj hx

/-- A request that saw no claim, while every other in the gap is of its message or excluded by the
lock. -/
theorem ClaimsInv.saw (h : ClaimsInv s) (hi : s.requests[i]? = some r) (hc : r.phase = .checking)
    (hnone : s.anonNullifiers.get r.key = none) (halone : ReadsAlone s r) :
    ClaimsInv (s.put i { r with phase := .seen }) := by
  have halike : ∀ j x, j ≠ i → s.requests[j]? = some x → x.phase = .seen → x.key = r.key →
      x.id = r.id := by
    intro j x hne hj hx hkey
    refine halone x (List.mem_of_getElem? hj) hx hkey ?_
    rintro ⟨hrest, hrest'⟩
    have hmine := h.locked i r hi hrest (by rw [hc]; trivial)
    have htheirs := h.locked j x hj hrest' (by rw [hx]; trivial)
    exact hne (Option.some.inj (htheirs.symm.trans hmine))
  constructor
  · intro j x hj hx
    rcases put_cases hj with ⟨-, rfl⟩ | ⟨-, hj⟩
    · exact h.claimed i r hi hx
    · exact h.claimed j x hj hx
  · intro j x hj hx
    rcases put_cases hj with ⟨-, rfl⟩ | ⟨-, hj⟩
    · exact Or.inl hnone
    · exact h.unclaimed j x hj hx
  · intro j k x y hj hk hx hy hkey
    rcases put_cases hj with ⟨-, rfl⟩ | ⟨hnej, hj'⟩
    · rcases put_cases hk with ⟨-, rfl⟩ | ⟨hnek, hk'⟩
      · rfl
      · exact (halike k y hnek hk' hy hkey.symm).symm
    · rcases put_cases hk with ⟨-, rfl⟩ | ⟨-, hk'⟩
      · exact halike j x hnej hj' hx hkey
      · exact h.alike j k x y hj' hk' hx hy hkey
  · intro j x hj hx hin
    rcases put_cases hj with ⟨rfl, rfl⟩ | ⟨-, hj⟩
    · exact h.locked j r hi hx (by rw [hc]; trivial)
    · exact h.locked j x hj hx hin
  · intro j x hj hx
    rcases put_cases hj with ⟨-, rfl⟩ | ⟨-, hj⟩
    · rcases hx with hx | hx
      · cases hx
      · cases hx
    · exact h.holds j x hj hx

/-- A claim written for a request that saw none. -/
theorem ClaimsInv.wrote (h : ClaimsInv s) (hi : s.requests[i]? = some r) (hseen : r.phase = .seen) :
    ClaimsInv { s.put i { r with phase := .verified, granted := true } with
      anonNullifiers := s.anonNullifiers.insert r.key r.id } := by
  have hown := h.unclaimed i r hi hseen
  constructor
  · intro j x hj hx
    show (s.anonNullifiers.insert r.key r.id).get x.key = some x.id
    rcases put_cases hj with ⟨-, rfl⟩ | ⟨-, hj⟩
    · exact Tree.get_insert_self _ r.key r.id
    by_cases hkey : r.key = x.key
    · -- the claim was there, so it is this message's
      have hthere := h.claimed j x hj hx
      rw [hkey] at hown ⊢
      rw [Tree.get_insert_self]
      rcases hown with hown | hown
      · cases hown.symm.trans hthere
      · exact hown.symm.trans hthere
    · rw [Tree.get_insert_ne hkey]
      exact h.claimed j x hj hx
  · intro j x hj hx
    show (s.anonNullifiers.insert r.key r.id).get x.key = none ∨
      (s.anonNullifiers.insert r.key r.id).get x.key = some x.id
    rcases put_cases hj with ⟨-, rfl⟩ | ⟨-, hj⟩
    · cases hx
    by_cases hkey : r.key = x.key
    · rw [← h.alike i j r x hi hj hseen hx hkey, hkey]
      exact Or.inr (Tree.get_insert_self _ _ _)
    · rw [Tree.get_insert_ne hkey]
      exact h.unclaimed j x hj hx
  · intro j k x y hj hk hx hy hkey
    rcases put_cases hj with ⟨-, rfl⟩ | ⟨-, hj⟩
    · cases hx
    rcases put_cases hk with ⟨-, rfl⟩ | ⟨-, hk⟩
    · cases hy
    · exact h.alike j k x y hj hk hx hy hkey
  · intro j x hj hx hin
    rcases put_cases hj with ⟨rfl, rfl⟩ | ⟨-, hj⟩
    · exact h.locked j r hi hx (by rw [hseen]; trivial)
    · exact h.locked j x hj hx hin
  · intro j x hj hx
    rcases put_cases hj with ⟨-, rfl⟩ | ⟨-, hj⟩
    · rfl
    · exact h.holds j x hj hx

theorem release_get (t : Tree Str Str) (n m k : Str) :
    (releaseAnonNullifier t n m).get k = t.get k ∨
      (k = trimLower n ∧ t.get k = some (trim m) ∧ (releaseAnonNullifier t n m).get k = none) := by
  unfold releaseAnonNullifier
  by_cases hcas : t.get (trimLower n) = some (trim m)
  · rw [if_pos hcas]
    by_cases hk : trimLower n = k
    · subst hk
      exact Or.inr ⟨rfl, hcas, Tree.get_remove_self t _⟩
    · exact Or.inl (Tree.get_remove_ne hk)
  · exact Or.inl (by rw [if_neg hcas])

/-- A claim given back by the only request of its message that holds the grant. -/
theorem ClaimsInv.released (h : ClaimsInv s) (hi : s.requests[i]? = some r)
    (hreq : s'.requests = s.requests.set i { r with phase := p, granted := false })
    (htree : s'.anonNullifiers = releaseAnonNullifier s.anonNullifiers r.nullifierHex r.msgId)
    (hp : p = .unstored ∨ p = .done) (hin : p = .unstored → s'.sending = s.sending)
    (hwas : r.phase.Inside)
    (hs : s'.sending = s.sending ∨ r.caller = .rest ∧ (r.phase.Inside ∨ s.sending = none))
    (halone : ReleasesAlone s i r) : ClaimsInv s' := by
  have hseen : p ≠ .seen := by
    rcases hp with rfl | rfl
    · exact Phase.noConfusion
    · exact Phase.noConfusion
  constructor
  · intro j x hj hx
    rw [hreq] at hj
    rw [htree]
    rcases put_cases hj with ⟨-, rfl⟩ | ⟨hne, hj⟩
    · cases hx
    have hthere := h.claimed j x hj hx
    rcases release_get s.anonNullifiers r.nullifierHex r.msgId x.key with hget | ⟨hkey, hget, -⟩
    · rw [hget]
      exact hthere
    · exact absurd (Option.some.inj (hthere.symm.trans hget)) (halone j x hj hne hx hkey)
  · intro j x hj hx
    rw [hreq] at hj
    rw [htree]
    rcases put_cases hj with ⟨-, rfl⟩ | ⟨-, hj⟩
    · exact absurd hx hseen
    rcases release_get s.anonNullifiers r.nullifierHex r.msgId x.key with hget | ⟨-, -, hget⟩
    · rw [hget]
      exact h.unclaimed j x hj hx
    · exact Or.inl hget
  · intro j k x y hj hk hx hy hkey
    rw [hreq] at hj hk
    rcases put_cases hj with ⟨-, rfl⟩ | ⟨-, hj⟩
    · exact absurd hx hseen
    rcases put_cases hk with ⟨-, rfl⟩ | ⟨-, hk⟩
    · exact absurd hy hseen
    · exact h.alike j k x y hj hk hx hy hkey
  · intro j x hj hx hinx
    rw [hreq] at hj
    rcases put_cases hj with ⟨rfl, rfl⟩ | ⟨hne, hj⟩
    · rcases hp with rfl | rfl
      · rw [hin rfl]
        exact h.locked j r hi hx hwas
      · cases hinx
    · exact h.locked_others hi hs hne hj hx hinx
  · intro j x hj hx
    rw [hreq] at hj
    rcases put_cases hj with ⟨-, rfl⟩ | ⟨-, hj⟩
    · rcases hp with rfl | rfl
      · rcases hx with hx | hx
        · cases hx
        · cases hx
      · rcases hx with hx | hx
        · cases hx
        · cases hx
    · exact h.holds j x hj hx

theorem ClaimsInv.arrive (h : ClaimsInv s) (caller : Caller) (n m : Str) :
    ClaimsInv ((ClaimAction.arrive caller n m).step s) := by
  have hold : ∀ {j : Nat} {x : Request},
      (s.requests ++ [⟨caller, n, m, .arrived, false⟩])[j]? = some x →
        s.requests[j]? = some x ∨ x.phase = .arrived ∧ x.granted = false := by
    intro j x hj
    rw [List.getElem?_append] at hj
    by_cases hlt : j < s.requests.length
    · rw [if_pos hlt] at hj
      exact Or.inl hj
    · rw [if_neg hlt] at hj
      rw [List.mem_singleton.mp (List.mem_of_getElem? hj)]
      exact Or.inr ⟨rfl, rfl⟩
  constructor
  · intro j x hj hx
    rcases hold hj with hj | ⟨-, hg⟩
    · exact h.claimed j x hj hx
    · cases hg.symm.trans hx
  · intro j x hj hx
    rcases hold hj with hj | ⟨hp, -⟩
    · exact h.unclaimed j x hj hx
    · cases hp.symm.trans hx
  · intro j k x y hj hk hx hy hkey
    rcases hold hj with hj | ⟨hp, -⟩
    · rcases hold hk with hk | ⟨hp, -⟩
      · exact h.alike j k x y hj hk hx hy hkey
      · cases hp.symm.trans hy
    · cases hp.symm.trans hx
  · intro j x hj hx hin
    rcases hold hj with hj | ⟨hp, -⟩
    · exact h.locked j x hj hx hin
    · rw [hp] at hin
      cases hin
  · intro j x hj hx
    rcases hold hj with hj | ⟨hp, -⟩
    · exact h.holds j x hj hx
    · rw [hp] at hx
      rcases hx with hx | hx
      · cases hx
      · cases hx

/-- A request at work that leaves: REST sends give the lock back. -/
theorem ClaimsInv.left {stored : List Str} (h : ClaimsInv s) (hi : s.requests[i]? = some r)
    (hin : r.phase.Inside) (hp : p = .done ∨ p = .kept ∧ r.granted = true) :
    ClaimsInv (Claims.unlock { s.put i { r with phase := p } with stored := stored } r) := by
  have hout : ¬ p.Inside ∧ p ≠ .seen ∧ (p = .verified ∨ p = .kept → r.granted = true) := by
    rcases hp with rfl | ⟨rfl, hg⟩
    · exact ⟨fun h => h, Phase.noConfusion, by rintro (h | h) <;> cases h⟩
    · exact ⟨fun h => h, Phase.noConfusion, fun _ => hg⟩
  unfold Claims.unlock
  by_cases hrest : r.caller = .rest
  · rw [if_pos hrest]
    exact h.moved hi rfl rfl hout.2.1 (h.claimed i r hi) hout.2.2 (fun _ hp => absurd hp hout.1)
      (Or.inr ⟨hrest, Or.inl hin⟩)
  · rw [if_neg hrest]
    exact h.moved hi rfl rfl hout.2.1 (h.claimed i r hi) hout.2.2 (fun _ hp => absurd hp hout.1)
      (Or.inl rfl)

/-- A request at work that goes on, keeping what it holds. -/
theorem ClaimsInv.goesOn (h : ClaimsInv s) (hi : s.requests[i]? = some r) (hin : r.phase.Inside)
    (hp : p = .checking ∨ p = .unstored ∨ p = .releasing) :
    ClaimsInv (s.put i { r with phase := p }) := by
  have hquiet : p ≠ .seen ∧ (p = .verified ∨ p = .kept → r.granted = true) := by
    rcases hp with rfl | rfl | rfl
    all_goals exact ⟨Phase.noConfusion, by rintro (h | h) <;> cases h⟩
  exact h.moved hi rfl rfl hquiet.1 (h.claimed i r hi) hquiet.2
    (fun hrest _ => h.locked i r hi hrest hin) (Or.inl rfl)

theorem ClaimsInv.refused (h : ClaimsInv s) (hi : s.requests[i]? = some r) (hin : r.phase.Inside) :
    ClaimsInv (s.refused i r) := by
  unfold Claims.refused
  by_cases hg : r.granted = true
  · rw [if_pos hg]
    exact h.goesOn hi hin (Or.inr (Or.inl rfl))
  · rw [if_neg hg]
    exact h.left hi hin (Or.inl rfl)

/-- One step that reads and releases alone keeps the invariant. -/
theorem ClaimsInv.step (h : ClaimsInv s) (a : ClaimAction) (halone : Alone s a) :
    ClaimsInv (a.step s) := by
  cases a with
  | arrive caller n m => exact h.arrive caller n m
  | enter i =>
    refine h.onRequest fun r hi hp => ?_
    by_cases hrest : r.caller = .rest
    · rw [if_pos hrest]
      by_cases hfree : s.sending = none
      · rw [if_pos hfree]
        exact h.moved hi rfl rfl Phase.noConfusion (h.claimed i r hi) (by rintro (h | h) <;> cases h)
          (fun _ _ => rfl) (Or.inr ⟨hrest, Or.inr hfree⟩)
      · rw [if_neg hfree]
        exact h
    · rw [if_neg hrest]
      exact h.moved hi rfl rfl Phase.noConfusion (h.claimed i r hi) (by rintro (h | h) <;> cases h)
        (fun hr _ => absurd hr hrest) (Or.inl rfl)
  | refuse i => exact h.onRequest fun r hi hp => h.refused hi (by rw [hp]; trivial)
  | read i =>
    refine h.onRequest fun r hi hp => ?_
    cases hget : s.anonNullifiers.get r.key with
    | none => exact h.saw hi hp hget (halone r hi)
    | some m =>
      by_cases hm : m = r.id
      · simp only [if_pos hm]
        exact h.moved hi rfl rfl Phase.noConfusion (fun _ => hm ▸ hget) (fun _ => rfl)
          (fun hrest _ => h.locked i r hi hrest (by rw [hp]; trivial)) (Or.inl rfl)
      · simp only [if_neg hm]
        exact h.refused hi (by rw [hp]; trivial)
  | write i => exact h.onRequest fun r hi hp => h.wrote hi hp
  | again i =>
    refine h.onRequest fun r hi hp => ?_
    by_cases hrest : r.caller = .rest
    · rw [if_pos hrest]
      exact h.goesOn hi (by rw [hp]; trivial) (Or.inl rfl)
    · rw [if_neg hrest]
      exact h
  | keep i =>
    exact h.onRequest fun r hi hp =>
      h.left hi (by rw [hp]; trivial) (Or.inr ⟨rfl, h.holds i r hi (Or.inl hp)⟩)
  | fail i =>
    refine h.onRequest fun r hi hp => ?_
    have hrest := h.goesOn hi (by rw [hp]; trivial) (Or.inr (Or.inl rfl))
    have hballot := h.goesOn hi (by rw [hp]; trivial) (Or.inr (Or.inr rfl))
    rcases r with ⟨caller, n, m, phase, granted⟩
    cases caller with
    | rest => exact hrest
    | ballot => exact hballot
    | gossip => exact h
  | failGate i =>
    refine h.onRequest fun r hi hp => ?_
    by_cases hrest : r.caller = .rest
    · rw [if_pos hrest]
      exact h.released hi rfl rfl (Or.inl rfl) (fun _ => rfl) (by rw [hp]; trivial) (Or.inl rfl)
        (halone r hi)
    · rw [if_neg hrest]
      exact h
  | look i =>
    refine h.onRequest fun r hi hp => ?_
    by_cases hstored : r.id ∈ s.stored
    · rw [if_pos hstored]
      exact h.left hi (by rw [hp]; trivial) (Or.inl rfl)
    · rw [if_neg hstored]
      exact h.goesOn hi (by rw [hp]; trivial) (Or.inr (Or.inr rfl))
  | release i =>
    refine h.onRequest fun r hi hp => ?_
    have hin : r.phase.Inside := by rw [hp]; trivial
    unfold Claims.unlock
    by_cases hrest : r.caller = .rest
    · rw [if_pos hrest]
      exact h.released hi rfl rfl (Or.inr rfl) Phase.noConfusion hin (Or.inr ⟨hrest, Or.inl hin⟩)
        (halone r hi)
    · rw [if_neg hrest]
      exact h.released hi rfl rfl (Or.inr rfl) Phase.noConfusion hin (Or.inl rfl) (halone r hi)
  | deliver m => exact ⟨h.claimed, h.unclaimed, h.alike, h.locked, h.holds⟩
  | drop m => exact ⟨h.claimed, h.unclaimed, h.alike, h.locked, h.holds⟩

theorem ClaimRun.inv (h : ClaimRun Alone s) : ClaimsInv s := by
  induction h with
  | start t stored =>
    constructor
    · intro i r hi
      cases hi
    · intro i r hi
      cases hi
    · intro i j r r' hi
      cases hi
    · intro i r hi
      cases hi
    · intro i r hi
      cases hi
  | step a _ allowed ih => exact ih.step a allowed

end Invariant

/-- **One nullifier, one message.** In every run where claims are read and given back alone, the
requests that hold a grant of one nullifier are of one message, and so are those that were stored. -/
theorem nullifier_one_message {s : Claims} (h : ClaimRun Alone s) {r r' : Request}
    (hr : r ∈ s.requests) (hr' : r' ∈ s.requests) (hkey : r.key = r'.key) :
    (r.granted = true → r'.granted = true → r.id = r'.id) ∧
      (r.phase = .kept → r'.phase = .kept → r.id = r'.id) := by
  have hinv := h.inv
  obtain ⟨i, hi⟩ := List.mem_iff_getElem?.mp hr
  obtain ⟨j, hj⟩ := List.mem_iff_getElem?.mp hr'
  have hgrants : r.granted = true → r'.granted = true → r.id = r'.id := by
    intro hg hg'
    have hclaim := hinv.claimed i r hi hg
    rw [hkey] at hclaim
    exact Option.some.inj (hclaim.symm.trans (hinv.claimed j r' hj hg'))
  refine ⟨hgrants, fun hk hk' => ?_⟩
  exact hgrants (hinv.holds i r hi (Or.inr hk)) (hinv.holds j r' hj (Or.inr hk'))

end TetCore.Tmail

namespace TetCore.Sample

open TetCore.Lib TetCore.Tmail

/-- No claim, no message, no request. -/
def noClaims : Claims := ⟨Tree.empty, [], none, []⟩

def claimStep (s : Claims) (a : ClaimAction) : Claims := a.step s

/-- A REST send is stored, then its gossiped copy is verified. -/
def sentAndGossiped : List ClaimAction :=
  [.arrive .rest "N".toList "m".toList, .enter 0, .read 0, .write 0, .keep 0,
    .arrive .gossip " n".toList " m".toList, .enter 1, .read 1]

/-- A member's two ballots, one sent and one gossiped. Both read before either writes, and the gate's
second look at the first comes before the second write. -/
def twoBallots : List ClaimAction :=
  [.arrive .rest "n".toList "a".toList, .arrive .ballot "n".toList "b".toList, .enter 0, .enter 1,
    .read 1, .read 0, .write 0, .again 0, .read 0, .write 1, .keep 0, .keep 1]

theorem claimRun : ∀ (as : List ClaimAction) {s : Claims},
    ClaimRun (fun _ _ => True) s → ClaimRun (fun _ _ => True) (as.foldl claimStep s)
  | [], _, h => h
  | a :: as, _, h => claimRun as (ClaimRun.step a h trivial)

end TetCore.Sample

namespace TetCore.Tmail

open TetCore.Lib

theorem alone_of_no_gap {s : Claims} {i : Nat} (h : ∀ r ∈ s.requests, r.phase ≠ .seen) :
    Alone s (.read i) := fun _ _ r' hr' hseen => absurd hseen (h r' hr')

/-- A send and its gossiped copy, spelled differently, hold the grant of one nullifier. -/
theorem nullifier_one_message_gossiped :
    ∃ s r r', ClaimRun Alone s ∧ r ∈ s.requests ∧ r' ∈ s.requests ∧ r ≠ r' ∧ r.granted = true ∧
      r'.granted = true ∧ r.id = r'.id := by
  let s₂ := (Sample.sentAndGossiped.take 2).foldl Sample.claimStep Sample.noClaims
  let s₇ := (Sample.sentAndGossiped.take 7).foldl Sample.claimStep Sample.noClaims
  let s := Sample.sentAndGossiped.foldl Sample.claimStep Sample.noClaims
  have hfirst : ClaimRun Alone s₂ :=
    ((ClaimRun.start Tree.empty []).step (.arrive .rest "N".toList "m".toList) trivial).step
      (.enter 0) trivial
  have hgap : (∀ r ∈ s₂.requests, r.phase ≠ .seen) ∧ ∀ r ∈ s₇.requests, r.phase ≠ .seen := by
    decide +kernel
  have hrest : ClaimRun Alone s₇ :=
    (((((hfirst.step (.read 0) (alone_of_no_gap hgap.1)).step (.write 0) trivial).step (.keep 0)
      trivial).step (.arrive .gossip " n".toList " m".toList) trivial).step (.enter 1) trivial)
  have hrun : ClaimRun Alone s := hrest.step (.read 1) (alone_of_no_gap hgap.2)
  let r : Request := ⟨.rest, "N".toList, "m".toList, .kept, true⟩
  let r' : Request := ⟨.gossip, " n".toList, " m".toList, .verified, true⟩
  have hall : r ∈ s.requests ∧ r' ∈ s.requests ∧ r.key = r'.key ∧ r ≠ r' := by decide +kernel
  obtain ⟨hr, hr', hkey, hne⟩ := hall
  exact ⟨s, r, r', hrun, hr, hr', hne, rfl, rfl, (nullifier_one_message hrun hr hr' hkey).1 rfl rfl⟩

/-- Without the condition a member's two ballots are both stored with their verdicts. -/
theorem nullifier_two_messages :
    ¬ ∀ s : Claims, ClaimRun (fun _ _ => True) s → ∀ r ∈ s.requests, ∀ r' ∈ s.requests,
      r.key = r'.key →
        (r.granted = true → r'.granted = true → r.id = r'.id) ∧
          (r.phase = .kept → r'.phase = .kept → r.id = r'.id) := by
  intro h
  have hrun := Sample.claimRun Sample.twoBallots (ClaimRun.start Tree.empty [])
  have hall : let s := Sample.twoBallots.foldl Sample.claimStep Sample.noClaims
      let r : Request := ⟨.rest, "n".toList, "a".toList, .kept, true⟩
      let r' : Request := ⟨.ballot, "n".toList, "b".toList, .kept, true⟩
      r ∈ s.requests ∧ r' ∈ s.requests ∧ r.key = r'.key ∧ r.id ≠ r'.id := by decide +kernel
  obtain ⟨hr, hr', hkey, hne⟩ := hall
  exact hne ((h _ hrun _ hr _ hr' hkey).2 rfl rfl)

end TetCore.Tmail
