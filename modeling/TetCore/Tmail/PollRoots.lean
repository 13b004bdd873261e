import TetCore.Ledger.AuditFeed
import TetCore.Tmail.Membership

/-!
# The member lists of polls

`register_poll_root` stores a poll's signed list with the root of the listed members' commitments, as
this node's registry has them at that moment. A second list for the poll is compared by the root that
the registry gives for it now: the lists themselves are not.

* `Fixed`: what is stored stays; the same list and day again is a no-op, any other is refused.
* `Steady`: what that needs of a call: the asked list has the leaves of the stored one exactly if it
  is the same list.
* `poll_roots_iff`: a run of registrations and polls is `Fixed` call by call exactly when it is
  `Steady`, when SHA-256 has no collision among what the compared trees hash.
* `poll_roots_recommitted`: a member's new commitment, and another wallet with a member's commitment.
-/

namespace TetCore.Tmail

open TetCore.Lib

/-! ## The store -/

/-- `TmailPollRootV1`, the part that is registered. -/
structure TmailPollRootV1 where
  pollWalletId : Str
  members : List Str
  bucketIndex : Nat
  registeredAtMs : Nat
  deriving DecidableEq

/-- `StoredPollRoot`. -/
structure StoredPollRoot where
  poll : TmailPollRootV1
  rootHex : Option Str
  deriving DecidableEq

/-- The registry, and `poll_roots`. -/
structure PollStore where
  anon : AnonStore
  pollRoots : Tree Str StoredPollRoot

/-- What stops `register_poll_root`: an error it returns, or a slice that cuts a character. -/
inductive PollFailure where
  | err (text : Str)
  | panicked
  deriving DecidableEq

/-- `&s[..n.min(s.len())]`, unless that cuts a character. -/
def sliceTo : Nat → Str → Option Str
  | _, [] => some []
  | n, c :: s =>
    if n = 0 then some []
    else if c.utf8Size ≤ n then (sliceTo (n - c.utf8Size) s).map fun t => c :: t
    else none

/-- The leaves of the listed members, or what stops the loop. -/
def memberLeaves (s : AnonStore) : List Str → Except PollFailure (List Bytes)
  | [] => .ok []
  | m :: rest =>
    match s.anonRegistry.get (trimLower m) with
    | none =>
      .error (match sliceTo 8 m with
        | some t => .err (t ++ "… is not a registered member".toList)
        | none => .panicked)
    | some row =>
      match row.leaf with
      | none => .error (.err "a member's registered commitment is malformed".toList)
      | some leaf => (memberLeaves s rest).map fun leaves => leaf :: leaves

/-- The refusal of another list. -/
def listFixed : Str :=
  "this poll already has a different member list; a poll's members can't be changed".toList

namespace PollStore

/-- `get_poll_root`. -/
def getPollRoot (s : PollStore) (pollWalletId : Str) : Option StoredPollRoot :=
  s.pollRoots.get (trimLower pollWalletId)

/-- The end of `register_poll_root`, with the root of the list. -/
def putPollRoot (s : PollStore) (r : TmailPollRootV1) (rootHex : Option Str) :
    Except PollFailure Bool × PollStore :=
  let key := trimLower r.pollWalletId
  match s.getPollRoot key with
  | some existing =>
    if existing.rootHex = rootHex ∧ existing.poll.bucketIndex = r.bucketIndex then (.ok false, s)
    else (.error (.err listFixed), s)
  | none => (.ok true, ⟨s.anon, s.pollRoots.insert key ⟨r, rootHex⟩⟩)

/-- `register_poll_root`. -/
def registerPollRoot (W : World) (s : PollStore) (r : TmailPollRootV1) :
    Except PollFailure Bool × PollStore :=
  if r.members = [] then s.putPollRoot r none
  else
    match memberLeaves s.anon r.members with
    | .error failure => (.error failure, s)
    | .ok leaves => s.putPollRoot r (some (hexEncode (merkleRoot W leaves)))

end PollStore

/-! ## Runs -/

inductive PollCall where
  | registerAnon (now : Nat) (reg : TmailAnonRegistrationV1)
  | registerPoll (r : TmailPollRootV1)

/-- The store, and the leaves each poll's list had when it was registered. -/
structure PollTrace where
  store : PollStore
  leavesAt : Str → List Bytes

namespace PollTrace

/-- A new store. -/
def new : PollTrace := ⟨⟨.new, .empty⟩, fun _ => []⟩

/-- The leaves of the asked list, as the registry has them. -/
def asked (s : PollTrace) (r : TmailPollRootV1) : List Bytes :=
  match memberLeaves s.store.anon r.members with
  | .ok leaves => leaves
  | .error _ => []

/-- The leaves of a list that is stored are kept. -/
def noted (W : World) (s : PollTrace) (r : TmailPollRootV1) : Str → List Bytes :=
  if (s.store.registerPollRoot W r).1 = .ok true then
    fun key => if key = trimLower r.pollWalletId then s.asked r else s.leavesAt key
  else s.leavesAt

def step (E : Vars) (W : World) (s : PollTrace) : PollCall → PollTrace
  | .registerAnon now reg =>
    ⟨⟨(registerAnon E now reg s.store.anon).2, s.store.pollRoots⟩, s.leavesAt⟩
  | .registerPoll r => ⟨(s.store.registerPollRoot W r).2, s.noted W r⟩

/-- The poll has this entry. -/
def Has (s : PollTrace) (r : TmailPollRootV1) (e : StoredPollRoot) : Prop :=
  s.store.pollRoots.get (trimLower r.pollWalletId) = some e

/-- The list and the day that are stored: the same wallets, as they are signed. -/
def Repeats (e : StoredPollRoot) (r : TmailPollRootV1) : Prop :=
  r.members.map trimLower = e.poll.members.map trimLower ∧ r.bucketIndex = e.poll.bucketIndex

/-- **A poll is fixed** by its first registration. -/
structure Fixed (E : Vars) (W : World) (s : PollTrace) (c : PollCall) : Prop where
  kept : ∀ key e, s.store.pollRoots.get key = some e →
    (s.step E W c).store.pollRoots.get key = some e
  again : ∀ r e, c = .registerPoll r → s.Has r e → Repeats e r →
    (s.store.registerPollRoot W r).1 = .ok false
  other : ∀ r e, c = .registerPoll r → s.Has r e → ¬Repeats e r →
    (∃ text, (s.store.registerPollRoot W r).1 = .error (.err text)) ∧ (s.step E W c).store = s.store

/-- The leaves fill the tree alike, empty slots included. -/
def SameLeaves (W : World) (leaves leaves' : List Bytes) : Prop :=
  ∀ i < 2 ^ merkleDepth, merkleNode W leaves 0 i = merkleNode W leaves' 0 i

/-- What a call needs: a list that is asked for a members-only poll, on its day, has the leaves of
the stored list exactly if it is that list; and no unregistered wallet is spelled with a character
across its eighth byte. -/
def Steady (W : World) (s : PollTrace) : PollCall → Prop
  | .registerAnon _ _ => True
  | .registerPoll r => ∀ e, s.Has r e → r.members ≠ [] →
      memberLeaves s.store.anon r.members ≠ .error .panicked ∧
      (e.rootHex.isSome = true → r.bucketIndex = e.poll.bucketIndex →
        (r.members.map trimLower = e.poll.members.map trimLower ↔
          ∃ leaves, memberLeaves s.store.anon r.members = .ok leaves ∧
            SameLeaves W leaves (s.leavesAt (trimLower r.pollWalletId))))

/-- What is hashed for the inner nodes of a tree. -/
def NodeBytes (W : World) (leaves : List Bytes) (b : Bytes) : Prop :=
  ∃ d < merkleDepth, ∃ k,
    b = parentBytes (merkleNode W leaves d (2 * k), merkleNode W leaves d (2 * k + 1))

/-- SHA-256 has no collision among what the tree of the asked list and the one of the stored list
hash, when the two are compared. -/
def NoCollision (W : World) (s : PollTrace) : PollCall → Prop
  | .registerAnon _ _ => True
  | .registerPoll r => ∀ e leaves, s.Has r e → e.rootHex.isSome = true →
      r.bucketIndex = e.poll.bucketIndex → memberLeaves s.store.anon r.members = .ok leaves →
        Set.InjOn W.sha256 {b | NodeBytes W leaves b ∨
          NodeBytes W (s.leavesAt (trimLower r.pollWalletId)) b}

end PollTrace

/-! ## Roots and leaves -/

section Roots

variable {W : World} {leaves leaves' : List Bytes}

/-- **A root stands for its leaves** when nothing that is hashed for them collides. -/
theorem merkleRoot_eq_iff (hsha : ∀ b, (W.sha256 b).length = 32)
    (hleaves : ∀ l ∈ leaves, l.length = 32) (hleaves' : ∀ l ∈ leaves', l.length = 32)
    (hfree : Set.InjOn W.sha256
      {b | PollTrace.NodeBytes W leaves b ∨ PollTrace.NodeBytes W leaves' b}) :
    merkleRoot W leaves = merkleRoot W leaves' ↔ PollTrace.SameLeaves W leaves leaves' := by
  have hbelow : ∀ i, (0 * 2 ^ merkleDepth ≤ i ∧ i < (0 + 1) * 2 ^ merkleDepth) ↔
      i < 2 ^ merkleDepth := by
    intro i
    rw [Nat.zero_mul, Nat.zero_add, Nat.one_mul]
    exact and_iff_right (Nat.zero_le i)
  rw [merkleRoot_eq, merkleRoot_eq]
  constructor
  · intro hroot i hi
    refine (merkleNode_isTree W leaves).leaves_of_node (merkleNode_isTree W leaves') ?_ hroot i
      ((hbelow i).mpr hi)
    intro d hd k hparent
    have hbytes := hfree (Or.inl ⟨d, hd, k, rfl⟩) (Or.inr ⟨d, hd, k, rfl⟩) hparent
    refine Prod.mk.inj (parentBytes_injective ?_ hbytes)
    exact (merkleNode_length hleaves hsha d _).trans (merkleNode_length hleaves' hsha d _).symm
  · intro hsame
    exact (merkleNode_isTree W leaves).node_congr (merkleNode_isTree W leaves') fun i hi =>
      hsame i ((hbelow i).mp hi)

/-- The leaves of members are 32 bytes. -/
theorem memberLeaves_length {s : AnonStore} {members : List Str} :
    ∀ {leaves : List Bytes}, memberLeaves s members = .ok leaves → ∀ l ∈ leaves, l.length = 32 := by
  induction members with
  | nil =>
    intro leaves h
    cases h
    exact fun l hl => absurd hl List.not_mem_nil
  | cons m rest ih =>
    intro leaves h
    rw [memberLeaves] at h
    cases hget : s.anonRegistry.get (trimLower m) with
    | none =>
      rw [hget] at h
      cases h
    | some row =>
      rw [hget] at h
      cases hleaf : row.leaf with
      | none =>
        simp only [hleaf] at h
        cases h
      | some leaf =>
        simp only [hleaf] at h
        cases hrest : memberLeaves s rest with
        | error e =>
          rw [hrest] at h
          cases h
        | ok ls =>
          rw [hrest] at h
          cases h
          have hlen : leaf.length = 32 := eq_of_beq (Option.filter_eq_some_iff.mp hleaf).2
          exact List.forall_mem_cons.mpr ⟨hlen, ih hrest⟩

end Roots

/-! ## One call -/

namespace PollTrace

section Calls

variable {E : Vars} {W : World} {s : PollTrace} {r : TmailPollRootV1} {e : StoredPollRoot}

/-- A poll that has an entry: what it is compared by. -/
theorem putPollRoot_of_has (h : s.Has r e) (rootHex : Option Str) :
    s.store.putPollRoot r rootHex =
      (if e.rootHex = rootHex ∧ e.poll.bucketIndex = r.bucketIndex then .ok false
        else .error (.err listFixed), s.store) := by
  have hget : s.store.getPollRoot (trimLower r.pollWalletId) = some e := by
    rw [PollStore.getPollRoot, trimLower_trimLower]
    exact h
  rw [PollStore.putPollRoot, hget]
  simp only
  split
  · rfl
  · rfl

theorem putPollRoot_of_none (h : s.store.pollRoots.get (trimLower r.pollWalletId) = none)
    (rootHex : Option Str) : s.store.putPollRoot r rootHex =
      (.ok true, ⟨s.store.anon,
        s.store.pollRoots.insert (trimLower r.pollWalletId) ⟨r, rootHex⟩⟩) := by
  have hget : s.store.getPollRoot (trimLower r.pollWalletId) = none := by
    rw [PollStore.getPollRoot, trimLower_trimLower]
    exact h
  rw [PollStore.putPollRoot, hget]

/-- A poll that has an entry keeps the store as it is, and is not stored again. -/
theorem registerPollRoot_of_has (h : s.Has r e) : (s.store.registerPollRoot W r).2 = s.store ∧
    (s.store.registerPollRoot W r).1 ≠ .ok true := by
  have hput : ∀ rootHex, (s.store.putPollRoot r rootHex).2 = s.store ∧
      (s.store.putPollRoot r rootHex).1 ≠ .ok true := by
    intro rootHex
    rw [putPollRoot_of_has h]
    refine ⟨rfl, ?_⟩
    dsimp only
    split
    · exact fun h => by cases h
    · exact fun h => by cases h
  unfold PollStore.registerPollRoot
  by_cases hopen : r.members = []
  · rw [if_pos hopen]
    exact hput none
  · rw [if_neg hopen]
    cases hleaves : memberLeaves s.store.anon r.members with
    | ok leaves => exact hput _
    | error failure => exact ⟨rfl, fun h => by cases h⟩

/-- The invariant: a stored root is the root of the leaves its list had. -/
structure Inv (W : World) (s : PollTrace) : Prop where
  openPoll : ∀ key e, s.store.pollRoots.get key = some e → e.poll.members = [] → e.rootHex = none
  members : ∀ key e, s.store.pollRoots.get key = some e → e.poll.members ≠ [] →
    e.rootHex = some (hexEncode (merkleRoot W (s.leavesAt key))) ∧
      ∀ l ∈ s.leavesAt key, l.length = 32

theorem inv_new (W : World) : new.Inv W where
  openPoll key e h := by
    rw [show new.store.pollRoots.get key = none from Tree.get_empty key] at h
    cases h
  members key e h := by
    rw [show new.store.pollRoots.get key = none from Tree.get_empty key] at h
    cases h

/-- What a poll without an entry becomes: nothing, or an entry with the root of its leaves. -/
theorem registerPollRoot_of_none (h : s.store.pollRoots.get (trimLower r.pollWalletId) = none) :
    ((s.store.registerPollRoot W r).2 = s.store ∧ (s.store.registerPollRoot W r).1 ≠ .ok true) ∨
      ∃ rootHex, s.store.registerPollRoot W r = (.ok true, ⟨s.store.anon,
          s.store.pollRoots.insert (trimLower r.pollWalletId) ⟨r, rootHex⟩⟩) ∧
        (r.members = [] → rootHex = none) ∧
        (r.members ≠ [] → rootHex = some (hexEncode (merkleRoot W (s.asked r))) ∧
          ∀ l ∈ s.asked r, l.length = 32) := by
  unfold PollStore.registerPollRoot asked
  by_cases hopen : r.members = []
  · rw [if_pos hopen, putPollRoot_of_none h]
    exact Or.inr ⟨none, rfl, fun _ => rfl, fun hne => absurd hopen hne⟩
  · rw [if_neg hopen]
    cases hleaves : memberLeaves s.store.anon r.members with
    | error failure => exact Or.inl ⟨rfl, fun h => by cases h⟩
    | ok leaves =>
      simp only
      rw [putPollRoot_of_none h]
      exact Or.inr ⟨_, rfl, fun hnil => absurd hnil hopen,
        fun _ => ⟨rfl, memberLeaves_length hleaves⟩⟩

theorem noted_of_ne (h : (s.store.registerPollRoot W r).1 ≠ .ok true) : s.noted W r = s.leavesAt :=
  if_neg h

/-- **A call** keeps the invariant, and what is stored. -/
theorem Inv.step (h : s.Inv W) (c : PollCall) : (s.step E W c).Inv W ∧
    ∀ key e, s.store.pollRoots.get key = some e →
      (s.step E W c).store.pollRoots.get key = some e := by
  cases c with
  | registerAnon now reg => exact ⟨⟨h.openPoll, h.members⟩, fun _ _ h => h⟩
  | registerPoll r =>
    have hsame : (s.store.registerPollRoot W r).2 = s.store →
        (s.store.registerPollRoot W r).1 ≠ .ok true → s.step E W (.registerPoll r) = s := by
      intro hstore hreply
      rw [PollTrace.step, hstore, noted_of_ne hreply]
    cases hget : s.store.pollRoots.get (trimLower r.pollWalletId) with
    | some e =>
      obtain ⟨hstore, hreply⟩ := registerPollRoot_of_has (W := W) (r := r) hget
      rw [hsame hstore hreply]
      exact ⟨h, fun _ _ h => h⟩
    | none =>
      rcases registerPollRoot_of_none (W := W) hget with
        ⟨hstore, hreply⟩ | ⟨rootHex, hput, hopen, hlist⟩
      · rw [hsame hstore hreply]
        exact ⟨h, fun _ _ h => h⟩
      · have hnoted : s.noted W r = fun key =>
            if key = trimLower r.pollWalletId then s.asked r else s.leavesAt key := by
          unfold noted
          rw [hput]
          exact if_pos rfl
        have hstep : s.step E W (.registerPoll r) = ⟨⟨s.store.anon,
            s.store.pollRoots.insert (trimLower r.pollWalletId) ⟨r, rootHex⟩⟩, s.noted W r⟩ := by
          rw [PollTrace.step, hput]
        rw [hstep, hnoted]
        refine ⟨⟨fun key e hkey hnil => ?_, fun key e hkey hne => ?_⟩, fun key e hkey => ?_⟩
        · rw [Tree.get_insert] at hkey
          by_cases hk : trimLower r.pollWalletId = key
          · rw [if_pos hk, Option.some.injEq] at hkey
            subst hkey
            exact hopen hnil
          · rw [if_neg hk] at hkey
            exact h.openPoll key e hkey hnil
        · rw [Tree.get_insert] at hkey
          by_cases hk : trimLower r.pollWalletId = key
          · rw [if_pos hk, Option.some.injEq] at hkey
            subst hkey
            simp only [if_pos hk.symm]
            exact hlist hne
          · rw [if_neg hk] at hkey
            simp only [if_neg (Ne.symm hk)]
            exact h.members key e hkey hne
        · have hk : trimLower r.pollWalletId ≠ key := by
            rintro rfl
            rw [hget] at hkey
            cases hkey
          exact (Tree.get_insert_ne hk).trans hkey

/-! ## What a poll with an entry answers -/

theorem reply_open (h : s.Has r e) (hopen : r.members = []) : (s.store.registerPollRoot W r).1 =
    if e.rootHex = none ∧ e.poll.bucketIndex = r.bucketIndex then .ok false
    else .error (.err listFixed) := by
  rw [PollStore.registerPollRoot, if_pos hopen, putPollRoot_of_has h]

theorem reply_list (h : s.Has r e) (hne : r.members ≠ []) {leaves : List Bytes}
    (hleaves : memberLeaves s.store.anon r.members = .ok leaves) :
    (s.store.registerPollRoot W r).1 =
      if e.rootHex = some (hexEncode (merkleRoot W leaves)) ∧ e.poll.bucketIndex = r.bucketIndex then
        .ok false
      else .error (.err listFixed) := by
  rw [PollStore.registerPollRoot, if_neg hne, hleaves]
  simp only
  rw [putPollRoot_of_has h]

theorem reply_stop (hne : r.members ≠ []) {failure : PollFailure}
    (hleaves : memberLeaves s.store.anon r.members = .error failure) :
    (s.store.registerPollRoot W r).1 = .error failure := by
  rw [PollStore.registerPollRoot, if_neg hne, hleaves]

/-- The stored root is the root of the asked list exactly when the leaves are the same. -/
theorem Inv.root_iff (hsha : ∀ b, (W.sha256 b).length = 32) (h : s.Inv W) (hhas : s.Has r e)
    (hclosed : e.poll.members ≠ []) {leaves : List Bytes}
    (hleaves : memberLeaves s.store.anon r.members = .ok leaves)
    (hfree : Set.InjOn W.sha256 {b | NodeBytes W leaves b ∨
      NodeBytes W (s.leavesAt (trimLower r.pollWalletId)) b}) :
    e.rootHex = some (hexEncode (merkleRoot W leaves)) ↔
      SameLeaves W leaves (s.leavesAt (trimLower r.pollWalletId)) := by
  obtain ⟨hroot, hlen⟩ := h.members _ e hhas hclosed
  rw [← merkleRoot_eq_iff hsha (memberLeaves_length hleaves) hlen hfree, hroot, Option.some.injEq]
  exact ⟨fun heq => (hexEncode_injective heq).symm, fun heq => by rw [heq]⟩

theorem Inv.closed_iff (h : s.Inv W) (hhas : s.Has r e) :
    e.rootHex.isSome = true ↔ e.poll.members ≠ [] := by
  constructor
  · intro hsome hnil
    rw [h.openPoll _ e hhas hnil] at hsome
    cases hsome
  · intro hne
    rw [(h.members _ e hhas hne).1]
    rfl

/-- A fixed poll needs a steady call. -/
theorem Inv.steady (hsha : ∀ b, (W.sha256 b).length = 32) (h : s.Inv W)
    (hfree : s.NoCollision W (.registerPoll r)) (hfixed : s.Fixed E W (.registerPoll r)) :
    s.Steady W (.registerPoll r) := by
  intro e hhas hne
  constructor
  · intro hpanic
    have hreply := reply_stop (W := W) hne hpanic
    by_cases hrepeats : Repeats e r
    · rw [hfixed.again r e rfl hhas hrepeats] at hreply
      cases hreply
    · obtain ⟨⟨text, htext⟩, -⟩ := hfixed.other r e rfl hhas hrepeats
      rw [htext] at hreply
      cases hreply
  · intro hsome hbucket
    have hclosed := (h.closed_iff hhas).mp hsome
    constructor
    · intro hlist
      have hagain := hfixed.again r e rfl hhas ⟨hlist, hbucket⟩
      cases hleaves : memberLeaves s.store.anon r.members with
      | error failure =>
        rw [reply_stop hne hleaves] at hagain
        cases hagain
      | ok leaves =>
        refine ⟨leaves, rfl, (h.root_iff hsha hhas hclosed hleaves
          (hfree e leaves hhas hsome hbucket hleaves)).mp ?_⟩
        rw [reply_list hhas hne hleaves] at hagain
        by_contra hroot
        rw [if_neg fun hboth => hroot hboth.1] at hagain
        cases hagain
    · rintro ⟨leaves, hleaves, hsame⟩
      by_contra hlist
      obtain ⟨⟨text, htext⟩, -⟩ := hfixed.other r e rfl hhas fun hrepeats => hlist hrepeats.1
      have hroot := (h.root_iff hsha hhas hclosed hleaves
        (hfree e leaves hhas hsome hbucket hleaves)).mpr hsame
      rw [reply_list hhas hne hleaves, if_pos ⟨hroot, hbucket.symm⟩] at htext
      cases htext

/-- A steady call leaves the poll fixed. -/
theorem Inv.fixed (hsha : ∀ b, (W.sha256 b).length = 32) (h : s.Inv W)
    (hfree : s.NoCollision W (.registerPoll r)) (hsteady : s.Steady W (.registerPoll r)) :
    s.Fixed E W (.registerPoll r) where
  kept := (h.step (.registerPoll r)).2
  again := by
    rintro _ e ⟨⟩ hhas ⟨hlist, hbucket⟩
    by_cases hopen : r.members = []
    · have hnil : e.poll.members = [] := by
        rw [hopen, List.map_nil] at hlist
        exact List.map_eq_nil_iff.mp hlist.symm
      rw [reply_open hhas hopen, if_pos ⟨h.openPoll _ e hhas hnil, hbucket.symm⟩]
    · have hclosed : e.poll.members ≠ [] := by
        intro hnil
        rw [hnil, List.map_nil, List.map_eq_nil_iff] at hlist
        exact hopen hlist
      have hsome := (h.closed_iff hhas).mpr hclosed
      obtain ⟨leaves, hleaves, hsame⟩ := ((hsteady e hhas hopen).2 hsome hbucket).mp hlist
      have hroot := (h.root_iff hsha hhas hclosed hleaves
        (hfree e leaves hhas hsome hbucket hleaves)).mpr hsame
      rw [reply_list hhas hopen hleaves, if_pos ⟨hroot, hbucket.symm⟩]
  other := by
    rintro _ e ⟨⟩ hhas hother
    have hstay := registerPollRoot_of_has (W := W) hhas
    refine ⟨?_, by rw [PollTrace.step]; exact hstay.1⟩
    by_cases hopen : r.members = []
    · rw [reply_open hhas hopen]
      refine ⟨listFixed, if_neg fun hboth => hother ⟨?_, hboth.2.symm⟩⟩
      have hnil : e.poll.members = [] := by
        by_contra hne
        have hsome := (h.closed_iff hhas).mpr hne
        rw [hboth.1] at hsome
        cases hsome
      rw [hopen, hnil]
    · cases hleaves : memberLeaves s.store.anon r.members with
      | error failure =>
        rw [reply_stop hopen hleaves]
        cases failure with
        | err text => exact ⟨text, rfl⟩
        | panicked => exact absurd hleaves (hsteady e hhas hopen).1
      | ok leaves =>
        rw [reply_list hhas hopen hleaves]
        refine ⟨listFixed, if_neg fun hboth => hother ⟨?_, hboth.2.symm⟩⟩
        have hsome : e.rootHex.isSome = true := by rw [hboth.1]; rfl
        have hsame := (h.root_iff hsha hhas ((h.closed_iff hhas).mp hsome) hleaves
          (hfree e leaves hhas hsome hboth.2.symm hleaves)).mp hboth.1
        exact ((hsteady e hhas hopen).2 hsome hboth.2.symm).mpr ⟨leaves, hleaves, hsame⟩

/-- **A call leaves the polls fixed** exactly when it is steady. -/
theorem Inv.fixed_iff (hsha : ∀ b, (W.sha256 b).length = 32) (h : s.Inv W) (c : PollCall)
    (hfree : s.NoCollision W c) : s.Fixed E W c ↔ s.Steady W c := by
  cases c with
  | registerAnon now reg =>
    refine iff_of_true ⟨(h.step (.registerAnon now reg)).2, ?_, ?_⟩ trivial
    · intro r e hc
      cases hc
    · intro r e hc
      cases hc
  | registerPoll r => exact ⟨h.steady hsha hfree, h.fixed hsha hfree⟩

end Calls

end PollTrace

/-- **The member list of a poll** is fixed by its first registration, call by call of a run from a
new store, exactly when every call is steady. -/
theorem poll_roots_iff {E : Vars} {W : World} (hsha : ∀ b, (W.sha256 b).length = 32)
    (calls : List PollCall)
    (hfree : Along (PollTrace.step E W) (PollTrace.NoCollision W) PollTrace.new calls) :
    Along (PollTrace.step E W) (PollTrace.Fixed E W) PollTrace.new calls ↔
      Along (PollTrace.step E W) (PollTrace.Steady W) PollTrace.new calls := by
  have hiff : Along (PollTrace.step E W)
        (fun s c => PollTrace.NoCollision W s c ∧ PollTrace.Fixed E W s c) PollTrace.new calls ↔
      Along (PollTrace.step E W)
        (fun s c => PollTrace.NoCollision W s c ∧ PollTrace.Steady W s c) PollTrace.new calls :=
    along_iff (fun s c (h : s.Inv W) => and_congr_right fun hfree => h.fixed_iff hsha c hfree)
      (fun s c (h : s.Inv W) _ => (h.step c).1) calls (PollTrace.inv_new W)
  rw [along_and, along_and] at hiff
  exact (and_congr_right_iff.mp hiff) hfree

end TetCore.Tmail

namespace TetCore.Sample

open TetCore.Lib TetCore.Tmail

/-- A poll among three wallets, on a day. -/
def pollOn (day : Nat) (first : Char) : TmailPollRootV1 :=
  ⟨List.replicate 64 'f', [List.replicate 64 first, List.replicate 64 'b', List.replicate 64 'c'],
    day, 1000⟩

/-- Three wallets register, and a poll among them. -/
def pollRegistered : List PollCall :=
  [.registerAnon 0 (registration 'a' '1'), .registerAnon 0 (registration 'b' '2'),
    .registerAnon 0 (registration 'c' '4'), .registerPoll (pollOn 1 'a')]

end TetCore.Sample

namespace TetCore.Tmail

open TetCore.Lib

/-- The list of the poll for another day is refused. -/
theorem poll_roots_two_days :
    Along (PollTrace.step {} (World.sample 0)) (PollTrace.Fixed {} (World.sample 0)) PollTrace.new
      (Sample.pollRegistered ++ [.registerPoll (Sample.pollOn 2 'a')]) := by
  have hall : (((Sample.pollRegistered.take 3).foldl (PollTrace.step {} (World.sample 0))
        PollTrace.new).store.pollRoots.get (List.replicate 64 'f') = none) ∧
      ((Sample.pollRegistered.foldl (PollTrace.step {} (World.sample 0))
        PollTrace.new).store.pollRoots.get (List.replicate 64 'f')).map (fun e => e.poll) =
          some (Sample.pollOn 1 'a') ∧
      memberLeaves (Sample.pollRegistered.foldl (PollTrace.step {} (World.sample 0))
        PollTrace.new).store.anon (Sample.pollOn 2 'a').members ≠ .error .panicked ∧
      trimLower (List.replicate 64 'f') = List.replicate 64 'f' := by
    decide +kernel
  obtain ⟨hnone, hsome, hleaves, hkey⟩ := hall
  have hfirst : ∀ e, ¬((Sample.pollRegistered.take 3).foldl (PollTrace.step {} (World.sample 0))
      PollTrace.new).Has (Sample.pollOn 1 'a') e := by
    intro e h
    have hentry := hnone.symm.trans ((congrArg _ hkey.symm).trans h)
    cases hentry
  have hday : ∀ e, (Sample.pollRegistered.foldl (PollTrace.step {} (World.sample 0))
      PollTrace.new).Has (Sample.pollOn 2 'a') e →
        (Sample.pollOn 2 'a').bucketIndex ≠ e.poll.bucketIndex := by
    intro e h
    rw [(congrArg _ hkey.symm).trans h, Option.map_some, Option.some.injEq] at hsome
    rw [hsome]
    decide
  have hfree : Along (PollTrace.step {} (World.sample 0)) (PollTrace.NoCollision (World.sample 0))
      PollTrace.new (Sample.pollRegistered ++ [.registerPoll (Sample.pollOn 2 'a')]) :=
    ⟨trivial, trivial, trivial, fun e _ h => absurd h (hfirst e),
      fun e _ h _ hbucket => absurd hbucket (hday e h), trivial⟩
  refine (poll_roots_iff (Ledger.sample_sha256_length 0) _ hfree).mpr
    ⟨trivial, trivial, trivial, ?_, ?_, trivial⟩
  · exact fun e h => absurd h (hfirst e)
  · exact fun e h _ => ⟨hleaves, fun _ hbucket => absurd hbucket (hday e h)⟩

/-- A member of the poll registers another commitment, and the poll's own list is refused; another
wallet registers a member's commitment, and a list with it in the member's place is taken for the
poll's own. -/
theorem poll_roots_recommitted :
    ¬Along (PollTrace.step {} (World.sample 0)) (PollTrace.Fixed {} (World.sample 0)) PollTrace.new
      ((Sample.pollRegistered ++ [.registerAnon 86400000 (Sample.registration 'a' '3')]) ++
        [.registerPoll (Sample.pollOn 1 'a')]) ∧
    ¬Along (PollTrace.step {} (World.sample 0)) (PollTrace.Fixed {} (World.sample 0)) PollTrace.new
      ((Sample.pollRegistered ++ [.registerAnon 0 (Sample.registration 'd' '1')]) ++
        [.registerPoll (Sample.pollOn 1 'd')]) := by
  have hall : ∀ c ∈ [(PollCall.registerAnon 86400000 (Sample.registration 'a' '3'), 'a',
        (.error (.err listFixed) : Except PollFailure Bool)),
      (.registerAnon 0 (Sample.registration 'd' '1'), 'd', .ok false)],
      (((Sample.pollRegistered ++ [c.1]).foldl (PollTrace.step {} (World.sample 0))
        PollTrace.new).store.pollRoots.get (trimLower (List.replicate 64 'f'))).map
          (fun e => e.poll) = some (Sample.pollOn 1 'a') ∧
      (((Sample.pollRegistered ++ [c.1]).foldl (PollTrace.step {} (World.sample 0))
        PollTrace.new).store.registerPollRoot (World.sample 0) (Sample.pollOn 1 c.2.1)).1 =
          c.2.2 := by
    decide +kernel
  obtain ⟨hown, hother, -⟩ := List.forall_mem_cons.mp hall |>.imp_right List.forall_mem_cons.mp
  constructor
  · intro h
    obtain ⟨e, hget, hpoll⟩ := Option.map_eq_some_iff.mp hown.1
    have hagain := h.last.again _ e rfl hget ⟨by rw [hpoll], by rw [hpoll]⟩
    cases hown.2.symm.trans hagain
  · intro h
    obtain ⟨e, hget, hpoll⟩ := Option.map_eq_some_iff.mp hother.1
    obtain ⟨⟨text, htext⟩, -⟩ := h.last.other _ e rfl hget fun hrepeats => by
      have hlist := hrepeats.1
      rw [hpoll] at hlist
      exact absurd hlist (by decide)
    cases hother.2.symm.trans htext

end TetCore.Tmail
