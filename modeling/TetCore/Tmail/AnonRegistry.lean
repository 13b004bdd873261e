import TetCore.Ledger.Sample
import TetCore.Lib.Memo
import TetCore.Tmail.Policy

/-!
# The anonymity set of an epoch

The registry of `tmail/store.rs`: one row a wallet, with this node's admission time, from which the
Merkle leaves of an epoch are recomputed, the memo of the epochs' roots, and the acceptance of a
root. A step of a run is one call at the clock of the moment; the clock never goes back.

`register_anon` overwrites a member's row in place with a new admission time, so a re-registration
takes the member's leaf out of every epoch it was already in. `past_epoch_immutable`: in a run where
no registration replaces a member of an epoch that has begun, no epoch that has begun changes its
leaves, the memo answers as a recomputation does, and an accepted root stays accepted while its epoch
is in the window and the bucket bound holds.
-/

namespace TetCore.Tmail

open TetCore.Lib

/-! ## The registry -/

/-- `TmailAnonRegistrationV1`, the part the registry reads. -/
structure TmailAnonRegistrationV1 where
  walletId : Str
  commitmentHex : Str
  registeredAtMs : Nat
  deriving DecidableEq

structure StoredAnonRegistration where
  registration : TmailAnonRegistrationV1
  admittedAtMs : Nat
  deriving DecidableEq

inductive AnonRegisterOutcome where
  | added
  | updated
  | duplicate
  | stale
  | full (max : Nat)
  | updateTooSoon (retryAfterMs : Nat)
  deriving DecidableEq

/-- The registry and the memo of the epochs' roots. -/
structure AnonStore where
  anonRegistry : Tree Str StoredAnonRegistration
  anonRoots : List (Nat × Bytes)

/-- A new database. -/
def AnonStore.new : AnonStore := ⟨Tree.empty, []⟩

/-- `anon_epoch_index`. -/
def Vars.anonEpochIndex (E : Vars) (nowMs : Nat) : Nat := nowMs / E.epochMs

/-- The row `register_anon` writes. -/
def AnonStore.enroll (s : AnonStore) (wallet : Str) (reg : TmailAnonRegistrationV1) (now : Nat) :
    AnonStore :=
  { s with anonRegistry := s.anonRegistry.insert wallet ⟨reg, now⟩ }

/-- `register_anon`. -/
def registerAnon (E : Vars) (now : Nat) (reg : TmailAnonRegistrationV1) (s : AnonStore) :
    Except TmailStoreError AnonRegisterOutcome × AnonStore :=
  let wallet := trimLower reg.walletId
  if !isHex64 wallet then (.error .invalidReceiver, s)
  else
    match s.anonRegistry.get wallet with
    | some prev =>
      if eqIgnoreAsciiCase prev.registration.commitmentHex reg.commitmentHex then
        (.ok .duplicate, s)
      else if prev.registration.registeredAtMs > reg.registeredAtMs then (.ok .stale, s)
      else
        -- the cooldown is on this node's clock
        let elapsed := now - prev.admittedAtMs
        if elapsed < E.updateCooldownMs then
          (.ok (.updateTooSoon (E.updateCooldownMs - elapsed)), s)
        else (.ok .updated, s.enroll wallet reg now)
    | none =>
      if s.anonRegistry.iter.length ≥ E.maxMembers then (.ok (.full E.maxMembers), s)
      else (.ok .added, s.enroll wallet reg now)

/-! ## The tree of an epoch -/

/-- The leaf of a row, if its commitment is 32 bytes of hex. -/
def StoredAnonRegistration.leaf (r : StoredAnonRegistration) : Option Bytes :=
  (hexDecode (trim r.registration.commitmentHex)).filter fun b => b.length == 32

/-- What a row adds to the tree of an epoch: a row admitted during an epoch is in from the next. -/
def leafForEpoch (E : Vars) (epoch : Nat) (r : StoredAnonRegistration) : Option Bytes :=
  if E.anonEpochIndex r.admittedAtMs ≥ epoch then none else r.leaf

/-- `anon_leaves_for_epoch`: by wallet id, ascending. -/
def anonLeavesForEpoch (E : Vars) (epoch : Nat) (s : AnonStore) : List Bytes :=
  s.anonRegistry.iter.filterMap fun r => leafForEpoch E epoch r.2

/-- `tet_anon_merkle_parent_v1`. -/
def merkleParent (W : World) (left right : Bytes) : Bytes :=
  W.sha256 (utf8 "tet-node-v1".toList ++ left ++ right)

/-- `empty_subtree_hashes`, at one depth. -/
def emptySubtreeHash (W : World) : Nat → Bytes
  | 0 => W.sha256 (utf8 "tet-anon-empty-v1".toList)
  | d + 1 => merkleParent W (emptySubtreeHash W d) (emptySubtreeHash W d)

/-- The level above, an odd node paired with the empty subtree. -/
def merkleLevelUp (W : World) (empty : Bytes) : List Bytes → List Bytes
  | [] => []
  | [l] => [merkleParent W l empty]
  | l :: r :: rest => merkleParent W l r :: merkleLevelUp W empty rest

/-- `AnonMerkleTree::build`, its level at one depth. -/
def merkleLevel (W : World) (leaves : List Bytes) : Nat → List Bytes
  | 0 => leaves
  | d + 1 => merkleLevelUp W (emptySubtreeHash W d) (merkleLevel W leaves d)

/-- `AnonMerkleTree::root`, at `TET_ANON_MERKLE_DEPTH`. -/
def merkleRoot (W : World) (leaves : List Bytes) : Bytes :=
  ((merkleLevel W leaves 20).head?).getD (emptySubtreeHash W 20)

/-- `anon_tree_for_epoch(epoch).root()`: the root, recomputed. -/
def anonTreeRoot (E : Vars) (W : World) (s : AnonStore) (epoch : Nat) : Bytes :=
  merkleRoot W (anonLeavesForEpoch E epoch s)

/-- `anon_root_for_epoch`. -/
def anonRootForEpoch (E : Vars) (W : World) (epoch : Nat) (s : AnonStore) : Bytes × AnonStore :=
  let looked := lookUp E.rootCacheCap (anonTreeRoot E W s) epoch s.anonRoots
  (looked.1, { s with anonRoots := looked.2 })

/-! ## Acceptance of a root -/

/-- `ANON_MAX_ROOT_SCAN`. -/
def anonMaxRootScan : Nat := 128

/-- The oldest epoch `accepts_anon_root` looks at. -/
def Vars.oldestEpoch (E : Vars) (now : Nat) : Nat :=
  E.anonEpochIndex now - min ((E.rootWindowMs + E.epochMs - 1) / E.epochMs) anonMaxRootScan

/-- `u64::abs_diff`. -/
def absDiff (a b : Nat) : Nat := (a - b) + (b - a)

/-- The loop of `accepts_anon_root`: `epoch`, then the `span` before it. -/
def scanRoots (E : Vars) (W : World) (root : Bytes) : Nat → Nat → AnonStore → Bool × AnonStore
  | span, epoch, s =>
    let looked := anonRootForEpoch E W epoch s
    if looked.1 = root then (true, looked.2)
    else match span with
      | 0 => (false, looked.2)
      | span + 1 => scanRoots E W root span (epoch - 1) looked.2

/-- `accepts_anon_root`. -/
def acceptsAnonRoot (E : Vars) (W : World) (now : Nat) (root : Bytes) (bucket : Nat)
    (s : AnonStore) : Bool × AnonStore :=
  if absDiff bucket (bucketIndex now) > 1 then (false, s)
  else scanRoots E W root (E.anonEpochIndex now - E.oldestEpoch now) (E.anonEpochIndex now) s

/-! ## Runs -/

/-- The calls that reach the registry or its memo. -/
inductive AnonCall where
  | register (reg : TmailAnonRegistrationV1)
  /-- `anon_root`, and `get_tmail_anon_leaves`, which refuses an epoch in the future. -/
  | root (epoch : Nat)
  | accepts (claimed : Bytes) (bucket : Nat)
  /-- The memo is in memory. -/
  | restart

/-- One call at the clock `now`. -/
def AnonCall.step (E : Vars) (W : World) (now : Nat) (s : AnonStore) : AnonCall → AnonStore
  | .register reg => (registerAnon E now reg s).2
  | .root epoch => if epoch > E.anonEpochIndex now then s else (anonRootForEpoch E W epoch s).2
  | .accepts claimed bucket => (acceptsAnonRoot E W now claimed bucket s).2
  | .restart => { s with anonRoots := [] }

/-- What calls lead to from a store at a clock, each call where `ok` allows it; the clock never goes
back. -/
inductive AnonRun (E : Vars) (W : World) (ok : AnonStore → Nat → AnonCall → Prop) (t₀ : Nat)
    (s₀ : AnonStore) : Nat → AnonStore → Prop where
  | start : AnonRun E W ok t₀ s₀ t₀ s₀
  | step {t : Nat} {s : AnonStore} (now : Nat) (c : AnonCall) (before : AnonRun E W ok t₀ s₀ t s)
      (clock : t ≤ now) (allowed : ok s now c) : AnonRun E W ok t₀ s₀ now (c.step E W now s)

/-- The row is in the tree of the epoch of `now`. -/
def InTree (E : Vars) (now : Nat) (r : StoredAnonRegistration) : Prop :=
  E.anonEpochIndex r.admittedAtMs < E.anonEpochIndex now ∧ r.leaf ≠ none

/-- The registration would replace the row: another commitment, not older, after the cooldown. -/
def Supersedes (E : Vars) (now : Nat) (reg : TmailAnonRegistrationV1)
    (prev : StoredAnonRegistration) : Prop :=
  eqIgnoreAsciiCase prev.registration.commitmentHex reg.commitmentHex = false ∧
    prev.registration.registeredAtMs ≤ reg.registeredAtMs ∧
    E.updateCooldownMs ≤ now - prev.admittedAtMs

/-- No registration replaces the row of a member of the current epoch's tree. -/
def KeepsMembers (E : Vars) (s : AnonStore) (now : Nat) : AnonCall → Prop
  | .register reg => ∀ prev, s.anonRegistry.get (trimLower reg.walletId) = some prev →
      Supersedes E now reg prev → ¬ InTree E now prev
  | _ => True

section Steps

variable {E : Vars} {W : World} {now t : Nat} {s : AnonStore}

/-- What `register_anon` does to the store: nothing, or it writes one row. -/
theorem registerAnon_cases (E : Vars) (now : Nat) (reg : TmailAnonRegistrationV1) (s : AnonStore) :
    (registerAnon E now reg s).2 = s ∨
      (registerAnon E now reg s).2 = s.enroll (trimLower reg.walletId) reg now ∧
        ∀ prev, s.anonRegistry.get (trimLower reg.walletId) = some prev →
          Supersedes E now reg prev := by
  unfold registerAnon
  by_cases hhex : (!isHex64 (trimLower reg.walletId)) = true
  · exact Or.inl (by rw [if_pos hhex])
  rw [if_neg hhex]
  cases hget : s.anonRegistry.get (trimLower reg.walletId) with
  | none =>
    simp only
    by_cases hfull : s.anonRegistry.iter.length ≥ E.maxMembers
    · exact Or.inl (by rw [if_pos hfull])
    · exact Or.inr ⟨by rw [if_neg hfull], fun prev h => by cases h⟩
  | some prev =>
    simp only
    by_cases hdup : eqIgnoreAsciiCase prev.registration.commitmentHex reg.commitmentHex = true
    · exact Or.inl (by rw [if_pos hdup])
    by_cases hstale : prev.registration.registeredAtMs > reg.registeredAtMs
    · exact Or.inl (by rw [if_neg hdup, if_pos hstale])
    by_cases hsoon : now - prev.admittedAtMs < E.updateCooldownMs
    · exact Or.inl (by rw [if_neg hdup, if_neg hstale, if_pos hsoon])
    · refine Or.inr ⟨by rw [if_neg hdup, if_neg hstale, if_neg hsoon], ?_⟩
      intro prev' h
      cases h
      exact ⟨Bool.not_eq_true _ ▸ hdup, Nat.le_of_not_lt hstale, Nat.le_of_not_lt hsoon⟩

/-- A row written now is in no tree of an epoch that has begun. -/
theorem leaves_enroll {wallet : Str} {reg : TmailAnonRegistrationV1} {e : Nat}
    (he : e ≤ E.anonEpochIndex now)
    (hprev : ∀ prev, s.anonRegistry.get wallet = some prev → ¬ InTree E now prev) :
    anonLeavesForEpoch E e (s.enroll wallet reg now) = anonLeavesForEpoch E e s := by
  unfold anonLeavesForEpoch
  refine Tree.filterMap_iter_congr (f := fun _ r => leafForEpoch E e r) ?_
  intro k
  by_cases hk : wallet = k
  · subst hk
    show ((s.anonRegistry.insert wallet ⟨reg, now⟩).get wallet).bind _ = _
    rw [Tree.get_insert_self]
    have hnew : leafForEpoch E e ⟨reg, now⟩ = none := if_pos he
    show leafForEpoch E e ⟨reg, now⟩ = _
    rw [hnew]
    cases hget : s.anonRegistry.get wallet with
    | none => rfl
    | some prev =>
      show none = leafForEpoch E e prev
      unfold leafForEpoch
      by_cases hin : E.anonEpochIndex prev.admittedAtMs ≥ e
      · rw [if_pos hin]
      · rw [if_neg hin]
        by_contra hleaf
        exact hprev prev hget ⟨by omega, Ne.symm hleaf⟩
  · show ((s.anonRegistry.insert wallet ⟨reg, now⟩).get k).bind _ = _
    rw [Tree.get_insert_ne hk]

/-- A registration that replaces no member changes no epoch that has begun. -/
theorem leaves_registerAnon {reg : TmailAnonRegistrationV1} {e : Nat}
    (he : e ≤ E.anonEpochIndex now) (h : KeepsMembers E s now (.register reg)) :
    anonLeavesForEpoch E e (registerAnon E now reg s).2 = anonLeavesForEpoch E e s := by
  rcases registerAnon_cases E now reg s with heq | ⟨heq, hsup⟩
  · rw [heq]
  · rw [heq]
    exact leaves_enroll he fun prev hprev => h prev hprev (hsup prev hprev)

/-- The memo holds roots of epochs that have begun, as a recomputation gives them. -/
def MemoSound (E : Vars) (W : World) (now : Nat) (s : AnonStore) : Prop :=
  Sound (anonTreeRoot E W s) (· ≤ E.anonEpochIndex now) s.anonRoots

theorem MemoSound.rootForEpoch {epoch : Nat} (h : MemoSound E W now s)
    (he : epoch ≤ E.anonEpochIndex now) : MemoSound E W now (anonRootForEpoch E W epoch s).2 :=
  Sound.lookUp h he

/-- `anon_root_for_epoch` is a recomputation. -/
theorem MemoSound.rootForEpoch_eq (h : MemoSound E W now s) (epoch : Nat) :
    (anonRootForEpoch E W epoch s).1 = anonTreeRoot E W s epoch :=
  Sound.lookUp_eq h _ epoch

/-- What the loop of `accepts_anon_root` does: it looks roots up, and finds the claimed one if an
epoch of the span has it. -/
theorem scanRoots_spec (claimed : Bytes) : ∀ (span epoch : Nat) {s : AnonStore},
    MemoSound E W now s → epoch ≤ E.anonEpochIndex now → span ≤ epoch →
    (scanRoots E W claimed span epoch s).2.anonRegistry = s.anonRegistry ∧
      MemoSound E W now (scanRoots E W claimed span epoch s).2 ∧
      ((scanRoots E W claimed span epoch s).1 = true ↔
        ∃ e, epoch - span ≤ e ∧ e ≤ epoch ∧ anonTreeRoot E W s e = claimed) := by
  intro span
  induction span with
  | zero =>
    intro epoch s h he _
    have heq := h.rootForEpoch_eq epoch
    have hafter := h.rootForEpoch he
    unfold scanRoots
    by_cases hroot : (anonRootForEpoch E W epoch s).1 = claimed
    · rw [if_pos hroot]
      exact ⟨rfl, hafter, fun _ => ⟨epoch, by omega, Nat.le_refl _, heq ▸ hroot⟩, fun _ => rfl⟩
    · rw [if_neg hroot]
      refine ⟨rfl, hafter, ?_⟩
      constructor
      · intro hf
        exact absurd hf Bool.false_ne_true
      · rintro ⟨e, hlo, hhi, he'⟩
        have hee : e = epoch := by omega
        rw [hee] at he'
        exact absurd (heq.trans he') hroot
  | succ span ih =>
    intro epoch s h he hspan
    have heq := h.rootForEpoch_eq epoch
    have hafter := h.rootForEpoch he
    unfold scanRoots
    by_cases hroot : (anonRootForEpoch E W epoch s).1 = claimed
    · rw [if_pos hroot]
      exact ⟨rfl, hafter, fun _ => ⟨epoch, by omega, Nat.le_refl _, heq ▸ hroot⟩, fun _ => rfl⟩
    · rw [if_neg hroot]
      obtain ⟨hreg, hmemo, hiff⟩ := ih (epoch - 1) hafter (by omega) (by omega)
      refine ⟨hreg, hmemo, hiff.trans ?_⟩
      constructor
      · rintro ⟨e, hlo, hhi, he'⟩
        exact ⟨e, by omega, by omega, he'⟩
      · rintro ⟨e, hlo, hhi, he'⟩
        refine ⟨e, by omega, ?_, he'⟩
        -- the epoch just looked at has another root
        have hne : e ≠ epoch := by
          intro hee
          rw [hee] at he'
          exact hroot (heq.trans he')
        omega

/-- `accepts_anon_root`: the bucket is within a day and an epoch of the window has the root. -/
theorem acceptsAnonRoot_iff {claimed : Bytes} {bucket : Nat} (h : MemoSound E W now s) :
    (acceptsAnonRoot E W now claimed bucket s).1 = true ↔
      absDiff bucket (bucketIndex now) ≤ 1 ∧
        ∃ e, E.oldestEpoch now ≤ e ∧ e ≤ E.anonEpochIndex now ∧ anonTreeRoot E W s e = claimed := by
  unfold acceptsAnonRoot
  by_cases hb : absDiff bucket (bucketIndex now) > 1
  · rw [if_pos hb]
    constructor
    · intro hf
      exact absurd hf Bool.false_ne_true
    · intro hf
      exact absurd hb (Nat.not_lt.mpr hf.1)
  · rw [if_neg hb]
    have hspec := scanRoots_spec claimed (E.anonEpochIndex now - E.oldestEpoch now)
      (E.anonEpochIndex now) h (Nat.le_refl _) (Nat.sub_le _ _)
    have hold : E.oldestEpoch now ≤ E.anonEpochIndex now := Nat.sub_le _ _
    have hfrom : E.anonEpochIndex now - (E.anonEpochIndex now - E.oldestEpoch now) =
        E.oldestEpoch now := by omega
    rw [hfrom] at hspec
    exact hspec.2.2.trans ⟨fun hf => ⟨Nat.not_lt.mp hb, hf⟩, fun hf => hf.2⟩

theorem acceptsAnonRoot_store (claimed : Bytes) (bucket : Nat) (h : MemoSound E W now s) :
    (acceptsAnonRoot E W now claimed bucket s).2.anonRegistry = s.anonRegistry ∧
      MemoSound E W now (acceptsAnonRoot E W now claimed bucket s).2 := by
  unfold acceptsAnonRoot
  by_cases hb : absDiff bucket (bucketIndex now) > 1
  · rw [if_pos hb]
    exact ⟨rfl, h⟩
  · rw [if_neg hb]
    have hspec := scanRoots_spec claimed (E.anonEpochIndex now - E.oldestEpoch now)
      (E.anonEpochIndex now) h (Nat.le_refl _) (Nat.sub_le _ _)
    exact ⟨hspec.1, hspec.2.1⟩

/-- The memo stays sound when the clock moves on and the begun epochs keep their leaves. -/
theorem MemoSound.congr {s' : AnonStore} (h : MemoSound E W t s) (ht : t ≤ now)
    (hroots : s'.anonRoots = s.anonRoots)
    (hleaves : ∀ e ≤ E.anonEpochIndex t, anonLeavesForEpoch E e s' = anonLeavesForEpoch E e s) :
    MemoSound E W now s' := by
  unfold MemoSound
  rw [hroots]
  refine Sound.congr h (fun e he => Nat.le_trans he (Nat.div_le_div_right ht)) ?_
  intro e he
  unfold anonTreeRoot
  rw [hleaves e he]

theorem leaves_of_registry {s' : AnonStore} (h : s'.anonRegistry = s.anonRegistry) (e : Nat) :
    anonLeavesForEpoch E e s' = anonLeavesForEpoch E e s := by
  unfold anonLeavesForEpoch
  rw [h]

/-- One call that replaces no member: the begun epochs keep their leaves and the memo stays sound. -/
theorem AnonCall.step_spec {c : AnonCall} (h : MemoSound E W now s) (hc : KeepsMembers E s now c) :
    (∀ e ≤ E.anonEpochIndex now,
        anonLeavesForEpoch E e (c.step E W now s) = anonLeavesForEpoch E e s) ∧
      MemoSound E W now (c.step E W now s) := by
  cases c with
  | register reg =>
    have hleaves : ∀ e ≤ E.anonEpochIndex now,
        anonLeavesForEpoch E e (registerAnon E now reg s).2 = anonLeavesForEpoch E e s :=
      fun e he => leaves_registerAnon he hc
    refine ⟨hleaves, h.congr (Nat.le_refl _) ?_ hleaves⟩
    show (registerAnon E now reg s).2.anonRoots = s.anonRoots
    rcases registerAnon_cases E now reg s with heq | ⟨heq, -⟩
    · rw [heq]
    · rw [heq]
      rfl
  | root epoch =>
    unfold AnonCall.step
    by_cases hfuture : epoch > E.anonEpochIndex now
    · simp only [if_pos hfuture]
      exact ⟨fun _ _ => trivial, h⟩
    · simp only [if_neg hfuture]
      exact ⟨fun e _ => leaves_of_registry rfl e, h.rootForEpoch (Nat.not_lt.mp hfuture)⟩
  | accepts claimed bucket =>
    have hspec := acceptsAnonRoot_store claimed bucket h
    exact ⟨fun e _ => leaves_of_registry hspec.1 e, hspec.2⟩
  | restart => exact ⟨fun e _ => leaves_of_registry rfl e, Sound.nil _ _⟩

/-- A run in which no registration replaces a member. -/
theorem AnonRun.spec {t₀ : Nat} {s₀ : AnonStore} (h₀ : MemoSound E W t₀ s₀)
    (h : AnonRun E W (KeepsMembers E) t₀ s₀ t s) :
    t₀ ≤ t ∧ MemoSound E W t s ∧
      ∀ e ≤ E.anonEpochIndex t₀, anonLeavesForEpoch E e s = anonLeavesForEpoch E e s₀ := by
  induction h with
  | start => exact ⟨Nat.le_refl _, h₀, fun _ _ => rfl⟩
  | @step t s now c _ clock allowed ih =>
    obtain ⟨ht, hmemo, hleaves⟩ := ih
    have hnow := hmemo.congr clock rfl fun _ _ => rfl
    obtain ⟨hstep, hafter⟩ := AnonCall.step_spec (c := c) hnow allowed
    refine ⟨Nat.le_trans ht clock, hafter, fun e he => ?_⟩
    rw [hstep e (Nat.le_trans he (Nat.div_le_div_right (Nat.le_trans ht clock))), hleaves e he]

end Steps

end TetCore.Tmail

namespace TetCore.Sample

open TetCore.Lib TetCore.Tmail

/-- The registration of a wallet whose 64 digits are `w`, of a commitment whose digits are `c`. -/
def registration (w c : Char) : TmailAnonRegistrationV1 :=
  ⟨List.replicate 64 w, List.replicate 64 c, 1000⟩

/-- The store after one registration, at the clock `0`. -/
def oneMember : AnonStore :=
  (AnonCall.register (registration 'a' '1')).step {} (World.sample 0) 0 AnonStore.new

/-- A second wallet registers in epoch `1`. -/
def twoMembers : AnonStore :=
  (AnonCall.register (registration 'b' '2')).step {} (World.sample 0) 90000 oneMember

/-- The member registers another commitment after a day. -/
def replacedMember : AnonStore :=
  (AnonCall.register (registration 'a' '3')).step {} (World.sample 0) 86400000 oneMember

end TetCore.Sample

namespace TetCore.Tmail

open TetCore.Lib

/-- **A begun epoch keeps its anonymity set** in every run in which no registration replaces a member
of the current epoch's tree. From any state such a run reaches: whatever follows leaves the leaves of
the epochs begun so far as they are; the memo answers as a recomputation does; and a root accepted for
a bucket is the root of an epoch of the window, and stays accepted while that epoch is in the window
and the bucket within a day. -/
theorem past_epoch_immutable {E : Vars} {W : World} {t now t' : Nat} {s s' : AnonStore}
    (hs : AnonRun E W (KeepsMembers E) 0 AnonStore.new t s) (ht : t ≤ now)
    (hs' : AnonRun E W (KeepsMembers E) now s t' s') :
    (∀ e ≤ E.anonEpochIndex now, anonLeavesForEpoch E e s' = anonLeavesForEpoch E e s) ∧
    (∀ e, (anonRootForEpoch E W e s').1 = anonTreeRoot E W s' e) ∧
    ∀ claimed bucket, (acceptsAnonRoot E W now claimed bucket s).1 = true →
      ∃ e, E.oldestEpoch now ≤ e ∧ e ≤ E.anonEpochIndex now ∧ anonTreeRoot E W s e = claimed ∧
        ∀ now', t' ≤ now' → E.oldestEpoch now' ≤ e → absDiff bucket (bucketIndex now') ≤ 1 →
          (acceptsAnonRoot E W now' claimed bucket s').1 = true := by
  have hnew : MemoSound E W 0 AnonStore.new := Sound.nil _ _
  have hmemo : MemoSound E W now s := (hs.spec hnew).2.1.congr ht rfl fun _ _ => rfl
  obtain ⟨hclock, hmemo', hleaves⟩ := hs'.spec hmemo
  refine ⟨hleaves, fun e => hmemo'.rootForEpoch_eq e, ?_⟩
  intro claimed bucket hacc
  obtain ⟨-, e, hlo, hhi, hroot⟩ := (acceptsAnonRoot_iff hmemo).mp hacc
  refine ⟨e, hlo, hhi, hroot, fun now' hnow' hwin hbucket => ?_⟩
  refine (acceptsAnonRoot_iff (hmemo'.congr hnow' rfl fun _ _ => rfl)).mpr ⟨hbucket, e, hwin, ?_, ?_⟩
  · exact Nat.le_trans hhi (Nat.div_le_div_right (Nat.le_trans hclock hnow'))
  · rw [← hroot]
    unfold anonTreeRoot
    rw [hleaves e hhi]

/-- A second member joins in epoch `1`, whose only leaf stays the first's. -/
theorem past_epoch_immutable_joined :
    anonLeavesForEpoch {} 1 Sample.oneMember = [List.replicate 32 0x11] ∧
      anonLeavesForEpoch {} 1 Sample.twoMembers = anonLeavesForEpoch {} 1 Sample.oneMember := by
  have hfirst : AnonRun {} (World.sample 0) (KeepsMembers {}) 0 AnonStore.new 0 Sample.oneMember :=
    AnonRun.step 0 _ AnonRun.start (Nat.le_refl 0) fun _ h => by cases h
  have hfree : Sample.oneMember.anonRegistry.get (trimLower (List.replicate 64 'b')) = none := by
    decide +kernel
  have hsecond : AnonRun {} (World.sample 0) (KeepsMembers {}) 60000 Sample.oneMember 90000
      Sample.twoMembers :=
    AnonRun.step 90000 _ AnonRun.start (by decide) fun prev h => by cases hfree.symm.trans h
  exact ⟨by decide +kernel,
    (past_epoch_immutable hfirst (by decide : 0 ≤ 60000) hsecond).1 1 (by decide)⟩

/-- Without the condition a begun epoch loses a member who registers another commitment. -/
theorem past_epoch_changes :
    ¬ ∀ (E : Vars) (W : World) (t now t' : Nat) (s s' : AnonStore),
      AnonRun E W (fun _ _ _ => True) 0 AnonStore.new t s → t ≤ now →
      AnonRun E W (fun _ _ _ => True) now s t' s' →
      ∀ e ≤ E.anonEpochIndex now, anonLeavesForEpoch E e s' = anonLeavesForEpoch E e s := by
  intro h
  have hfirst : AnonRun {} (World.sample 0) (fun _ _ _ => True) 0 AnonStore.new 0 Sample.oneMember :=
    AnonRun.step 0 _ AnonRun.start (Nat.le_refl 0) trivial
  have hagain : AnonRun {} (World.sample 0) (fun _ _ _ => True) 86400000 Sample.oneMember 86400000
      Sample.replacedMember :=
    AnonRun.step 86400000 _ AnonRun.start (Nat.le_refl _) trivial
  have hsame := h {} (World.sample 0) 0 86400000 86400000 _ _ hfirst (by decide) hagain 1 (by decide)
  have hdiff : anonLeavesForEpoch {} 1 Sample.replacedMember ≠
      anonLeavesForEpoch {} 1 Sample.oneMember := by decide +kernel
  exact hdiff hsame

end TetCore.Tmail
