import TetCore.Lib.Encoding
import TetCore.Tmail.Membership

/-!
# The path a member is given

`anon_leaf_index_for_epoch` counts the rows of an epoch before a wallet's, and `anon_leaves_for_epoch`
lists their commitments; the first does not look at the commitments, the second passes over one that
is not 32 bytes of hex. A verified registration has a commitment that is, so the two agree.

* `leafIndexLoop_eq_some`: the row at an index, and those counted before it.
* `member_path`: the wallet's commitment stands at its index, and its path leads to the epoch's root.
-/

namespace TetCore.Tmail

open TetCore.Lib

/-- The rows of an epoch: what was admitted before it. -/
def InEpoch (E : Vars) (epoch : Nat) (row : StoredAnonRegistration) : Prop :=
  E.anonEpochIndex row.admittedAtMs < epoch

instance (E : Vars) (epoch : Nat) : DecidablePred (InEpoch E epoch) :=
  fun _ => inferInstanceAs (Decidable (_ < _))

/-- The loop of `anon_leaf_index_for_epoch`, `i` rows counted. -/
def leafIndexLoop (E : Vars) (target : Str) (epoch : Nat) :
    Nat → List (Str × StoredAnonRegistration) → Option Nat
  | _, [] => none
  | i, r :: rest =>
    if E.anonEpochIndex r.2.admittedAtMs ≥ epoch then leafIndexLoop E target epoch i rest
    else if r.1 = target then some i
    else leafIndexLoop E target epoch (i + 1) rest

/-- `anon_leaf_index_for_epoch`. -/
def anonLeafIndexForEpoch (E : Vars) (walletId : Str) (epoch : Nat) (s : AnonStore) : Option Nat :=
  leafIndexLoop E (trimLower walletId) epoch 0 s.anonRegistry.iter

/-- The commitments that `verify_tmail_anon_registration_v1` lets in. -/
def RegistrationsVerified (s : AnonStore) : Prop :=
  ∀ w row, s.anonRegistry.get w = some row →
    isHex64 (trim row.registration.commitmentHex) = true

section Rows

variable {E : Vars} {target : Str} {epoch i j : Nat} {rows : List (Str × StoredAnonRegistration)}

/-- **The row at an index**, after as many rows of the epoch. -/
theorem leafIndexLoop_eq_some (h : leafIndexLoop E target epoch i rows = some j) :
    ∃ before row after, rows = before ++ (target, row) :: after ∧ InEpoch E epoch row ∧
      j = i + before.countP fun r => decide (InEpoch E epoch r.2) := by
  induction rows generalizing i with
  | nil => cases h
  | cons r rest ih =>
    rw [leafIndexLoop] at h
    by_cases hlate : E.anonEpochIndex r.2.admittedAtMs ≥ epoch
    · rw [if_pos hlate] at h
      obtain ⟨before, row, after, rfl, hin, rfl⟩ := ih h
      have hout : ¬InEpoch E epoch r.2 := Nat.not_lt.mpr hlate
      have hcount : (r :: before).countP (fun r => decide (InEpoch E epoch r.2)) =
          before.countP fun r => decide (InEpoch E epoch r.2) :=
        List.countP_cons_of_neg (by simpa using hout)
      exact ⟨r :: before, row, after, rfl, hin, by rw [hcount]⟩
    · rw [if_neg hlate] at h
      have hr : InEpoch E epoch r.2 := Nat.lt_of_not_le hlate
      by_cases hself : r.1 = target
      · rw [if_pos hself, Option.some.injEq] at h
        exact ⟨[], r.2, rest, by rw [← hself]; rfl, hr, h.symm⟩
      · rw [if_neg hself] at h
        obtain ⟨before, row, after, rfl, hin, rfl⟩ := ih h
        refine ⟨r :: before, row, after, rfl, hin, ?_⟩
        have hcount : (r :: before).countP (fun r => decide (InEpoch E epoch r.2)) =
            before.countP (fun r => decide (InEpoch E epoch r.2)) + 1 :=
          List.countP_cons_of_pos (decide_eq_true hr)
        omega

/-- A verified commitment is a leaf. -/
theorem leaf_of_verified {row : StoredAnonRegistration}
    (h : isHex64 (trim row.registration.commitmentHex) = true) :
    ∃ leaf, hexDecode (trim row.registration.commitmentHex) = some leaf ∧ row.leaf = some leaf := by
  obtain ⟨leaf, hleaf, hlen⟩ := exists_hexDecode_of_isHex64 h
  refine ⟨leaf, hleaf, ?_⟩
  rw [StoredAnonRegistration.leaf, hleaf, Option.filter_some, hlen]
  rfl

/-- Of verified rows, those of the epoch and no others are leaves. -/
theorem length_leaves (h : ∀ r ∈ rows, isHex64 (trim r.2.registration.commitmentHex) = true) :
    (rows.filterMap fun r => leafForEpoch E epoch r.2).length =
      rows.countP fun r => decide (InEpoch E epoch r.2) := by
  rw [List.length_filterMap_eq_countP]
  refine List.countP_congr fun r hr => ?_
  obtain ⟨leaf, -, hleaf⟩ := leaf_of_verified (h r hr)
  rw [leafForEpoch, hleaf, decide_eq_true_eq]
  by_cases hlate : E.anonEpochIndex r.2.admittedAtMs ≥ epoch
  · rw [if_pos hlate]
    exact iff_of_false Bool.false_ne_true (Nat.not_lt.mpr hlate)
  · rw [if_neg hlate]
    exact iff_of_true rfl (Nat.lt_of_not_le hlate)

end Rows

/-- The memo has nothing on the epoch, or the root of this registry. -/
def MemoOf (E : Vars) (W : World) (epoch : Nat) (s : AnonStore) : Prop :=
  ∀ r ∈ s.anonRoots, r.1 = epoch → r.2 = anonTreeRoot E W s epoch

theorem MemoOf.root {E : Vars} {W : World} {epoch : Nat} {s : AnonStore} (h : MemoOf E W epoch s) :
    (anonRootForEpoch E W epoch s).1 = anonTreeRoot E W s epoch :=
  lookUp_eq_of_row h _

/-- **The path a member is given** leads from the wallet's commitment, which stands at the wallet's
index, to the root of the epoch. -/
theorem member_path (E : Vars) (W : World) {s : AnonStore} (hverified : RegistrationsVerified s)
    (hcap : s.anonRegistry.iter.length ≤ 2 ^ merkleDepth) {epoch : Nat} (hmemo : MemoOf E W epoch s)
    {walletId : Str} {i : Nat} (hindex : anonLeafIndexForEpoch E walletId epoch s = some i) :
    ∃ row commitment siblings, s.anonRegistry.get (trimLower walletId) = some row ∧
      hexDecode (trim row.registration.commitmentHex) = some commitment ∧
      (anonLeavesForEpoch E epoch s)[i]? = some commitment ∧
      merklePath W (anonLeavesForEpoch E epoch s) i = some siblings ∧
      merkleRootFromPath W commitment (UInt32.ofNat i) siblings =
        (anonRootForEpoch E W epoch s).1 := by
  obtain ⟨before, row, after, hrows, hin, hi⟩ := leafIndexLoop_eq_some hindex
  rw [Nat.zero_add] at hi
  have hmem : ∀ r ∈ s.anonRegistry.iter, isHex64 (trim r.2.registration.commitmentHex) = true :=
    fun r hr => hverified r.1 r.2 (Tree.mem_iter.mp hr)
  have hrow : (trimLower walletId, row) ∈ s.anonRegistry.iter := by
    rw [hrows]
    exact List.mem_append_right _ List.mem_cons_self
  obtain ⟨commitment, hdecode, hleaf⟩ := leaf_of_verified (hmem _ hrow)
  have hself : leafForEpoch E epoch row = some commitment := by
    rw [leafForEpoch, if_neg (Nat.not_le_of_lt hin), hleaf]
  -- as many leaves stand before the wallet's as rows were counted
  have hsplit : anonLeavesForEpoch E epoch s =
      (before.filterMap fun r => leafForEpoch E epoch r.2) ++
        commitment :: after.filterMap fun r => leafForEpoch E epoch r.2 := by
    rw [anonLeavesForEpoch, hrows, List.filterMap_append]
    exact congrArg _ (List.filterMap_cons_some hself)
  have hbefore : (before.filterMap fun r => leafForEpoch E epoch r.2).length = i := by
    rw [length_leaves fun r hr => hmem r (by rw [hrows]; exact List.mem_append_left _ hr), hi]
  have hget : (anonLeavesForEpoch E epoch s)[i]? = some commitment := by
    rw [hsplit, List.getElem?_append_right (le_of_eq hbefore), hbefore, Nat.sub_self,
      List.getElem?_cons_zero]
  obtain ⟨hlt, hat⟩ := List.getElem?_eq_some_iff.mp hget
  have hle : (anonLeavesForEpoch E epoch s).length ≤ s.anonRegistry.iter.length :=
    List.length_filterMap_le _ _
  refine ⟨row, commitment, _, Tree.mem_iter.mp hrow, hdecode, hget, merklePath_eq hlt, ?_⟩
  rw [hmemo.root, anonTreeRoot, ← hat]
  exact merkleRootFromPath_leaf (hle.trans hcap) hlt

/-- The second of two members. -/
theorem member_path_second : ∃ row commitment siblings,
    Sample.twoMembers.anonRegistry.get (trimLower (List.replicate 64 'B')) = some row ∧
      hexDecode (trim row.registration.commitmentHex) = some commitment ∧
      (anonLeavesForEpoch {} 2 Sample.twoMembers)[1]? = some commitment ∧
      merklePath (World.sample 0) (anonLeavesForEpoch {} 2 Sample.twoMembers) 1 = some siblings ∧
      merkleRootFromPath (World.sample 0) commitment (UInt32.ofNat 1) siblings =
        (anonRootForEpoch {} (World.sample 0) 2 Sample.twoMembers).1 := by
  have hall : (Sample.twoMembers.anonRegistry.iter.all fun r =>
        isHex64 (trim r.2.registration.commitmentHex)) = true ∧
      Sample.twoMembers.anonRegistry.iter.length ≤ 2 ^ merkleDepth ∧
      anonLeafIndexForEpoch {} (List.replicate 64 'B') 2 Sample.twoMembers = some 1 := by
    decide +kernel
  obtain ⟨hverified, hcap, hindex⟩ := hall
  refine member_path {} (World.sample 0) (fun w row hrow => ?_) hcap (fun r hr => ?_) hindex
  · exact List.all_eq_true.mp hverified (w, row) (Tree.mem_iter.mpr hrow)
  · exact absurd hr List.not_mem_nil

end TetCore.Tmail
