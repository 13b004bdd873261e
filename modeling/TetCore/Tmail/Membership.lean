import Mathlib.Data.List.Nodup
import TetCore.Lib.Merkle
import TetCore.Tmail.AnonRegistry

/-!
# Membership proofs

The tree of an anonymity set (`AnonMerkleTree`, `tmail/anon.rs`) as a prover and a verifier use it:
the authentication path of a member, the root recomputed from a path (`nexus-protocol`), and the
journal of `guest_tmail_anon_membership_v1`, which exists only for a path of full depth.

The sparse tree is a full one (`merkleNode_isTree`): past the end of a level stands the empty subtree
of that depth. `membership_proof`: the path of a member leads to the root, and a journal with the root
comes from the secret of the leaf its index names, when SHA-256 has no collision among what the tree
and the proof hash.
-/

namespace TetCore.Tmail

open TetCore.Lib

/-- `TET_ANON_MERKLE_DEPTH`. -/
def merkleDepth : Nat := 20

/-- `AnonMerkleTree::path`. -/
def merklePath (W : World) (leaves : List Bytes) (index : Nat) : Option (List Bytes) :=
  if index ≥ leaves.length then none
  else some ((List.range merkleDepth).map fun d =>
    (merkleLevel W leaves d)[(index >>> d) ^^^ 1]?.getD (emptySubtreeHash W d))

/-- `tet_anon_commitment_v1`. -/
def anonCommitment (W : World) (seed : Bytes) : Bytes := W.sha256 (utf8 "tet-anon-v1".toList ++ seed)

/-- `tet_anon_nullifier_v1`. -/
def anonNullifier (W : World) (seed receiver : Bytes) (bucket : Nat) : Bytes :=
  W.sha256 (utf8 "tet-null-v1".toList ++ seed ++ receiver ++ leBytes 8 bucket)

/-- The loop of `tet_anon_merkle_root_from_path_v1`, from depth `i`. -/
def rootFromPathLoop (W : World) (index : UInt32) : Nat → Bytes → List Bytes → Bytes
  | _, cur, [] => cur
  | i, cur, sibling :: siblings =>
    let bit := (index >>> UInt32.ofNat i) &&& 1
    rootFromPathLoop W index (i + 1)
      (if bit = 0 then merkleParent W cur sibling else merkleParent W sibling cur) siblings

/-- `tet_anon_merkle_root_from_path_v1`. -/
def merkleRootFromPath (W : World) (leaf : Bytes) (index : UInt32) (siblings : List Bytes) : Bytes :=
  rootFromPathLoop W index 0 leaf siblings

/-- `TmailAnonMembershipV1`. -/
structure TmailAnonMembershipV1 where
  merkleRoot : Bytes
  nullifier : Bytes
  ephemeralPubkeyBytes : Bytes
  receiverWalletBytes : Bytes
  bucketIndex : Nat
  deriving DecidableEq

/-- `guest_tmail_anon_membership_v1`: the journal it commits, unless its assertion stops it. -/
def guestTmailAnonMembershipV1 (W : World) (secret : Bytes) (merkleIndex : UInt32)
    (siblings : List Bytes) (ephemeral receiver : Bytes) (bucket : Nat) :
    Option TmailAnonMembershipV1 :=
  if siblings.length ≠ merkleDepth then none
  else some ⟨merkleRootFromPath W (anonCommitment W secret) merkleIndex siblings,
    anonNullifier W secret receiver bucket, ephemeral, receiver, bucket⟩

/-! ## The full tree -/

/-- The node at a depth and position, the empty subtree past the end of the level. -/
def merkleNode (W : World) (leaves : List Bytes) (d j : Nat) : Bytes :=
  (merkleLevel W leaves d)[j]?.getD (emptySubtreeHash W d)

variable {W : World} {leaves : List Bytes}

theorem merkleLevelUp_getD (W : World) (empty : Bytes) (l : List Bytes) (j : Nat) :
    (merkleLevelUp W empty l)[j]?.getD (merkleParent W empty empty) =
      merkleParent W (l[2 * j]?.getD empty) (l[2 * j + 1]?.getD empty) := by
  fun_induction merkleLevelUp W empty l generalizing j with
  | case1 => simp
  | case2 l => cases j <;> simp [Nat.mul_add]
  | case3 l r rest ih =>
    cases j with
    | zero => simp
    | succ j =>
      have hdouble : 2 * (j + 1) = 2 * j + 1 + 1 := by omega
      simp only [hdouble, List.getElem?_cons_succ]
      exact ih j

theorem merkleNode_isTree (W : World) (leaves : List Bytes) :
    IsTree (merkleParent W) (merkleNode W leaves) := fun d j =>
  merkleLevelUp_getD W (emptySubtreeHash W d) (merkleLevel W leaves d) j

theorem merkleRoot_eq (W : World) (leaves : List Bytes) :
    merkleRoot W leaves = merkleNode W leaves merkleDepth 0 := by
  simp [merkleRoot, merkleNode, merkleDepth, List.head?_eq_getElem?]

theorem merkleNode_leaf {j : Nat} (h : j < leaves.length) : merkleNode W leaves 0 j = leaves[j] := by
  simp [merkleNode, merkleLevel, h]

theorem merkleNode_past {j : Nat} (h : leaves.length ≤ j) :
    merkleNode W leaves 0 j = W.sha256 (utf8 "tet-anon-empty-v1".toList) := by
  simp [merkleNode, merkleLevel, h, emptySubtreeHash]

/-- `path` has the siblings of the full tree. -/
theorem merklePath_eq {index : Nat} (h : index < leaves.length) :
    merklePath W leaves index = some (authPath (merkleNode W leaves) index merkleDepth) := by
  unfold merklePath authPath
  rw [if_neg (by omega)]
  congr 2
  funext d
  simp [merkleNode, Nat.shiftRight_eq_div_pow]

/-- The bit of the index at a depth. -/
theorem bit_eq_zero_iff (index : UInt32) {i : Nat} (h : i < 32) :
    (index >>> UInt32.ofNat i) &&& 1 = 0 ↔ index.toNat / 2 ^ i % 2 = 0 := by
  rw [← UInt32.toNat_inj]
  simp [Nat.shiftRight_eq_div_pow, Nat.and_one_is_mod, Nat.mod_eq_of_lt h,
    Nat.mod_eq_of_lt (show i < 4294967296 by omega)]

theorem rootFromPathLoop_eq (index : UInt32) (siblings : List Bytes) (i : Nat) (cur : Bytes)
    (h : i + siblings.length ≤ 32) :
    rootFromPathLoop W index i cur siblings =
      foldPath (merkleParent W) cur (index.toNat / 2 ^ i) siblings := by
  induction siblings generalizing i cur with
  | nil => rfl
  | cons sibling siblings ih =>
    simp only [List.length_cons] at h
    unfold rootFromPathLoop foldPath sided
    simp only [bit_eq_zero_iff index (show i < 32 by omega)]
    rw [ih (i + 1) _ (by omega), Nat.div_div_eq_div_mul, ← pow_succ]
    split <;> rfl

/-- `tet_anon_merkle_root_from_path_v1` folds the path. -/
theorem merkleRootFromPath_eq (leaf : Bytes) (index : UInt32) {siblings : List Bytes}
    (h : siblings.length ≤ 32) :
    merkleRootFromPath W leaf index siblings =
      foldPath (merkleParent W) leaf index.toNat siblings := by
  unfold merkleRootFromPath
  rw [rootFromPathLoop_eq index siblings 0 leaf (by omega), pow_zero, Nat.div_one]

/-- The path of a leaf leads to the root. -/
theorem merkleRootFromPath_leaf (hcap : leaves.length ≤ 2 ^ merkleDepth) {i : Nat}
    (h : i < leaves.length) :
    merkleRootFromPath W leaves[i] (UInt32.ofNat i) (authPath (merkleNode W leaves) i merkleDepth) =
      merkleRoot W leaves := by
  have hsmall : i < 2 ^ merkleDepth := Nat.lt_of_lt_of_le h hcap
  have hword : (UInt32.ofNat i).toNat = i := by
    have hpow : 2 ^ merkleDepth = 1048576 := by decide
    simp
    omega
  have hlen : (authPath (merkleNode W leaves) i merkleDepth).length = merkleDepth := by
    simp [authPath]
  rw [merkleRootFromPath_eq _ _ (by rw [hlen]; decide), hword, ← merkleNode_leaf (W := W) h,
    (merkleNode_isTree W leaves).foldPath_authPath, Nat.div_eq_of_lt hsmall, merkleRoot_eq]

/-! ## What is hashed -/

/-- What is hashed for a parent. -/
def parentBytes (p : Bytes × Bytes) : Bytes := utf8 "tet-node-v1".toList ++ p.1 ++ p.2

/-- What is hashed for the tree of `leaves` and for the check of a path from the commitment of
`secret`. -/
inductive Hashed (W : World) (leaves : List Bytes) (secret : Bytes) (index : UInt32)
    (siblings : List Bytes) : Bytes → Prop
  | empty : Hashed W leaves secret index siblings (utf8 "tet-anon-empty-v1".toList)
  | node (d j : Nat) (depth : d < merkleDepth) : Hashed W leaves secret index siblings
      (parentBytes (merkleNode W leaves d (2 * j), merkleNode W leaves d (2 * j + 1)))
  | commitment : Hashed W leaves secret index siblings (utf8 "tet-anon-v1".toList ++ secret)
  | step (p : Bytes × Bytes)
      (onPath : p ∈ pathPairs (merkleParent W) (anonCommitment W secret) index.toNat siblings) :
      Hashed W leaves secret index siblings (parentBytes p)

theorem parentBytes_injective {p q : Bytes × Bytes} (hlen : p.1.length = q.1.length)
    (h : parentBytes p = parentBytes q) : p = q := by
  unfold parentBytes at h
  rw [List.append_assoc, List.append_assoc] at h
  obtain ⟨h1, h2⟩ := List.append_inj (List.append_cancel_left h) hlen
  exact Prod.ext h1 h2

/-- A commitment is hashed from other bytes than an empty slot. -/
theorem commitmentBytes_ne_empty (secret : Bytes) :
    utf8 "tet-anon-v1".toList ++ secret ≠ utf8 "tet-anon-empty-v1".toList := by
  intro h
  have hlen : (utf8 "tet-anon-v1".toList).length = 11 := by decide +kernel
  have htake := congrArg (List.take 11) h
  rw [← hlen, List.take_left, hlen] at htake
  exact absurd htake (by decide +kernel)

theorem merkleNode_length (hleaves : ∀ l ∈ leaves, l.length = 32)
    (hsha : ∀ b, (W.sha256 b).length = 32) (d j : Nat) : (merkleNode W leaves d j).length = 32 := by
  cases d with
  | succ d =>
    rw [merkleNode_isTree W leaves d j]
    exact hsha _
  | zero =>
    by_cases hj : j < leaves.length
    · rw [merkleNode_leaf hj]
      exact hleaves _ (List.getElem_mem hj)
    · rw [merkleNode_past (Nat.le_of_not_lt hj)]
      exact hsha _

/-- **Membership proofs are complete and sound.** In the tree of at most `2^20` leaves of 32 bytes,
the path of a leaf leads from it to the root. When SHA-256 gives 32 bytes and no collision among what
the tree and the check hash, a journal of the guest with that root comes from the secret of the leaf
at the index modulo `2^20`, which is below the number of leaves. -/
theorem membership_proof (W : World) (leaves : List Bytes) (hcap : leaves.length ≤ 2 ^ merkleDepth) :
    (∀ (i : Nat) (h : i < leaves.length), ∃ siblings, merklePath W leaves i = some siblings ∧
      siblings.length = merkleDepth ∧
      merkleRootFromPath W leaves[i] (UInt32.ofNat i) siblings = merkleRoot W leaves) ∧
    ∀ (secret : Bytes) (index : UInt32) (siblings : List Bytes) (ephemeral receiver : Bytes)
      (bucket : Nat) (journal : TmailAnonMembershipV1),
      (∀ l ∈ leaves, l.length = 32) → (∀ s ∈ siblings, s.length = 32) →
      (∀ b, (W.sha256 b).length = 32) →
      Set.InjOn W.sha256 {b | Hashed W leaves secret index siblings b} →
      guestTmailAnonMembershipV1 W secret index siblings ephemeral receiver bucket = some journal →
      journal.merkleRoot = merkleRoot W leaves →
      ∃ h : index.toNat % 2 ^ merkleDepth < leaves.length,
        leaves[index.toNat % 2 ^ merkleDepth] = anonCommitment W secret := by
  have htree := merkleNode_isTree W leaves
  constructor
  · intro i hi
    exact ⟨_, merklePath_eq hi, by simp [authPath], merkleRootFromPath_leaf hcap hi⟩
  · intro secret index siblings ephemeral receiver bucket journal hleaves hsiblings hsha hinj hguest
      hroot
    unfold guestTmailAnonMembershipV1 at hguest
    by_cases hlen : siblings.length ≠ merkleDepth
    · rw [if_pos hlen] at hguest
      cases hguest
    rw [if_neg hlen, Option.some.injEq] at hguest
    subst hguest
    rw [not_not] at hlen
    have hfold : foldPath (merkleParent W) (anonCommitment W secret) index.toNat siblings =
        merkleNode W leaves siblings.length 0 := by
      rw [← merkleRootFromPath_eq _ _ (by rw [hlen]; decide), hlen, ← merkleRoot_eq]
      exact hroot
    have hleaf := htree.leaf_of_foldPath (fun p hp d hd k heq => ?_) hfold
    · rw [Nat.zero_mul, Nat.zero_add, hlen] at hleaf
      by_cases hin : index.toNat % 2 ^ merkleDepth < leaves.length
      · exact ⟨hin, by rw [← merkleNode_leaf (W := W) hin, ← hleaf]⟩
      · rw [merkleNode_past (Nat.le_of_not_lt hin)] at hleaf
        exact absurd (hinj Hashed.commitment Hashed.empty hleaf) (commitmentBytes_ne_empty secret)
    · have hbytes := hinj (Hashed.step p hp) (Hashed.node d k (hlen ▸ hd)) heq
      refine parentBytes_injective ?_ hbytes
      have hparts := pathPairs_forall (P := fun b => b.length = 32) (hsha _) hsiblings
        (fun a b => hsha _) p hp
      rw [hparts.1]
      exact (merkleNode_length hleaves hsha d (2 * k)).symm

end TetCore.Tmail

namespace TetCore.Sample

open TetCore.Lib TetCore.Tmail

/-- A member's secret. -/
def secret : Bytes := List.replicate 32 7

/-- The tree of one member. -/
def soleLeaf : List Bytes := [anonCommitment (World.sample 0) secret]

/-- The path of the one member. -/
def solePath : List Bytes := authPath (merkleNode (World.sample 0) soleLeaf) 0 merkleDepth

/-- What is hashed for the tree of one member. -/
def soleBytes : List Bytes :=
  let W := World.sample 0
  utf8 "tet-anon-empty-v1".toList :: (utf8 "tet-anon-v1".toList ++ secret) ::
    (List.range merkleDepth).flatMap fun d =>
      [parentBytes (merkleNode W soleLeaf d 0, emptySubtreeHash W d),
        parentBytes (emptySubtreeHash W d, emptySubtreeHash W d)]

theorem merkleLevel_sole (d : Nat) :
    (merkleLevel (World.sample 0) soleLeaf d).length = 1 := by
  induction d with
  | zero => rfl
  | succ d ih =>
    obtain ⟨l, hl⟩ := List.length_eq_one_iff.mp ih
    rw [merkleLevel, hl]
    rfl

theorem merkleNode_sole (d : Nat) {j : Nat} (h : 0 < j) :
    merkleNode (World.sample 0) soleLeaf d j = emptySubtreeHash (World.sample 0) d := by
  have hlen := merkleLevel_sole d
  unfold merkleNode
  rw [List.getElem?_eq_none (by omega), Option.getD_none]

theorem node_mem_soleBytes {d : Nat} (hd : d < merkleDepth) (k : Nat) :
    parentBytes (merkleNode (World.sample 0) soleLeaf d (2 * k),
      merkleNode (World.sample 0) soleLeaf d (2 * k + 1)) ∈ soleBytes := by
  refine List.mem_cons_of_mem _ (List.mem_cons_of_mem _ (List.mem_flatMap.mpr
    ⟨d, List.mem_range.mpr hd, ?_⟩))
  rw [merkleNode_sole d (Nat.succ_pos (2 * k))]
  by_cases hk : k = 0
  · simp [hk]
  · rw [merkleNode_sole d (show 0 < 2 * k by omega)]
    simp

theorem hashed_sole {b : Bytes} (h : Hashed (World.sample 0) soleLeaf secret 0 solePath b) :
    b ∈ soleBytes := by
  cases h with
  | empty => exact List.mem_cons_self
  | node d j hd => exact node_mem_soleBytes hd j
  | commitment => exact List.mem_cons_of_mem _ List.mem_cons_self
  | step p hp =>
    obtain ⟨d, hd, k, rfl⟩ :=
      (merkleNode_isTree (World.sample 0) soleLeaf).pathPairs_authPath 0 merkleDepth p hp
    exact node_mem_soleBytes hd k

theorem digest_injOn :
    Set.InjOn Sample.digest {b | Hashed (World.sample 0) soleLeaf secret 0 solePath b} := by
  have hnodup : (soleBytes.map Sample.digest).Nodup := by decide +kernel
  intro b hb c hc h
  exact List.inj_on_of_nodup_map hnodup (hashed_sole hb) (hashed_sole hc) h

theorem digest_length (b : Bytes) : (Sample.digest b).length = 32 := by
  simp [Sample.digest, beBytes, leBytes]

end TetCore.Sample

namespace TetCore.Tmail

/-- The one member of a tree: its path leads to the root, and its journal names its leaf. -/
theorem membership_proof_sole :
    let W := World.sample 0
    (∃ siblings, merklePath W Sample.soleLeaf 0 = some siblings ∧
      merkleRootFromPath W (anonCommitment W Sample.secret) 0 siblings =
        merkleRoot W Sample.soleLeaf) ∧
    ∃ h : 0 < Sample.soleLeaf.length, Sample.soleLeaf[0] = anonCommitment W Sample.secret := by
  intro W
  obtain ⟨hcomplete, hsound⟩ := membership_proof W Sample.soleLeaf (by decide)
  obtain ⟨siblings, hpath, hlen, hroot⟩ := hcomplete 0 (by decide)
  have hsiblings : siblings = Sample.solePath :=
    Option.some.inj (hpath.symm.trans (merklePath_eq (W := W) (by decide)))
  refine ⟨⟨siblings, hpath, hroot⟩, ?_⟩
  subst hsiblings
  refine hsound Sample.secret 0 Sample.solePath [] [] 0 _ ?_ ?_ Sample.digest_length
    Sample.digest_injOn (if_neg (not_not_intro hlen)) hroot
  · intro l hl
    rw [List.mem_singleton.mp hl]
    exact Sample.digest_length _
  · intro s hs
    obtain ⟨d, -, rfl⟩ := List.mem_map.mp hs
    refine merkleNode_length (fun l hl => ?_) Sample.digest_length d _
    rw [List.mem_singleton.mp hl]
    exact Sample.digest_length _

end TetCore.Tmail
