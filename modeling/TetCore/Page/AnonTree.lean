import TetCore.Page.AnonPoster
import TetCore.Tmail.Membership

/-!
# The page's tree and the node's

`AnonMerkleTree` (`tmail/anon.rs`) as it is stored, every level of it, and `anonRootAndPath`
(`anon_tree.mjs`) with the 32-bit `^` and `>>` of the language. Both build the same levels; the page
keeps one at a time and reads the siblings on the way.

`anonRootAndPath_eq`: over at most `2^20` leaves the page's root and path are the node's, for every
integer index, and the path leads from the leaf to that root.
-/

namespace TetCore.Tmail

open TetCore.Lib

/-! ## The stored tree -/

/-- `AnonMerkleTree`. -/
structure AnonMerkleTree where
  levels : List (List Bytes)
  empties : List Bytes
  leafCount : Nat

/-- `empty_subtree_hashes`. -/
def emptySubtreeHashes (W : World) : List Bytes :=
  (List.range (merkleDepth + 1)).map (emptySubtreeHash W)

/-- The levels after `n` rounds of the loop of `build`, each made of the last one stored. -/
def buildLevels (W : World) (empties : List Bytes) (leaves : List Bytes) (n : Nat) :
    List (List Bytes) :=
  (List.range n).foldl
    (fun levels d => levels ++ [merkleLevelUp W (empties.getD d []) (levels.getD d [])]) [leaves]

/-- `AnonMerkleTree::build`. -/
def AnonMerkleTree.build (W : World) (leaves : List Bytes) : AnonMerkleTree :=
  ⟨buildLevels W (emptySubtreeHashes W) leaves merkleDepth, emptySubtreeHashes W, leaves.length⟩

/-- `AnonMerkleTree::root`. -/
def AnonMerkleTree.root (t : AnonMerkleTree) : Bytes :=
  ((t.levels.getD merkleDepth []).head?).getD (t.empties.getD merkleDepth [])

/-- The siblings read by the loop of `path`, with `n` levels to go from depth `d`. -/
def AnonMerkleTree.siblings (t : AnonMerkleTree) : Nat → Nat → Nat → List Bytes
  | 0, _, _ => []
  | n + 1, d, i =>
    (t.levels.getD d [])[i ^^^ 1]?.getD (t.empties.getD d []) :: t.siblings n (d + 1) (i >>> 1)

/-- `AnonMerkleTree::path`. -/
def AnonMerkleTree.path (t : AnonMerkleTree) (index : Nat) : Option (List Bytes) :=
  if index ≥ t.leafCount then none else some (t.siblings merkleDepth 0 index)

variable (W : World) (leaves : List Bytes)

theorem emptySubtreeHashes_getD {d : Nat} (h : d ≤ merkleDepth) :
    (emptySubtreeHashes W).getD d [] = emptySubtreeHash W d := by
  have hlt : d < merkleDepth + 1 := by omega
  simp [emptySubtreeHashes, List.getD_eq_getElem?_getD, List.getElem?_range hlt]

theorem buildLevels_eq {n : Nat} (h : n ≤ merkleDepth) :
    buildLevels W (emptySubtreeHashes W) leaves n =
      (List.range (n + 1)).map (merkleLevel W leaves) := by
  induction n with
  | zero => rfl
  | succ n ih =>
    have hn := ih (by omega)
    unfold buildLevels at hn ⊢
    rw [List.range_succ, List.foldl_append, hn, List.foldl_cons, List.foldl_nil,
      emptySubtreeHashes_getD W (by omega), List.range_succ (n := n + 1), List.map_append]
    congr 1
    simp [List.getD_eq_getElem?_getD, merkleLevel]

theorem build_levels {d : Nat} (h : d ≤ merkleDepth) :
    (AnonMerkleTree.build W leaves).levels.getD d [] = merkleLevel W leaves d := by
  have hlt : d < merkleDepth + 1 := by omega
  unfold AnonMerkleTree.build
  rw [buildLevels_eq W leaves (Nat.le_refl _)]
  simp [List.getD_eq_getElem?_getD, List.getElem?_range hlt]

theorem build_empties {d : Nat} (h : d ≤ merkleDepth) :
    (AnonMerkleTree.build W leaves).empties.getD d [] = emptySubtreeHash W d :=
  emptySubtreeHashes_getD W h

/-- The stored root is the root of the full tree. -/
theorem root_build : (AnonMerkleTree.build W leaves).root = merkleRoot W leaves := by
  unfold AnonMerkleTree.root
  rw [build_levels W leaves (Nat.le_refl _), build_empties W leaves (Nat.le_refl _)]
  rfl

theorem siblings_build (n d i : Nat) (h : d + n ≤ merkleDepth) :
    (AnonMerkleTree.build W leaves).siblings n d i =
      authPath (fun k => merkleNode W leaves (d + k)) i n := by
  induction n generalizing d i with
  | zero => rfl
  | succ n ih =>
    rw [AnonMerkleTree.siblings, build_levels W leaves (by omega), build_empties W leaves (by omega),
      ih (d + 1) _ (by omega), authPath_succ, Nat.shiftRight_one]
    congr 1
    congr 1
    funext k
    rw [Nat.add_assoc, Nat.add_comm 1 k]

/-- The stored path is the path of the full tree. -/
theorem path_build (index : Nat) :
    (AnonMerkleTree.build W leaves).path index = merklePath W leaves index := by
  unfold AnonMerkleTree.path
  by_cases h : index ≥ leaves.length
  · rw [if_pos (show index ≥ (AnonMerkleTree.build W leaves).leafCount from h), merklePath, if_pos h]
  · rw [if_neg (show ¬ index ≥ (AnonMerkleTree.build W leaves).leafCount from h),
      merklePath_eq (by omega), siblings_build W leaves merkleDepth 0 index (by omega)]
    simp only [Nat.zero_add]

end TetCore.Tmail

namespace TetCore.Page

open TetCore.Lib TetCore.Tmail

/-! ## The page's loop -/

/-- `i ^ 1`, on the 32-bit value of a number. -/
def xorOne32 (i : Int) : Int := (BitVec.ofInt 32 i ^^^ 1#32).toInt

/-- `i >> 1`, on the 32-bit value of a number. -/
def shiftOne32 (i : Int) : Int := ((BitVec.ofInt 32 i).sshiftRight 1).toInt

/-- `level[k] ?? empty`; there is nothing at a negative key. -/
def atOr (level : List Bytes) (k : Int) (empty : Bytes) : Bytes :=
  if k < 0 then empty else level[k.toNat]?.getD empty

/-- The loop of `anonRootAndPath`, with `n` levels to go from depth `d`. -/
def rootAndPathLoop (H : PageHashes) (wantPath : Bool) :
    Nat → Nat → List Bytes → Int → List Bytes → List Bytes × List Bytes
  | 0, _, level, _, siblings => (level, siblings)
  | n + 1, d, level, i, siblings =>
    rootAndPathLoop H wantPath n (d + 1) (anonNextLevel H (anonEmptyHash H d) level) (shiftOne32 i)
      (if wantPath then siblings ++ [atOr level (xorOne32 i) (anonEmptyHash H d)] else siblings)

/-- `anonRootAndPath`, its index any integer and its bit operations those of the language. -/
def anonRootAndPath32 (H : PageHashes) (leaves : List Bytes) (index : Int) :
    Bytes × Option (List Bytes) :=
  let wantPath := decide (0 ≤ index ∧ index < leaves.length)
  let climbed := rootAndPathLoop H wantPath anonMerkleDepth 0 leaves index []
  (climbed.1.headD (anonEmptyHash H anonMerkleDepth), if wantPath then some climbed.2 else none)

theorem toInt_ofNat32 {i : Nat} (h : i < 2 ^ 31) : (BitVec.ofNat 32 i).toInt = i := by
  rw [BitVec.toInt_eq_toNat_of_lt] <;> simp <;> omega

theorem xorOne32_natCast {i : Nat} (h : i < 2 ^ 31) : xorOne32 (i : Int) = ((i ^^^ 1 : Nat) : Int) := by
  have hlt : i ^^^ 1 < 2 ^ 31 := Nat.xor_lt_two_pow h (by decide)
  unfold xorOne32
  rw [BitVec.ofInt_natCast, show 1#32 = BitVec.ofNat 32 1 from rfl, ← BitVec.ofNat_xor,
    toInt_ofNat32 hlt]

theorem shiftOne32_natCast {i : Nat} (h : i < 2 ^ 31) : shiftOne32 (i : Int) = ((i / 2 : Nat) : Int) := by
  unfold shiftOne32
  rw [BitVec.ofInt_natCast, BitVec.toInt_sshiftRight, toInt_ofNat32 h, Int.shiftRight_eq_div_pow]
  omega

theorem rootAndPathLoop_level (H : PageHashes) (wantPath : Bool) (n d : Nat) (level : List Bytes)
    (i : Int) (j : Nat) (siblings siblings' : List Bytes) :
    (rootAndPathLoop H wantPath n d level i siblings).1 = (anonClimb H n d level j siblings').1 := by
  induction n generalizing d level i j siblings siblings' with
  | zero => rfl
  | succ n ih => exact ih _ _ _ _ _ _

/-- From a position of 31 bits the climb needs no more than the language's operations. -/
theorem rootAndPathLoop_climb (H : PageHashes) (n d : Nat) (level : List Bytes) {i : Nat}
    (hi : i < 2 ^ 31) (siblings : List Bytes) :
    rootAndPathLoop H true n d level i siblings = anonClimb H n d level i siblings := by
  induction n generalizing d level i siblings with
  | zero => rfl
  | succ n ih =>
    rw [rootAndPathLoop, if_pos rfl, xorOne32_natCast hi, shiftOne32_natCast hi, ih _ _ (by omega),
      anonClimb, atOr, if_neg (by omega), Int.toNat_natCast, List.getD_eq_getElem?_getD]

/-- The send of `anon_poster.mjs` may be read with unbounded operations. -/
theorem anonRootAndPath32_eq (H : PageHashes) {leaves : List Bytes}
    (hcap : leaves.length ≤ 2 ^ 31) (index : Int) :
    anonRootAndPath32 H leaves index = anonRootAndPath H leaves index := by
  unfold anonRootAndPath32 anonRootAndPath
  simp only
  by_cases hin : 0 ≤ index ∧ index < leaves.length
  · obtain ⟨i, rfl⟩ := Int.eq_ofNat_of_zero_le hin.1
    rw [if_pos hin, decide_eq_true hin, if_pos rfl, Int.toNat_natCast,
      rootAndPathLoop_climb H _ _ _ (by omega)]
  · rw [if_neg hin, decide_eq_false hin, if_neg Bool.false_ne_true,
      rootAndPathLoop_level H false anonMerkleDepth 0 leaves index index.toNat [] []]

/-! ## The same levels -/

/-- The hash functions of a page whose SHA-256 is the node's. -/
def nodeHashes (W : World) (hkdf : Bytes → Bytes → Bytes) : PageHashes := ⟨W.sha256, hkdf⟩

variable {W : World} {hkdf : Bytes → Bytes → Bytes}

theorem anonEmptyHash_eq (d : Nat) : anonEmptyHash (nodeHashes W hkdf) d = emptySubtreeHash W d := by
  induction d with
  | zero => rfl
  | succ d ih =>
    rw [anonEmptyHash, ih]
    rfl

theorem anonNextLevel_eq (empty : Bytes) (level : List Bytes) :
    anonNextLevel (nodeHashes W hkdf) empty level = merkleLevelUp W empty level := by
  fun_induction merkleLevelUp W empty level with
  | case1 => rfl
  | case2 l => rfl
  | case3 l r rest ih =>
    rw [anonNextLevel, ih]
    rfl

variable (W hkdf) in
/-- The level the loop ends with, whatever the index. -/
theorem rootAndPathLoop_fst (leaves : List Bytes) (wantPath : Bool) (n d : Nat) (i : Int)
    (siblings : List Bytes) :
    (rootAndPathLoop (nodeHashes W hkdf) wantPath n d (merkleLevel W leaves d) i siblings).1 =
      merkleLevel W leaves (d + n) := by
  induction n generalizing d i siblings with
  | zero => rfl
  | succ n ih =>
    rw [rootAndPathLoop, anonEmptyHash_eq, anonNextLevel_eq, ← merkleLevel, ih, Nat.add_right_comm,
      Nat.add_assoc]

variable (W hkdf) in
/-- The siblings collected on the way up from a position of 31 bits. -/
theorem rootAndPathLoop_snd (leaves : List Bytes) (n d : Nat) {i : Nat} (hi : i < 2 ^ 31)
    (siblings : List Bytes) :
    (rootAndPathLoop (nodeHashes W hkdf) true n d (merkleLevel W leaves d) i siblings).2 =
      siblings ++ authPath (fun k => merkleNode W leaves (d + k)) i n := by
  induction n generalizing d i siblings with
  | zero => simp [rootAndPathLoop, authPath]
  | succ n ih =>
    have hnode : atOr (merkleLevel W leaves d) (xorOne32 i) (emptySubtreeHash W d) =
        merkleNode W leaves d (i ^^^ 1) := by
      rw [xorOne32_natCast hi, atOr, if_neg (by omega), Int.toNat_natCast]
      rfl
    rw [rootAndPathLoop, if_pos rfl, anonEmptyHash_eq, anonNextLevel_eq, ← merkleLevel, hnode,
      shiftOne32_natCast hi, ih (d + 1) (by omega), authPath_succ, List.append_assoc,
      List.singleton_append]
    congr 3
    funext k
    rw [Nat.add_assoc, Nat.add_comm 1 k]

variable (leaves : List Bytes)

theorem anonRootAndPath32_root (index : Int) :
    (anonRootAndPath32 (nodeHashes W hkdf) leaves index).1 = merkleRoot W leaves := by
  have hlevel := rootAndPathLoop_fst W hkdf leaves
    (decide (0 ≤ index ∧ index < leaves.length)) anonMerkleDepth 0 index []
  rw [Nat.zero_add, show merkleLevel W leaves 0 = leaves from rfl] at hlevel
  unfold anonRootAndPath32
  simp only [hlevel, anonEmptyHash_eq]
  rw [List.headD_eq_head?_getD]
  rfl

theorem anonRootAndPath32_path {i : Nat} (hi : i < leaves.length)
    (hcap : leaves.length ≤ 2 ^ merkleDepth) :
    (anonRootAndPath32 (nodeHashes W hkdf) leaves i).2 = merklePath W leaves i := by
  have hpow : 2 ^ merkleDepth = 1048576 := by decide
  have hwant : decide (0 ≤ (i : Int) ∧ (i : Int) < leaves.length) = true :=
    decide_eq_true ⟨Int.natCast_nonneg i, by omega⟩
  have hloop := rootAndPathLoop_snd W hkdf leaves anonMerkleDepth 0
    (show i < 2 ^ 31 by omega) []
  rw [List.nil_append, show merkleLevel W leaves 0 = leaves from rfl] at hloop
  simp only [Nat.zero_add] at hloop
  unfold anonRootAndPath32
  simp only [hwant, if_true, hloop]
  rw [merklePath_eq hi]
  rfl

theorem anonRootAndPath32_none {index : Int} (h : ¬ (0 ≤ index ∧ index < leaves.length)) :
    (anonRootAndPath32 (nodeHashes W hkdf) leaves index).2 = none := by
  unfold anonRootAndPath32
  simp only [decide_eq_false h, Bool.false_eq_true, if_false]

/-- **The page's tree is the node's.** Over at most `2^20` leaves, `anonRootAndPath` gives the root of
`AnonMerkleTree::build`, and for an index of the list the siblings of `AnonMerkleTree::path`, which
lead from the leaf to that root; for any other integer it gives no path, and for one that is not
negative neither does the node. -/
theorem anonRootAndPath_eq (W : World) (hkdf : Bytes → Bytes → Bytes) (leaves : List Bytes)
    (hcap : leaves.length ≤ 2 ^ merkleDepth) (index : Int) :
    anonRootAndPath32 (nodeHashes W hkdf) leaves index =
      ((AnonMerkleTree.build W leaves).root,
        if 0 ≤ index then (AnonMerkleTree.build W leaves).path index.toNat else none) ∧
    ((anonRootAndPath32 (nodeHashes W hkdf) leaves index).2 = none ↔
      index < 0 ∨ (leaves.length : Int) ≤ index) ∧
    ∀ (i : Nat) (h : i < leaves.length), ∃ siblings,
      (anonRootAndPath32 (nodeHashes W hkdf) leaves i).2 = some siblings ∧
        merkleRootFromPath W leaves[i] (UInt32.ofNat i) siblings =
          (AnonMerkleTree.build W leaves).root := by
  have hpath : (anonRootAndPath32 (nodeHashes W hkdf) leaves index).2 =
      if 0 ≤ index then merklePath W leaves index.toNat else none := by
    by_cases hin : 0 ≤ index ∧ index < leaves.length
    · obtain ⟨i, rfl⟩ := Int.eq_ofNat_of_zero_le hin.1
      rw [if_pos hin.1, Int.toNat_natCast]
      exact anonRootAndPath32_path leaves (by omega) hcap
    · rw [anonRootAndPath32_none leaves hin]
      by_cases hneg : 0 ≤ index
      · rw [if_pos hneg, merklePath, if_pos (by omega)]
      · rw [if_neg hneg]
  refine ⟨Prod.ext ?_ ?_, ?_, fun i hi => ?_⟩
  · rw [anonRootAndPath32_root, root_build]
  · rw [hpath]
    simp only [path_build]
  · rw [hpath]
    by_cases hneg : 0 ≤ index
    · rw [if_pos hneg]
      by_cases hin : index.toNat < leaves.length
      · rw [merklePath_eq hin]
        exact ⟨fun h => absurd h (Option.some_ne_none _), fun h => absurd h (by omega)⟩
      · rw [merklePath, if_pos (by omega)]
        exact ⟨fun _ => .inr (by omega), fun _ => rfl⟩
    · rw [if_neg hneg]
      exact ⟨fun _ => .inl (by omega), fun _ => rfl⟩
  · refine ⟨_, (anonRootAndPath32_path leaves hi hcap).trans (merklePath_eq hi), ?_⟩
    rw [root_build]
    exact merkleRootFromPath_leaf hcap hi

/-- Three leaves, and the one whose sibling is an empty slot. -/
theorem anonRootAndPath_eq_three :
    let leaves := [List.replicate 32 1, List.replicate 32 2, List.replicate 32 3]
    let hashes := nodeHashes (World.sample 0) fun key info => key ++ info
    let tree := AnonMerkleTree.build (World.sample 0) leaves
    anonRootAndPath32 hashes leaves 2 =
        (tree.root, if (0 : Int) ≤ 2 then tree.path (Int.toNat 2) else none) ∧
      ((anonRootAndPath32 hashes leaves 2).2 = none ↔
        (2 : Int) < 0 ∨ (leaves.length : Int) ≤ 2) ∧
      ∀ (i : Nat) (h : i < leaves.length), ∃ siblings,
        (anonRootAndPath32 hashes leaves i).2 = some siblings ∧
          merkleRootFromPath (World.sample 0) leaves[i] (UInt32.ofNat i) siblings = tree.root :=
  anonRootAndPath_eq (World.sample 0) _ _ (by decide) 2

end TetCore.Page
