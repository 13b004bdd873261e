import TetCore.Consensus.Calls
import TetCore.Lib.Encoding

/-!
# What a block id commits to

`block_id_for_block` hashes a text of fields introduced by `|parent=`, `|state=`, `|txs=` and
`|producer=`. Parent and state root of a remote block are arbitrary strings and a producer id may
hold any character, so fields can be cut in several ways in general. An honest block has none of the
separators in its fields: its text has three of them, and any block with the same text is cut in the
same places (`blockId_commits`).
-/

namespace TetCore

open TetCore.Lib

/-- `0x` and 64 hex digits. -/
def isHexId : Str → Bool
  | '0' :: 'x' :: digits => isHex64 digits
  | _ => false

/-- The arguments of `block_id_for_block`. -/
structure BlockFields where
  height : Nat
  parent : Str
  stateRoot : Str
  txHashes : List Str
  producerId : Str
  deriving DecidableEq

namespace BlockFields

/-- The parent as it is hashed. -/
def parentOrZero (b : BlockFields) : Str :=
  if (trim b.parent).isEmpty then genesisZeroParentBlockId else b.parent

/-- The tagged fields after the height. -/
def fields (b : BlockFields) : List (Str × Str) :=
  [("parent=".toList, b.parentOrZero), ("state=".toList, b.stateRoot),
    ("txs=".toList, [','].intercalate b.txHashes), ("producer=".toList, b.producerId)]

/-- The text after the height. -/
def text (b : BlockFields) : Str := joinFields '|' [] b.fields

/-- What is hashed. -/
def preimage (b : BlockFields) : Bytes :=
  utf8 "TET_BLOCK_ID_V2|".toList ++ leBytes 8 b.height ++ utf8 b.text

/-- `block_id_for_block`. -/
def id (W : World) (b : BlockFields) : Str :=
  blockIdForBlock W b.height b.parent b.stateRoot b.txHashes b.producerId

theorem text_eq (b : BlockFields) :
    b.text = "|parent=".toList ++ (b.parentOrZero ++ ("|state=".toList ++ (b.stateRoot ++
      ("|txs=".toList ++ ([','].intercalate b.txHashes ++ ("|producer=".toList ++
        b.producerId)))))) := rfl

theorem id_eq (W : World) (b : BlockFields) : b.id W = '0' :: 'x' :: W.sha256Hex b.preimage := by
  rw [preimage, text_eq]
  simp only [utf8_append, ← List.append_assoc]
  rfl

/-- A block as an honest producer makes it. -/
structure Honest (b : BlockFields) : Prop where
  parent : b.parent = [] ∨ isHexId b.parent = true
  stateRoot : isHexId b.stateRoot = true
  txHashes : ∀ h ∈ b.txHashes, isHexId h = true
  producerId : '|' ∉ b.producerId

/-- The same block, a blank parent being the all-zero id. -/
structure SameBlock (b c : BlockFields) : Prop where
  height : b.height = c.height
  parent : b.parentOrZero = c.parentOrZero
  stateRoot : b.stateRoot = c.stateRoot
  txHashes : b.txHashes = c.txHashes
  producerId : b.producerId = c.producerId

end BlockFields

/-! ## Characters of ids -/

theorem isHexId_eq {s : Str} (h : isHexId s = true) :
    ∃ digits, s = '0' :: 'x' :: digits ∧ digits.all isAsciiHexdigit = true := by
  unfold isHexId at h
  split at h
  · unfold isHex64 at h
    rw [Bool.and_eq_true] at h
    exact ⟨_, rfl, h.2⟩
  · cases h

/-- An id of `0x` and hex digits is not empty and has no separator. -/
theorem hexId_free {c : Char} (hx : c ≠ 'x') (hc : isAsciiHexdigit c = false) {digits : Str}
    (hd : digits.all isAsciiHexdigit = true) : c ∉ '0' :: 'x' :: digits := by
  have h0 : c ≠ '0' := by
    rintro rfl
    revert hc
    decide
  intro hmem
  rcases List.mem_cons.mp hmem with h | hmem
  · exact h0 h
  rcases List.mem_cons.mp hmem with h | hmem
  · exact hx h
  · exact notMem_of_hexdigit hc hd hmem

theorem isHexId_free {c : Char} (hx : c ≠ 'x') (hc : isAsciiHexdigit c = false) {s : Str}
    (h : isHexId s = true) : s ≠ [] ∧ c ∉ s := by
  obtain ⟨digits, rfl, hd⟩ := isHexId_eq h
  exact ⟨List.cons_ne_nil _ _, hexId_free hx hc hd⟩

/-- A transaction hash has no comma. -/
theorem txHash_free {W : World} {env : SignedTxEnvelopeV1} {h : Str}
    (hh : txHashForEnv W env = .ok h) : h ≠ [] ∧ ',' ∉ h := by
  simp only [txHashForEnv, bind_eq_ok, Except.ok.injEq] at hh
  obtain ⟨b, -, rfl⟩ := hh
  exact ⟨List.cons_ne_nil _ _, hexId_free (by decide) (by decide) (hexEncode_all _)⟩

/-- Joined ids have no separator other than the comma. -/
theorem intercalate_free {c : Char} (hc : c ≠ ',') : ∀ {xs : List Str}, (∀ x ∈ xs, c ∉ x) →
    c ∉ [','].intercalate xs := by
  intro xs
  induction xs with
  | nil => exact fun _ => List.not_mem_nil
  | cons x xs ih =>
    intro h hmem
    cases xs with
    | nil =>
      rw [List.intercalate_singleton] at hmem
      exact h x List.mem_cons_self hmem
    | cons y xs =>
      rw [List.intercalate_cons_cons, List.mem_append, List.mem_append, List.mem_singleton] at hmem
      rcases hmem with (hmem | hmem) | hmem
      · exact h x List.mem_cons_self hmem
      · exact hc hmem
      · exact ih (fun z hz => h z (List.mem_cons_of_mem _ hz)) hmem

/-! ## The commitment -/

namespace BlockFields

variable {b c : BlockFields}

theorem Honest.parentOrZero_free (h : Honest b) : '|' ∉ b.parentOrZero := by
  have hzero : '|' ∉ genesisZeroParentBlockId := by decide
  unfold parentOrZero
  split
  · exact hzero
  · rename_i hblank
    rcases h.parent with hnil | hid
    · rw [hnil] at hblank
      exact absurd rfl hblank
    · exact (isHexId_free (by decide) (by decide) hid).2

/-- The text of an honest block is cut into fields in one way. -/
theorem Honest.text_injective (hb : Honest b) (h : b.text = c.text) :
    b.parentOrZero = c.parentOrZero ∧ b.stateRoot = c.stateRoot ∧
      [','].intercalate b.txHashes = [','].intercalate c.txHashes ∧
      b.producerId = c.producerId := by
  have htag : ∀ f ∈ b.fields, '|' ∉ f.1 := by
    simp only [fields, List.forall_mem_cons, List.not_mem_nil, false_implies, implies_true, and_true]
    decide
  have hfree : ∀ f ∈ b.fields, '|' ∉ f.2 := by
    simp only [fields, List.forall_mem_cons, List.not_mem_nil, false_implies, implies_true, and_true]
    refine ⟨hb.parentOrZero_free, (isHexId_free (by decide) (by decide) hb.stateRoot).2, ?_,
      hb.producerId⟩
    exact intercalate_free (by decide) fun x hx =>
      (isHexId_free (by decide) (by decide) (hb.txHashes x hx)).2
  have htags : b.fields.map Prod.fst = c.fields.map Prod.fst := rfl
  obtain ⟨-, hfields⟩ := fields_unique htags htag List.not_mem_nil hfree h
  simp only [fields, List.cons.injEq, Prod.mk.injEq, true_and, and_true] at hfields
  exact hfields

end BlockFields

/-- **An honest block's id is no other block's id**: a remote block with the same id, whose parent,
state root and producer are any strings, is the same block. -/
theorem blockId_commits {W : World} {b c : BlockFields} {txs : List SignedTxEnvelopeV1}
    (hsha : W.sha256 b.preimage = W.sha256 c.preimage → b.preimage = c.preimage) (hb : b.Honest)
    (hbh : b.height ≤ u64Max) (hch : c.height ≤ u64Max)
    (htxs : txs.mapM (txHashForEnv W) = .ok c.txHashes)
    (hid : b.id W = c.id W) : b.SameBlock c := by
  rw [BlockFields.id_eq, BlockFields.id_eq, List.cons.injEq, List.cons.injEq] at hid
  have hpre := hsha (hexEncode_injective hid.2.2)
  unfold BlockFields.preimage at hpre
  rw [List.append_assoc, List.append_assoc] at hpre
  obtain ⟨hheight, htext⟩ := List.append_inj (List.append_cancel_left hpre)
    (by rw [leBytes_length, leBytes_length])
  obtain ⟨hparent, hroot, hhashes, hproducer⟩ := hb.text_injective (utf8_injective htext)
  have hu64 : u64Max < 256 ^ 8 := by decide
  refine ⟨leBytes_injective (by omega) (by omega) hheight, hparent, hroot, ?_, hproducer⟩
  refine intercalate_injective (fun x hx => ?_) (fun x hx => ?_) hhashes
  · exact isHexId_free (by decide) (by decide) (hb.txHashes x hx)
  · obtain ⟨env, -, henv⟩ := Consensus.mem_of_mapM htxs hx
    exact txHash_free henv

/-- A block with one transfer, and the same block sent with a blank parent. -/
theorem blockId_commits_blankParent :
    let W := World.sample 100000
    let h := valueOr (txHashForEnv W Sample.transfer) []
    let root := genesisZeroParentBlockId
    let b : BlockFields := ⟨1, [], root, [h], Sample.node⟩
    let c : BlockFields := ⟨1, [' '], root, [h], Sample.node⟩
    b.id W = c.id W ∧ b.SameBlock c := by
  intro W h root b c
  have hpre : b.preimage = c.preimage := by decide +kernel
  have hall : isHexId root = true ∧ isHexId h = true ∧ '|' ∉ Sample.node ∧
      [Sample.transfer].mapM (txHashForEnv W) = .ok [h] ∧ b.id W = c.id W := by decide +kernel
  obtain ⟨hroot, hh, hproducer, htxs, hid⟩ := hall
  have hb : b.Honest := by
    refine ⟨Or.inl rfl, hroot, fun x hx => ?_, hproducer⟩
    rw [List.mem_singleton.mp hx]
    exact hh
  exact ⟨hid, blockId_commits (fun _ => hpre) hb (by decide) (by decide) htxs hid⟩

end TetCore
