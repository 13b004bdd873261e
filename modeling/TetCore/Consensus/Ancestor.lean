import TetCore.Consensus.Reorg
import TetCore.Ledger.Sample

/-!
# The common ancestor of two tips

What `find_common_ancestor` and `branch_from_ancestor_to_tip` return for a canonical tip and a new
tip that both reach a block of height 1 through stored records. The ids of a chain are kept as they
are spelled: a tip is trimmed, a parent is as its child names it, and a record is looked up under the
trimmed id. The walks compare spellings.

* `ParentChain L id cs w`: from `id` the parents lead through the records `cs` to a block of height 1
  whose parent field is `w`.
* `ParentChain.nodup`: no block is met twice, so the walks end.
* `common_ancestor_iff`: the functions return the highest common block and the branch above it
  exactly when both chains spell the id of that block in the same way and, if there is none, the
  first block of the new chain has no parent or an empty one.
-/

namespace TetCore.Consensus

open TetCore.Lib

/-! ## Chains of parents -/

/-- A parent field that names no block: absent, blank or the all-zero id. -/
def NoParent (w : Option Str) : Prop :=
  ∀ p, w = some p → trim p = [] ∨ p = genesisZeroParentBlockId

/-- No block is stored under the empty id or the all-zero one. -/
structure NamesBlocks (L : Ledger) : Prop where
  empty : L.blocksById.get [] = none
  zero : L.blocksById.get genesisZeroParentBlockId = none

/-- From `id` the parents lead through the records `cs`, each with its id as it is spelled, to a
block of height 1 whose parent field is `w`. -/
inductive ParentChain (L : Ledger) : Str → List (Str × BlockRecordV1) → Option Str → Prop where
  | root {id : Str} {b : BlockRecordV1} (stored : L.blockRecordById id = some b)
      (height : b.height = 1) (first : NoParent b.parentBlockId) :
      ParentChain L id [(id, b)] b.parentBlockId
  | step {id p : Str} {b : BlockRecordV1} {cs : List (Str × BlockRecordV1)} {w : Option Str}
      (stored : L.blockRecordById id = some b) (parent : b.parentBlockId = some p)
      (rest : ParentChain L p cs w) : ParentChain L id ((id, b) :: cs) w

/-- The keys of the blocks of a chain. -/
def chainKeys (cs : List (Str × BlockRecordV1)) : List Str := cs.map fun e => trim e.1

/-- The block `e` is the highest of the new chain that is on the other one, below `above`. -/
structure Highest (cs new above : List (Str × BlockRecordV1)) (e : Str × BlockRecordV1)
    (below : List (Str × BlockRecordV1)) : Prop where
  split : new = above ++ e :: below
  common : trim e.1 ∈ chainKeys cs
  above : ∀ a ∈ above, trim a.1 ∉ chainKeys cs

/-- No block is on both chains. -/
def Apart (cs new : List (Str × BlockRecordV1)) : Prop := ∀ a ∈ new, trim a.1 ∉ chainKeys cs

/-- The parent of every block is the block before it. -/
def LinkedUp (L : Ledger) (branch : List BlockRecordV1) : Prop :=
  branch.IsChain fun a b => ∃ p, b.parentBlockId = some p ∧ L.blockRecordById p = some a

/-- The ancestor is the highest common block, or the empty id when there is none, and the branch is
the new chain above it, oldest first. -/
def Meets (L : Ledger) (cs new : List (Str × BlockRecordV1)) (ancestor : Str)
    (branch : List BlockRecordV1) : Prop :=
  LinkedUp L branch ∧
    ((∃ above e below, Highest cs new above e below ∧ trim ancestor = trim e.1 ∧
        branch = (above.map Prod.snd).reverse) ∨
      Apart cs new ∧ ancestor = [] ∧ branch = (new.map Prod.snd).reverse)

/-- Both functions return, and what they return meets the two chains. -/
def ReturnsBranch (L : Ledger) (newTipId : Str) (cs new : List (Str × BlockRecordV1)) : Prop :=
  ∃ enough, ∀ fuel, enough ≤ fuel → ∃ ancestor branch,
    findCommonAncestor L fuel newTipId = .ok (some ancestor) ∧
      branchFromAncestorToTip L fuel ancestor newTipId = .ok branch ∧ Meets L cs new ancestor branch

/-- Both chains spell the id of the highest common block in the same way; if there is none, the
first block of the new chain has no parent or an empty one. -/
structure SpelledAlike (cs new : List (Str × BlockRecordV1)) (w : Option Str) : Prop where
  common : ∀ above e below, Highest cs new above e below → e.1 ∈ cs.map Prod.fst
  apart : Apart cs new → w = none ∨ w = some []

section Chains

variable {L : Ledger} {id id' p : Str} {cs cs' new above below : List (Str × BlockRecordV1)}
  {e : Str × BlockRecordV1} {w w' : Option Str}

theorem NamesBlocks.no_record (h : NamesBlocks L) (hw : NoParent w) (hp : w = some p) :
    L.blockRecordById p = none := by
  unfold Ledger.blockRecordById
  rcases hw p hp with hblank | rfl
  · rw [hblank]
    exact h.empty
  · have htrim : trim genesisZeroParentBlockId = genesisZeroParentBlockId := by decide +kernel
    rw [htrim]
    exact h.zero

theorem blockRecordById_congr (h : trim id = trim id') :
    L.blockRecordById id = L.blockRecordById id' := by
  unfold Ledger.blockRecordById
  rw [h]

namespace ParentChain

theorem noParent (h : ParentChain L id cs w) : NoParent w := by
  induction h with
  | root _ _ hfirst => exact hfirst
  | step _ _ _ ih => exact ih

theorem stored (h : ParentChain L id cs w) : ∀ a ∈ cs, L.blockRecordById a.1 = some a.2 := by
  induction h with
  | root hb _ _ =>
    intro a ha
    rw [List.mem_singleton.mp ha]
    exact hb
  | step hb _ _ ih =>
    intro a ha
    rcases List.mem_cons.mp ha with rfl | ha
    · exact hb
    · exact ih a ha

/-- The chain from a block of the chain. -/
theorem suffix (h : ParentChain L id cs w) (hsplit : cs = above ++ e :: below) :
    ParentChain L e.1 (e :: below) w := by
  induction h generalizing above with
  | @root id b hb hh hf =>
    cases above with
    | nil =>
      rw [List.nil_append, List.cons.injEq] at hsplit
      obtain ⟨rfl, rfl⟩ := hsplit
      exact .root hb hh hf
    | cons a above =>
      have hlen := congrArg List.length hsplit
      simp only [List.length_cons, List.length_append, List.length_nil] at hlen
      omega
  | step hb hp hrest ih =>
    cases above with
    | nil =>
      rw [List.nil_append, List.cons.injEq] at hsplit
      obtain ⟨rfl, rfl⟩ := hsplit
      exact .step hb hp hrest
    | cons a above =>
      rw [List.cons_append, List.cons.injEq] at hsplit
      exact ih hsplit.2

/-- Two chains from one block are as long as each other. -/
theorem length_eq (hL : NamesBlocks L) (h : ParentChain L id cs w) :
    ∀ {id' : Str} {cs' : List (Str × BlockRecordV1)} {w' : Option Str},
      ParentChain L id' cs' w' → trim id = trim id' → cs.length = cs'.length := by
  induction h with
  | root hb _ hf =>
    intro id' cs' w' h' heq
    cases h' with
    | root _ _ _ => rfl
    | step hb' hp' hrest' =>
      rw [blockRecordById_congr heq, hb', Option.some.injEq] at hb
      rw [← hb] at hf
      -- the parent of the first block has no record
      have hnone := hL.no_record hf hp'
      cases hrest' with
      | root hb'' _ _ =>
        rw [hnone] at hb''
        cases hb''
      | step hb'' _ _ =>
        rw [hnone] at hb''
        cases hb''
  | step hb hp hrest ih =>
    intro id' cs' w' h' heq
    cases h' with
    | root hb' _ hf' =>
      rw [blockRecordById_congr heq, hb', Option.some.injEq] at hb
      rw [hb] at hf'
      have hnone := hL.no_record hf' hp
      cases hrest with
      | root hb'' _ _ =>
        rw [hnone] at hb''
        cases hb''
      | step hb'' _ _ =>
        rw [hnone] at hb''
        cases hb''
    | step hb' hp' hrest' =>
      rw [blockRecordById_congr heq, hb', Option.some.injEq] at hb
      rw [← hb, hp', Option.some.injEq] at hp
      rw [List.length_cons, List.length_cons, ih hrest' (by rw [hp])]

/-- **No block is met twice** on the way to the first block. -/
theorem nodup (hL : NamesBlocks L) (h : ParentChain L id cs w) : (chainKeys cs).Nodup := by
  induction h with
  | root _ _ _ => exact List.nodup_cons.mpr ⟨List.not_mem_nil, List.nodup_nil⟩
  | @step id p b cs w hb hp hrest ih =>
    refine List.nodup_cons.mpr ⟨fun hmem => ?_, ih⟩
    obtain ⟨a, ha, hkey⟩ := List.mem_map.mp hmem
    obtain ⟨above, below, hsplit⟩ := List.append_of_mem ha
    have hlen := (step hb hp hrest).length_eq hL (hrest.suffix hsplit) hkey.symm
    have hcs := congrArg List.length hsplit
    simp only [List.length_cons, List.length_append] at hlen hcs
    omega

/-- Two spellings on a chain with one key are one. -/
theorem fst_inj (hL : NamesBlocks L) (h : ParentChain L id cs w) {a b : Str × BlockRecordV1}
    (ha : a ∈ cs) (hb : b ∈ cs) (hkey : trim a.1 = trim b.1) : a = b :=
  List.inj_on_of_nodup_map (h.nodup hL) ha hb hkey

/-- What follows a chain is not on it. -/
theorem end_ne (hL : NamesBlocks L) (h : ParentChain L id cs w) (ha : e ∈ cs) (hp : w = some p) :
    trim p ≠ trim e.1 := by
  intro heq
  have hrec := h.stored e ha
  rw [← blockRecordById_congr heq, hL.no_record h.noParent hp] at hrec
  cases hrec

theorem ne_blank (hL : NamesBlocks L) (h : ParentChain L id cs w) (ha : e ∈ cs) :
    trim e.1 ≠ [] := by
  intro hnil
  have hrec := h.stored e ha
  unfold Ledger.blockRecordById at hrec
  rw [hnil, hL.empty] at hrec
  cases hrec

theorem head (h : ParentChain L id cs w) :
    ∃ b below, cs = (id, b) :: below ∧ L.blockRecordById id = some b := by
  cases h with
  | root hb _ _ => exact ⟨_, _, rfl, hb⟩
  | step hb _ _ => exact ⟨_, _, rfl, hb⟩

theorem linkedUp (h : ParentChain L id cs w) (hsplit : cs = above ++ below) :
    LinkedUp L (above.map Prod.snd).reverse := by
  have hall : (cs.map Prod.snd).IsChain fun b a =>
      ∃ p, b.parentBlockId = some p ∧ L.blockRecordById p = some a := by
    induction h generalizing above below with
    | root _ _ _ => exact .singleton _
    | @step id p b cs w hb hp hrest ih =>
      obtain ⟨a, tl, hcs, ha⟩ := hrest.head
      have hrest' := @ih [] cs rfl
      rw [hcs] at hrest' ⊢
      exact .cons_cons ⟨p, hp, ha⟩ hrest'
  rw [hsplit, List.map_append] at hall
  rw [LinkedUp, List.isChain_reverse]
  exact hall.left_of_append

end ParentChain

/-! ## The walks -/

theorem ancestorIdsFrom_none (L : Ledger) (fuel : Nat) (out : List Str) :
    ancestorIdsFrom L fuel none out = some out := by
  cases fuel <;> rfl

theorem walkToAncestor_none (L : Ledger) (anc : List Str) (fuel : Nat) :
    walkToAncestor L anc fuel none = some [] := by
  cases fuel <;> rfl

theorem branchFrom_none (L : Ledger) (x : Str) (fuel : Nat) (acc : List BlockRecordV1) :
    branchFrom L x fuel none acc = .ok acc := by
  cases fuel <;> rfl

/-- The ancestors of a tip: the ids of its chain as they are spelled, and the parent field of the
first block. -/
theorem ParentChain.ancestorIds (hL : NamesBlocks L) (h : ParentChain L id cs w) :
    ∀ {out : List Str} (extra : Nat), (∀ a ∈ cs, a.1 ∉ out) → ∃ anc,
      ancestorIdsFrom L (cs.length + 1 + extra) (some id) out = some anc ∧
        ∀ x, x ∈ anc ↔ x ∈ out ∨ x ∈ cs.map Prod.fst ∨ w = some x := by
  induction h with
  | @root id b hb hh hf =>
    intro out extra hout
    have hparent : parentOf L id = b.parentBlockId := by
      unfold parentOf
      rw [hb]
      rfl
    have hfuel : ([(id, b)].length + 1 + extra) = extra + 1 + 1 := by
      rw [List.length_singleton]
      omega
    rw [hfuel, ancestorIdsFrom, if_neg (hout _ List.mem_cons_self), hparent]
    cases hw : b.parentBlockId with
    | none =>
      refine ⟨id :: out, ancestorIdsFrom_none L _ _, fun x => ?_⟩
      simp [or_comm]
    | some q =>
      rw [ancestorIdsFrom]
      by_cases hq : q ∈ id :: out
      · rw [if_pos hq]
        refine ⟨id :: out, rfl, fun x => ?_⟩
        simp only [List.mem_cons, List.map_cons, List.map_nil, List.not_mem_nil, or_false,
          Option.some.injEq] at hq ⊢
        constructor
        · exact fun hx => hx.elim (fun hx => Or.inr (Or.inl hx)) Or.inl
        · rintro (hx | hx | rfl)
          · exact Or.inr hx
          · exact Or.inl hx
          · exact hq
      · have hnone : parentOf L q = none := by
          unfold parentOf
          rw [hL.no_record hf hw]
          rfl
        rw [if_neg hq, hnone]
        refine ⟨q :: id :: out, ancestorIdsFrom_none L _ _, fun x => ?_⟩
        simp only [List.mem_cons, List.map_cons, List.map_nil, List.not_mem_nil, or_false,
          Option.some.injEq, eq_comm (a := q)]
        tauto
  | @step id p b cs w hb hp hrest ih =>
    intro out extra hout
    have hnodup := (ParentChain.step hb hp hrest).nodup hL
    have hnot : ∀ a ∈ cs, a.1 ∉ id :: out := by
      intro a ha hmem
      rcases List.mem_cons.mp hmem with heq | hmem
      · refine (List.nodup_cons.mp hnodup).1 (List.mem_map.mpr ⟨a, ha, ?_⟩)
        rw [heq]
      · exact hout a (List.mem_cons_of_mem _ ha) hmem
    obtain ⟨anc, hanc, hmem⟩ := ih extra hnot
    have hfuel : (((id, b) :: cs).length + 1 + extra) = (cs.length + 1 + extra) + 1 := by
      rw [List.length_cons]
      omega
    have hparent : parentOf L id = some p := by
      unfold parentOf
      rw [hb]
      exact hp
    refine ⟨anc, ?_, fun x => ?_⟩
    · rw [hfuel, ancestorIdsFrom, if_neg (hout _ List.mem_cons_self), hparent]
      exact hanc
    · rw [hmem x, List.map_cons, List.mem_cons, List.mem_cons, or_assoc, or_assoc]
      tauto

/-- Where a walk goes on that has left the blocks above `below` behind. -/
def resumeAt (below : List (Str × BlockRecordV1)) (w : Option Str) : Option Str :=
  match below with
  | [] => w
  | e :: _ => some e.1

/-- The walk goes from a block to the rest of its chain. -/
theorem ParentChain.next (h : ParentChain L id (e :: below) w) :
    e.1 = id ∧ L.blockRecordById id = some e.2 ∧ e.2.parentBlockId = resumeAt below w ∧
      ∀ a rest, below = a :: rest → ParentChain L a.1 below w := by
  cases h with
  | root hb hh hf =>
    refine ⟨rfl, hb, rfl, fun a rest heq => ?_⟩
    cases heq
  | step hb hp hrest =>
    obtain ⟨b, rest', rfl, -⟩ := hrest.head
    refine ⟨rfl, hb, hp, fun a rest heq => ?_⟩
    cases heq
    exact hrest

theorem ParentChain.resumeAt (h : ParentChain L id cs w) : resumeAt cs w = some id := by
  obtain ⟨b, below, rfl, -⟩ := h.head
  rfl

/-- The walk to an ancestor passes the blocks that are none. -/
theorem ParentChain.walk_above (anc : List Str) (fuel : Nat) :
    ∀ {above : List (Str × BlockRecordV1)} {id : Str}, ParentChain L id (above ++ below) w →
      (∀ a ∈ above, a.1 ∉ anc) → walkToAncestor L anc (above.length + fuel) (some id) =
        walkToAncestor L anc fuel (Consensus.resumeAt below w) := by
  intro above
  induction above with
  | nil =>
    intro id h _
    have hstart := h.resumeAt
    rw [List.nil_append] at hstart
    rw [List.length_nil, Nat.zero_add, hstart]
  | cons a above ih =>
    intro id h hanc
    obtain ⟨rfl, hb, hp, hrest⟩ := h.next
    have hfuel : (a :: above).length + fuel = (above.length + fuel) + 1 := by
      rw [List.length_cons]
      omega
    have hparent : parentOf L a.1 = Consensus.resumeAt (above ++ below) w := by
      unfold parentOf
      rw [hb]
      exact hp
    rw [hfuel, walkToAncestor, if_neg (hanc a List.mem_cons_self), hparent]
    cases above with
    | nil => rw [List.length_nil, Nat.zero_add, List.nil_append]
    | cons a' above =>
      exact ih (hrest a' (above ++ below) rfl) fun b hb => hanc b (List.mem_cons_of_mem _ hb)

/-- The walk of the branch collects the blocks above the ancestor. -/
theorem ParentChain.branch_above (x : Str) (fuel : Nat) :
    ∀ {above : List (Str × BlockRecordV1)} {id : Str} (acc : List BlockRecordV1),
      ParentChain L id (above ++ below) w → (∀ a ∈ above, a.1 ≠ x) →
        branchFrom L x (above.length + fuel) (some id) acc =
          branchFrom L x fuel (Consensus.resumeAt below w)
            ((above.map Prod.snd).reverse ++ acc) := by
  intro above
  induction above with
  | nil =>
    intro id acc h _
    have hstart := h.resumeAt
    rw [List.nil_append] at hstart
    rw [List.length_nil, Nat.zero_add, hstart]
    rfl
  | cons a above ih =>
    intro id acc h hne
    obtain ⟨rfl, hb, hp, hrest⟩ := h.next
    have hfuel : (a :: above).length + fuel = (above.length + fuel) + 1 := by
      rw [List.length_cons]
      omega
    rw [hfuel, branchFrom, if_neg (hne a List.mem_cons_self), hb]
    simp only [hp]
    rw [List.map_cons, List.reverse_cons, List.append_assoc]
    cases above with
    | nil =>
      rw [List.length_nil, Nat.zero_add]
      rfl
    | cons a' above =>
      exact ih (a.2 :: acc) (hrest a' (above ++ below) rfl) fun b hb =>
        hne b (List.mem_cons_of_mem _ hb)

/-- The end of the walk to an ancestor, past the first block. -/
theorem walk_end (hL : NamesBlocks L) (hw : NoParent w) (anc : List Str) (fuel : Nat) :
    walkToAncestor L anc (fuel + 1) w = some (if ∃ p ∈ anc, w = some p then w.getD [] else []) := by
  cases w with
  | none =>
    rw [walkToAncestor_none, if_neg]
    rintro ⟨p, -, hp⟩
    cases hp
  | some p =>
    rw [walkToAncestor]
    by_cases hp : p ∈ anc
    · rw [if_pos hp, if_pos ⟨p, hp, rfl⟩]
      rfl
    · have hnone : parentOf L p = none := by
        unfold parentOf
        rw [hL.no_record hw rfl]
        rfl
      rw [if_neg hp, hnone, walkToAncestor_none, if_neg]
      rintro ⟨q, hq, heq⟩
      rw [Option.some.injEq] at heq
      exact hp (heq ▸ hq)

/-- The first element with a property. -/
theorem first_or_none {α : Type} (q : α → Prop) (l : List α) :
    (∀ a ∈ l, ¬ q a) ∨ ∃ above e below, l = above ++ e :: below ∧ q e ∧ ∀ a ∈ above, ¬ q a := by
  induction l with
  | nil => exact Or.inl fun a ha => absurd ha List.not_mem_nil
  | cons x l ih =>
    by_cases hx : q x
    · exact Or.inr ⟨[], x, l, rfl, hx, fun a ha => absurd ha List.not_mem_nil⟩
    · rcases ih with hnone | ⟨above, e, below, rfl, he, habove⟩
      · exact Or.inl fun a ha => (List.mem_cons.mp ha).elim (fun h => h ▸ hx) (hnone a)
      · exact Or.inr ⟨x :: above, e, below, rfl, he, fun a ha =>
          (List.mem_cons.mp ha).elim (fun h => h ▸ hx) (habove a)⟩

theorem ParentChain.walk_all (h : ParentChain L id cs w) {anc : List Str} (fuel : Nat)
    (hanc : ∀ a ∈ cs, a.1 ∉ anc) :
    walkToAncestor L anc (cs.length + fuel) (some id) = walkToAncestor L anc fuel w := by
  have h' : ParentChain L id (cs ++ []) w := by rwa [List.append_nil]
  exact h'.walk_above anc fuel hanc

theorem ParentChain.branch_all (h : ParentChain L id cs w) {x : Str} (fuel : Nat)
    (hne : ∀ a ∈ cs, a.1 ≠ x) :
    branchFrom L x (cs.length + fuel) (some id) [] =
      branchFrom L x fuel w (cs.map Prod.snd).reverse := by
  have h' : ParentChain L id (cs ++ []) w := by rwa [List.append_nil]
  have hbranch := h'.branch_above x fuel [] hne
  rwa [List.append_nil] at hbranch

/-- The walk to an ancestor stops at the first block that is one. -/
theorem ParentChain.walk_first (h : ParentChain L id (above ++ e :: below) w) {anc : List Str}
    (fuel : Nat) (he : e.1 ∈ anc) (habove : ∀ a ∈ above, a.1 ∉ anc) :
    walkToAncestor L anc (above.length + (fuel + 1)) (some id) = some e.1 := by
  rw [h.walk_above anc (fuel + 1) habove]
  exact if_pos he

/-- The walk to an ancestor returns an ancestor on the chain, or what comes after its first block. -/
theorem ParentChain.walk_result (hL : NamesBlocks L) (h : ParentChain L id cs w) (anc : List Str)
    (fuel : Nat) : ∃ r, walkToAncestor L anc (cs.length + 1 + fuel) (some id) = some r ∧
      ((∃ a ∈ cs, a.1 = r ∧ r ∈ anc) ∨ r = [] ∨ w = some r) := by
  rcases first_or_none (fun a => a.1 ∈ anc) cs with hnone | ⟨above, e, below, rfl, he, habove⟩
  · have hfuel : cs.length + 1 + fuel = cs.length + (fuel + 1) := by omega
    refine ⟨_, by rw [hfuel, h.walk_all _ hnone, walk_end hL h.noParent], ?_⟩
    by_cases hend : ∃ p ∈ anc, w = some p
    · obtain ⟨p, hp, rfl⟩ := hend
      rw [if_pos ⟨p, hp, rfl⟩]
      exact Or.inr (Or.inr rfl)
    · rw [if_neg hend]
      exact Or.inr (Or.inl rfl)
  · have hfuel : (above ++ e :: below).length + 1 + fuel =
        above.length + (below.length + 1 + fuel + 1) := by
      rw [List.length_append, List.length_cons]
      omega
    refine ⟨e.1, ?_, Or.inl ⟨e, List.mem_append_right above List.mem_cons_self, rfl, he⟩⟩
    rw [hfuel]
    exact h.walk_first _ he habove

end Chains

/-! ## Both walks -/

section Both

variable {L : Ledger} {tip : ChainTipV1} {newTipId : Str}
  {cs new above below : List (Str × BlockRecordV1)} {e : Str × BlockRecordV1} {z w : Option Str}

/-- The two chains of a canonical tip and a new one. -/
structure TwoTips (L : Ledger) (tip : ChainTipV1) (newTipId : Str)
    (cs new : List (Str × BlockRecordV1)) (z w : Option Str) : Prop where
  names : NamesBlocks L
  current : L.getChainTip = some tip
  canonical : ParentChain L (trim tip.blockId) cs z
  new : ParentChain L (trim newTipId) new w

namespace TwoTips

/-- `find_common_ancestor` with enough fuel walks from the new tip to an id of the canonical
chain. -/
theorem find_eq (h : TwoTips L tip newTipId cs new z w) (extra : Nat) : ∃ anc,
    (∀ x, x ∈ anc ↔ x ∈ cs.map Prod.fst ∨ z = some x) ∧
      ∀ r, walkToAncestor L anc (cs.length + 1 + extra) (some (trim newTipId)) = some r →
        findCommonAncestor L (cs.length + 1 + extra) newTipId = .ok (some r) := by
  obtain ⟨anc, hanc, hmem⟩ :=
    h.canonical.ancestorIds h.names extra fun a _ => List.not_mem_nil
  refine ⟨anc, fun x => ?_, fun r hr => ?_⟩
  · rw [hmem x, or_iff_right List.not_mem_nil]
  · unfold findCommonAncestor
    rw [h.current]
    simp only [hanc, hr]

/-- A block of the new chain that is not on the canonical one is no ancestor. -/
theorem notMem_of_apart (h : TwoTips L tip newTipId cs new z w) {anc : List Str}
    (hanc : ∀ x, x ∈ anc ↔ x ∈ cs.map Prod.fst ∨ z = some x) {a : Str × BlockRecordV1}
    (ha : a ∈ new) (hne : a.1 ∉ cs.map Prod.fst) : a.1 ∉ anc := by
  intro hmem
  rcases (hanc a.1).mp hmem with hcs | hz
  · exact hne hcs
  · have hrec := h.new.stored a ha
    rw [h.names.no_record h.canonical.noParent hz] at hrec
    cases hrec

theorem notMem_of_key {a : Str × BlockRecordV1} (hkey : trim a.1 ∉ chainKeys cs) :
    a.1 ∉ cs.map Prod.fst := by
  intro hmem
  obtain ⟨c, hc, heq⟩ := List.mem_map.mp hmem
  exact hkey (List.mem_map.mpr ⟨c, hc, by rw [heq]⟩)

/-- The highest common block is one block. -/
theorem highest_unique {above' below' : List (Str × BlockRecordV1)} {e' : Str × BlockRecordV1}
    (h : Highest cs new above e below) (h' : Highest cs new above' e' below') : e = e' := by
  have hfind : ∀ {above below : List (Str × BlockRecordV1)} {e : Str × BlockRecordV1},
      Highest cs new above e below →
        new.find? (fun a => decide (trim a.1 ∈ chainKeys cs)) = some e := by
    intro above below e h
    rw [List.find?_eq_some_iff_append]
    refine ⟨decide_eq_true h.common, above, below, h.split, fun a ha => ?_⟩
    simpa using h.above a ha
  exact Option.some.inj ((hfind h).symm.trans (hfind h'))

/-- Chains that spell their highest common block alike. -/
theorem returns_common (h : TwoTips L tip newTipId cs new z w) (hhigh : Highest cs new above e below)
    (he : e.1 ∈ cs.map Prod.fst) : ReturnsBranch L newTipId cs new := by
  refine ⟨cs.length + 1 + (new.length + 1), fun fuel hfuel => ?_⟩
  obtain ⟨extra, rfl⟩ := Nat.exists_eq_add_of_le hfuel
  have hchain := h.new
  rw [hhigh.split] at hchain
  have hlen := congrArg List.length hhigh.split
  rw [List.length_append, List.length_cons] at hlen
  obtain ⟨anc, hanc, hfind⟩ := h.find_eq (new.length + 1 + extra)
  have hfind' := hfind e.1
  have hcut : cs.length + 1 + (new.length + 1 + extra) =
      above.length + (cs.length + below.length + 2 + extra + 1) := by omega
  have hsame : cs.length + 1 + (new.length + 1) + extra =
      above.length + (cs.length + below.length + 2 + extra + 1) := by omega
  rw [hcut] at hfind'
  rw [hsame]
  refine ⟨e.1, (above.map Prod.snd).reverse, hfind' (hchain.walk_first _ ((hanc e.1).mpr (Or.inl he))
    fun a ha => h.notMem_of_apart hanc ?_ (notMem_of_key (hhigh.above a ha))), ?_, ?_, ?_⟩
  · rw [hhigh.split]
    exact List.mem_append_left _ ha
  · rw [branchFromAncestorToTip, hchain.branch_above e.1 _ [] fun a ha heq => ?_]
    · rw [List.append_nil]
      exact if_pos rfl
    · exact hhigh.above a ha (heq ▸ hhigh.common)
  · exact hchain.linkedUp rfl
  · exact Or.inl ⟨above, e, below, hhigh, rfl, rfl⟩

/-- Chains that spell their highest common block in two ways. -/
theorem not_returns_common (h : TwoTips L tip newTipId cs new z w)
    (hhigh : Highest cs new above e below) (he : e.1 ∉ cs.map Prod.fst) :
    ¬ ReturnsBranch L newTipId cs new := by
  rintro ⟨enough, hreturns⟩
  have hmem : e ∈ new := by
    rw [hhigh.split]
    exact List.mem_append_right above List.mem_cons_self
  obtain ⟨anc, hanc, hfind⟩ := h.find_eq (new.length + enough)
  obtain ⟨r, hr, hcases⟩ := h.new.walk_result h.names anc (cs.length + enough)
  have hfuel : new.length + 1 + (cs.length + enough) = cs.length + 1 + (new.length + enough) := by
    omega
  rw [hfuel] at hr
  obtain ⟨ancestor, branch, hok, -, -, hmeets⟩ :=
    hreturns (cs.length + 1 + (new.length + enough)) (by omega)
  rw [hfind r hr, Outcome.ok.injEq, Option.some.injEq] at hok
  -- What the walk returns names another block, or none.
  have hne : trim r ≠ trim e.1 := by
    rcases hcases with ⟨a, ha, rfl, hra⟩ | rfl | hw
    · intro heq
      rw [h.new.fst_inj h.names ha hmem heq] at hra
      exact h.notMem_of_apart hanc hmem he hra
    · exact fun heq => h.new.ne_blank h.names hmem heq.symm
    · exact h.new.end_ne h.names hmem hw
  rcases hmeets with ⟨above', e', below', hhigh', htrim, -⟩ | ⟨hapart, -, -⟩
  · rw [← hok, ← highest_unique hhigh hhigh'] at htrim
    exact hne htrim
  · exact hapart e hmem hhigh.common

/-- Chains without a common block, where the new one ends without a parent or with an empty one. -/
theorem returns_apart (h : TwoTips L tip newTipId cs new z w) (hapart : Apart cs new)
    (hw : w = none ∨ w = some []) : ReturnsBranch L newTipId cs new := by
  refine ⟨cs.length + 1 + (new.length + 1), fun fuel hfuel => ?_⟩
  obtain ⟨extra, rfl⟩ := Nat.exists_eq_add_of_le hfuel
  obtain ⟨anc, hanc, hfind⟩ := h.find_eq (new.length + 1 + extra)
  have hfind' := hfind []
  have hcut : cs.length + 1 + (new.length + 1 + extra) =
      new.length + (cs.length + 1 + extra + 1) := by omega
  have hsame : cs.length + 1 + (new.length + 1) + extra =
      new.length + (cs.length + 1 + extra + 1) := by omega
  rw [hcut] at hfind'
  rw [hsame]
  refine ⟨[], (new.map Prod.snd).reverse, hfind' ?_, ?_, ?_, Or.inr ⟨hapart, rfl, rfl⟩⟩
  · rw [h.new.walk_all _ fun a ha => h.notMem_of_apart hanc ha (notMem_of_key (hapart a ha)),
      walk_end h.names h.new.noParent]
    rcases hw with rfl | rfl
    · rw [Option.getD_none, ite_self]
    · rw [Option.getD_some, ite_self]
  · rw [branchFromAncestorToTip, h.new.branch_all _ fun a ha heq => ?_]
    · rcases hw with rfl | rfl
      · exact branchFrom_none L [] _ _
      · exact if_pos rfl
    · exact h.new.ne_blank h.names ha (by rw [heq]; rfl)
  · have hall : new = new ++ [] := (List.append_nil new).symm
    exact h.new.linkedUp hall

/-- Chains without a common block, where the first block of the new one names a parent that is no
block. -/
theorem not_returns_apart (h : TwoTips L tip newTipId cs new z w) (hapart : Apart cs new)
    (hw : ¬ (w = none ∨ w = some [])) : ¬ ReturnsBranch L newTipId cs new := by
  rintro ⟨enough, hreturns⟩
  obtain ⟨ancestor, branch, -, hbranch, -, hmeets⟩ :=
    hreturns (new.length + (enough + 1)) (by omega)
  rcases hmeets with ⟨above, e, below, hhigh, -, -⟩ | ⟨-, rfl, -⟩
  · refine hapart e ?_ hhigh.common
    rw [hhigh.split]
    exact List.mem_append_right above List.mem_cons_self
  · cases hp : w with
    | none => exact hw (Or.inl hp)
    | some p =>
      have hne : p ≠ [] := fun hnil => hw (Or.inr (hnil ▸ hp))
      rw [branchFromAncestorToTip, h.new.branch_all _ fun a ha heq => ?_, hp, branchFrom,
        if_neg hne, h.names.no_record h.new.noParent hp] at hbranch
      · cases hbranch
      · exact h.new.ne_blank h.names ha (by rw [heq]; rfl)

end TwoTips

/-- **The common ancestor and the branch above it** come out right exactly when both chains spell
the id of their highest common block in the same way and, if they have none, the first block of the
new chain has no parent or an empty one. -/
theorem common_ancestor_iff (h : TwoTips L tip newTipId cs new z w) :
    ReturnsBranch L newTipId cs new ↔ SpelledAlike cs new w := by
  rcases first_or_none (fun a => trim a.1 ∈ chainKeys cs) new with
    hapart | ⟨above, e, below, hsplit, he, habove⟩
  · constructor
    · intro hreturns
      refine ⟨fun above e below hhigh => ?_, fun _ => ?_⟩
      · refine absurd hhigh.common (hapart e ?_)
        rw [hhigh.split]
        exact List.mem_append_right above List.mem_cons_self
      · by_contra hw
        exact h.not_returns_apart hapart hw hreturns
    · exact fun halike => h.returns_apart hapart (halike.apart hapart)
  · have hhigh : Highest cs new above e below := ⟨hsplit, he, habove⟩
    constructor
    · intro hreturns
      refine ⟨fun above' e' below' hhigh' => ?_, fun hapart => ?_⟩
      · rw [← TwoTips.highest_unique hhigh hhigh']
        by_contra hne
        exact h.not_returns_common hhigh hne hreturns
      · refine absurd he (hapart e ?_)
        rw [hsplit]
        exact List.mem_append_right above List.mem_cons_self
    · exact fun halike => h.returns_common hhigh (halike.common above e below hhigh)

end Both

namespace Sample

def ancestorBlock (id : Str) (height : Nat) (parent : Option Str) : BlockRecordV1 where
  v := 1
  height := height
  blockId := id
  parentBlockId := parent
  producerId := "producer".toList
  txHashes := []
  txs := []
  stateRoot := "root".toList
  reward := ⟨0, 0, 0⟩
  caacWeight := 1
  cumulativeWeight := 1
  canonical := true
  tsMs := 1

/-- Two blocks on the first block `a`, the tip `b` and a fork `c`, and another first block `z`, which
names the all-zero id. -/
def ancestorLedger : Ledger :=
  { Ledger.empty with
    chainTip := Tree.empty.insert () ⟨1, 2, "b".toList, 2, "root".toList, 1⟩
    blocksById := (((Tree.empty.insert "a".toList (ancestorBlock "a".toList 1 none)).insert
      "b".toList (ancestorBlock "b".toList 2 (some "a".toList))).insert
      "c".toList (ancestorBlock "c".toList 2 (some "a".toList))).insert
      "z".toList (ancestorBlock "z".toList 1 (some genesisZeroParentBlockId)) }

theorem ancestor_names : NamesBlocks ancestorLedger := by
  have hall : ancestorLedger.blocksById.get [] = none ∧
    ancestorLedger.blocksById.get genesisZeroParentBlockId = none := by decide +kernel
  exact ⟨hall.1, hall.2⟩

/-- The chain of `b` or of `c`. -/
theorem ancestor_chain {id : Str} (hid : id = "b".toList ∨ id = "c".toList) :
    ParentChain ancestorLedger id [(id, ancestorBlock id 2 (some "a".toList)),
      ("a".toList, ancestorBlock "a".toList 1 none)] none := by
  have hall : ancestorLedger.blockRecordById "a".toList = some (ancestorBlock "a".toList 1 none) ∧
      ancestorLedger.blockRecordById "b".toList =
        some (ancestorBlock "b".toList 2 (some "a".toList)) ∧
      ancestorLedger.blockRecordById "c".toList =
        some (ancestorBlock "c".toList 2 (some "a".toList)) := by decide +kernel
  have hroot : ParentChain ancestorLedger "a".toList
      [("a".toList, ancestorBlock "a".toList 1 none)] none :=
    .root hall.1 rfl fun p hp => by cases hp
  rcases hid with rfl | rfl
  · exact .step hall.2.1 rfl hroot
  · exact .step hall.2.2 rfl hroot

theorem ancestor_tips (newTipId : Str) {new : List (Str × BlockRecordV1)} {w : Option Str}
    (hnew : ParentChain ancestorLedger (trim newTipId) new w) :
    TwoTips ancestorLedger ⟨1, 2, "b".toList, 2, "root".toList, 1⟩ newTipId
      [("b".toList, ancestorBlock "b".toList 2 (some "a".toList)),
        ("a".toList, ancestorBlock "a".toList 1 none)] new none w where
  names := ancestor_names
  current := rfl
  canonical := ancestor_chain (Or.inl rfl)
  new := hnew

end Sample

/-- The fork `c` meets the chain of the tip in its first block. -/
theorem common_ancestor_fork :
    ReturnsBranch Sample.ancestorLedger "c".toList
      [("b".toList, Sample.ancestorBlock "b".toList 2 (some "a".toList)),
        ("a".toList, Sample.ancestorBlock "a".toList 1 none)]
      [("c".toList, Sample.ancestorBlock "c".toList 2 (some "a".toList)),
        ("a".toList, Sample.ancestorBlock "a".toList 1 none)] := by
  refine (common_ancestor_iff (Sample.ancestor_tips "c".toList
    (Sample.ancestor_chain (Or.inr rfl)))).mpr ⟨?_, fun hapart => ?_⟩
  · intro above e below hhigh
    have hmem : e ∈ above ++ e :: below := List.mem_append_right above List.mem_cons_self
    rw [← hhigh.split] at hmem
    rcases List.mem_cons.mp hmem with rfl | hmem
    · exact absurd hhigh.common (by decide)
    · rw [List.mem_singleton.mp hmem]
      decide
  · exact absurd (by decide) (hapart _ (List.mem_cons_of_mem _ List.mem_cons_self))

/-- A first block that names the all-zero id: the walk of its branch asks for a block of that id. -/
theorem common_ancestor_zeroParent :
    TwoTips Sample.ancestorLedger ⟨1, 2, "b".toList, 2, "root".toList, 1⟩ "z".toList
      [("b".toList, Sample.ancestorBlock "b".toList 2 (some "a".toList)),
        ("a".toList, Sample.ancestorBlock "a".toList 1 none)]
      [("z".toList, Sample.ancestorBlock "z".toList 1 (some genesisZeroParentBlockId))] none
      (some genesisZeroParentBlockId) ∧
    ¬ ReturnsBranch Sample.ancestorLedger "z".toList
      [("b".toList, Sample.ancestorBlock "b".toList 2 (some "a".toList)),
        ("a".toList, Sample.ancestorBlock "a".toList 1 none)]
      [("z".toList, Sample.ancestorBlock "z".toList 1 (some genesisZeroParentBlockId))] := by
  have hstored : Sample.ancestorLedger.blockRecordById "z".toList =
    some (Sample.ancestorBlock "z".toList 1 (some genesisZeroParentBlockId)) := by decide +kernel
  have hzero : ParentChain Sample.ancestorLedger (trim "z".toList)
      [("z".toList, Sample.ancestorBlock "z".toList 1 (some genesisZeroParentBlockId))]
      (some genesisZeroParentBlockId) :=
    .root hstored rfl fun p hp => Or.inr (Option.some.inj hp).symm
  have htips := Sample.ancestor_tips "z".toList hzero
  refine ⟨htips, htips.not_returns_apart ?_ (by decide)⟩
  intro a ha
  rw [List.mem_singleton.mp ha]
  decide

end TetCore.Consensus
