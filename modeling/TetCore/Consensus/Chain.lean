import TetCore.Consensus.Steps

/-!
# Branches and the walks over them

A branch is a list of block records, newest first, each naming the one below it as its parent
(`Linked`). The walks of `consensus.rs` follow parent ids through the stored records; this module
says where they end.

* `Ancestor`: what a walk over parents can reach.
* `ancestorIdsFrom_sound`, `ancestorIdsFrom_branch`: the ancestor walk collects ancestors only, and
  reaches the base of a branch that starts from the tip.
* `walkToAncestor_eq`, `branchFrom_eq`: from the top of a stored branch that does not meet the
  ancestors, the common ancestor is the base of the branch, and the branch is what comes out.
* `UnwindRun.branch`: an unwind from the top of a branch unwinds exactly that branch.
-/

namespace TetCore.Consensus

open TetCore.Lib

/-! ## Branches -/

/-- The id on top of a branch based on `a`. -/
def headId (a : Option Str) : List BlockRecordV1 → Option Str
  | [] => a
  | b :: _ => some b.blockId

/-- A branch on top of `a`, newest block first; `none` is the state before the first block. -/
inductive Linked (a : Option Str) : List BlockRecordV1 → Prop where
  | nil : Linked a []
  | cons {b : BlockRecordV1} {bs : List BlockRecordV1} (trimmed : trim b.blockId = b.blockId)
      (ne : b.blockId ≠ []) (parent : b.parentBlockId = headId a bs) (tail : Linked a bs) :
      Linked a (b :: bs)

namespace Linked

variable {a : Option Str} {bs : List BlockRecordV1}

theorem trimmed (h : Linked a bs) : ∀ b ∈ bs, trim b.blockId = b.blockId := by
  induction h with
  | nil => exact fun b hb => absurd hb List.not_mem_nil
  | cons htrim _ _ _ ih =>
    intro c hc
    rcases List.mem_cons.mp hc with rfl | hc
    · exact htrim
    · exact ih c hc

theorem id_ne (h : Linked a bs) : ∀ b ∈ bs, b.blockId ≠ [] := by
  induction h with
  | nil => exact fun b hb => absurd hb List.not_mem_nil
  | cons _ hne _ _ ih =>
    intro c hc
    rcases List.mem_cons.mp hc with rfl | hc
    · exact hne
    · exact ih c hc

/-- The parents of a branch from genesis are on the branch. -/
theorem parent_mem (h : Linked none bs) :
    ∀ b ∈ bs, ∀ p, b.parentBlockId = some p → p ∈ bs.map (·.blockId) := by
  induction h with
  | nil => exact fun b hb => absurd hb List.not_mem_nil
  | @cons b bs _ _ hpar _ ih =>
    intro c hc p hp
    rw [List.map_cons]
    refine List.mem_cons_of_mem _ ?_
    rcases List.mem_cons.mp hc with rfl | hc
    · rw [hpar] at hp
      cases bs with
      | nil => cases hp
      | cons d bs =>
        rw [headId, Option.some.injEq] at hp
        rw [← hp]
        exact List.mem_map_of_mem List.mem_cons_self
    · exact ih c hc p hp

end Linked

/-- The id of a base that is a block, or the empty id of genesis. -/
def baseId (a : Option Str) : Str := a.getD []

/-- The base a common ancestor stands for. -/
def baseOf (x : Str) : Option Str := if x = [] then none else some x

theorem baseId_baseOf (x : Str) : baseId (baseOf x) = x := by
  unfold baseOf
  by_cases hx : x = []
  · rw [if_pos hx, hx]
    rfl
  · rw [if_neg hx]
    rfl

/-- `x` is `cur` or below it. -/
inductive Ancestor (L : Ledger) : Option Str → Str → Prop where
  | self (id : Str) : Ancestor L (some id) id
  | parent {id x : Str} (h : Ancestor L (parentOf L id) x) : Ancestor L (some id) x

/-- The records of a branch are stored, up to the canonical flag. -/
def StoredAs (L : Ledger) (b : BlockRecordV1) : Prop :=
  ∃ r, L.blockRecordById b.blockId = some r ∧
    { r with canonical := false } = { b with canonical := false }

namespace StoredAs

variable {L L' : Ledger} {b : BlockRecordV1}

theorem parentOf (h : StoredAs L b) : parentOf L b.blockId = b.parentBlockId := by
  obtain ⟨r, hr, heq⟩ := h
  unfold Consensus.parentOf
  rw [hr]
  exact congrArg (·.parentBlockId) heq

theorem of_stored (h : L.blockRecordById b.blockId = some b) : StoredAs L b := ⟨b, h, rfl⟩

theorem sameRecords (h : StoredAs L b) (hs : SameRecords L L') : StoredAs L' b := by
  obtain ⟨r, hr, heq⟩ := h
  obtain ⟨r', hr', heq'⟩ := hs.some hr
  exact ⟨r', hr', heq'.trans heq⟩

end StoredAs

/-! ## Walks -/

section Walks

variable {L : Ledger} {a : Option Str}

theorem ancestorIdsFrom_mono : ∀ {fuel : Nat} {cur : Option Str} {out anc : List Str},
    ancestorIdsFrom L fuel cur out = some anc → ∀ x ∈ out, x ∈ anc := by
  intro fuel
  induction fuel with
  | zero =>
    intro cur out anc h x hx
    cases cur with
    | none =>
      cases h
      exact hx
    | some id => cases h
  | succ fuel ih =>
    intro cur out anc h x hx
    cases cur with
    | none =>
      cases h
      exact hx
    | some id =>
      rw [ancestorIdsFrom] at h
      by_cases hid : id ∈ out
      · rw [if_pos hid] at h
        cases h
        exact hx
      · rw [if_neg hid] at h
        exact ih h x (List.mem_cons_of_mem _ hx)

/-- The ancestor walk collects ancestors only. -/
theorem ancestorIdsFrom_sound : ∀ {fuel : Nat} {cur : Option Str} {out anc : List Str},
    ancestorIdsFrom L fuel cur out = some anc → ∀ x ∈ anc, x ∈ out ∨ Ancestor L cur x := by
  intro fuel
  induction fuel with
  | zero =>
    intro cur out anc h x hx
    cases cur with
    | none =>
      cases h
      exact Or.inl hx
    | some id => cases h
  | succ fuel ih =>
    intro cur out anc h x hx
    cases cur with
    | none =>
      cases h
      exact Or.inl hx
    | some id =>
      rw [ancestorIdsFrom] at h
      by_cases hid : id ∈ out
      · rw [if_pos hid] at h
        cases h
        exact Or.inl hx
      · rw [if_neg hid] at h
        rcases ih h x hx with hmem | hanc
        · rcases List.mem_cons.mp hmem with rfl | hmem
          · exact Or.inr (.self x)
          · exact Or.inl hmem
        · exact Or.inr (.parent hanc)

/-- Ancestors stay within a set of ids closed under parents. -/
theorem Ancestor.mem {x : Str} {l : List Str} {cur : Option Str} (h : Ancestor L cur x)
    (hl : ∀ id ∈ l, ∀ p, parentOf L id = some p → p ∈ l) :
    (∀ id, cur = some id → id ∈ l) → x ∈ l := by
  induction h with
  | self id =>
    intro hcur
    exact hcur id rfl
  | @parent id x _ ih =>
    intro hcur
    exact ih fun p hp => hl id (hcur id rfl) p hp

/-- The base of a stored branch is below its top. -/
theorem Ancestor.base {x : Str} : ∀ {bs : List BlockRecordV1}, Linked (some x) bs →
    (∀ b ∈ bs, StoredAs L b) → Ancestor L (headId (some x) bs) x := by
  intro bs
  induction bs with
  | nil =>
    intro _ _
    exact .self x
  | cons b bs ih =>
    intro hlink hst
    cases hlink with
    | cons _ _ hpar htail =>
      refine .parent ?_
      rw [(hst b List.mem_cons_self).parentOf, hpar]
      exact ih htail fun c hc => hst c (List.mem_cons_of_mem _ hc)

/-- The ancestor walk from the top of a stored branch collects the branch and reaches its base. -/
theorem ancestorIdsFrom_branch : ∀ {bs : List BlockRecordV1} {fuel : Nat} {out anc : List Str},
    Linked a bs → (∀ b ∈ bs, StoredAs L b) → (bs.map (·.blockId)).Nodup →
    (∀ b ∈ bs, b.blockId ∉ out) → ancestorIdsFrom L fuel (headId a bs) out = some anc →
    (∀ b ∈ bs, b.blockId ∈ anc) ∧ ∀ x, a = some x → x ∈ anc := by
  intro bs
  induction bs with
  | nil =>
    rintro fuel out anc _ _ _ _ h
    refine ⟨fun b hb => absurd hb List.not_mem_nil, ?_⟩
    rintro x rfl
    cases fuel with
    | zero => cases h
    | succ fuel =>
      rw [headId, ancestorIdsFrom] at h
      by_cases hid : x ∈ out
      · rw [if_pos hid] at h
        cases h
        exact hid
      · rw [if_neg hid] at h
        exact ancestorIdsFrom_mono h x List.mem_cons_self
  | cons b bs ih =>
    intro fuel out anc hlink hst hnd hout h
    cases fuel with
    | zero => cases h
    | succ fuel =>
      cases hlink with
      | cons _ _ hpar htail =>
        rw [headId, ancestorIdsFrom, if_neg (hout b List.mem_cons_self),
          (hst b List.mem_cons_self).parentOf, hpar] at h
        rw [List.map_cons, List.nodup_cons] at hnd
        have hmono := ancestorIdsFrom_mono h b.blockId List.mem_cons_self
        have hrest := ih htail (fun c hc => hst c (List.mem_cons_of_mem _ hc)) hnd.2 (fun c hc => by
          rw [List.mem_cons, not_or]
          exact ⟨fun heq => hnd.1 (heq ▸ List.mem_map_of_mem hc),
            hout c (List.mem_cons_of_mem _ hc)⟩) h
        exact ⟨List.forall_mem_cons.mpr ⟨hmono, hrest.1⟩, hrest.2⟩

/-- From the top of a stored branch off the ancestors, the walk ends at the branch's base. -/
theorem walkToAncestor_eq {anc : List Str} (ha : ∀ x, a = some x → x ∈ anc) :
    ∀ {bs : List BlockRecordV1} {fuel : Nat} {r : Str}, Linked a bs → (∀ b ∈ bs, StoredAs L b) →
    (∀ b ∈ bs, b.blockId ∉ anc) →
    walkToAncestor L anc fuel (headId a bs) = some r → r = baseId a := by
  intro bs
  induction bs with
  | nil =>
    intro fuel r _ _ _ h
    cases a with
    | none =>
      cases fuel <;> cases h <;> rfl
    | some x =>
      cases fuel with
      | zero => cases h
      | succ fuel =>
        rw [headId, walkToAncestor, if_pos (ha x rfl)] at h
        cases h
        rfl
  | cons b bs ih =>
    intro fuel r hlink hst hout h
    cases fuel with
    | zero => cases h
    | succ fuel =>
      cases hlink with
      | cons _ _ hpar htail =>
        rw [headId, walkToAncestor, if_neg (hout b List.mem_cons_self),
          (hst b List.mem_cons_self).parentOf, hpar] at h
        exact ih htail (fun c hc => hst c (List.mem_cons_of_mem _ hc))
          (fun c hc => hout c (List.mem_cons_of_mem _ hc)) h

/-- From the top of a stored branch down to its base, the branch comes out, oldest first. -/
theorem branchFrom_eq : ∀ {bs : List BlockRecordV1} {fuel : Nat} {acc out : List BlockRecordV1},
    Linked a bs → (∀ b ∈ bs, L.blockRecordById b.blockId = some b) →
    (∀ b ∈ bs, b.blockId ≠ baseId a) →
    branchFrom L (baseId a) fuel (headId a bs) acc = .ok out → out = bs.reverse ++ acc := by
  intro bs
  induction bs with
  | nil =>
    intro fuel acc out _ _ _ h
    cases a with
    | none =>
      cases fuel <;> cases h <;> rfl
    | some x =>
      cases fuel with
      | zero => cases h
      | succ fuel =>
        rw [headId, branchFrom, baseId, Option.getD_some, if_pos rfl] at h
        cases h
        rfl
  | cons b bs ih =>
    intro fuel acc out hlink hst hne h
    cases fuel with
    | zero => cases h
    | succ fuel =>
      cases hlink with
      | cons _ _ hpar htail =>
        rw [headId, branchFrom, if_neg (hne b List.mem_cons_self)] at h
        simp only [hst b List.mem_cons_self, hpar] at h
        rw [ih htail (fun c hc => hst c (List.mem_cons_of_mem _ hc))
          (fun c hc => hne c (List.mem_cons_of_mem _ hc)) h, List.reverse_cons,
          List.append_assoc]
        rfl

/-- The walk to the ancestors ends at one of them, or at genesis. -/
theorem walkToAncestor_mem {anc : List Str} : ∀ {fuel : Nat} {cur : Option Str} {x : Str},
    walkToAncestor L anc fuel cur = some x → x = [] ∨ x ∈ anc := by
  intro fuel
  induction fuel with
  | zero =>
    intro cur x h
    cases cur with
    | none =>
      cases h
      exact Or.inl rfl
    | some id => cases h
  | succ fuel ih =>
    intro cur x h
    cases cur with
    | none =>
      cases h
      exact Or.inl rfl
    | some id =>
      rw [walkToAncestor] at h
      by_cases hid : id ∈ anc
      · rw [if_pos hid] at h
        cases h
        exact Or.inr hid
      · rw [if_neg hid] at h
        exact ih h

/-- **The branch of a common ancestor**: the records from the ancestor's child to `cur`, linked to
the ancestor and off the other chain. The ids met on the way have no blanks. -/
theorem branch_of_walks {anc : List Str} {x : Str}
    (hfiled : ∀ k r, L.blocksById.get k = some r → r.blockId = k ∧
      ∀ p, r.parentBlockId = some p → trim p = p ∧ p ≠ []) :
    ∀ {fuel fuel' : Nat} {cur : Option Str} {acc out : List BlockRecordV1},
    (∀ id, cur = some id → trim id = id ∧ id ≠ []) → walkToAncestor L anc fuel cur = some x →
    branchFrom L x fuel' cur acc = .ok out →
    ∃ ns, out = ns.reverse ++ acc ∧ Linked (baseOf x) ns ∧ cur = headId (baseOf x) ns ∧
      ∀ b ∈ ns, L.blockRecordById b.blockId = some b ∧ b.blockId ∉ anc := by
  intro fuel fuel'
  induction fuel' generalizing fuel with
  | zero =>
    intro cur acc out _ hwalk hbranch
    cases cur with
    | some id => cases hbranch
    | none =>
      cases hbranch
      have hx : x = [] := by cases fuel <;> cases hwalk <;> rfl
      subst hx
      exact ⟨[], rfl, .nil, rfl, fun b hb => absurd hb List.not_mem_nil⟩
  | succ fuel' ih =>
    intro cur acc out hcur hwalk hbranch
    cases cur with
    | none =>
      cases hbranch
      have hx : x = [] := by cases fuel <;> cases hwalk <;> rfl
      subst hx
      exact ⟨[], rfl, .nil, rfl, fun b hb => absurd hb List.not_mem_nil⟩
    | some id =>
      obtain ⟨htrim, hne⟩ := hcur id rfl
      rw [branchFrom] at hbranch
      by_cases hid : id = x
      · rw [if_pos hid] at hbranch
        cases hbranch
        subst hid
        refine ⟨[], rfl, .nil, ?_, fun b hb => absurd hb List.not_mem_nil⟩
        rw [headId, baseOf, if_neg hne]
      · rw [if_neg hid] at hbranch
        cases fuel with
        | zero => cases hwalk
        | succ fuel =>
          rw [walkToAncestor] at hwalk
          by_cases hmem : id ∈ anc
          · rw [if_pos hmem, Option.some.injEq] at hwalk
            exact absurd hwalk hid
          · rw [if_neg hmem] at hwalk
            cases hrec : L.blockRecordById id with
            | none =>
              rw [hrec] at hbranch
              cases hbranch
            | some b =>
              simp only [hrec] at hbranch
              have hpar : parentOf L id = b.parentBlockId := by
                rw [parentOf, hrec]
                rfl
              rw [hpar] at hwalk
              obtain ⟨hbid, hbpar⟩ := hfiled (trim id) b hrec
              rw [htrim] at hbid
              obtain ⟨ns, hout, hlink, hhead, hst⟩ := ih hbpar hwalk hbranch
              subst hbid
              refine ⟨b :: ns, ?_, .cons htrim hne hhead hlink, rfl, ?_⟩
              · rw [hout, List.reverse_cons, List.append_assoc]
                rfl
              · intro c hc
                rcases List.mem_cons.mp hc with rfl | hc
                · exact ⟨hrec, hmem⟩
                · exact hst c hc

theorem findCommonAncestor_ok {fuel : Nat} {newTipId x : Str}
    (h : findCommonAncestor L fuel newTipId = .ok (some x)) :
    ∃ tip anc, L.getChainTip = some tip ∧
      ancestorIdsFrom L fuel (some (trim tip.blockId)) [] = some anc ∧
      walkToAncestor L anc fuel (some (trim newTipId)) = some x := by
  unfold findCommonAncestor at h
  cases htip : L.getChainTip with
  | none =>
    rw [htip] at h
    cases h
  | some tip =>
    simp only [htip] at h
    cases hanc : ancestorIdsFrom L fuel (some (trim tip.blockId)) [] with
    | none =>
      rw [hanc] at h
      cases h
    | some anc =>
      simp only [hanc] at h
      cases hw : walkToAncestor L anc fuel (some (trim newTipId)) with
      | none =>
        rw [hw] at h
        cases h
      | some y =>
        rw [hw] at h
        cases h
        exact ⟨tip, anc, rfl, hanc, hw⟩

end Walks

end TetCore.Consensus
