import TetCore.Consensus.Block
import TetCore.Ledger.Sample
import Mathlib.Data.List.TakeWhile

/-!
# Leader election

Model of the two modes of leader election of `consensus.rs` over any weights, and of
`is_leader_with_mode`. A validator set is sorted and has every id once, trimmed and in ASCII lower
case, so it depends on the ids it is made of alone; the leader is the first of the smallest scores.

* `Respelled`: the same ids in another order, repeated, in other ASCII case, or with blanks around
  them.
* `validatorSet_congr`: lists with the same normalized ids make the same set.
* `caacLeader_iff`: the leader in CAAC mode is the least by score and then by id.
* `leader_election`: respelled ids make the same set, exactly one member of a set is its leader, and
  a higher weight takes the leadership from others only.
-/

namespace TetCore.Consensus

open TetCore.Lib

/-! ## The model -/

/-- `CaacLeaderElection::leader_for_height`, with the weights of a provider. -/
def caacLeaderForHeight (W : World) (consensusWeight : Str → Nat) (height : Nat)
    (validators : List Str) : Option Str :=
  let score := fun id => weightedScore W height id (consensusWeight id)
  minBy (fun a b => (compare (score a) (score b)).then (compare a b)) validators

/-- `LedgerCaacWeightProvider::consensus_weight`. -/
def ledgerConsensusWeight (L : Ledger) (validatorId : Str) : Nat :=
  caacWeightFromRecord (L.caacGetWorkerRecord validatorId)

/-- `is_leader_with_mode`. -/
def isLeaderWithMode (W : World) (L : Ledger) (height : Nat) (localNodeId : Str)
    (validators : List Str) : Bool :=
  leaderForHeight W L height validators == some (trimLower localNodeId)

/-- The same ids, spelled or listed in another way. -/
inductive Respelled : List Str → List Str → Prop where
  | perm {ids ids' : List Str} (h : ids.Perm ids') : Respelled ids ids'
  | again {ids : List Str} {id : Str} (h : id ∈ ids) : Respelled ids (id :: ids)
  | recased {ids ids' : List Str}
      (h : List.Forall₂ (fun a b => toAsciiLowercase a = toAsciiLowercase b) ids ids') :
      Respelled ids ids'
  | padded {ids ids' : List Str}
      (h : List.Forall₂ (fun a b => ∃ l r, (∀ c ∈ l, isWhitespace c = true) ∧
        (∀ c ∈ r, isWhitespace c = true) ∧ b = l ++ a ++ r) ids ids') : Respelled ids ids'
  | symm {ids ids' : List Str} (h : Respelled ids ids') : Respelled ids' ids
  | trans {ids ids' ids'' : List Str} (h : Respelled ids ids') (h' : Respelled ids' ids'') :
      Respelled ids ids''

/-! ## Spelling -/

theorem trim_append_blank {l r : Str} (a : Str) (hl : ∀ c ∈ l, isWhitespace c = true)
    (hr : ∀ c ∈ r, isWhitespace c = true) : trim (l ++ a ++ r) = trim a := by
  have hr' : r.dropWhile isWhitespace = [] := List.dropWhile_eq_nil_iff.mpr hr
  unfold trim
  rw [List.append_assoc, List.dropWhile_append_of_pos hl, List.dropWhile_append]
  by_cases hnil : (a.dropWhile isWhitespace).isEmpty
  · rw [if_pos hnil, hr', List.isEmpty_iff.mp hnil]
  · have hrev : ∀ c ∈ r.reverse, isWhitespace c = true := fun c hc =>
      hr c (List.mem_reverse.mp hc)
    rw [if_neg hnil, List.reverse_append, List.dropWhile_append_of_pos hrev]

theorem trimLower_recased {a b : Str} (h : toAsciiLowercase a = toAsciiLowercase b) :
    trimLower a = trimLower b := by
  unfold trimLower
  rw [← trim_toAsciiLowercase, ← trim_toAsciiLowercase, h]

theorem consensusIdentity_congr {a b : Str} (h : trimLower a = trimLower b) :
    consensusIdentity a = consensusIdentity b := by
  unfold consensusIdentity
  rw [h]

theorem filterMap_forall₂ {R : Str → Str → Prop} {ids ids' : List Str}
    (h : List.Forall₂ R ids ids') (hR : ∀ a b, R a b → trimLower a = trimLower b) :
    ids.filterMap consensusIdentity = ids'.filterMap consensusIdentity := by
  induction h with
  | nil => rfl
  | cons hab _ ih =>
    simp only [List.filterMap_cons, consensusIdentity_congr (hR _ _ hab), ih]

/-- Respelled ids are the same ids. -/
theorem Respelled.mem_iff {ids ids' : List Str} (h : Respelled ids ids') (id : Str) :
    id ∈ ids.filterMap consensusIdentity ↔ id ∈ ids'.filterMap consensusIdentity := by
  induction h with
  | perm h => exact (h.filterMap consensusIdentity).mem_iff
  | @again ids a h =>
    simp only [List.mem_filterMap, List.mem_cons]
    constructor
    · rintro ⟨b, hb, heq⟩
      exact ⟨b, Or.inr hb, heq⟩
    · rintro ⟨b, rfl | hb, heq⟩
      · exact ⟨b, h, heq⟩
      · exact ⟨b, hb, heq⟩
  | recased h => rw [filterMap_forall₂ h fun a b hab => trimLower_recased hab]
  | padded h =>
    rw [filterMap_forall₂ h]
    rintro a b ⟨l, r, hl, hr, rfl⟩
    unfold trimLower
    rw [trim_append_blank a hl hr]
  | symm _ ih => exact ih.symm
  | trans _ _ ih ih' => exact ih.trans ih'

/-! ## The set -/

/-- `a ≤ b` of the order of the ids. -/
def idLe (a b : Str) : Prop := compare a b ≠ .gt

instance : DecidableRel idLe := fun a b => inferInstanceAs (Decidable (compare a b ≠ .gt))

theorem idLe_iff {a b : Str} : idLe a b ↔ (compare a b).isLE = true :=
  Ordering.isLE_iff_ne_gt.symm

instance : Std.Antisymm idLe where
  antisymm a b hab hba := by
    rw [idLe_iff] at hab hba
    exact Std.LawfulEqCmp.eq_of_compare (Std.OrientedCmp.isLE_antisymm hab hba)

instance : IsTrans Str idLe where
  trans a b c hab hbc := by
    rw [idLe_iff] at hab hbc ⊢
    exact Std.TransCmp.isLE_trans hab hbc

instance : Std.Total idLe where
  total a b := by
    have hswap : compare a b = (compare b a).swap := Std.OrientedCmp.eq_swap
    rw [idLe_iff, idLe_iff, hswap]
    cases compare b a <;> decide

theorem sortDedup_eq (l : List Str) : Ledger.sortDedup l = (l.insertionSort idLe).dedup := by
  show (l.insertionSort idLe).destutter (· ≠ ·) = _
  exact (List.pairwise_insertionSort idLe l).destutter_eq_dedup

theorem mem_sortDedup {l : List Str} {a : Str} : a ∈ Ledger.sortDedup l ↔ a ∈ l := by
  rw [sortDedup_eq, List.mem_dedup, List.mem_insertionSort]

/-- A sorted list without repetitions depends on its members alone. -/
theorem sortDedup_congr {l l' : List Str} (h : ∀ a, a ∈ l ↔ a ∈ l') :
    Ledger.sortDedup l = Ledger.sortDedup l' := by
  have hsorted : ∀ m : List Str, (m.insertionSort idLe).dedup.Pairwise idLe := fun m =>
    (List.pairwise_insertionSort idLe m).sublist (List.dedup_sublist _)
  have hperm : (Ledger.sortDedup l).Perm (Ledger.sortDedup l') := by
    rw [sortDedup_eq, sortDedup_eq, List.perm_ext_iff_of_nodup (List.nodup_dedup _)
      (List.nodup_dedup _)]
    intro a
    rw [← sortDedup_eq, ← sortDedup_eq, mem_sortDedup, mem_sortDedup, h]
  rw [sortDedup_eq, sortDedup_eq] at hperm ⊢
  exact hperm.eq_of_pairwise' (hsorted l) (hsorted l')

/-- **Respelled ids make the same set.** -/
theorem validatorSet_congr {ids ids' : List Str} (h : Respelled ids ids') :
    validatorSet ids = validatorSet ids' := sortDedup_congr h.mem_iff

/-- The members of a set are normalized. -/
theorem trimLower_of_mem {ids : List Str} {id : Str} (h : id ∈ validatorSet ids) :
    trimLower id = id := by
  obtain ⟨a, -, ha⟩ := List.mem_filterMap.mp (mem_sortDedup.mp h)
  unfold consensusIdentity at ha
  simp only at ha
  split at ha
  · cases ha
  · rw [Option.some.injEq] at ha
    rw [← ha, trimLower_trimLower]

/-! ## The least score -/

section Least

variable {α : Type} {cmp : α → α → Ordering} [Std.TransCmp cmp]

theorem foldl_least (xs : List α) (x : α) :
    xs.foldl (fun m y => if cmp m y = .gt then y else m) x ∈ x :: xs ∧
      ∀ y ∈ x :: xs, (cmp (xs.foldl (fun m y => if cmp m y = .gt then y else m) x) y).isLE := by
  induction xs generalizing x with
  | nil =>
    refine ⟨List.mem_cons_self, fun y hy => ?_⟩
    have hself : cmp x x = .eq := Std.ReflCmp.compare_self
    rw [List.mem_singleton.mp hy, List.foldl_nil, hself]
    rfl
  | cons a xs ih =>
    rw [List.foldl_cons]
    by_cases hgt : cmp x a = .gt
    · rw [if_pos hgt]
      obtain ⟨hmem, hle⟩ := ih a
      have hax : (cmp a x).isLE := by
        have hswap : cmp a x = (cmp x a).swap := Std.OrientedCmp.eq_swap
        rw [hswap, hgt]
        rfl
      refine ⟨List.mem_cons_of_mem x hmem, fun y hy => ?_⟩
      rcases List.mem_cons.mp hy with rfl | hy
      · exact Std.TransCmp.isLE_trans (hle a List.mem_cons_self) hax
      · exact hle y hy
    · rw [if_neg hgt]
      obtain ⟨hmem, hle⟩ := ih x
      have hxa : (cmp x a).isLE := Ordering.isLE_iff_ne_gt.mpr hgt
      constructor
      · rcases List.mem_cons.mp hmem with heq | hmem
        · rw [heq]
          exact List.mem_cons_self
        · exact List.mem_cons_of_mem x (List.mem_cons_of_mem a hmem)
      · intro y hy
        rcases List.mem_cons.mp hy with rfl | hy
        · exact hle y List.mem_cons_self
        · rcases List.mem_cons.mp hy with rfl | hy
          · exact Std.TransCmp.isLE_trans (hle x List.mem_cons_self) hxa
          · exact hle y (List.mem_cons_of_mem x hy)

theorem minBy_some {l : List α} {m : α} (h : minBy cmp l = some m) :
    m ∈ l ∧ ∀ y ∈ l, (cmp m y).isLE := by
  cases l with
  | nil => cases h
  | cons x xs =>
    rw [minBy, Option.some.injEq] at h
    rw [← h]
    exact foldl_least xs x

theorem minBy_ne_none {l : List α} (h : l ≠ []) (cmp : α → α → Ordering) :
    ∃ m, minBy cmp l = some m := by
  cases l with
  | nil => exact absurd rfl h
  | cons x xs => exact ⟨_, rfl⟩

/-- In an order that tells elements apart the least one is the only one below all. -/
theorem minBy_iff [Std.LawfulEqCmp cmp] {l : List α} {m : α} :
    minBy cmp l = some m ↔ m ∈ l ∧ ∀ y ∈ l, (cmp m y).isLE := by
  refine ⟨minBy_some, fun ⟨hmem, hle⟩ => ?_⟩
  obtain ⟨m', hm'⟩ := minBy_ne_none (List.ne_nil_of_mem hmem) cmp
  obtain ⟨hmem', hle'⟩ := minBy_some hm'
  rw [hm', Std.LawfulEqCmp.eq_of_compare
    (Std.OrientedCmp.isLE_antisymm (hle' m hmem) (hle m' hmem'))]

end Least

/-! ## Leaders -/

section Leaders

variable {W : World} {L : Ledger} {height : Nat} {validators : List Str}

/-- The order of CAAC mode: by score, then by id. -/
def caacCmp (W : World) (consensusWeight : Str → Nat) (height : Nat) (a b : Str) : Ordering :=
  (compare (weightedScore W height a (consensusWeight a))
    (weightedScore W height b (consensusWeight b))).then (compare a b)

instance (wt : Str → Nat) : Std.TransCmp (caacCmp W wt height) :=
  inferInstanceAs (Std.TransCmp
    (compareLex (compareOn fun id => weightedScore W height id (wt id)) compare))

instance (wt : Str → Nat) : Std.LawfulEqCmp (caacCmp W wt height) where
  compare_self := Std.ReflCmp.compare_self
  eq_of_compare h := Std.LawfulEqCmp.eq_of_compare (Ordering.then_eq_eq.mp h).2

theorem isLE_caacCmp {wt : Str → Nat} {a b : Str} : (caacCmp W wt height a b).isLE ↔
    weightedScore W height a (wt a) < weightedScore W height b (wt b) ∨
      weightedScore W height a (wt a) = weightedScore W height b (wt b) ∧
        (compare a b).isLE := by
  unfold caacCmp
  rcases Nat.lt_trichotomy (weightedScore W height a (wt a)) (weightedScore W height b (wt b)) with
    hlt | heq | hgt
  · rw [compare_lt_iff_lt.mpr hlt]
    exact iff_of_true rfl (Or.inl hlt)
  · rw [compare_eq_iff_eq.mpr heq]
    exact ⟨fun h => Or.inr ⟨heq, h⟩, fun h => (h.resolve_left (Nat.not_lt.mpr heq.ge)).2⟩
  · rw [compare_gt_iff_gt.mpr hgt]
    refine iff_of_false Bool.false_ne_true ?_
    rintro (h | ⟨h, -⟩)
    · omega
    · omega

/-- **The leader in CAAC mode** is the member of the least score, of the least id among equal
scores. -/
theorem caacLeader_iff {wt : Str → Nat} {leader : Str} :
    caacLeaderForHeight W wt height validators = some leader ↔
      leader ∈ validators ∧ ∀ id ∈ validators,
        weightedScore W height leader (wt leader) < weightedScore W height id (wt id) ∨
          weightedScore W height leader (wt leader) = weightedScore W height id (wt id) ∧
            (compare leader id).isLE := by
  have hmin : minBy (caacCmp W wt height) validators = some leader ↔
      leader ∈ validators ∧ ∀ id ∈ validators, (caacCmp W wt height leader id).isLE := minBy_iff
  have hdef : caacLeaderForHeight W wt height validators =
    minBy (caacCmp W wt height) validators := rfl
  rw [hdef, hmin]
  simp only [isLE_caacCmp]

/-- A higher weight never gives a higher score. -/
theorem weightedScore_anti (W : World) (height : Nat) (id : Str) {w w' : Nat} (h : w ≤ w') :
    weightedScore W height id w' ≤ weightedScore W height id w :=
  Nat.div_le_div_left (max_le_max h le_rfl) (Nat.lt_of_lt_of_le Nat.one_pos (Nat.le_max_right w 1))

/-- The members of a set other than `v` keep their weights, and `v` gets a weight at least as
high. -/
structure Raised (validators : List Str) (v : Str) (wt wt' : Str → Nat) : Prop where
  raised : wt v ≤ wt' v
  same : ∀ id ∈ validators, id ≠ v → wt' id = wt id

variable {wt wt' : Str → Nat} {v : Str}

/-- A raised leader stays the leader. -/
theorem Raised.leader (h : Raised validators v wt wt')
    (hleader : caacLeaderForHeight W wt height validators = some v) :
    caacLeaderForHeight W wt' height validators = some v := by
  rw [caacLeader_iff] at hleader ⊢
  have hscore := weightedScore_anti W height v h.raised
  refine ⟨hleader.1, fun id hid => ?_⟩
  by_cases hne : id = v
  · rw [hne]
    refine Or.inr ⟨rfl, ?_⟩
    have hself : compare v v = .eq := Std.ReflCmp.compare_self
    rw [hself]
    rfl
  · rw [h.same id hid hne]
    rcases hleader.2 id hid with hlt | ⟨heq, hle⟩
    · exact Or.inl (by omega)
    · rcases Nat.lt_or_eq_of_le hscore with hlt | hsame
      · exact Or.inl (by omega)
      · exact Or.inr ⟨hsame.trans heq, hle⟩

/-- Whoever else leads after the raise led before it. -/
theorem Raised.other (h : Raised validators v wt wt') {u : Str} (hne : u ≠ v)
    (hleader : caacLeaderForHeight W wt' height validators = some u) :
    caacLeaderForHeight W wt height validators = some u := by
  rw [caacLeader_iff] at hleader ⊢
  have hscore := weightedScore_anti W height v h.raised
  refine ⟨hleader.1, fun id hid => ?_⟩
  have hu := h.same u hleader.1 hne
  have hcmp := hleader.2 id hid
  rw [hu] at hcmp
  by_cases hid' : id = v
  · rw [hid'] at hcmp ⊢
    rcases hcmp with hlt | ⟨heq, hle⟩
    · exact Or.inl (by omega)
    · rcases Nat.lt_or_eq_of_le hscore with hlt | hsame
      · exact Or.inl (by omega)
      · exact Or.inr ⟨heq.trans hsame, hle⟩
  · rw [h.same id hid hid'] at hcmp
    exact hcmp

theorem leaderForHeight_caac (hmode : W.leaderMode = .caac) (L : Ledger) (height : Nat)
    (validators : List Str) : leaderForHeight W L height validators =
      caacLeaderForHeight W (ledgerConsensusWeight L) height validators := by
  unfold leaderForHeight
  rw [hmode]
  rfl

theorem byteCmp_trans (f : Str → Bytes) :
    Std.TransCmp fun a b => compare (f a) (f b) :=
  inferInstanceAs (Std.TransCmp (compareOn f))

/-- A set with a member has a leader, which is one of its members. -/
theorem exists_leader (W : World) (L : Ledger) (height : Nat) (h : validators ≠ []) :
    ∃ v ∈ validators, leaderForHeight W L height validators = some v := by
  cases hmode : W.leaderMode with
  | hash =>
    have := byteCmp_trans (leaderScore W height)
    obtain ⟨v, hv⟩ := minBy_ne_none h fun a b =>
      compare (leaderScore W height a) (leaderScore W height b)
    refine ⟨v, (minBy_some hv).1, ?_⟩
    unfold leaderForHeight
    rw [hmode]
    exact hv
  | caac =>
    obtain ⟨v, hv⟩ := minBy_ne_none h (caacCmp W (ledgerConsensusWeight L) height)
    refine ⟨v, (minBy_some hv).1, ?_⟩
    rw [leaderForHeight_caac hmode]
    exact hv

end Leaders

/-- **Leader election**: respelled ids make the same set with the same leaders; exactly one member
of a set is its leader; in CAAC mode a raised weight takes no leadership from its validator and
gives none to another. -/
theorem leader_election :
    (∀ ids ids', Respelled ids ids' → validatorSet ids = validatorSet ids' ∧
      ∀ W L height, leaderForHeight W L height (validatorSet ids) =
        leaderForHeight W L height (validatorSet ids')) ∧
    (∀ ids W L height, validatorSet ids ≠ [] →
      ∃! v, v ∈ validatorSet ids ∧ isLeaderWithMode W L height v (validatorSet ids) = true) ∧
    (∀ ids W height wt wt' v, Raised (validatorSet ids) v wt wt' →
      (caacLeaderForHeight W wt height (validatorSet ids) = some v →
        caacLeaderForHeight W wt' height (validatorSet ids) = some v) ∧
      ∀ u, u ≠ v → caacLeaderForHeight W wt' height (validatorSet ids) = some u →
        caacLeaderForHeight W wt height (validatorSet ids) = some u) ∧
    (∀ ids W L height, W.leaderMode = .caac → leaderForHeight W L height (validatorSet ids) =
      caacLeaderForHeight W (ledgerConsensusWeight L) height (validatorSet ids)) := by
  refine ⟨?_, ?_, ?_, ?_⟩
  · intro ids ids' h
    have hset := validatorSet_congr h
    exact ⟨hset, fun W L height => by rw [hset]⟩
  · intro ids W L height hne
    obtain ⟨v, hv, hleader⟩ := exists_leader W L height hne
    have hiff : ∀ u ∈ validatorSet ids,
        isLeaderWithMode W L height u (validatorSet ids) = true ↔ v = u := by
      intro u hu
      rw [isLeaderWithMode, hleader, trimLower_of_mem hu, beq_iff_eq, Option.some.injEq]
    refine ⟨v, ⟨hv, (hiff v hv).mpr rfl⟩, ?_⟩
    rintro u ⟨hu, hlead⟩
    exact ((hiff u hu).mp hlead).symm
  · intro ids W height wt wt' v h
    exact ⟨h.leader, fun u hne => h.other hne⟩
  · intro ids W L height hmode
    exact leaderForHeight_caac hmode L height _

/-- Two validators, one of them listed twice in another spelling; a raised leader stays. -/
theorem leader_election_pair :
    let W := { World.sample 0 with leaderMode := .caac }
    let ids := [" A".toList, "b".toList]
    (validatorSet ["b".toList, "b".toList, "a".toList] = validatorSet ids ∧
      ∃! v, v ∈ validatorSet ids ∧
        isLeaderWithMode W Sample.ledger 7 v (validatorSet ids) = true) ∧
    caacLeaderForHeight W (fun id => if id = "a".toList then 50 else 1) 7 (validatorSet ids) =
      some "a".toList ∧
    caacLeaderForHeight W (ledgerConsensusWeight Sample.ledger) 7 (validatorSet ids) =
      leaderForHeight W Sample.ledger 7 (validatorSet ids) := by
  intro W ids
  have hall : validatorSet ids ≠ [] ∧
      caacLeaderForHeight W (fun _ => 1) 7 (validatorSet ids) = some "a".toList := by
    decide +kernel
  have hspace : ∀ c ∈ " ".toList, isWhitespace c = true :=
    List.all_eq_true.mp (by decide +kernel : " ".toList.all isWhitespace = true)
  have hpad : Respelled ["a".toList, "b".toList] [" a".toList, "b".toList] :=
    .padded (.cons ⟨" ".toList, [], hspace, List.forall_mem_nil _, rfl⟩
      (.cons ⟨[], [], List.forall_mem_nil _, List.forall_mem_nil _, rfl⟩ .nil))
  have hcase : Respelled [" a".toList, "b".toList] ids := .recased (.cons rfl (.cons rfl .nil))
  have htwice : Respelled ["b".toList, "b".toList, "a".toList] ["a".toList, "b".toList] :=
    .trans (.symm (.again List.mem_cons_self)) (.perm (List.Perm.swap _ _ _))
  refine ⟨⟨(leader_election.1 _ _ (htwice.trans (hpad.trans hcase))).1,
    leader_election.2.1 ids W Sample.ledger 7 hall.1⟩, ?_, ?_⟩
  · refine (leader_election.2.2.1 ids W 7 (fun _ => 1) _ "a".toList ⟨by decide, ?_⟩).1 hall.2
    intro id _ hne
    exact if_neg hne
  · exact (leader_election.2.2.2 ids W Sample.ledger 7 rfl).symm

/-- `É` and `é` stay two ids: only ASCII letters are put in lower case. -/
theorem validatorSet_accented :
    validatorSet [[Char.ofNat 0xC9]] ≠ validatorSet [[Char.ofNat 0xE9]] := by decide +kernel

end TetCore.Consensus
