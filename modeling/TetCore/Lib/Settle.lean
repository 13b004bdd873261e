import Mathlib.Data.List.MinMax

/-!
# A register settled by repeated updates

A register holds one update. Another update replaces it unless it is of the same class or is older:
`settle`. The same updates arrive in any order, some of them again: `Covers`.

* `settled_time_le`: once an earliest update of a class has arrived, the register is not older.
* `exists_settled`: an update no older than the earliest of every class can end up in the register.
* `converges_iff`: all orders leave the same value iff some earliest update of its class agrees with
  every update that is not older.
-/

namespace TetCore.Lib

section

variable {α κ τ : Type} [DecidableEq κ] [LinearOrder τ] (cls : α → κ) (time : α → τ)

/-- The register after an update. -/
def settle : Option α → α → Option α
  | none, x => some x
  | some cur, x =>
    if cls cur = cls x then some cur else if time x < time cur then some cur else some x

/-- Every update arrives and nothing else. -/
def Covers (l d : List α) : Prop := ∀ x, x ∈ d ↔ x ∈ l

/-- No update of its class is older. -/
def EarliestOfClass (l : List α) (x : α) : Prop :=
  x ∈ l ∧ ∀ y ∈ l, cls y = cls x → time x ≤ time y

end

variable {α κ τ : Type} [DecidableEq κ] [LinearOrder τ] {cls : α → κ} {time : α → τ}
  {l d : List α} {x cur : α}

theorem settle_same (h : cls cur = cls x) : settle cls time (some cur) x = some cur := if_pos h

theorem settle_older (hcls : cls cur ≠ cls x) (h : time x < time cur) :
    settle cls time (some cur) x = some cur :=
  (if_neg hcls).trans (if_pos h)

theorem settle_newer (hcls : cls cur ≠ cls x) (h : time cur ≤ time x) :
    settle cls time (some cur) x = some x :=
  (if_neg hcls).trans (if_neg (not_lt.mpr h))

variable (cls time) in
/-- An update leaves a register that is one of the two, and not older than it was. -/
theorem settle_some (cur x : α) :
    ∃ cur', settle cls time (some cur) x = some cur' ∧ (cur' = cur ∨ cur' = x) ∧
      time cur ≤ time cur' := by
  by_cases hcls : cls cur = cls x
  · exact ⟨cur, settle_same hcls, Or.inl rfl, le_rfl⟩
  · by_cases hlt : time x < time cur
    · exact ⟨cur, settle_older hcls hlt, Or.inl rfl, le_rfl⟩
    · exact ⟨x, settle_newer hcls (not_lt.mp hlt), Or.inr rfl, not_lt.mp hlt⟩

variable (cls time) in
/-- A register that is set stays set, to one of the updates, and never gets older. -/
theorem foldl_settle_some : ∀ (d : List α) (cur : α),
    ∃ cur', d.foldl (settle cls time) (some cur) = some cur' ∧ (cur' = cur ∨ cur' ∈ d) ∧
      time cur ≤ time cur' := by
  intro d
  induction d with
  | nil =>
    intro cur
    exact ⟨cur, rfl, Or.inl rfl, le_rfl⟩
  | cons x d ih =>
    intro cur
    obtain ⟨mid, hmid, hfrom, hle⟩ := settle_some cls time cur x
    obtain ⟨cur', hcur', hmem, hle'⟩ := ih mid
    refine ⟨cur', by rw [List.foldl_cons, hmid, hcur'], ?_, hle.trans hle'⟩
    rcases hmem with rfl | hmem
    · rcases hfrom with rfl | rfl
      · exact Or.inl rfl
      · exact Or.inr List.mem_cons_self
    · exact Or.inr (List.mem_cons_of_mem _ hmem)

/-- Updates of the register's class change nothing. -/
theorem foldl_settle_same (h : ∀ y ∈ d, cls cur = cls y) :
    d.foldl (settle cls time) (some cur) = some cur := by
  induction d with
  | nil => rfl
  | cons y d ih =>
    rw [List.foldl_cons, settle_same (h y List.mem_cons_self)]
    exact ih fun z hz => h z (List.mem_cons_of_mem _ hz)

/-- Once an earliest update of a class has arrived the register is not older. -/
theorem settled_time_le (hx : EarliestOfClass cls time l x) : ∀ (d : List α) (o : Option α),
    (∀ cur ∈ o, cur ∈ l) → (∀ y ∈ d, y ∈ l) → x ∈ d →
    ∃ cur ∈ l, d.foldl (settle cls time) o = some cur ∧ time x ≤ time cur := by
  intro d
  induction d with
  | nil =>
    intro o _ _ hmem
    cases hmem
  | cons y d ih =>
    intro o ho hd hmem
    have hyl : y ∈ l := hd y List.mem_cons_self
    have hstep : ∀ cur ∈ settle cls time o y, cur ∈ l := by
      intro cur hcur
      cases o with
      | none =>
        cases hcur
        exact hyl
      | some prev =>
        obtain ⟨cur', heq, hfrom, -⟩ := settle_some cls time prev y
        rw [heq] at hcur
        cases hcur
        rcases hfrom with rfl | rfl
        · exact ho _ rfl
        · exact hyl
    rcases List.mem_cons.mp hmem with rfl | hmem
    · -- the earliest of its class arrives: the register becomes it or is not older already
      have hnow : ∃ cur, settle cls time o x = some cur ∧ time x ≤ time cur := by
        cases o with
        | none => exact ⟨x, rfl, le_rfl⟩
        | some prev =>
          by_cases hcls : cls prev = cls x
          · exact ⟨prev, settle_same hcls, hx.2 prev (ho prev rfl) hcls⟩
          · by_cases hlt : time x < time prev
            · exact ⟨prev, settle_older hcls hlt, hlt.le⟩
            · exact ⟨x, settle_newer hcls (not_lt.mp hlt), le_rfl⟩
      obtain ⟨cur, hcur, hle⟩ := hnow
      obtain ⟨cur', hcur', hfrom, hle'⟩ := foldl_settle_some cls time d cur
      refine ⟨cur', ?_, by rw [List.foldl_cons, hcur, hcur'], hle.trans hle'⟩
      rcases hfrom with rfl | hmem'
      · exact hstep _ hcur
      · exact hd cur' (List.mem_cons_of_mem _ hmem')
    · exact ih _ hstep (fun z hz => hd z (List.mem_cons_of_mem _ hz)) hmem

variable (cls time) in
/-- The class of every update has an earliest one. -/
theorem exists_earliest {z : α} (hz : z ∈ l) :
    ∃ x, EarliestOfClass cls time l x ∧ cls x = cls z := by
  have hmem : z ∈ l.filter fun y => cls y = cls z := List.mem_filter.mpr ⟨hz, decide_eq_true rfl⟩
  cases hmin : (l.filter fun y => cls y = cls z).argmin time with
  | none =>
    rw [List.argmin_eq_none.mp hmin] at hmem
    cases hmem
  | some x =>
    obtain ⟨hx, hcls⟩ := List.mem_filter.mp (List.argmin_mem hmin)
    have hxz : cls x = cls z := of_decide_eq_true hcls
    refine ⟨x, ⟨hx, fun y hy hyx => ?_⟩, hxz⟩
    exact List.le_of_mem_argmin (List.mem_filter.mpr ⟨hy, decide_eq_true (hyx.trans hxz)⟩) hmin

variable (cls time) in
/-- Updates by ascending time, each followed by others of its class: the register ends up with one of
them, if it was not newer. -/
theorem foldl_settle_ascending {members : α → List α} (hmembers : ∀ x, ∀ y ∈ members x, cls y = cls x)
    (bound : τ) (p : α → Prop) : ∀ (s : List α) (o : Option α),
    s.Pairwise (fun a b => time a ≤ time b) → (∀ x ∈ s, time x ≤ bound ∧ p x) →
    (∀ cur ∈ o, (∀ x ∈ s, time cur ≤ time x) ∧ time cur ≤ bound ∧ p cur) →
    ∀ cur ∈ (s.flatMap fun x => x :: members x).foldl (settle cls time) o,
      time cur ≤ bound ∧ p cur := by
  intro s
  induction s with
  | nil =>
    intro o _ _ ho cur hcur
    exact (ho cur hcur).2
  | cons x s ih =>
    intro o hs hbound ho
    obtain ⟨hx, hs⟩ := List.pairwise_cons.mp hs
    rw [List.flatMap_cons, List.foldl_append, List.foldl_cons]
    -- the register after `x` is of the class of `x` and not newer than it
    have hafter : ∃ mid, settle cls time o x = some mid ∧ cls mid = cls x ∧ time mid ≤ time x ∧
        p mid := by
      cases o with
      | none => exact ⟨x, rfl, rfl, le_rfl, (hbound x List.mem_cons_self).2⟩
      | some prev =>
        obtain ⟨hprev, -, hp⟩ := ho prev rfl
        have hle := hprev x List.mem_cons_self
        by_cases hcls : cls prev = cls x
        · exact ⟨prev, settle_same hcls, hcls, hle, hp⟩
        · exact ⟨x, settle_newer hcls hle, rfl, le_rfl, (hbound x List.mem_cons_self).2⟩
    obtain ⟨mid, hmid, hcls, hle, hp⟩ := hafter
    rw [hmid, foldl_settle_same fun y hy => hcls.trans (hmembers x y hy).symm]
    refine ih _ hs (fun y hy => hbound y (List.mem_cons_of_mem _ hy)) ?_
    intro cur hcur
    cases hcur
    exact ⟨fun y hy => hle.trans (hx y hy), hle.trans (hbound x List.mem_cons_self).1, hp⟩

/-- An update no older than the earliest of every class can be what all the updates leave. -/
theorem exists_settled {y : α} (hy : y ∈ l)
    (hlate : ∀ x, EarliestOfClass cls time l x → time x ≤ time y) :
    ∃ d, Covers l d ∧ d.foldl (settle cls time) none = some y := by
  classical
  let firsts := (l.filter fun x => EarliestOfClass cls time l x ∧ cls x ≠ cls y).mergeSort
    fun a b => time a ≤ time b
  let members := fun x => l.filter fun z => cls z = cls x
  have hfirsts : ∀ x, x ∈ firsts ↔ EarliestOfClass cls time l x ∧ cls x ≠ cls y := by
    intro x
    rw [List.mem_mergeSort, List.mem_filter, decide_eq_true_iff]
    exact ⟨fun h => h.2, fun h => ⟨h.1.1, h⟩⟩
  have hmem : ∀ x z, z ∈ members x ↔ z ∈ l ∧ cls z = cls x := by
    intro x z
    rw [List.mem_filter, decide_eq_true_iff]
  have hsorted : firsts.Pairwise fun a b => time a ≤ time b := by
    have htrans : ∀ a b c : α, decide (time a ≤ time b) = true → decide (time b ≤ time c) = true →
        decide (time a ≤ time c) = true := fun a b c hab hbc =>
      decide_eq_true ((of_decide_eq_true hab).trans (of_decide_eq_true hbc))
    have htotal : ∀ a b : α, (decide (time a ≤ time b) || decide (time b ≤ time a)) = true := by
      intro a b
      rw [Bool.or_eq_true, decide_eq_true_iff, decide_eq_true_iff]
      exact le_total _ _
    exact (List.pairwise_mergeSort htrans htotal _).imp fun h => of_decide_eq_true h
  refine ⟨(firsts.flatMap fun x => x :: members x) ++ y :: members y, fun z => ?_, ?_⟩
  · rw [List.mem_append, List.mem_flatMap, List.mem_cons, hmem]
    constructor
    · rintro (⟨x, hx, hz⟩ | rfl | hz)
      · rcases List.mem_cons.mp hz with rfl | hz
        · exact ((hfirsts z).mp hx).1.1
        · exact ((hmem x z).mp hz).1
      · exact hy
      · exact hz.1
    · intro hz
      by_cases hcls : cls z = cls y
      · exact Or.inr (Or.inr ⟨hz, hcls⟩)
      · obtain ⟨x, hx, hxz⟩ := exists_earliest cls time hz
        refine Or.inl ⟨x, (hfirsts x).mpr ⟨hx, fun h => hcls (hxz.symm.trans h)⟩, ?_⟩
        exact List.mem_cons_of_mem _ ((hmem x z).mpr ⟨hz, hxz.symm⟩)
  · rw [List.foldl_append, List.foldl_cons]
    have hbefore := foldl_settle_ascending cls time
      (fun x z hz => ((hmem x z).mp hz).2) (time y) (fun x => cls x ≠ cls y) firsts none hsorted
      (fun x hx => ⟨hlate x ((hfirsts x).mp hx).1, ((hfirsts x).mp hx).2⟩) (fun _ h => by cases h)
    have hy' : settle cls time
        ((firsts.flatMap fun x => x :: members x).foldl (settle cls time) none) y = some y := by
      cases hcur : (firsts.flatMap fun x => x :: members x).foldl (settle cls time) none with
      | none => rfl
      | some cur =>
        obtain ⟨hle, hcls⟩ := hbefore cur hcur
        exact settle_newer hcls hle
    rw [hy']
    exact foldl_settle_same fun z hz => ((hmem y z).mp hz).2.symm

/-- All orders, with repeats, leave the same value iff some earliest update of its class agrees with
every update that is not older. -/
theorem converges_iff {β : Type} {value : α → β} (hne : l ≠ []) :
    (∀ d₁ d₂, Covers l d₁ → Covers l d₂ →
        (d₁.foldl (settle cls time) none).map value =
          (d₂.foldl (settle cls time) none).map value) ↔
      ∃ x, EarliestOfClass cls time l x ∧ ∀ y ∈ l, time x ≤ time y → value y = value x := by
  constructor
  · intro h
    classical
    -- of the earliest updates of the classes, a latest one
    have hlatest : ∃ x, EarliestOfClass cls time l x ∧
        ∀ x', EarliestOfClass cls time l x' → time x' ≤ time x := by
      obtain ⟨z, hz⟩ := List.exists_mem_of_ne_nil l hne
      obtain ⟨x₀, hx₀, -⟩ := exists_earliest cls time hz
      have hmem : ∀ x', EarliestOfClass cls time l x' →
          x' ∈ l.filter fun x => EarliestOfClass cls time l x :=
        fun x' hx' => List.mem_filter.mpr ⟨hx'.1, decide_eq_true hx'⟩
      cases hmax : (l.filter fun x => EarliestOfClass cls time l x).argmax time with
      | none =>
        have hnone := hmem x₀ hx₀
        rw [List.argmax_eq_none.mp hmax] at hnone
        cases hnone
      | some x =>
        exact ⟨x, of_decide_eq_true (List.mem_filter.mp (List.argmax_mem hmax)).2,
          fun x' hx' => List.le_of_mem_argmax (hmem x' hx') hmax⟩
    obtain ⟨x, hx, hmax⟩ := hlatest
    refine ⟨x, hx, fun y hy hxy => ?_⟩
    obtain ⟨d₁, hd₁, heq₁⟩ := exists_settled hx.1 hmax
    obtain ⟨d₂, hd₂, heq₂⟩ := exists_settled hy fun x' hx' => (hmax x' hx').trans hxy
    have hsame := h d₂ d₁ hd₂ hd₁
    rw [heq₁, heq₂] at hsame
    exact Option.some.inj hsame
  · rintro ⟨x, hx, hvalue⟩
    have hend : ∀ d, Covers l d → (d.foldl (settle cls time) none).map value = some (value x) := by
      intro d hd
      obtain ⟨cur, hmem, hcur, hle⟩ := settled_time_le hx d none (fun _ h => by cases h)
        (fun y hy => (hd y).mp hy) ((hd x).mpr hx.1)
      rw [hcur]
      exact congrArg some (hvalue cur hmem hle)
    intro d₁ d₂ hd₁ hd₂
    rw [hend d₁ hd₁, hend d₂ hd₂]

end TetCore.Lib
