import TetCore.Lib.Along
import TetCore.Lib.Text
import TetCore.Lib.Tree

/-!
# The daily upload budget

Model of the upload accounting of the public gate (`rest/public_api.rs`): one entry per client holds
a day and the bytes charged on it. A request computes its day before it takes the lock, so the
charges of a run come with days in any order; the reads of what is left change nothing.

An entry of another day is written over by its client's next charge, refused or not, and dropped by
anybody's once the map is full: its bytes are forgotten, on a day that may still be charged.

`upload_budget_iff`: along a run the entries hold what each client was admitted on each day exactly
when no charge forgets bytes of another day, and no count passes `u64::MAX` under a cap of that
size.
-/

namespace TetCore.Files

open TetCore.Lib

/-! ## The gate -/

/-- `PublicGate`, the part that counts uploads: a day and the bytes charged on it, per client. -/
structure PublicGate where
  maxClients : Nat
  uploads : Tree Str (Nat × Nat)

/-- A request to charge an upload. -/
structure UploadCharge where
  client : Str
  bytes : Nat
  day : Nat

namespace PublicGate

/-- The bytes counted for the client on the day. -/
def used (g : PublicGate) (client : Str) (day : Nat) : Nat :=
  match g.uploads.get client with
  | none => 0
  | some (d, b) => if d = day then b else 0

/-- `remaining_upload`. -/
def remainingUpload (cap : Nat) (g : PublicGate) (client : Str) (day : Nat) : Nat :=
  cap - g.used client day

/-- `map.retain(|_, (d, _)| *d == day)`, once the map is full. -/
def cleanUp (g : PublicGate) (day : Nat) : Tree Str (Nat × Nat) :=
  if g.maxClients ≤ g.uploads.iter.length then
    ((g.uploads.iter.filter fun r => decide (r.2.1 ≠ day)).map Prod.fst).foldl
      (fun t k => t.remove k) g.uploads
  else g.uploads

/-- `charge_upload`: whether the bytes are admitted, and the gate it leaves. -/
def chargeUpload (cap : Nat) (g : PublicGate) (c : UploadCharge) : Bool × PublicGate :=
  let map := g.cleanUp c.day
  let count := ({ g with uploads := map } : PublicGate).used c.client c.day
  if cap < satAdd count c.bytes then
    (false, { g with uploads := map.insert c.client (c.day, count) })
  else (true, { g with uploads := map.insert c.client (c.day, (count + c.bytes) % 2 ^ 64) })

end PublicGate

/-! ## Runs -/

/-- The gate after a run of charges, and the bytes it admitted for each client on each day. -/
structure UploadTrace where
  gate : PublicGate
  admitted : Str → Nat → Nat

namespace UploadTrace

def start (maxClients : Nat) : UploadTrace := ⟨⟨maxClients, Tree.empty⟩, fun _ _ => 0⟩

/-- The bytes of an admitted charge. -/
def creditFor (admitted : Str → Nat → Nat) (c : UploadCharge) (client : Str) (day : Nat) : Nat :=
  if client = c.client ∧ day = c.day then admitted client day + c.bytes else admitted client day

/-- The gate after one charge. -/
def step (cap : Nat) (s : UploadTrace) (c : UploadCharge) : UploadTrace :=
  ⟨(s.gate.chargeUpload cap c).2,
    if (s.gate.chargeUpload cap c).1 then creditFor s.admitted c else s.admitted⟩

/-- The budget holds: no client was admitted more than the cap on a day, and what it may still
upload is the rest. -/
def WithinBudget (cap : Nat) (s : UploadTrace) : Prop :=
  ∀ client day, s.admitted client day ≤ cap ∧
    s.gate.remainingUpload cap client day = cap - s.admitted client day

/-- What a charge must do: leave the budget kept and, when it is refused, every client's rest. -/
def Lawful (cap : Nat) (s : UploadTrace) (c : UploadCharge) : Prop :=
  (s.step cap c).WithinBudget cap ∧
    ((s.gate.chargeUpload cap c).1 = false → ∀ client day,
      (s.step cap c).gate.remainingUpload cap client day =
        s.gate.remainingUpload cap client day)

/-- The charge forgets no bytes of another day, of its own client or, when the map is full, of any;
and under the largest cap the count stays a `u64`. -/
structure Tidy (cap : Nat) (s : UploadTrace) (c : UploadCharge) : Prop where
  forgets : ∀ client day bytes, s.gate.uploads.get client = some (day, bytes) → day ≠ c.day →
    client = c.client ∨ s.gate.maxClients ≤ s.gate.uploads.iter.length → bytes = 0
  fits : cap = u64Max → s.gate.used c.client c.day + c.bytes ≤ u64Max

end UploadTrace

/-! ## One charge -/

namespace PublicGate

variable {g : PublicGate} {cap : Nat} {client : Str} {day : Nat}

theorem used_eq (h : g.uploads.get client = none ∨ ∃ d b, g.uploads.get client = some (d, b) ∧
    (d = day → b = 0)) : g.used client day = 0 := by
  unfold used
  rcases h with h | ⟨d, b, h, hb⟩
  · rw [h]
  · rw [h]
    by_cases hd : d = day
    · simp only [if_pos hd, hb hd]
    · simp only [if_neg hd]

/-- The clean-up drops the entries of other days, when the map is full. -/
theorem get_cleanUp (g : PublicGate) (day : Nat) (client : Str) :
    (g.cleanUp day).get client = (g.uploads.get client).filter fun e =>
      decide (g.maxClients ≤ g.uploads.iter.length → e.1 = day) := by
  unfold cleanUp
  by_cases hfull : g.maxClients ≤ g.uploads.iter.length
  · rw [if_pos hfull, Tree.get_foldl_remove]
    cases hget : g.uploads.get client with
    | none => rw [Option.filter_none, ite_self]
    | some e =>
      have hmem : client ∈ (g.uploads.iter.filter fun r => decide (r.2.1 ≠ day)).map Prod.fst ↔
          e.1 ≠ day := by
        rw [List.mem_map]
        constructor
        · rintro ⟨⟨k, e'⟩, hr, rfl⟩
          obtain ⟨hiter, hne⟩ := List.mem_filter.mp hr
          rw [Tree.mem_iter, hget, Option.some.injEq] at hiter
          rw [hiter]
          exact of_decide_eq_true hne
        · exact fun hne => ⟨(client, e), List.mem_filter.mpr ⟨Tree.mem_iter.mpr hget,
            decide_eq_true hne⟩, rfl⟩
      rw [Option.filter_some]
      by_cases hday : e.1 = day
      · rw [if_neg (fun h => hmem.mp h hday), if_pos (decide_eq_true fun _ => hday)]
      · rw [if_pos (hmem.mpr hday), if_neg]
        exact fun h => hday (of_decide_eq_true h hfull)
  · rw [if_neg hfull]
    cases g.uploads.get client with
    | none => rfl
    | some e => rw [Option.filter_some, if_pos (decide_eq_true fun h => absurd h hfull)]

/-- The clean-up keeps the count of its own day. -/
theorem used_cleanUp (g : PublicGate) (client : Str) (day : Nat) :
    ({ g with uploads := g.cleanUp day } : PublicGate).used client day = g.used client day := by
  unfold used
  simp only [get_cleanUp]
  cases g.uploads.get client with
  | none => rfl
  | some e =>
    rw [Option.filter_some]
    by_cases hday : e.1 = day
    · rw [if_pos (decide_eq_true fun _ => hday)]
    · by_cases hfull : g.maxClients ≤ g.uploads.iter.length
      · rw [if_neg]
        · exact (if_neg hday).symm
        · exact fun h => hday (of_decide_eq_true h hfull)
      · rw [if_pos (decide_eq_true fun h => absurd h hfull)]

/-- The count that the charge writes. -/
def newCount (cap : Nat) (g : PublicGate) (c : UploadCharge) : Nat :=
  if cap < satAdd (g.used c.client c.day) c.bytes then g.used c.client c.day
  else (g.used c.client c.day + c.bytes) % 2 ^ 64

theorem chargeUpload_eq (cap : Nat) (g : PublicGate) (c : UploadCharge) :
    g.chargeUpload cap c = (decide (satAdd (g.used c.client c.day) c.bytes ≤ cap),
      { g with uploads := (g.cleanUp c.day).insert c.client (c.day, g.newCount cap c) }) := by
  unfold chargeUpload newCount
  simp only [used_cleanUp]
  by_cases hcap : cap < satAdd (g.used c.client c.day) c.bytes
  · rw [if_pos hcap, if_pos hcap, decide_eq_false (Nat.not_le.mpr hcap)]
  · rw [if_neg hcap, if_neg hcap, decide_eq_true (Nat.le_of_not_lt hcap)]

/-- The count of the charged client on the charged day. -/
theorem used_charged (cap : Nat) (g : PublicGate) (c : UploadCharge) :
    (g.chargeUpload cap c).2.used c.client c.day = g.newCount cap c := by
  rw [chargeUpload_eq]
  unfold used
  simp only [Tree.get_insert_self, if_true]

/-- Any other count is as before, or forgotten. -/
theorem used_other (cap : Nat) (g : PublicGate) (c : UploadCharge)
    (hne : ¬ (client = c.client ∧ day = c.day)) :
    (g.chargeUpload cap c).2.used client day =
      if client = c.client ∨ g.maxClients ≤ g.uploads.iter.length ∧ day ≠ c.day then 0
      else g.used client day := by
  rw [chargeUpload_eq]
  by_cases hclient : client = c.client
  · have hday : c.day ≠ day := fun heq => hne ⟨hclient, heq.symm⟩
    rw [if_pos (Or.inl hclient), hclient]
    refine used_eq (Or.inr ⟨c.day, g.newCount cap c, Tree.get_insert_self _ _ _, fun h => ?_⟩)
    exact absurd h hday
  · unfold used
    simp only [Tree.get_insert_ne (Ne.symm hclient), get_cleanUp]
    cases g.uploads.get client with
    | none => rw [Option.filter_none, ite_self]
    | some e =>
      rw [Option.filter_some]
      by_cases hkeep : g.maxClients ≤ g.uploads.iter.length → e.1 = c.day
      · rw [if_pos (decide_eq_true hkeep)]
        by_cases hdrop : g.maxClients ≤ g.uploads.iter.length ∧ day ≠ c.day
        · rw [if_pos (Or.inr hdrop)]
          exact if_neg fun heq => hdrop.2 (heq.symm.trans (hkeep hdrop.1))
        · rw [if_neg fun h => h.elim hclient hdrop]
      · obtain ⟨hfull, hday⟩ := Classical.not_imp.mp hkeep
        rw [if_neg fun h => hkeep (of_decide_eq_true h)]
        by_cases hdrop : g.maxClients ≤ g.uploads.iter.length ∧ day ≠ c.day
        · rw [if_pos (Or.inr hdrop)]
        · have heq : day = c.day := by
            by_contra hne'
            exact hdrop ⟨hfull, hne'⟩
          rw [if_neg fun h => h.elim hclient hdrop]
          exact (if_neg fun h => hday (h.trans heq)).symm

end PublicGate

namespace UploadTrace

variable {cap : Nat} {s : UploadTrace} {c : UploadCharge}

/-- The invariant: the counts are what was admitted, within the cap. -/
def Exact (cap : Nat) (s : UploadTrace) : Prop :=
  ∀ client day, s.gate.used client day = s.admitted client day ∧ s.admitted client day ≤ cap

theorem exact_start (cap maxClients : Nat) : (start maxClients).Exact cap := by
  intro client day
  refine ⟨PublicGate.used_eq (Or.inl (Tree.get_empty client)), Nat.zero_le cap⟩

theorem Exact.withinBudget (h : s.Exact cap) : s.WithinBudget cap := by
  intro client day
  obtain ⟨hused, hle⟩ := h client day
  exact ⟨hle, by rw [PublicGate.remainingUpload, hused]⟩

/-- The bytes admitted after a charge. -/
theorem admitted_step (client : Str) (day : Nat) : (s.step cap c).admitted client day =
    if (client = c.client ∧ day = c.day) ∧
        satAdd (s.gate.used c.client c.day) c.bytes ≤ cap then
      s.admitted client day + c.bytes else s.admitted client day := by
  unfold step
  rw [PublicGate.chargeUpload_eq]
  simp only [decide_eq_true_eq]
  by_cases hcap : satAdd (s.gate.used c.client c.day) c.bytes ≤ cap
  · rw [if_pos hcap, creditFor]
    simp only [hcap, and_true]
  · rw [if_neg hcap, if_neg fun h => hcap h.2]

/-- What a tidy charge forgets was nothing. -/
theorem Tidy.used_eq_zero (ht : s.Tidy cap c) {client : Str} {day : Nat} (hday : day ≠ c.day)
    (hforgets : client = c.client ∨ s.gate.maxClients ≤ s.gate.uploads.iter.length) :
    s.gate.used client day = 0 := by
  refine PublicGate.used_eq ?_
  cases hget : s.gate.uploads.get client with
  | none => exact Or.inl rfl
  | some e =>
    obtain ⟨d, b⟩ := e
    refine Or.inr ⟨d, b, rfl, fun hd => ?_⟩
    rw [← hd] at hday
    exact ht.forgets client d b hget hday hforgets

/-- A tidy charge changes its own count alone. -/
theorem Tidy.used_other (ht : s.Tidy cap c) {client : Str} {day : Nat}
    (hne : ¬ (client = c.client ∧ day = c.day)) :
    (s.step cap c).gate.used client day = s.gate.used client day := by
  show (s.gate.chargeUpload cap c).2.used client day = _
  rw [PublicGate.used_other cap s.gate c hne]
  by_cases hforgets :
      client = c.client ∨ s.gate.maxClients ≤ s.gate.uploads.iter.length ∧ day ≠ c.day
  · rw [if_pos hforgets]
    rcases hforgets with hclient | ⟨hfull, hday⟩
    · exact (ht.used_eq_zero (fun hday => hne ⟨hclient, hday⟩) (Or.inl hclient)).symm
    · exact (ht.used_eq_zero hday (Or.inr hfull)).symm
  · rw [if_neg hforgets]

theorem newCount_of_admitted (ht : s.Tidy cap c) (hcap : cap ≤ u64Max)
    (hadm : satAdd (s.gate.used c.client c.day) c.bytes ≤ cap) :
    s.gate.newCount cap c = s.gate.used c.client c.day + c.bytes ∧
      s.gate.used c.client c.day + c.bytes ≤ cap := by
  have hfits := ht.fits
  have hmax : u64Max + 1 = 2 ^ 64 := by decide
  unfold PublicGate.newCount
  rw [if_neg (Nat.not_lt.mpr hadm)]
  unfold satAdd at hadm
  have hle : s.gate.used c.client c.day + c.bytes ≤ u64Max := by
    by_contra hgt
    exact hgt (hfits (by omega))
  exact ⟨Nat.mod_eq_of_lt (by omega), by omega⟩

/-- **A tidy charge** keeps the counts exact, and a refused one changes none. -/
theorem Exact.step (h : s.Exact cap) (hcap : cap ≤ u64Max) (ht : s.Tidy cap c) :
    (s.step cap c).Exact cap ∧ ((s.gate.chargeUpload cap c).1 = false → ∀ client day,
      (s.step cap c).gate.used client day = s.gate.used client day) := by
  have hcharged : (s.step cap c).gate.used c.client c.day = s.gate.newCount cap c :=
    PublicGate.used_charged cap s.gate c
  constructor
  · intro client day
    rw [admitted_step]
    by_cases hsame : client = c.client ∧ day = c.day
    · obtain ⟨rfl, rfl⟩ := hsame
      obtain ⟨hused, hle⟩ := h c.client c.day
      rw [hcharged]
      by_cases hadm : satAdd (s.gate.used c.client c.day) c.bytes ≤ cap
      · obtain ⟨hnew, hfits⟩ := newCount_of_admitted ht hcap hadm
        rw [if_pos ⟨⟨rfl, rfl⟩, hadm⟩, hnew, ← hused]
        exact ⟨rfl, hfits⟩
      · rw [if_neg fun h => hadm h.2, PublicGate.newCount, if_pos (Nat.lt_of_not_le hadm)]
        exact ⟨hused, hle⟩
    · rw [if_neg fun h => hsame h.1, ht.used_other hsame]
      exact h client day
  · intro hrefused client day
    rw [PublicGate.chargeUpload_eq] at hrefused
    have hadm := of_decide_eq_false hrefused
    by_cases hsame : client = c.client ∧ day = c.day
    · obtain ⟨rfl, rfl⟩ := hsame
      rw [hcharged, PublicGate.newCount, if_pos (Nat.lt_of_not_le hadm)]
    · exact ht.used_other hsame

/-- A charge that forgets bytes of another day gives them back. -/
theorem Exact.forgets (h : s.Exact cap) {client : Str} {day bytes : Nat}
    (hget : s.gate.uploads.get client = some (day, bytes)) (hday : day ≠ c.day)
    (hforgets : client = c.client ∨ s.gate.maxClients ≤ s.gate.uploads.iter.length)
    (hlaw : (s.step cap c).WithinBudget cap) : bytes = 0 := by
  obtain ⟨hused, hle⟩ := h client day
  have hcount : s.gate.used client day = bytes := by
    unfold PublicGate.used
    rw [hget]
    exact if_pos rfl
  have hne : ¬ (client = c.client ∧ day = c.day) := fun heq => hday heq.2
  have hzero : (s.step cap c).gate.used client day = 0 := by
    show (s.gate.chargeUpload cap c).2.used client day = 0
    rw [PublicGate.used_other cap s.gate c hne, if_pos]
    exact hforgets.imp id fun hfull => ⟨hfull, hday⟩
  have hrest := (hlaw client day).2
  rw [admitted_step, if_neg fun h => hne h.1, PublicGate.remainingUpload, hzero] at hrest
  omega

/-- A charge whose count would pass `u64::MAX` under the largest cap breaks the budget. -/
theorem Exact.fits (h : s.Exact cap) (hmax : cap = u64Max)
    (hlaw : (s.step cap c).WithinBudget cap) : s.gate.used c.client c.day + c.bytes ≤ u64Max := by
  have hadm : satAdd (s.gate.used c.client c.day) c.bytes ≤ cap := by
    unfold satAdd
    omega
  have hle := (hlaw c.client c.day).1
  rw [admitted_step, if_pos ⟨⟨rfl, rfl⟩, hadm⟩, ← (h c.client c.day).1] at hle
  omega

theorem Exact.lawful_iff (h : s.Exact cap) (hcap : cap ≤ u64Max) :
    s.Lawful cap c ↔ s.Tidy cap c := by
  constructor
  · rintro ⟨hbudget, -⟩
    exact ⟨fun client day bytes hget hday hforgets => h.forgets hget hday hforgets hbudget,
      fun hmax => h.fits hmax hbudget⟩
  · intro ht
    obtain ⟨hexact, hkept⟩ := h.step hcap ht
    refine ⟨hexact.withinBudget, fun hrefused client day => ?_⟩
    rw [PublicGate.remainingUpload, PublicGate.remainingUpload, hkept hrefused client day]

end UploadTrace

/-- **The daily upload budget holds along a run exactly when** no charge forgets bytes of another
day, and no count passes `u64::MAX` under a cap of that size. -/
theorem upload_budget_iff (cap : UInt64) (maxClients : Nat) (charges : List UploadCharge) :
    Along (UploadTrace.step cap.toNat) (UploadTrace.Lawful cap.toNat)
        (UploadTrace.start maxClients) charges ↔
      Along (UploadTrace.step cap.toNat) (UploadTrace.Tidy cap.toNat)
        (UploadTrace.start maxClients) charges := by
  have hcap : cap.toNat ≤ u64Max := Nat.le_of_lt_succ cap.toNat_lt
  have hiff : ∀ s c, UploadTrace.Exact cap.toNat s → (s.Lawful cap.toNat c ↔ s.Tidy cap.toNat c) :=
    fun s c h => h.lawful_iff hcap
  have hkeep : ∀ s c, UploadTrace.Exact cap.toNat s → s.Tidy cap.toNat c →
      (s.step cap.toNat c).Exact cap.toNat := fun s c h ht => (h.step hcap ht).1
  exact along_iff hiff hkeep charges (UploadTrace.exact_start cap.toNat maxClients)

namespace Sample

/-- A full day and a charge of the day before that comes late. -/
def lateCharges : List UploadCharge := [⟨"a".toList, 1000, 11⟩, ⟨"a".toList, 1, 10⟩]

/-- The gate after them. -/
def lateTrace : UploadTrace :=
  lateCharges.foldl (UploadTrace.step 1000) (UploadTrace.start 50000)

end Sample

/-- A late charge of the day before opens a second budget for the day. -/
theorem upload_budget_late :
    (Sample.lateTrace.step 1000 ⟨"a".toList, 1000, 11⟩).admitted "a".toList 11 = 2000 ∧
    ¬ Along (UploadTrace.step 1000) (UploadTrace.Lawful 1000) (UploadTrace.start 50000)
      (Sample.lateCharges ++ [⟨"a".toList, 1000, 11⟩]) := by
  have htwice : (Sample.lateTrace.step 1000 ⟨"a".toList, 1000, 11⟩).admitted "a".toList 11 =
    2000 := by decide +kernel
  refine ⟨htwice, fun hlaw => ?_⟩
  have hle := (hlaw.last.1 "a".toList 11).1
  unfold Sample.lateTrace at htwice
  rw [htwice] at hle
  exact absurd hle (by decide)

end TetCore.Files
