import Mathlib.Data.List.Basic

/-!
# What holds along a run

A run is a list of calls, each taking the state to the next one. `Along step P s cs`: every call of
the run `cs` from the state `s` satisfies `P` in the state it is made in.

* `along_of_invariant`: it does when an invariant that the calls keep gives `P`.
* `Along.imp_of_invariant`: or when the invariant is kept by calls that satisfy another property.
* `Along.last`: the last call satisfies `P` after the others.
* `along_iff`: two properties hold along the same runs when an invariant that is kept as long as the
  second holds makes them equivalent.
-/

namespace TetCore.Lib

variable {S C : Type}

/-- Every call of the run satisfies `P` in the state it is made in. -/
def Along (step : S → C → S) (P : S → C → Prop) : S → List C → Prop
  | _, [] => True
  | s, c :: cs => P s c ∧ Along step P (step s c) cs

instance Along.decidable (step : S → C → S) (P : S → C → Prop) [∀ s c, Decidable (P s c)] :
    ∀ (s : S) (cs : List C), Decidable (Along step P s cs)
  | _, [] => isTrue trivial
  | s, c :: cs =>
    have := Along.decidable step P (step s c) cs
    inferInstanceAs (Decidable (P s c ∧ Along step P (step s c) cs))

variable {step : S → C → S} {P Q : S → C → Prop} {inv : S → Prop}

theorem along_iff (hiff : ∀ s c, inv s → (P s c ↔ Q s c))
    (hkeep : ∀ s c, inv s → Q s c → inv (step s c)) :
    ∀ {s : S} (cs : List C), inv s → (Along step P s cs ↔ Along step Q s cs) := by
  intro s cs
  induction cs generalizing s with
  | nil => exact fun _ => Iff.rfl
  | cons c cs ih =>
    intro hs
    constructor
    · rintro ⟨hP, hrest⟩
      have hQ := (hiff s c hs).mp hP
      exact ⟨hQ, (ih (hkeep s c hs hQ)).mp hrest⟩
    · rintro ⟨hQ, hrest⟩
      exact ⟨(hiff s c hs).mpr hQ, (ih (hkeep s c hs hQ)).mpr hrest⟩

/-- The same, where nothing has to be kept. -/
theorem along_congr (hiff : ∀ s c, P s c ↔ Q s c) {s : S} (cs : List C) :
    Along step P s cs ↔ Along step Q s cs := by
  have hP : P = Q := funext fun s => funext fun c => propext (hiff s c)
  rw [hP]

/-- What every call gives from another property and an invariant that it keeps. -/
theorem Along.imp_of_invariant (hstep : ∀ s c, inv s → Q s c → P s c ∧ inv (step s c)) {s : S}
    {cs : List C} (hs : inv s) (h : Along step Q s cs) : Along step P s cs := by
  induction cs generalizing s with
  | nil => exact trivial
  | cons c cs ih =>
    obtain ⟨hP, hnext⟩ := hstep s c hs h.1
    exact ⟨hP, ih hnext h.2⟩

theorem along_and {s : S} {cs : List C} : Along step (fun s c => P s c ∧ Q s c) s cs ↔
    Along step P s cs ∧ Along step Q s cs := by
  induction cs generalizing s with
  | nil => exact (and_self_iff).symm
  | cons c cs ih =>
    unfold Along
    rw [ih]
    exact and_and_and_comm

/-- What the last call of a run satisfies. -/
theorem Along.last {s : S} {cs : List C} {c : C} (h : Along step P s (cs ++ [c])) :
    P (cs.foldl step s) c := by
  induction cs generalizing s with
  | nil => exact h.1
  | cons a cs ih => exact ih h.2

theorem along_true : ∀ {s : S} (cs : List C), Along step (fun _ _ => True) s cs := by
  intro s cs
  induction cs generalizing s with
  | nil => exact trivial
  | cons c cs ih => exact ⟨trivial, ih⟩

theorem along_of_invariant (hP : ∀ s c, inv s → P s c) (hkeep : ∀ s c, inv s → inv (step s c))
    {s : S} (cs : List C) (hs : inv s) : Along step P s cs :=
  (along_iff (fun s c h => iff_of_true (hP s c h) trivial) (fun s c h _ => hkeep s c h) cs hs).mpr
    (along_true cs)

end TetCore.Lib
