import Mathlib.Data.List.Basic

/-!
# Fallible computations

Two kinds of function that can fail.

* `Except ε α`: nothing is written before the last check. `require` is a check, and `bind_eq_ok`
  takes a successful run apart.
* `Proc σ ε α`: the state is written as the computation goes, so an error leaves whatever was
  written so far; a loop may also never return (`Outcome.hang`, a model of it that ran out of fuel).
  `bind_eq_ok_iff` takes a successful run apart, and `Keeps` is the rule for relations that every
  part of a computation preserves, however it ends.
-/

namespace TetCore.Lib

variable {σ ε α β : Type}

/-! ## Checks -/

/-- Fail with `e` unless `c` holds. -/
def require (c : Prop) [Decidable c] (e : ε) : Except ε Unit := if c then .ok () else .error e

@[simp] theorem require_eq_ok {c : Prop} [Decidable c] {e : ε} {u : Unit} :
    require c e = .ok u ↔ c := by
  unfold require
  split <;> simp [*]

theorem require_of {c : Prop} [Decidable c] {e : ε} (h : c) : require c e = .ok () := if_pos h

@[simp] theorem bind_eq_ok {x : Except ε α} {f : α → Except ε β} {b : β} :
    (x >>= f) = .ok b ↔ ∃ a, x = .ok a ∧ f a = .ok b := by
  cases x with
  | error e => exact ⟨nofun, fun ⟨_, h, _⟩ => nomatch h⟩
  | ok a => exact ⟨fun h => ⟨a, rfl, h⟩, fun ⟨_, h, h'⟩ => by cases h; exact h'⟩

@[simp] theorem ok_bind (a : α) (f : α → Except ε β) : (Except.ok a >>= f) = f a := rfl

@[simp] theorem error_bind (e : ε) (f : α → Except ε β) : (Except.error e >>= f) = .error e := rfl

/-- A check that is written as a refusal. -/
theorem ite_error_eq_ok {c : Prop} [Decidable c] {e : ε} {x : Except ε α} {a : α} :
    (if c then .error e else x) = .ok a ↔ ¬c ∧ x = .ok a := by
  by_cases h : c <;> simp [h]

theorem mapError_eq_ok {ε' : Type} {f : ε → ε'} {x : Except ε α} {a : α} :
    x.mapError f = .ok a ↔ x = .ok a := by
  cases x <;> simp [Except.mapError]

@[simp] theorem pure_eq_ok (a : α) : (pure a : Except ε α) = .ok a := rfl

theorem map_snd_eq_ok {x : Except ε (α × β)} {b : β} :
    Prod.snd <$> x = .ok b ↔ ∃ a, x = .ok (a, b) := by
  cases x with
  | error e => exact ⟨nofun, fun ⟨_, h⟩ => nomatch h⟩
  | ok p =>
    obtain ⟨a, c⟩ := p
    exact ⟨fun h => ⟨a, by cases h; rfl⟩, fun ⟨_, h⟩ => by cases h; rfl⟩

/-- A run that evaluates to a success has a value. -/
theorem exists_ok {x : Except ε α} (h : x.isOk = true) : ∃ a, x = .ok a := by
  cases x with
  | error e => cases h
  | ok a => exact ⟨a, rfl⟩

/-- The value of a successful computation, or a default. -/
def valueOr (x : Except ε α) (d : α) : α :=
  match x with
  | .ok a => a
  | .error _ => d

/-! ## Stateful computations -/

/-- How a computation ends. -/
inductive Outcome (ε α : Type) where
  | ok (a : α)
  | err (e : ε)
  /-- It does not return. -/
  | hang
  deriving DecidableEq

/-- Whether it ends in an error. -/
def Outcome.isErr : Outcome ε α → Bool
  | .err _ => true
  | _ => false

theorem Outcome.exists_err {r : Outcome ε α} (h : r.isErr = true) : ∃ e, r = .err e := by
  cases r with
  | err e => exact ⟨e, rfl⟩
  | ok a => cases h
  | hang => cases h

/-- Whether it ends with a value. -/
def Outcome.isOk : Outcome ε α → Bool
  | .ok _ => true
  | _ => false

theorem Outcome.exists_ok {r : Outcome ε α} (h : r.isOk = true) : ∃ a, r = .ok a := by
  cases r with
  | ok a => exact ⟨a, rfl⟩
  | err e => cases h
  | hang => cases h

/-- Whether its value, if it ends with one, meets `p`. -/
def Outcome.all (p : α → Bool) : Outcome ε α → Bool
  | .ok a => p a
  | _ => true

@[simp] theorem Outcome.all_ok (p : α → Bool) (a : α) :
    (Outcome.ok a : Outcome ε α).all p = p a := rfl

/-- A computation over the state `σ`. -/
def Proc (σ ε α : Type) : Type := σ → Outcome ε α × σ

namespace Proc

/-- Run `x`, then `f` on its value; an error stops the computation where it stands. -/
def bind (x : Proc σ ε α) (f : α → Proc σ ε β) : Proc σ ε β := fun s =>
  match x s with
  | (.ok a, s') => f a s'
  | (.err e, s') => (.err e, s')
  | (.hang, s') => (.hang, s')

instance : Monad (Proc σ ε) where
  pure a := fun s => (.ok a, s)
  bind := bind

/-- Never return. -/
def hang : Proc σ ε α := fun s => (.hang, s)

/-- A value read off the state. -/
def read (f : σ → α) : Proc σ ε α := fun s => (.ok (f s), s)

/-- A write that cannot fail. -/
def write (f : σ → σ) : Proc σ ε Unit := fun s => (.ok (), f s)

/-- A check of the state, its error through `t`. -/
def check {ε' : Type} (t : ε' → ε) (f : σ → Except ε' α) : Proc σ ε α := fun s =>
  match f s with
  | .ok a => (.ok a, s)
  | .error e => (.err (t e), s)

/-- An operation that writes only when it succeeds, its error through `t`. -/
def atomic {ε' : Type} (t : ε' → ε) (f : σ → Except ε' (α × σ)) : Proc σ ε α := fun s =>
  match f s with
  | .ok (a, s') => (.ok a, s')
  | .error e => (.err (t e), s)

/-- An update that writes only when it succeeds, its error through `t`. -/
def update {ε' : Type} (t : ε' → ε) (f : σ → Except ε' σ) : Proc σ ε Unit := fun s =>
  match f s with
  | .ok s' => (.ok (), s')
  | .error e => (.err (t e), s)

/-- A computation that only reads: it may fail or never return, and writes nothing. -/
def observe (f : σ → Outcome ε α) : Proc σ ε α := fun s => (f s, s)

/-- The same computation, its errors through `t`. -/
def mapErr {ε' : Type} (t : ε' → ε) (x : Proc σ ε' α) : Proc σ ε α := fun s =>
  match x s with
  | (.ok a, s') => (.ok a, s')
  | (.err e, s') => (.err (t e), s')
  | (.hang, s') => (.hang, s')

@[simp] theorem pure_apply (a : α) (s : σ) : (pure a : Proc σ ε α) s = (.ok a, s) := rfl

@[simp] theorem hang_apply (s : σ) : (hang : Proc σ ε α) s = (.hang, s) := rfl

@[simp] theorem read_apply (f : σ → α) (s : σ) : (read f : Proc σ ε α) s = (.ok (f s), s) := rfl

@[simp] theorem write_apply (f : σ → σ) (s : σ) : (write f : Proc σ ε Unit) s = (.ok (), f s) := rfl

theorem bind_apply (x : Proc σ ε α) (f : α → Proc σ ε β) (s : σ) :
    (x >>= f) s = match x s with
      | (.ok a, s') => f a s'
      | (.err e, s') => (.err e, s')
      | (.hang, s') => (.hang, s') := rfl

/-- **A run that succeeds** is a successful run of the first part followed by one of the rest. -/
theorem bind_eq_ok_iff {x : Proc σ ε α} {f : α → Proc σ ε β} {s s' : σ} {b : β} :
    (x >>= f) s = (.ok b, s') ↔ ∃ a s₁, x s = (.ok a, s₁) ∧ f a s₁ = (.ok b, s') := by
  rw [bind_apply]
  rcases x s with ⟨o, s₁⟩
  cases o <;> simp

/-- **A run that fails** fails in the first part, or in the rest after the first part succeeded. -/
theorem bind_eq_err_iff {x : Proc σ ε α} {f : α → Proc σ ε β} {s s' : σ} {e : ε} :
    (x >>= f) s = (.err e, s') ↔
      x s = (.err e, s') ∨ ∃ a s₁, x s = (.ok a, s₁) ∧ f a s₁ = (.err e, s') := by
  rw [bind_apply]
  rcases x s with ⟨o, s₁⟩
  cases o <;> simp

theorem bind_of_ok {x : Proc σ ε α} {f : α → Proc σ ε β} {s s₁ : σ} {a : α}
    (h : x s = (.ok a, s₁)) : (x >>= f) s = f a s₁ := by
  rw [bind_apply, h]

theorem bind_of_err {x : Proc σ ε α} {f : α → Proc σ ε β} {s s₁ : σ} {e : ε}
    (h : x s = (.err e, s₁)) : (x >>= f) s = (.err e, s₁) := by
  rw [bind_apply, h]

theorem bind_of_hang {x : Proc σ ε α} {f : α → Proc σ ε β} {s s₁ : σ}
    (h : x s = (.hang, s₁)) : (x >>= f) s = (.hang, s₁) := by
  rw [bind_apply, h]

theorem check_eq_ok_iff {ε' : Type} {t : ε' → ε} {f : σ → Except ε' α} {s s' : σ} {a : α} :
    (check t f : Proc σ ε α) s = (.ok a, s') ↔ f s = .ok a ∧ s = s' := by
  unfold check
  cases f s <;> simp

theorem check_eq_err_iff {ε' : Type} {t : ε' → ε} {f : σ → Except ε' α} {s s' : σ} {e : ε} :
    (check t f : Proc σ ε α) s = (.err e, s') ↔ (∃ e', f s = .error e' ∧ t e' = e) ∧ s = s' := by
  unfold check
  cases f s <;> simp

theorem atomic_eq_ok_iff {ε' : Type} {t : ε' → ε} {f : σ → Except ε' (α × σ)} {s s' : σ} {a : α} :
    (atomic t f : Proc σ ε α) s = (.ok a, s') ↔ f s = .ok (a, s') := by
  unfold atomic
  rcases f s with e | ⟨b, s₁⟩ <;> simp

theorem atomic_eq_err_iff {ε' : Type} {t : ε' → ε} {f : σ → Except ε' (α × σ)} {s s' : σ} {e : ε} :
    (atomic t f : Proc σ ε α) s = (.err e, s') ↔ (∃ e', f s = .error e' ∧ t e' = e) ∧ s = s' := by
  unfold atomic
  rcases f s with e | ⟨b, s₁⟩ <;> simp

theorem update_eq_ok_iff {ε' : Type} {t : ε' → ε} {f : σ → Except ε' σ} {s s' : σ} {u : Unit} :
    (update t f : Proc σ ε Unit) s = (.ok u, s') ↔ f s = .ok s' := by
  unfold update
  cases f s <;> simp

theorem observe_eq_ok_iff {f : σ → Outcome ε α} {s s' : σ} {a : α} :
    observe f s = (.ok a, s') ↔ f s = .ok a ∧ s = s' := by
  unfold observe
  simp

theorem observe_eq_err_iff {f : σ → Outcome ε α} {s s' : σ} {e : ε} :
    (observe f : Proc σ ε α) s = (.err e, s') ↔ f s = .err e ∧ s = s' := by
  unfold observe
  simp

theorem mapErr_eq_ok_iff {ε' : Type} {t : ε' → ε} {x : Proc σ ε' α} {s s' : σ} {a : α} :
    (mapErr t x : Proc σ ε α) s = (.ok a, s') ↔ x s = (.ok a, s') := by
  unfold mapErr
  rcases x s with ⟨o, s₁⟩
  cases o <;> simp

/-! ## Relations every part of a computation keeps -/

/-- However the computation ends, the state it leaves is `R`-related to the one it started from. -/
def Keeps (R : σ → σ → Prop) (x : Proc σ ε α) : Prop := ∀ s, R s (x s).2

theorem Keeps.bind {R : σ → σ → Prop} (ht : ∀ {a b c}, R a b → R b c → R a c)
    {x : Proc σ ε α} {f : α → Proc σ ε β} (hx : Keeps R x) (hf : ∀ a, Keeps R (f a)) :
    Keeps R (x >>= f) := by
  intro s
  have h := hx s
  rw [bind_apply]
  rcases hs : x s with ⟨o, s₁⟩
  rw [hs] at h
  cases o with
  | ok a => exact ht h (hf a s₁)
  | err e => exact h
  | hang => exact h

theorem Keeps.check {R : σ → σ → Prop} (hr : ∀ a, R a a) {ε' : Type} {t : ε' → ε}
    {f : σ → Except ε' α} : Keeps R (check t f : Proc σ ε α) := by
  intro s
  unfold Proc.check
  cases f s <;> exact hr s

theorem Keeps.update {R : σ → σ → Prop} (hr : ∀ a, R a a) {ε' : Type} {t : ε' → ε}
    {f : σ → Except ε' σ} (hf : ∀ {s s'}, f s = .ok s' → R s s') :
    Keeps R (update t f : Proc σ ε Unit) := by
  intro s
  unfold Proc.update
  cases hs : f s with
  | error e => exact hr s
  | ok s' => exact hf hs

theorem Keeps.atomic {R : σ → σ → Prop} (hr : ∀ a, R a a) {ε' : Type} {t : ε' → ε}
    {f : σ → Except ε' (α × σ)} (hf : ∀ {s a s'}, f s = .ok (a, s') → R s s') :
    Keeps R (atomic t f : Proc σ ε α) := by
  intro s
  unfold Proc.atomic
  rcases hs : f s with e | ⟨a, s'⟩
  · exact hr s
  · exact hf hs

theorem Keeps.write {R : σ → σ → Prop} {f : σ → σ} (hf : ∀ s, R s (f s)) :
    Keeps R (write f : Proc σ ε Unit) := hf

/-- A computation that only reads. -/
theorem Keeps.observe {R : σ → σ → Prop} (hr : ∀ a, R a a) {f : σ → Outcome ε α} :
    Keeps R (observe f) := hr

theorem Keeps.read {R : σ → σ → Prop} (hr : ∀ a, R a a) {f : σ → α} :
    Keeps R (read f : Proc σ ε α) := hr

theorem Keeps.pure {R : σ → σ → Prop} (hr : ∀ a, R a a) (a : α) :
    Keeps R (Pure.pure a : Proc σ ε α) := hr

theorem Keeps.hang {R : σ → σ → Prop} (hr : ∀ a, R a a) : Keeps R (hang : Proc σ ε α) := hr

theorem Keeps.mapErr {R : σ → σ → Prop} {ε' : Type} {t : ε' → ε} {x : Proc σ ε' α}
    (hx : Keeps R x) : Keeps R (mapErr t x : Proc σ ε α) := by
  intro s
  have h := hx s
  unfold Proc.mapErr
  rcases hs : x s with ⟨o, s₁⟩
  rw [hs] at h
  cases o <;> exact h

end Proc

end TetCore.Lib
