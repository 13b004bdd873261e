import Mathlib.Data.List.Forall2

/-!
# Scripts of requests

A script is a program that asks another party, reports what it is doing, and can throw. It is run
against the answers it gets: `answers n` is the answer to its `n`-th request, so the party may be any,
with any memory.

Two rules are proved of runs.

* `Lockstep`, for two scripts: against the same answers they make related requests, one for one
  (`Lockstep.requests`). `Lockstep.bind`, `Lockstep.catching` compose it.
* `Earns`, for one script: it makes a report only after an answer that entitles it to
  (`Earns.reports`). `earns_bind`, `earns_catching` compute it along the script.
-/

namespace TetCore.Lib

/-- A script with requests `Q`, answers `A` and reports `S`. -/
inductive Script (Q A S : Type) (α : Type) where
  | done (a : α)
  /-- An error, with its text. -/
  | throw (e : List Char)
  | ask (q : Q) (next : A → Script Q A S α)
  | say (s : S) (next : Script Q A S α)

/-- What happens in a run, in order. -/
inductive Event (Q A S : Type) where
  | asked (q : Q) (a : A)
  | said (s : S)

namespace Script

variable {Q A S α β γ δ : Type}

def bind (t : Script Q A S α) (f : α → Script Q A S β) : Script Q A S β :=
  match t with
  | .done a => f a
  | .throw e => .throw e
  | .ask q next => .ask q fun a => (next a).bind f
  | .say s next => .say s (next.bind f)

instance : Monad (Script Q A S) where
  pure := .done
  bind := .bind

/-- `try t catch h`. -/
def catching (t : Script Q A S α) (h : List Char → Script Q A S α) : Script Q A S α :=
  match t with
  | .done a => .done a
  | .throw e => h e
  | .ask q next => .ask q fun a => (next a).catching h
  | .say s next => .say s (next.catching h)

/-- A value, or the error in its place. -/
def lift : Except (List Char) α → Script Q A S α
  | .ok a => .done a
  | .error e => .throw e

/-- One request. -/
def request (q : Q) : Script Q A S A := .ask q .done

/-- One report. -/
def report (s : S) : Script Q A S Unit := .say s (.done ())

/-- The run from the `n`-th request on: what happens, and how it ends. -/
def run (answers : Nat → A) : Script Q A S α → Nat → List (Event Q A S) × Except (List Char) α
  | .done a, _ => ([], .ok a)
  | .throw e, _ => ([], .error e)
  | .ask q next, n =>
    (.asked q (answers n) :: ((next (answers n)).run answers (n + 1)).1,
      ((next (answers n)).run answers (n + 1)).2)
  | .say s next, n => (.said s :: (next.run answers n).1, (next.run answers n).2)

/-- The requests of a run. -/
def requests (events : List (Event Q A S)) : List Q :=
  events.filterMap fun
    | .asked q _ => some q
    | .said _ => none

/-! ## Two scripts in lockstep -/

/-- Against these answers, from the `n`-th request on, the two scripts make related requests and end in
related values. -/
inductive Lockstep (answers : Nat → A) (R : Q → Q → Prop) (V : α → β → Prop) :
    Nat → Script Q A S α → Script Q A S β → Prop
  | done {n : Nat} {a : α} {b : β} (hv : V a b) : Lockstep answers R V n (.done a) (.done b)
  | throw (n : Nat) (e e' : List Char) : Lockstep answers R V n (.throw e) (.throw e')
  | ask {n : Nat} {q q' : Q} {next : A → Script Q A S α} {next' : A → Script Q A S β} (hq : R q q')
      (hnext : Lockstep answers R V (n + 1) (next (answers n)) (next' (answers n))) :
      Lockstep answers R V n (.ask q next) (.ask q' next')
  | say {n : Nat} {next : Script Q A S α} {next' : Script Q A S β} (s s' : S)
      (hnext : Lockstep answers R V n next next') :
      Lockstep answers R V n (.say s next) (.say s' next')

namespace Lockstep

variable {answers : Nat → A} {R : Q → Q → Prop} {V : α → β → Prop} {W : γ → δ → Prop} {n : Nat}

/-- One script against itself. -/
theorem refl (hrefl : ∀ q, R q q) (t : Script Q A S α) (n : Nat) :
    Lockstep answers R (fun a b => a = b ∧ (t.run answers n).2 = .ok a) n t t := by
  induction t generalizing n with
  | done a => exact .done ⟨rfl, rfl⟩
  | throw e => exact .throw n e e
  | ask q next ih => exact .ask (hrefl q) (ih (answers n) (n + 1))
  | say s next ih => exact .say s s (ih n)

theorem bind {t : Script Q A S α} {t' : Script Q A S β} {f : α → Script Q A S γ}
    {f' : β → Script Q A S δ} (h : Lockstep answers R V n t t')
    (hf : ∀ m a b, V a b → Lockstep answers R W m (f a) (f' b)) :
    Lockstep answers R W n (t.bind f) (t'.bind f') := by
  induction h with
  | done hv => exact hf _ _ _ hv
  | throw n e e' => exact .throw n e e'
  | ask hq _ ih => exact .ask hq ih
  | say s s' _ ih => exact .say s s' ih

theorem catching {t : Script Q A S α} {t' : Script Q A S β} {f : List Char → Script Q A S α}
    {f' : List Char → Script Q A S β} (h : Lockstep answers R V n t t')
    (hf : ∀ m e e', Lockstep answers R V m (f e) (f' e')) :
    Lockstep answers R V n (t.catching f) (t'.catching f') := by
  induction h with
  | done hv => exact .done hv
  | throw n e e' => exact hf n e e'
  | ask hq _ ih => exact .ask hq ih
  | say s s' _ ih => exact .say s s' ih

/-- A step that both scripts make. -/
theorem bind_same (hrefl : ∀ q, R q q) {t : Script Q A S α} {f : α → Script Q A S γ}
    {f' : α → Script Q A S δ}
    (hf : ∀ m a, (t.run answers n).2 = .ok a → Lockstep answers R W m (f a) (f' a)) :
    Lockstep answers R W n (t.bind f) (t.bind f') := by
  refine (refl hrefl t n).bind ?_
  rintro m a b ⟨rfl, hrun⟩
  exact hf m a hrun

/-- A value each script has of its own. -/
theorem lift_bind {x : Except (List Char) α} {y : Except (List Char) β} {f : α → Script Q A S γ}
    {f' : β → Script Q A S δ} (hok : x.isOk = y.isOk)
    (hf : ∀ a b, x = .ok a → y = .ok b → Lockstep answers R W n (f a) (f' b)) :
    Lockstep answers R W n ((Script.lift x).bind f) ((Script.lift y).bind f') := by
  cases x with
  | error e =>
    cases y with
    | error e' => exact .throw n e e'
    | ok b => cases hok
  | ok a =>
    cases y with
    | error e => cases hok
    | ok b => exact hf a b rfl rfl

/-- Scripts in lockstep make related requests, one for one. -/
theorem requests {t : Script Q A S α} {t' : Script Q A S β} (h : Lockstep answers R V n t t') :
    List.Forall₂ R (Script.requests (t.run answers n).1)
      (Script.requests (t'.run answers n).1) := by
  induction h with
  | done hv => exact .nil
  | throw n e e' => exact .nil
  | ask hq _ ih => exact .cons hq ih
  | say s s' _ ih => exact ih

end Lockstep

/-! ## Reports that are earned -/

/-- The script makes a report that is a `claim` only once an answer was `good`, which `earned` says of
what came before; `post` holds of its value and of whether it is earned then. -/
def Earns (good : Q → A → Prop) (claim : S → Prop) :
    Script Q A S α → Prop → (α → Prop → Prop) → Prop
  | .done a, earned, post => post a earned
  | .throw _, _, _ => True
  | .ask q next, earned, post => ∀ a, Earns good claim (next a) (earned ∨ good q a) post
  | .say s next, earned, post => (claim s → earned) ∧ Earns good claim next earned post

variable {good : Q → A → Prop} {claim : S → Prop} {earned earned' : Prop}

theorem earns_bind {t : Script Q A S α} {f : α → Script Q A S β} {post : β → Prop → Prop} :
    Earns good claim (t.bind f) earned post ↔
      Earns good claim t earned fun a e => Earns good claim (f a) e post := by
  induction t generalizing earned with
  | done a => exact Iff.rfl
  | throw e => exact Iff.rfl
  | ask q next ih => exact forall_congr' fun a => ih a
  | say s next ih => exact and_congr_right fun _ => ih

theorem Earns.mono {t : Script Q A S α} {post post' : α → Prop → Prop}
    (h : Earns good claim t earned post) (hpost : ∀ a e, post a e → post' a e) :
    Earns good claim t earned post' := by
  induction t generalizing earned with
  | done a => exact hpost a earned h
  | throw e => trivial
  | ask q next ih =>
    intro a
    exact ih a (h a)
  | say s next ih => exact ⟨h.1, ih h.2⟩

/-- A handler that claims nothing. -/
theorem Earns.catching {t : Script Q A S α} {f : List Char → Script Q A S α}
    (h : Earns good claim t earned fun _ _ => True)
    (hf : ∀ err e, Earns good claim (f err) e fun _ _ => True) :
    Earns good claim (t.catching f) earned fun _ _ => True := by
  induction t generalizing earned with
  | done a => trivial
  | throw err => exact hf err earned
  | ask q next ih =>
    intro a
    exact ih a (h a)
  | say s next ih => exact ⟨h.1, ih h.2⟩

/-- A report that is a claim comes after a good answer. -/
theorem Earns.reports {t : Script Q A S α} {post : α → Prop → Prop}
    (h : Earns good claim t earned post) (answers : Nat → A) (n : Nat)
    {before after : List (Event Q A S)} {s : S} (hs : claim s)
    (hrun : (t.run answers n).1 = before ++ .said s :: after) :
    earned ∨ ∃ q a, .asked q a ∈ before ∧ good q a := by
  induction t generalizing earned n before with
  | done a => exact absurd hrun (List.append_ne_nil_of_right_ne_nil before (List.cons_ne_nil _ _)).symm
  | throw e => exact absurd hrun (List.append_ne_nil_of_right_ne_nil before (List.cons_ne_nil _ _)).symm
  | ask q next ih =>
    cases before with
    | nil => cases hrun
    | cons b before =>
      obtain ⟨hb, hrun⟩ := List.cons.inj hrun
      rcases ih _ (h (answers n)) (n + 1) hrun with (he | hgood) | ⟨q', a, hmem, hgood⟩
      · exact Or.inl he
      · exact Or.inr ⟨q, answers n, List.mem_cons.mpr (Or.inl hb), hgood⟩
      · exact Or.inr ⟨q', a, List.mem_cons_of_mem b hmem, hgood⟩
  | say s' next ih =>
    cases before with
    | nil =>
      obtain ⟨hs', -⟩ := List.cons.inj hrun
      cases hs'
      exact Or.inl (h.1 hs)
    | cons b before =>
      obtain ⟨-, hrun⟩ := List.cons.inj hrun
      rcases ih h.2 n hrun with he | ⟨q, a, hmem, hgood⟩
      · exact Or.inl he
      · exact Or.inr ⟨q, a, List.mem_cons_of_mem b hmem, hgood⟩

end Script

end TetCore.Lib
