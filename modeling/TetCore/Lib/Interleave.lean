import Mathlib.Algebra.GroupWithZero.Nat
import Mathlib.Algebra.Order.BigOperators.Group.List
import Mathlib.Algebra.Order.Group.Nat

/-!
# Threads of atomic steps

Programs of atomic steps over a shared state, one mutex, and the runs of any number of them. Every step
has a place, which says what its thread is in the middle of.

A `Contract` says what a thread at a place may do and when two places are apart. The rule is
rely-guarantee: a program obeys a contract if its steps are allowed by it whatever steps, allowed by it
and from places apart, come in between (`Obeys`). What a thread leaves to be done later it owes: a fact
that is not paid is owed by a thread that is in the middle of something.

* `Prog.alone`: a program with nothing in between.
* `Obeys.bind`, `Obeys.step_of`, `Obeys.read_then`, …: the rules for programs.
* `Contract.run_good`: in a run whose threads stay apart the invariant holds, and when no thread runs
  nothing is owed.
-/

namespace TetCore.Lib

/-! ## Programs -/

/-- A program of atomic steps: where it is, when the step can be taken, what it writes, and how it goes
on after what it saw. -/
inductive Prog (σ ι α : Type) where
  | done (a : α)
  | step (place : ι) (ready : σ → Bool) (write : σ → σ) (next : σ → Prog σ ι α)

namespace Prog

variable {σ ι α β : Type}

def bind (p : Prog σ ι α) (f : α → Prog σ ι β) : Prog σ ι β :=
  match p with
  | .done a => f a
  | .step i ready write next => .step i ready write fun s => (next s).bind f

instance : Monad (Prog σ ι) where
  pure := .done
  bind := .bind

/-- Look at the state. -/
def read (i : ι) (f : σ → α) : Prog σ ι α := .step i (fun _ => true) id fun s => .done (f s)

/-- Change the state. -/
def write (i : ι) (f : σ → σ) : Prog σ ι Unit := .step i (fun _ => true) f fun _ => .done ()

/-- Change the state as soon as it is ready. -/
def await (i : ι) (ready : σ → Bool) (f : σ → σ) : Prog σ ι Unit := .step i ready f fun _ => .done ()

/-- Change the state as soon as it is ready, and go on with what was found. -/
def update (i : ι) (ready : σ → Bool) (f : σ → α × σ) : Prog σ ι α :=
  .step i ready (fun s => (f s).2) fun s => .done (f s).1

/-- A run of the program with nothing in between; none if it waits. -/
def alone : Prog σ ι α → σ → Option (α × σ)
  | .done a, s => some (a, s)
  | .step _ ready write next, s => if ready s then (next s).alone (write s) else none

theorem alone_bind (f : α → Prog σ ι β) : ∀ (p : Prog σ ι α) (s : σ),
    (p >>= f).alone s = (p.alone s).bind fun r => (f r.1).alone r.2 := by
  intro p
  induction p with
  | done a => exact fun s => rfl
  | step i ready write next ih =>
    intro s
    show (if ready s then (next s >>= f).alone (write s) else none) =
      (if ready s then (next s).alone (write s) else none).bind _
    split
    · exact ih s (write s)
    · rfl

@[simp] theorem alone_pure (a : α) (s : σ) : (pure a : Prog σ ι α).alone s = some (a, s) := rfl

@[simp] theorem alone_read (i : ι) (f : σ → α) (s : σ) : (read i f).alone s = some (f s, s) := rfl

@[simp] theorem alone_write (i : ι) (f : σ → σ) (s : σ) :
    (write i f).alone s = some ((), f s) := rfl

theorem alone_update {i : ι} {ready : σ → Bool} {f : σ → α × σ} {s : σ} (h : ready s = true) :
    (update i ready f).alone s = some (f s) := if_pos h

/-- Where a program is that goes on at `e` when it is done. -/
def placeThen (e : α → Option ι) : Prog σ ι α → Option ι
  | .done a => e a
  | .step i _ _ _ => some i

theorem placeThen_bind (e : β → Option ι) (p : Prog σ ι α) (f : α → Prog σ ι β) :
    (p >>= f).placeThen e = p.placeThen fun a => (f a).placeThen e := by
  cases p <;> rfl

/-- Where a thread is. -/
def place (p : Prog σ ι α) : Option ι := p.placeThen fun _ => none

end Prog

/-- A state and the threads that run. -/
abbrev Pool (σ ι : Type) : Type := σ × List (Prog σ ι Unit)

/-- A thread starts, makes a step, or ends. -/
inductive Pool.Step {σ ι : Type} (start : Prog σ ι Unit → Prop) : Pool σ ι → Pool σ ι → Prop where
  | spawn (s : σ) (ts : List (Prog σ ι Unit)) (p : Prog σ ι Unit) (started : start p) :
      Step start (s, ts) (s, p :: ts)
  | run (s : σ) (l l' : List (Prog σ ι Unit)) (i : ι) (ready : σ → Bool) (write : σ → σ)
      (next : σ → Prog σ ι Unit) (can : ready s = true) :
      Step start (s, l ++ .step i ready write next :: l') (write s, l ++ next s :: l')
  | exit (s : σ) (l l' : List (Prog σ ι Unit)) :
      Step start (s, l ++ .done () :: l') (s, l ++ l')

/-! ## Contracts -/

/-- What is kept between the threads. -/
structure Contract (σ ι κ : Type) where
  /-- What is true of the state at all times. -/
  Inv : σ → Prop
  /-- What a step from a place to the next one may do. -/
  Guar : ι → Option ι → σ → σ → Prop
  /-- Places that two threads may be at together. -/
  Apart : ι → ι → Prop
  symm : ∀ i j, Apart i j → Apart j i
  /-- Places that hold the mutex. -/
  holds : ι → Bool
  /-- The mutex is taken. -/
  locked : σ → Bool
  /-- What is left to be done at a place. -/
  Owes : ι → κ → Prop
  Paid : κ → σ → Prop

namespace Contract

variable {σ ι κ α β : Type} (C : Contract σ ι κ)

def ApartOf (i j : Option ι) : Prop := ∀ a b, i = some a → j = some b → C.Apart a b

def holdsAt (i : Option ι) : Bool := i.elim false C.holds

def OwedAt (i : Option ι) (k : κ) : Prop := ∃ a, i = some a ∧ C.Owes a k

/-- A step that the contract allows. -/
structure Move (i : ι) (j : Option ι) (s s' : σ) : Prop where
  inv : C.Inv s'
  guar : C.Guar i j s s'
  /-- The mutex is taken and left as the places say. -/
  lock : (C.locked s').toNat + (C.holds i).toNat = (C.locked s).toNat + (C.holdsAt j).toNat
  /-- What becomes unpaid is owed at the next place. -/
  debt : ∀ k, C.Paid k s ∨ C.Owes i k → C.Paid k s' ∨ C.OwedAt j k

/-- A step of another thread, as it looks from a place. -/
def Rely (i : ι) (s s' : σ) : Prop :=
  ∃ j j', C.Apart i j ∧ C.ApartOf (some i) j' ∧
    (C.holds i = true → C.holds j = false ∧ C.holdsAt j' = false) ∧ C.Inv s ∧ C.Move j j' s s'

/-- A fact that the other threads leave. -/
def Stable (i : ι) (A : σ → Prop) : Prop := ∀ s s', A s → C.Rely i s s' → A s'

/-- The steps of a program are allowed, and it ends with `Q`, whatever the other threads do. A thread
that holds the mutex finds it taken. -/
def Obeys (e : α → Option ι) (Q : α → σ → Prop) : Prog σ ι α → σ → Prop
  | .done a, s => Q a s
  | .step i ready write next, s => ∀ s', Relation.ReflTransGen (C.Rely i) s s' → C.Inv s' →
      (C.holds i = true → C.locked s' = true) → ready s' = true →
        C.Move i ((next s').placeThen e) s' (write s') ∧ Obeys e Q (next s') (write s')

variable {C}

theorem Obeys.mono {e : α → Option ι} {Q Q' : α → σ → Prop} (hq : ∀ a s, Q a s → Q' a s) :
    ∀ {p : Prog σ ι α} {s : σ}, C.Obeys e Q p s → C.Obeys e Q' p s := by
  intro p
  induction p with
  | done a => exact fun h => hq a _ h
  | step i ready write next ih =>
    intro s h s' hrely hinv hlocked hready
    obtain ⟨hmove, hrest⟩ := h s' hrely hinv hlocked hready
    exact ⟨hmove, ih s' hrest⟩

/-- **A program after another**: the first one goes on where the second one begins. -/
theorem Obeys.bind {e : β → Option ι} {Q : β → σ → Prop} {f : α → Prog σ ι β} :
    ∀ {p : Prog σ ι α} {s : σ},
      C.Obeys (fun a => (f a).placeThen e) (fun a s => C.Obeys e Q (f a) s) p s →
        C.Obeys e Q (p >>= f) s := by
  intro p
  induction p with
  | done a => exact fun h => h
  | step i ready write next ih =>
    intro s h s' hrely hinv hlocked hready
    obtain ⟨hmove, hrest⟩ := h s' hrely hinv hlocked hready
    refine ⟨?_, ih s' hrest⟩
    show C.Move i (((next s') >>= f).placeThen e) s' (write s')
    rw [Prog.placeThen_bind]
    exact hmove

/-- **One step** from a fact that the other threads leave. -/
theorem Obeys.step_of {e : α → Option ι} {Q : α → σ → Prop} {i : ι} {ready : σ → Bool}
    {write : σ → σ} {next : σ → Prog σ ι α} {s : σ} (A : σ → Prop) (hs : A s)
    (stable : C.Stable i A)
    (h : ∀ s, A s → C.Inv s → (C.holds i = true → C.locked s = true) → ready s = true →
      C.Move i ((next s).placeThen e) s (write s) ∧ C.Obeys e Q (next s) (write s)) :
    C.Obeys e Q (.step i ready write next) s := by
  intro s' hrely hinv hlocked hready
  refine h s' ?_ hinv hlocked hready
  clear hinv hlocked hready
  induction hrely with
  | refl => exact hs
  | tail _ hstep ih => exact stable _ _ ih hstep

/-- A look at the state, and what follows. -/
theorem Obeys.read_then {e : β → Option ι} {Q : β → σ → Prop} {i : ι} {f : σ → α}
    {k : α → Prog σ ι β} {s : σ} (A : σ → Prop) (hs : A s) (stable : C.Stable i A)
    (h : ∀ s, A s → C.Inv s → C.Move i ((k (f s)).placeThen e) s s ∧ C.Obeys e Q (k (f s)) s) :
    C.Obeys e Q (Prog.read i f >>= k) s :=
  Obeys.bind (Obeys.step_of A hs stable fun s hA hinv _ _ => h s hA hinv)

/-- A change of the state, the last step. -/
theorem Obeys.write_last {e : Unit → Option ι} {Q : Unit → σ → Prop} {i : ι} {f : σ → σ} {s : σ}
    (A : σ → Prop) (hs : A s) (stable : C.Stable i A)
    (h : ∀ s, A s → C.Inv s → C.Move i (e ()) s (f s) ∧ Q () (f s)) :
    C.Obeys e Q (Prog.write i f) s :=
  Obeys.step_of A hs stable fun s hA hinv _ _ => h s hA hinv

/-- A change of the state, and what follows. -/
theorem Obeys.write_then {e : β → Option ι} {Q : β → σ → Prop} {i : ι} {f : σ → σ}
    {k : Unit → Prog σ ι β} {s : σ} (A : σ → Prop) (hs : A s) (stable : C.Stable i A)
    (h : ∀ s, A s → C.Inv s →
      C.Move i ((k ()).placeThen e) s (f s) ∧ C.Obeys e Q (k ()) (f s)) :
    C.Obeys e Q (Prog.write i f >>= k) s :=
  Obeys.bind (Obeys.write_last A hs stable h)

/-- A change of the state once it is ready, and what follows. -/
theorem Obeys.await_then {e : β → Option ι} {Q : β → σ → Prop} {i : ι} {ready : σ → Bool}
    {f : σ → σ} {k : Unit → Prog σ ι β} {s : σ} (A : σ → Prop) (hs : A s) (stable : C.Stable i A)
    (h : ∀ s, A s → C.Inv s → ready s = true →
      C.Move i ((k ()).placeThen e) s (f s) ∧ C.Obeys e Q (k ()) (f s)) :
    C.Obeys e Q (Prog.await i ready f >>= k) s :=
  Obeys.bind (Obeys.step_of A hs stable fun s hA hinv _ => h s hA hinv)

/-- A change of the state once it is ready, and what follows what was found. -/
theorem Obeys.update_then {e : β → Option ι} {Q : β → σ → Prop} {i : ι} {ready : σ → Bool}
    {f : σ → α × σ} {k : α → Prog σ ι β} {s : σ} (A : σ → Prop) (hs : A s) (stable : C.Stable i A)
    (h : ∀ s, A s → C.Inv s → ready s = true →
      C.Move i ((k (f s).1).placeThen e) s (f s).2 ∧ C.Obeys e Q (k (f s).1) (f s).2) :
    C.Obeys e Q (Prog.update i ready f >>= k) s :=
  Obeys.bind (Obeys.step_of A hs stable fun s hA hinv _ => h s hA hinv)

theorem stable_true (i : ι) : C.Stable i fun _ => True := fun _ _ _ _ => trivial

theorem Stable.and {i : ι} {A B : σ → Prop} (hA : C.Stable i A) (hB : C.Stable i B) :
    C.Stable i fun s => A s ∧ B s := fun s s' h hrely => ⟨hA s s' h.1 hrely, hB s s' h.2 hrely⟩

/-- A step of another thread leaves a thread obeying. -/
theorem Obeys.rely {e : Unit → Option ι} {p : Prog σ ι Unit} {s s' : σ}
    (h : C.Obeys e (fun _ _ => True) p s)
    (hrely : ∀ i, p.place = some i → C.Rely i s s') : C.Obeys e (fun _ _ => True) p s' := by
  cases p with
  | done a => exact trivial
  | step i ready write next =>
    intro s'' hlater hinv hlocked hready
    exact h s'' (.head (hrely i rfl) hlater) hinv hlocked hready

/-! ## Runs -/

variable (C)

/-- The threads are apart. -/
def Calm (c : Pool σ ι) : Prop := c.2.Pairwise fun p q => C.ApartOf p.place q.place

/-- The threads obey, at most one holds the mutex, and what is unpaid is owed by one of them. -/
structure Good (c : Pool σ ι) : Prop where
  inv : C.Inv c.1
  threads : ∀ p ∈ c.2, C.Obeys (fun _ => none) (fun _ _ => True) p c.1
  mutex : (c.2.map fun p => (C.holdsAt p.place).toNat).sum = (C.locked c.1).toNat
  debts : ∀ k, C.Paid k c.1 ∨ ∃ p ∈ c.2, C.OwedAt p.place k

/-- The programs that may be started obey from every state, and hold nothing when they start. -/
def Starts (start : Prog σ ι Unit → Prop) : Prop :=
  ∀ p, start p → C.holdsAt p.place = false ∧
    ∀ s, C.Inv s → C.Obeys (fun _ => none) (fun _ _ => True) p s

variable {C} {start : Prog σ ι Unit → Prop} {c c' : Pool σ ι}

/-- When no thread runs, nothing is owed. -/
theorem Good.paid {s : σ} (h : C.Good (s, [])) (k : κ) : C.Paid k s := by
  rcases h.debts k with hpaid | ⟨p, hp, -⟩
  · exact hpaid
  · exact absurd hp List.not_mem_nil

theorem apartOf_symm {i j : Option ι} (h : C.ApartOf i j) : C.ApartOf j i :=
  fun a b ha hb => C.symm b a (h b a hb ha)

/-- The threads beside one of a calm pool. -/
theorem Calm.apart {s : σ} {l l' : List (Prog σ ι Unit)} {p q : Prog σ ι Unit}
    (h : C.Calm (s, l ++ p :: l')) (hq : q ∈ l ++ l') : C.ApartOf q.place p.place := by
  obtain ⟨-, hright, hcross⟩ := List.pairwise_append.mp h
  rcases List.mem_append.mp hq with hq | hq
  · exact hcross q hq p List.mem_cons_self
  · exact apartOf_symm ((List.pairwise_cons.mp hright).1 q hq)

/-- **A step of the pool** keeps it good as long as the threads are apart. -/
theorem Good.step (hstart : C.Starts start) (h : C.Good c) (hcalm : C.Calm c) (hcalm' : C.Calm c')
    (hstep : Pool.Step start c c') : C.Good c' := by
  cases hstep with
  | spawn s ts p started =>
    obtain ⟨hfree, hobeys⟩ := hstart p started
    refine ⟨h.inv, ?_, ?_, ?_⟩
    · intro q hq
      rcases List.mem_cons.mp hq with rfl | hq
      · exact hobeys s h.inv
      · exact h.threads q hq
    · show ((p :: ts).map _).sum = _
      rw [List.map_cons, List.sum_cons, hfree, h.mutex]
      exact Nat.zero_add _
    · intro k
      rcases h.debts k with hpaid | ⟨q, hq, howed⟩
      · exact Or.inl hpaid
      · exact Or.inr ⟨q, List.mem_cons_of_mem _ hq, howed⟩
  | run s l l' i ready write next can =>
    have hmutex := h.mutex
    simp only [List.map_append, List.map_cons, List.sum_append, List.sum_cons] at hmutex
    have hone : (C.locked s).toNat ≤ 1 := Bool.toNat_le _
    change _ + ((C.holds i).toNat + _) = _ at hmutex
    have hlocked : C.holds i = true → C.locked s = true := by
      intro hholds
      rw [hholds, Bool.toNat_true] at hmutex
      cases htaken : C.locked s with
      | true => rfl
      | false =>
        rw [htaken, Bool.toNat_false] at hmutex
        omega
    obtain ⟨hmove, hrest⟩ :=
      h.threads _ (List.mem_append_right _ List.mem_cons_self) s .refl h.inv hlocked can
    have hlock := hmove.lock
    -- a thread that holds the mutex is the only one
    have hexcl : ∀ q ∈ l ++ l', C.holdsAt q.place = true →
        C.holds i = false ∧ C.holdsAt ((next s).placeThen fun _ => none) = false := by
      intro q hq hholds
      have hle : 1 ≤ ((l ++ l').map fun p => (C.holdsAt p.place).toNat).sum := by
        refine le_trans ?_ (List.single_le_sum (fun _ _ => Nat.zero_le _) _
          (List.mem_map_of_mem hq))
        rw [hholds]
        exact Nat.le_refl 1
      rw [List.map_append, List.sum_append] at hle
      constructor
      · cases hi : C.holds i with
        | false => rfl
        | true =>
          rw [hi, Bool.toNat_true] at hmutex
          omega
      · cases hj : C.holdsAt ((next s).placeThen fun _ => none) with
        | false => rfl
        | true =>
          rw [hj, Bool.toNat_true] at hlock
          have : (C.locked (write s)).toNat ≤ 1 := Bool.toNat_le _
          omega
    refine ⟨hmove.inv, ?_, ?_, ?_⟩
    · intro q hq
      have hcases : q = next s ∨ q ∈ l ++ l' := by
        rcases List.mem_append.mp hq with hq | hq
        · exact Or.inr (List.mem_append_left _ hq)
        · rcases List.mem_cons.mp hq with rfl | hq
          · exact Or.inl rfl
          · exact Or.inr (List.mem_append_right _ hq)
      rcases hcases with rfl | hother
      · exact hrest
      · have hmem : q ∈ l ++ .step i ready write next :: l' := by
          rcases List.mem_append.mp hother with hq | hq
          · exact List.mem_append_left _ hq
          · exact List.mem_append_right _ (List.mem_cons_of_mem _ hq)
        refine (h.threads q hmem).rely fun a ha => ?_
        refine ⟨i, _, hcalm.apart hother a i ha rfl, ?_, ?_, h.inv, hmove⟩
        · rw [← ha]
          exact hcalm'.apart hother
        · intro hholds
          exact hexcl q hother (by rw [ha]; exact hholds)
    · show ((l ++ next s :: l').map _).sum = _
      simp only [List.map_append, List.map_cons, List.sum_append, List.sum_cons]
      change _ + ((C.holdsAt ((next s).placeThen fun _ => none)).toNat + _) = _
      omega
    · intro k
      have hown : C.Paid k s ∨ C.Owes i k → C.Paid k (write s) ∨
          ∃ p ∈ l ++ next s :: l', C.OwedAt p.place k := by
        intro hk
        rcases hmove.debt k hk with hpaid | howed
        · exact Or.inl hpaid
        · exact Or.inr ⟨next s, List.mem_append_right _ List.mem_cons_self, howed⟩
      rcases h.debts k with hpaid | ⟨q, hq, howed⟩
      · exact hown (Or.inl hpaid)
      · rcases List.mem_append.mp hq with hq | hq
        · exact Or.inr ⟨q, List.mem_append_left _ hq, howed⟩
        · rcases List.mem_cons.mp hq with rfl | hq
          · obtain ⟨a, ha, howes⟩ := howed
            cases ha
            exact hown (Or.inr howes)
          · exact Or.inr ⟨q, List.mem_append_right _ (List.mem_cons_of_mem _ hq), howed⟩
  | exit s l l' =>
    have hmem : ∀ q ∈ l ++ l', q ∈ l ++ .done () :: l' := by
      intro q hq
      rcases List.mem_append.mp hq with hq | hq
      · exact List.mem_append_left _ hq
      · exact List.mem_append_right _ (List.mem_cons_of_mem _ hq)
    refine ⟨h.inv, fun q hq => h.threads q (hmem q hq), ?_, ?_⟩
    · have hmutex := h.mutex
      simp only [List.map_append, List.map_cons, List.sum_append, List.sum_cons] at hmutex ⊢
      change _ + (0 + _) = _ at hmutex
      omega
    · intro k
      rcases h.debts k with hpaid | ⟨q, hq, howed⟩
      · exact Or.inl hpaid
      · rcases List.mem_append.mp hq with hq | hq
        · exact Or.inr ⟨q, List.mem_append_left _ hq, howed⟩
        · rcases List.mem_cons.mp hq with rfl | hq
          · obtain ⟨a, ha, -⟩ := howed
            cases ha
          · exact Or.inr ⟨q, List.mem_append_right _ hq, howed⟩

/-- **A run** whose threads stay apart is good. -/
theorem run_good (hstart : C.Starts start) {s : σ} (hfree : C.locked s = false) (hinv : C.Inv s)
    (hpaid : ∀ k, C.Paid k s)
    (hrun : Relation.ReflTransGen (fun c c' => Pool.Step start c c' ∧ C.Calm c') (s, []) c) :
    C.Good c := by
  have hboth : C.Good c ∧ C.Calm c := by
    induction hrun with
    | refl =>
      refine ⟨⟨hinv, fun p hp => absurd hp List.not_mem_nil, ?_, fun k => Or.inl (hpaid k)⟩,
        List.Pairwise.nil⟩
      rw [hfree]
      rfl
    | tail _ hstep ih => exact ⟨ih.1.step hstart ih.2 hstep.2 hstep.1, hstep.2⟩
  exact hboth.1

end Contract

/-! ## Schedules -/

namespace Pool

variable {σ ι : Type} {start : Prog σ ι Unit → Prop}

/-- The next step of the thread at a position, when it can make one. -/
def move (c : Pool σ ι) (n : Nat) : Pool σ ι :=
  match c.2[n]? with
  | some (.step _ ready write next) =>
    if ready c.1 then (write c.1, c.2.set n (next c.1)) else c
  | some (.done _) => (c.1, c.2.eraseIdx n)
  | none => c

/-- The steps of a schedule. -/
def moves (c : Pool σ ι) (schedule : List Nat) : Pool σ ι := schedule.foldl move c

/-- A move is a step, unless the thread waits or is not there. -/
theorem move_step (start : Prog σ ι Unit → Prop) (c : Pool σ ι) (n : Nat) :
    c.move n = c ∨ Step start c (c.move n) := by
  obtain ⟨s, ts⟩ := c
  unfold move
  cases hget : ts[n]? with
  | none => exact Or.inl rfl
  | some p =>
    obtain ⟨hn, rfl⟩ := List.getElem?_eq_some_iff.mp hget
    have hsplit : ts = ts.take n ++ ts[n] :: ts.drop (n + 1) := by
      rw [← List.drop_eq_getElem_cons hn, List.take_append_drop]
    cases hp : ts[n] with
    | done a =>
      have hstep : Step start _ _ := Step.exit s (ts.take n) (ts.drop (n + 1))
      rw [hp] at hsplit
      rw [← hsplit, ← List.eraseIdx_eq_take_drop_succ] at hstep
      exact Or.inr hstep
    | step i ready write next =>
      simp only
      split
      · rename_i hready
        have hstep : Step start _ _ :=
          Step.run s (ts.take n) (ts.drop (n + 1)) i ready write next hready
        rw [hp] at hsplit
        have hset : ts.set n (next s) = ts.take n ++ next s :: ts.drop (n + 1) := by
          rw [List.set_eq_take_append_cons_drop, if_pos hn]
        rw [← hsplit, ← hset] at hstep
        exact Or.inr hstep
      · exact Or.inl rfl

/-- A schedule is a run; what is true after each of its moves is true along the run. -/
theorem moves_steps {R : Pool σ ι → Prop} (schedule : List Nat) (c : Pool σ ι)
    (h : ∀ n ≤ schedule.length, R (c.moves (schedule.take n))) :
    Relation.ReflTransGen (fun c c' => Step start c c' ∧ R c') c (c.moves schedule) := by
  induction schedule generalizing c with
  | nil => exact .refl
  | cons n schedule ih =>
    have hrest := ih (c.move n) fun m hm => h (m + 1) (Nat.succ_le_succ hm)
    rcases move_step start c n with hsame | hstep
    · rw [hsame] at hrest
      have hmoves : c.moves (n :: schedule) = (c.move n).moves schedule := rfl
      rw [hmoves, hsame]
      exact hrest
    · have hfirst : R (c.move n) := h 1 (Nat.succ_le_succ (Nat.zero_le _))
      exact .head ⟨hstep, hfirst⟩ hrest

end Pool

end TetCore.Lib
