import Mathlib.Data.List.Basic

/-!
# Stacks of undoable updates

A state has been reached by a stack of updates, the newest on top, and for some of them a record is
kept that undoes the update. `UndoStack` says that the state is good for the whole stack, and that
undoing the top update with its record, if there is one, leaves a state with the same property for
the rest of the stack.

* `push`, `pop`: an update whose record leads back to an equivalent state adds a level, and undoing
  the top update takes one off.
* `congr`: states that every record of the stack treats alike have the same stacks.
* `forget`: dropping records only leaves less to undo.
-/

namespace TetCore.Lib

variable {σ β υ : Type} {restore : υ → σ → σ} {Good : List β → σ → Prop}

/-- The state `s` on top of the stack `bs`: good, and good again after every undo. -/
def UndoStack (restore : υ → σ → σ) (Good : List β → σ → Prop) (undo : β → Option υ) :
    List β → σ → Prop
  | [], s => Good [] s
  | b :: bs, s => Good (b :: bs) s ∧
      ∀ u, undo b = some u → UndoStack restore Good undo bs (restore u s)

namespace UndoStack

variable {undo undo' : β → Option υ} {b : β} {bs : List β} {s s' : σ}

theorem good (h : UndoStack restore Good undo bs s) : Good bs s := by
  cases bs with
  | nil => exact h
  | cons b bs => exact h.1

/-- Undoing the top update. -/
theorem pop {u : υ} (h : UndoStack restore Good undo (b :: bs) s) (hu : undo b = some u) :
    UndoStack restore Good undo bs (restore u s) := h.2 u hu

/-- A relation that good states and the records of the stack respect carries stacks over. -/
theorem congr {R : σ → σ → Prop} : ∀ {bs : List β} {s s' : σ},
    (∀ {cs : List β} {s s' : σ}, R s s' → Good cs s → Good cs s') →
    (∀ b ∈ bs, ∀ u, undo b = some u → ∀ {s s' : σ}, R s s' → R (restore u s) (restore u s')) →
    R s s' → UndoStack restore Good undo bs s → UndoStack restore Good undo bs s' := by
  intro bs
  induction bs with
  | nil =>
    intro s s' hgood _ hR h
    exact hgood hR h
  | cons b bs ih =>
    intro s s' hgood hrestore hR h
    refine ⟨hgood hR h.1, fun u hu => ?_⟩
    exact ih hgood (fun c hc => hrestore c (List.mem_cons_of_mem _ hc))
      (hrestore b List.mem_cons_self u hu hR) (h.2 u hu)

/-- Fewer records, same stack. -/
theorem forget : ∀ {bs : List β} {s : σ}, UndoStack restore Good undo bs s →
    (∀ b ∈ bs, ∀ u, undo' b = some u → undo b = some u) →
    UndoStack restore Good undo' bs s := by
  intro bs
  induction bs with
  | nil =>
    intro s h _
    exact h
  | cons b bs ih =>
    intro s h hu
    refine ⟨h.1, fun u hb => ?_⟩
    exact ih (h.2 u (hu b List.mem_cons_self u hb)) fun c hc => hu c (List.mem_cons_of_mem _ hc)

/-- An update on top of a stack: its record leads back to a state that is as good. -/
theorem push {R : σ → σ → Prop} (h : UndoStack restore Good undo bs s)
    (hgood : ∀ {cs : List β} {s s' : σ}, R s s' → Good cs s → Good cs s')
    (hrestore : ∀ u {s s' : σ}, R s s' → R (restore u s) (restore u s'))
    (htop : Good (b :: bs) s') (hback : ∀ u, undo' b = some u → R s (restore u s'))
    (hrest : ∀ c ∈ bs, ∀ u, undo' c = some u → undo c = some u) :
    UndoStack restore Good undo' (b :: bs) s' := by
  refine ⟨htop, fun u hu => ?_⟩
  exact (h.forget hrest).congr hgood (fun _ _ u _ => hrestore u) (hback u hu)

end UndoStack

end TetCore.Lib
