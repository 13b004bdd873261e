import TetCore.Consensus.Gossip
import TetCore.Lib.InHand

/-!
# The apply queue

`apply_worker.rs`: an offer reserves a slot (`fetch_add` of `depth`), sends its job if it saw a free
slot below its limit, and gives the slot back otherwise; the worker takes one job at a time and gives
its slot back after it. Offers interleave, each at its own place between the `fetch_add` and the end.

Out of scope: how the worker hands its result to the loop, which only delays it, and its end.

* `apply_queue_keeps`: what holds in every run.
-/

namespace TetCore.Sync

open TetCore.Lib
open TetCore.Consensus (RemoteBlockGossip)

/-- `ApplyJob`. -/
inductive ApplyJob where
  | gossip (gossip : RemoteBlockGossip) (source : Option Str)
  | catchUpBatch (peer : Str) (blocks : List BlockRecordV1)
  | backfillReorg (peer : Str) (tips : List Str)

/-- `RESERVED_FOR_CATCH_UP`. -/
def reservedForCatchUp : Nat := 2

/-- The slots, from `TET_APPLY_QUEUE_CAP`. -/
def applyQueueCap (var : Option Nat) : Nat := max (var.getD 64) (reservedForCatchUp + 1)

/-- The jobs of `offer_droppable`. -/
def ApplyJob.droppable : ApplyJob → Bool
  | .catchUpBatch _ _ => false
  | _ => true

/-- The limit of `enqueue`: that of `offer_catch_up` for a batch, of `offer_droppable` for the
others. -/
def ApplyJob.limit (cap : Nat) (job : ApplyJob) : Nat :=
  if job.droppable then cap - reservedForCatchUp else cap

/-- An `enqueue` after its `fetch_add`, which returned `prev`. `failed`: it will give its slot back. -/
structure Offer where
  job : ApplyJob
  prev : Nat
  failed : Bool

/-- The queue, its worker, and the offers under way; beside them all jobs accepted and finished. -/
structure ApplyPlane where
  depth : Nat := 0
  queue : List ApplyJob := []
  running : Option ApplyJob := none
  offers : List Offer := []
  accepted : List ApplyJob := []
  finished : List ApplyJob := []

inductive ApplyEvent where
  | offer (job : ApplyJob)
  | advance (n : Nat)
  | recv
  | finish

namespace ApplyPlane

/-- One atomic step of an offer or of the worker. -/
def step (cap : Nat) (s : ApplyPlane) : ApplyEvent → ApplyPlane
  | .offer job => { s with depth := s.depth + 1, offers := s.offers ++ [⟨job, s.depth, false⟩] }
  | .advance n => match s.offers[n]? with
    | none => s
    | some o =>
      if o.failed then { s with depth := s.depth - 1, offers := s.offers.eraseIdx n }
      -- a full channel refuses `try_send`
      else if o.job.limit cap ≤ o.prev ∨ cap ≤ s.queue.length then
        { s with offers := s.offers.set n { o with failed := true } }
      else { s with
        queue := s.queue ++ [o.job]
        accepted := s.accepted ++ [o.job]
        offers := s.offers.eraseIdx n }
  | .recv => match s.running, s.queue with
    | none, job :: rest => { s with running := some job, queue := rest }
    | _, _ => s
  | .finish => match s.running with
    | none => s
    | some job =>
      { s with running := none, finished := s.finished ++ [job], depth := s.depth - 1 }

/-- The jobs that hold a slot for good. -/
def held (s : ApplyPlane) : List ApplyJob := s.running.toList ++ s.queue

/-- What the queue promises. -/
structure Promises (cap : Nat) (s : ApplyPlane) : Prop where
  /-- Jobs run in the order they were accepted in, each once. -/
  inOrder : s.accepted = s.finished ++ s.held
  counted : s.depth = s.held.length + s.offers.length
  bounded : s.held.length ≤ cap
  reserve : s.held.countP ApplyJob.droppable ≤ cap - reservedForCatchUp
  /-- The channel has room for every offer that saw a free slot. -/
  room : ∀ o ∈ s.offers, o.failed = false → o.prev < o.job.limit cap → s.queue.length < cap
  /-- A batch always fits, when no other is held and nothing else is being offered. -/
  batchFits : s.offers = [] → (∀ job ∈ s.held, job.droppable = true) → ∀ peer blocks,
    ((s.step cap (.offer (.catchUpBatch peer blocks))).step cap (.advance 0)).queue =
      s.queue ++ [.catchUpBatch peer blocks]

/-! ## The invariant -/

/-- The offer will be sent. -/
def admitted (cap : Nat) (o : Offer) : Bool := !o.failed && decide (o.prev < o.job.limit cap)

/-- The jobs of a kind `p` that hold a slot, and the offers of such jobs that will be sent. -/
def slots (cap : Nat) (p : ApplyJob → Bool) (s : ApplyPlane) : Nat :=
  s.held.countP p + s.offers.countP fun o => admitted cap o && p o.job

/-- Slots are counted when they are reserved, so those of a kind stay within its limit. -/
structure Inv (cap : Nat) (s : ApplyPlane) : Prop where
  inOrder : s.accepted = s.finished ++ s.held
  counted : s.depth = s.held.length + s.offers.length
  fits : ∀ (p : ApplyJob → Bool) (n : Nat), (∀ job, p job = true → job.limit cap ≤ n) →
    s.slots cap p ≤ n

variable {cap : Nat} {s : ApplyPlane}

theorem Inv.offer (h : Inv cap s) (job : ApplyJob) : Inv cap (s.step cap (.offer job)) := by
  have hcount := h.counted
  refine ⟨h.inOrder, ?_, fun p n hp => ?_⟩
  · change s.depth + 1 = s.held.length + (s.offers ++ [_]).length
    rw [List.length_append, List.length_singleton, hcount, Nat.add_assoc]
  · change s.held.countP p + (s.offers ++ [_]).countP _ ≤ n
    rw [List.countP_append, List.countP_singleton]
    have hfits := h.fits p n hp
    unfold slots at hfits
    split
    · rename_i hadm
      obtain ⟨hlt, hpj⟩ : s.depth < job.limit cap ∧ p job = true := by simpa [admitted] using hadm
      have hheld := s.held.countP_le_length (p := p)
      have hoffers := s.offers.countP_le_length (p := fun o => admitted cap o && p o.job)
      have hn := hp job hpj
      omega
    · exact hfits

theorem Inv.advance (h : Inv cap s) (n : Nat) : Inv cap (s.step cap (.advance n)) := by
  simp only [step]
  split
  · exact h
  rename_i o ho
  obtain ⟨l, l', heq, herase, hset⟩ := split_of_getElem? ho
  obtain ⟨horder, hcount, hfits⟩ := h
  rw [heq] at hcount
  rw [herase, hset]
  simp only [slots, heq, held, List.length_append, List.length_cons, List.countP_append,
    List.countP_cons] at hcount hfits
  split
  · refine ⟨horder, ?_, fun p n hp => ?_⟩
    · simp only [held, List.length_append]
      omega
    · have hp := hfits p n hp
      simp only [slots, held, List.countP_append]
      omega
  rename_i hlive
  split
  · refine ⟨horder, ?_, fun p n hp => ?_⟩
    · simp only [held, List.length_append, List.length_cons]
      omega
    · have hp := hfits p n hp
      simp only [slots, held, List.countP_append, List.countP_cons, admitted, Bool.not_true,
        Bool.false_and, Bool.false_eq_true, if_false]
      simp only [admitted] at hp
      omega
  · rename_i hsent
    -- the offer's slot becomes the job's
    have hin : admitted cap o = true := by
      rw [not_or, not_le] at hsent
      simp [admitted, hlive, hsent.1]
    refine ⟨?_, ?_, fun p n hp => ?_⟩
    · rw [horder, held, held, List.append_assoc, List.append_assoc]
    · simp only [held, List.length_append, List.length_singleton]
      omega
    · have hp := hfits p n hp
      simp only [hin, Bool.true_and] at hp
      simp only [slots, held, List.countP_append, List.countP_singleton]
      omega

theorem Inv.step (h : Inv cap s) (e : ApplyEvent) : Inv cap (s.step cap e) := by
  cases e with
  | offer job => exact h.offer job
  | advance n => exact h.advance n
  | recv =>
    simp only [ApplyPlane.step]
    split
    · rename_i job rest hrun hqueue
      have hheld : s.held = job :: rest := by rw [held, hrun, hqueue]; rfl
      obtain ⟨horder, hcount, hfits⟩ := h
      simp only [slots, hheld] at horder hcount hfits
      exact ⟨horder, hcount, hfits⟩
    · exact h
  | finish =>
    simp only [ApplyPlane.step]
    split
    · exact h
    · rename_i job hrun
      have hheld : s.held = job :: s.queue := by rw [held, hrun]; rfl
      obtain ⟨horder, hcount, hfits⟩ := h
      simp only [slots, hheld, List.length_cons, List.countP_cons] at horder hcount hfits
      refine ⟨?_, ?_, fun p n hp => ?_⟩
      · simpa [held] using horder
      · simp only [held, Option.toList_none, List.nil_append]
        omega
      · have hp := hfits p n hp
        simp only [slots, held, Option.toList_none, List.nil_append]
        omega

/-- A batch is offered below its limit: the other jobs leave it the reserved slots. -/
theorem Inv.promises (h : Inv cap s) (hcap : reservedForCatchUp < cap) : Promises cap s := by
  have hall := h.fits (fun _ => true) cap fun job _ => by
    unfold ApplyJob.limit
    split
    · exact Nat.sub_le _ _
    · exact Nat.le_refl _
  have hdrop := h.fits ApplyJob.droppable (cap - reservedForCatchUp) fun job hj => by
    rw [ApplyJob.limit, if_pos hj]
  have hcount := h.counted
  unfold slots at hall hdrop
  simp only [List.countP_true, Bool.and_true] at hall
  refine ⟨h.inOrder, hcount, by omega, by omega, fun o ho hlive hlt => ?_,
    fun hnone hjobs peer blocks => ?_⟩
  · have hpos : 0 < s.offers.countP fun o => admitted cap o :=
      List.countP_pos_iff.mpr ⟨o, ho, by simp [admitted, hlive, hlt]⟩
    rw [held, List.length_append] at hall
    omega
  · rw [hnone, List.length_nil] at hcount
    rw [List.countP_eq_length.mpr hjobs] at hdrop
    have hqueue : s.queue.length ≤ s.depth := by
      rw [hcount, held, List.length_append]
      omega
    unfold reservedForCatchUp at hdrop hcap
    simp only [ApplyPlane.step, hnone, List.nil_append, List.getElem?_cons_zero]
    rw [if_neg Bool.false_ne_true, if_neg]
    change ¬ (cap ≤ s.depth ∨ cap ≤ s.queue.length)
    omega

/-- **The apply queue**: in every run of offers, however they interleave, and of the worker. -/
theorem apply_queue_keeps (var : Option Nat) (events : List ApplyEvent) :
    Promises (applyQueueCap var) (events.foldl (step (applyQueueCap var)) {}) := by
  have hrun : Inv (applyQueueCap var) (events.foldl (step (applyQueueCap var)) {}) :=
    List.foldlRecOn events _ ⟨rfl, rfl, fun _ _ _ => Nat.zero_le _⟩ fun _ h e _ => h.step e
  exact hrun.promises (le_max_right (var.getD 64) _)

end ApplyPlane

end TetCore.Sync
