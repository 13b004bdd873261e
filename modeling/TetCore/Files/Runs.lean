import TetCore.Files.Threads
import TetCore.Ledger.Sample

/-!
# Runs of the file store

Any number of operations, step by step, in any order. `store_meta` and the removals do not take
`write_lock`, so one of them can come between the owner check of a `store_with_blob` and its last write.

* `bodies_match`: in a run in which that does not happen, bodies and envelopes belong together whenever
  no operation is in progress.
* `announce_within_upload`: the envelope of another file, announced in the middle of an upload, keeps the
  body of the upload.
-/

namespace TetCore.Files

open TetCore.Lib

/-- No two threads are in the middle of things that have to do with one file. -/
def Undisturbed (c : Pool FileStore Place) : Prop :=
  c.2.Pairwise fun p q => ∀ i j, p.place = some i → q.place = some j → Clear i j ∧ Clear j i

section Runs

variable {W : World} {V : FileVars} {s s₀ : FileStore}

theorem sizesTotal_eq (h : ∀ fileId, s.sizes.get fileId = (s.blob.get fileId).map List.length) :
    s.sizesTotal = s.blob.sumBy fun _ blob => blob.length := by
  refine Tree.sumBy_congr fun k => ?_
  unfold Tree.rowWeight
  rw [h k]
  cases s.blob.get k <;> rfl

theorem Matches.sound (h : Matches W V s) : Sound W V s := by
  refine ⟨h.bodies, h.owned, fun cap hcap => ?_⟩
  rw [sizesTotal_eq h.sizes]
  exact h.room cap hcap

/-- **Bodies and envelopes belong together** after every run whose threads do not disturb each other,
whenever no operation is in progress. -/
theorem bodies_match (hcap : ∀ cap, V.totalBytes = some cap → cap < u64Max)
    (hstart : Matches W V s₀) (hfree : s₀.writeLock = false)
    (hrun : Relation.ReflTransGen (fun c c' => Pool.Step (Started W V) c c' ∧ Undisturbed c')
      (s₀, []) (s, [])) : Matches W V s := by
  have hgood : (contract W V).Good (s, []) :=
    Contract.run_good (starts hcap) hfree hstart.sound hstart.sizes hrun
  have hsizes : ∀ fileId, s.sizes.get fileId = (s.blob.get fileId).map List.length :=
    fun fileId => hgood.paid fileId
  have hinv : Sound W V s := hgood.inv
  refine ⟨hinv.bodies, hinv.owned, hsizes, fun cap hc => ?_⟩
  rw [← sizesTotal_eq hsizes]
  exact hinv.room cap hc

theorem matches_opened (W : World) (V : FileVars) : Matches W V FileStore.opened := by
  refine ⟨?_, ?_, fun fileId => ?_, fun cap _ => ?_⟩
  · intro fileId env blob henv
    rw [show FileStore.opened.metaTree = Tree.empty from rfl, Tree.get_empty] at henv
    cases henv
  · intro fileId hblob
    rw [show FileStore.opened.blob = Tree.empty from rfl, Tree.get_empty] at hblob
    cases hblob
  · rw [show FileStore.opened.sizes = Tree.empty from rfl,
      show FileStore.opened.blob = Tree.empty from rfl, Tree.get_empty, Tree.get_empty]
    rfl
  · rw [show FileStore.opened.blob = Tree.empty from rfl, Tree.sumBy_empty]
    exact Nat.zero_le _

/-! ## Schedules -/

instance Clear.decidable (i j : Place) : Decidable (Clear i j) :=
  decidable_of_iff (∀ fileId ∈ i.writes, j.announces ≠ some fileId ∧ j.removes ≠ some fileId) Iff.rfl

instance Undisturbed.decidable (c : Pool FileStore Place) : Decidable (Undisturbed c) :=
  decidable_of_iff
    (c.2.Pairwise fun p q => ∀ i ∈ p.place, ∀ j ∈ q.place, Clear i j ∧ Clear j i) (by
      refine ⟨fun h => h.imp ?_, fun h => h.imp ?_⟩
      · exact fun hpq i j hi hj => hpq i hi j hj
      · exact fun hpq i hi j hj => hpq i j hi hj)

/-- Two operations are started and run as scheduled. -/
def ran (W : World) (V : FileVars) (first second : FileOp) (schedule : List Nat) :
    Pool FileStore Place :=
  Pool.moves (FileStore.opened, [second.thread W V, first.thread W V]) schedule

theorem ran_steps {R : Pool FileStore Place → Prop} (first second : FileOp) (schedule : List Nat)
    (hfirst : R (FileStore.opened, [first.thread W V]))
    (h : ∀ n ≤ schedule.length, R (ran W V first second (schedule.take n))) :
    Relation.ReflTransGen (fun c c' => Pool.Step (Started W V) c c' ∧ R c') (FileStore.opened, [])
      (ran W V first second schedule) :=
  (Relation.ReflTransGen.single ⟨.spawn _ _ _ ⟨first, rfl⟩, hfirst⟩).trans
    ((Relation.ReflTransGen.single ⟨.spawn _ _ _ ⟨second, rfl⟩, h 0 (Nat.zero_le _)⟩).trans
      (Pool.moves_steps schedule _ h))

end Runs

end TetCore.Files

namespace TetCore.Sample

open TetCore.Lib TetCore.Files

/-- The envelope of a file of `alice` for `bob`. -/
def fileEnvelope (fileId : Str) (body : Bytes) : FileEnvelopeV1 :=
  ⟨fileId, alice, bob, body.length, (World.sample 0).sha256Hex body, 1, 0⟩

/-- An upload, and an announcement of another file. -/
def uploadX : FileOp := .storeWithBlob (fileEnvelope ['x'] [1, 2, 3]) [1, 2, 3] 2
def announceY : FileOp := .storeMeta (fileEnvelope ['y'] [9]) 2

/-- The same announcement under the id of the upload. -/
def announceX : FileOp := .storeMeta (fileEnvelope ['x'] [9]) 2

/-- The upload up to its owner check, the announcement, and the rest of the upload. -/
def withinUpload : List Nat := [1, 1, 0, 0, 0, 0, 0, 0, 0, 0, 0, 0, 0, 0, 0]

end TetCore.Sample

namespace TetCore.Files

open TetCore.Lib

/-- An announcement of another file in the middle of an upload. -/
theorem bodies_match_two : ∃ s, (s.blob.get ['x']).isSome = true ∧
    (s.metaTree.get ['y']).isSome = true ∧ Matches (World.sample 0) {} s := by
  have hall : (∀ n ≤ 15, Undisturbed (ran (World.sample 0) {} Sample.uploadX Sample.announceY
        (Sample.withinUpload.take n))) ∧
      (ran (World.sample 0) {} Sample.uploadX Sample.announceY Sample.withinUpload).2.length = 0 ∧
      ((ran (World.sample 0) {} Sample.uploadX Sample.announceY
        Sample.withinUpload).1.blob.get ['x']).isSome = true ∧
      ((ran (World.sample 0) {} Sample.uploadX Sample.announceY
        Sample.withinUpload).1.metaTree.get ['y']).isSome = true := by
    decide +kernel
  obtain ⟨hcalm, hidle, hblob, hmeta⟩ := hall
  have hrun := ran_steps (W := World.sample 0) (V := {}) Sample.uploadX Sample.announceY
    Sample.withinUpload (List.pairwise_singleton _ _) hcalm
  have hend : ran (World.sample 0) {} Sample.uploadX Sample.announceY Sample.withinUpload =
      ((ran (World.sample 0) {} Sample.uploadX Sample.announceY Sample.withinUpload).1, []) :=
    Prod.ext rfl (List.eq_nil_of_length_eq_zero hidle)
  rw [hend] at hrun
  refine ⟨_, hblob, hmeta, bodies_match (fun cap hcap => ?_) (matches_opened _ _) rfl hrun⟩
  cases hcap

/-- The announcement has the id of the upload: the upload finds an envelope and stores its body under
it. -/
theorem announce_within_upload : ∃ s,
    Matches (World.sample 0) {} FileStore.opened ∧
      Relation.ReflTransGen (Pool.Step (Started (World.sample 0) {})) (FileStore.opened, []) (s, []) ∧
        ¬Matches (World.sample 0) {} s := by
  have hall : (ran (World.sample 0) {} Sample.uploadX Sample.announceX
        Sample.withinUpload).2.length = 0 ∧
      (ran (World.sample 0) {} Sample.uploadX Sample.announceX
        Sample.withinUpload).1.metaTree.get ['x'] = some (Sample.fileEnvelope ['x'] [9]) ∧
      (ran (World.sample 0) {} Sample.uploadX Sample.announceX
        Sample.withinUpload).1.blob.get ['x'] = some [1, 2, 3] ∧
      (World.sample 0).sha256Hex [1, 2, 3] ≠
        trimLower (Sample.fileEnvelope ['x'] [9]).fileSha256 := by
    decide +kernel
  obtain ⟨hidle, hmeta, hblob, hhash⟩ := hall
  refine ⟨_, matches_opened _ _, ?_, fun hmatches => hhash (hmatches.bodies _ _ _ hmeta hblob)⟩
  have hrun := ran_steps (W := World.sample 0) (V := {}) (R := fun _ => True) Sample.uploadX
    Sample.announceX Sample.withinUpload trivial fun _ _ => trivial
  rw [← List.eq_nil_of_length_eq_zero hidle]
  exact hrun.lift id fun _ _ hstep => hstep.1

end TetCore.Files
