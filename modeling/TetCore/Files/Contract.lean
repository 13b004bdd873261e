import TetCore.Files.Store

/-!
# What keeps bodies and envelopes together

The contract of the threads over a file store. Between its owner check and its last write, a
`store_with_blob` relies on nobody else to announce or remove its file; an announcement and a removal
rely on nobody to store a body in their middle. The lock keeps two uploads apart; the rest is kept by
nothing in the code, so it is what `Apart` asks for.

A body without its size row, or a size row without its body, is owed by the thread that is in the
middle of writing or removing it.

* `rely_fixed`, `rely_absent`, `rely_sizes`: what a thread can rely on.
* `starts`: every operation obeys the contract.
-/

namespace TetCore.Files

open TetCore.Lib

/-- What is true of the store at all times. -/
structure Sound (W : World) (V : FileVars) (s : FileStore) : Prop where
  bodies : ∀ fileId env blob, s.metaTree.get fileId = some env → s.blob.get fileId = some blob →
    W.sha256Hex blob = trimLower env.fileSha256
  owned : ∀ fileId, (s.blob.get fileId).isSome = true → (s.metaTree.get fileId).isSome = true
  room : ∀ cap, V.totalBytes = some cap → s.sizesTotal ≤ cap

/-- The rows that a step from `i` to `j` may change. -/
structure Touches (i : Place) (j : Option Place) (s s' : FileStore) : Prop where
  writer : ∀ fileId, i.writes = some fileId → i.holds = true
  blob : ∀ fileId, s'.blob.get fileId = s.blob.get fileId ∨ i.writes = some fileId ∨
    (s'.blob.get fileId = none ∧ ∃ p, j = some p ∧ p.removes = some fileId)
  metaTree : ∀ fileId, s'.metaTree.get fileId = s.metaTree.get fileId ∨ i.writes = some fileId ∨
    i.announces = some fileId ∨ i.removes = some fileId
  sizes : ∀ fileId, s'.sizes.get fileId = s.sizes.get fileId ∨ i.writes = some fileId ∨
    (s'.sizes.get fileId = none ∧ i.removes = some fileId)

/-- The contract of the threads. -/
def contract (W : World) (V : FileVars) : Contract FileStore Place Str where
  Inv := Sound W V
  Guar := Touches
  Apart i j := Clear i j ∧ Clear j i
  symm _ _ h := ⟨h.2, h.1⟩
  holds := Place.holds
  locked := FileStore.writeLock
  Owes i fileId := i.unsized = some fileId
  Paid fileId s := s.sizes.get fileId = (s.blob.get fileId).map List.length

/-- Only a thread with the lock stores a body. -/
def Place.Wf (i : Place) : Prop := ∀ fileId, i.writes = some fileId → i.holds = true

section Rely

variable {W : World} {V : FileVars} {i : Place} {s s' : FileStore} {fileId : Str}

/-- **The file of an upload** is left alone. -/
theorem rely_fixed (hi : i.Wf) (hwrites : i.writes = some fileId)
    (h : (contract W V).Rely i s s') : s'.blob.get fileId = s.blob.get fileId ∧
      s'.metaTree.get fileId = s.metaTree.get fileId ∧
        s'.sizes.get fileId = s.sizes.get fileId := by
  obtain ⟨j, j', hapart, hapart', hexcl, -, hmove⟩ := h
  have hfree : j.holds = false := (hexcl (hi _ hwrites)).1
  have hnot : j.writes ≠ some fileId := by
    intro hj
    have hheld := hmove.guar.writer _ hj
    rw [hfree] at hheld
    cases hheld
  obtain ⟨hannounces, hremoves⟩ := hapart.1 _ hwrites
  refine ⟨?_, ?_, ?_⟩
  · rcases hmove.guar.blob fileId with hsame | hw | ⟨-, p, rfl, hp⟩
    · exact hsame
    · exact absurd hw hnot
    · exact absurd hp ((hapart' i p rfl rfl).1 _ hwrites).2
  · rcases hmove.guar.metaTree fileId with hsame | hw | ha | hr
    · exact hsame
    · exact absurd hw hnot
    · exact absurd ha hannounces
    · exact absurd hr hremoves
  · rcases hmove.guar.sizes fileId with hsame | hw | ⟨-, hr⟩
    · exact hsame
    · exact absurd hw hnot
    · exact absurd hr hremoves

/-- **A body that is not there** does not appear where a thread announces, removes or stores it. -/
theorem rely_absent (hi : i.Wf)
    (hplace : i.announces = some fileId ∨ i.removes = some fileId ∨ i.writes = some fileId)
    (h : (contract W V).Rely i s s') (hnone : s.blob.get fileId = none) :
    s'.blob.get fileId = none := by
  by_cases hwrites : i.writes = some fileId
  · rw [(rely_fixed hi hwrites h).1, hnone]
  · obtain ⟨j, j', hapart, hapart', hexcl, -, hmove⟩ := h
    rcases hmove.guar.blob fileId with hsame | hw | ⟨hgone, -⟩
    · rw [hsame, hnone]
    · obtain ⟨hannounces, hremoves⟩ := hapart.2 _ hw
      rcases hplace with ha | hr | hw'
      · exact absurd ha hannounces
      · exact absurd hr hremoves
      · exact absurd hw' hwrites
    · exact hgone

/-- **The size rows** only go away under a thread that has the lock. -/
theorem rely_sizes (hheld : i.holds = true) (h : (contract W V).Rely i s s') (fileId : Str) :
    s'.sizes.get fileId = s.sizes.get fileId ∨ s'.sizes.get fileId = none := by
  obtain ⟨j, j', -, -, hexcl, -, hmove⟩ := h
  rcases hmove.guar.sizes fileId with hsame | hw | ⟨hgone, -⟩
  · exact Or.inl hsame
  · have hj := hmove.guar.writer _ hw
    have hfree : j.holds = false := (hexcl hheld).1
    rw [hfree] at hj
    cases hj
  · exact Or.inr hgone

end Rely

/-! ## Steps -/

section Steps

variable {W : World} {V : FileVars} {i : Place} {j : Option Place} {s s' : FileStore} {fileId : Str}

/-- A step that changes none of the three trees. -/
theorem move_same (hi : i.Wf) (hunsized : i.unsized = none)
    (hholds : (contract W V).holdsAt j = i.holds) (hinv : Sound W V s)
    (hsame : s' = { s with inbox := s'.inbox }) : (contract W V).Move i j s s' := by
  rw [hsame]
  refine ⟨⟨hinv.bodies, hinv.owned, hinv.room⟩, ⟨hi, fun _ => Or.inl rfl, fun _ => Or.inl rfl,
    fun _ => Or.inl rfl⟩, ?_, ?_⟩
  · rw [hholds]
    rfl
  · rintro k (hpaid | howes)
    · exact Or.inl hpaid
    · rw [show i.unsized = some k from howes] at hunsized
      cases hunsized

/-- The removal of a body. -/
theorem move_dropBlob (hi : i.Wf) (hunsized : i.unsized = none) (hinv : Sound W V s) :
    (contract W V).Move i (some { i with removes := some fileId, unsized := some fileId }) s
      (s.dropBlob fileId) := by
  have hget : ∀ k, (s.dropBlob fileId).blob.get k = if fileId = k then none else s.blob.get k :=
    fun k => Tree.get_remove _ _ _
  refine ⟨⟨?_, ?_, hinv.room⟩, ⟨hi, ?_, fun _ => Or.inl rfl, fun _ => Or.inl rfl⟩, rfl, ?_⟩
  · intro k env blob hmeta hblob
    rw [hget] at hblob
    split at hblob
    · cases hblob
    · exact hinv.bodies k env blob hmeta hblob
  · intro k hblob
    rw [hget] at hblob
    split at hblob
    · cases hblob
    · exact hinv.owned k hblob
  · intro k
    rw [hget]
    split
    · rename_i hk
      exact Or.inr (Or.inr ⟨rfl, _, rfl, congrArg some hk⟩)
    · exact Or.inl rfl
  · rintro k (hpaid | howes)
    · by_cases hk : fileId = k
      · exact Or.inr ⟨_, rfl, congrArg some hk⟩
      · left
        show s.sizes.get k = _
        rw [hget, if_neg hk]
        exact hpaid
    · rw [show i.unsized = some k from howes] at hunsized
      cases hunsized

/-- The removal of the size row of a body that is gone. -/
theorem move_dropSize (hi : i.Wf) (hholds : (contract W V).holdsAt j = i.holds) (hinv : Sound W V s)
    (hgone : s.blob.get fileId = none) :
    (contract W V).Move { i with removes := some fileId, unsized := some fileId } j s
      (s.dropSize fileId) := by
  have hget : ∀ k, (s.dropSize fileId).sizes.get k = if fileId = k then none else s.sizes.get k :=
    fun k => Tree.get_remove _ _ _
  refine ⟨⟨hinv.bodies, hinv.owned, ?_⟩, ⟨hi, fun _ => Or.inl rfl, fun _ => Or.inl rfl, ?_⟩, ?_, ?_⟩
  · intro cap hcap
    have hle := hinv.room cap hcap
    have hsum := Tree.sumBy_remove (fun _ n => n) s.sizes fileId
    have hnew : (s.dropSize fileId).sizesTotal = (s.sizes.remove fileId).sumBy fun _ n => n := rfl
    rw [hnew]
    unfold FileStore.sizesTotal at hle
    omega
  · intro k
    rw [hget]
    split
    · rename_i hk
      exact Or.inr (Or.inr ⟨rfl, congrArg some hk⟩)
    · exact Or.inl rfl
  · rw [hholds]
    rfl
  · intro k hk
    left
    show (s.dropSize fileId).sizes.get k = (s.blob.get k).map List.length
    rw [hget]
    by_cases heq : fileId = k
    · subst heq
      rw [if_pos rfl, hgone]
      rfl
    · rw [if_neg heq]
      rcases hk with hpaid | howes
      · exact hpaid
      · exact absurd (Option.some.inj howes) heq

/-- The removal of the envelope of a body that is gone. -/
theorem move_dropMeta (hi : i.Wf) (hunsized : i.unsized = none)
    (hholds : (contract W V).holdsAt j = i.holds) (hinv : Sound W V s)
    (hgone : s.blob.get fileId = none) :
    (contract W V).Move { i with removes := some fileId } j s (s.dropMeta fileId) := by
  have hget : ∀ k, (s.dropMeta fileId).metaTree.get k =
      if fileId = k then none else s.metaTree.get k := fun k => Tree.get_remove _ _ _
  refine ⟨⟨?_, ?_, hinv.room⟩, ⟨hi, fun _ => Or.inl rfl, ?_, fun _ => Or.inl rfl⟩, ?_, ?_⟩
  · intro k env blob hmeta hblob
    rw [hget] at hmeta
    split at hmeta
    · cases hmeta
    · exact hinv.bodies k env blob hmeta hblob
  · intro k hblob
    rw [hget]
    split
    · rename_i hk
      subst hk
      rw [show (s.dropMeta fileId).blob.get fileId = none from hgone] at hblob
      cases hblob
    · exact hinv.owned k hblob
  · intro k
    rw [hget]
    split
    · rename_i hk
      exact Or.inr (Or.inr (Or.inr (congrArg some hk)))
    · exact Or.inl rfl
  · rw [hholds]
    rfl
  · rintro k (hpaid | howes)
    · exact Or.inl hpaid
    · rw [show i.unsized = some k from howes] at hunsized
      cases hunsized

/-- The envelope of a file that has no body. -/
theorem move_putMeta {env : FileEnvelopeV1} (hi : i.Wf) (hunsized : i.unsized = none)
    (hplace : i.announces = some env.fileId ∨ i.writes = some env.fileId)
    (hholds : (contract W V).holdsAt j = i.holds) (hinv : Sound W V s)
    (hgone : s.blob.get env.fileId = none) : (contract W V).Move i j s (s.putMeta env) := by
  have hget : ∀ k, (s.putMeta env).metaTree.get k =
      if env.fileId = k then some env else s.metaTree.get k := fun k => Tree.get_insert _ _ _ _
  refine ⟨⟨?_, ?_, hinv.room⟩, ⟨hi, fun _ => Or.inl rfl, ?_, fun _ => Or.inl rfl⟩, ?_, ?_⟩
  · intro k e blob hmeta hblob
    rw [hget] at hmeta
    split at hmeta
    · rename_i hk
      subst hk
      rw [show (s.putMeta env).blob.get env.fileId = none from hgone] at hblob
      cases hblob
    · exact hinv.bodies k e blob hmeta hblob
  · intro k hblob
    rw [hget]
    split
    · rfl
    · exact hinv.owned k hblob
  · intro k
    rw [hget]
    split
    · rename_i hk
      rcases hplace with ha | hw
      · exact Or.inr (Or.inr (Or.inl (ha.trans (congrArg some hk))))
      · exact Or.inr (Or.inl (hw.trans (congrArg some hk)))
    · exact Or.inl rfl
  · rw [hholds]
    rfl
  · rintro k (hpaid | howes)
    · exact Or.inl hpaid
    · rw [show i.unsized = some k from howes] at hunsized
      cases hunsized

/-- The body of an envelope with its hash. -/
theorem move_putBlob {env : FileEnvelopeV1} {blob : Bytes} (hi : i.Wf) (hunsized : i.unsized = none)
    (hwrites : i.writes = some fileId) (hinv : Sound W V s)
    (hmeta : s.metaTree.get fileId = some env) (hhash : W.sha256Hex blob = trimLower env.fileSha256) :
    (contract W V).Move i (some { i with unsized := some fileId }) s (s.putBlob fileId blob) := by
  have hget : ∀ k, (s.putBlob fileId blob).blob.get k =
      if fileId = k then some blob else s.blob.get k := fun k => Tree.get_insert _ _ _ _
  refine ⟨⟨?_, ?_, hinv.room⟩, ⟨hi, ?_, fun _ => Or.inl rfl, fun _ => Or.inl rfl⟩, rfl, ?_⟩
  · intro k e b he hb
    rw [hget] at hb
    split at hb
    · rename_i hk
      subst hk
      cases hb
      rw [show (s.putBlob fileId blob).metaTree.get fileId = some env from hmeta] at he
      cases he
      exact hhash
    · exact hinv.bodies k e b he hb
  · intro k hb
    rw [hget] at hb
    split at hb
    · rename_i hk
      subst hk
      show (s.metaTree.get fileId).isSome = true
      rw [hmeta]
      rfl
    · exact hinv.owned k hb
  · intro k
    rw [hget]
    split
    · rename_i hk
      exact Or.inr (Or.inl (hwrites.trans (congrArg some hk)))
    · exact Or.inl rfl
  · rintro k (hpaid | howes)
    · by_cases hk : fileId = k
      · exact Or.inr ⟨_, rfl, congrArg some hk⟩
      · left
        show s.sizes.get k = _
        rw [hget, if_neg hk]
        exact hpaid
    · rw [show i.unsized = some k from howes] at hunsized
      cases hunsized

/-- A body of this length fits beside the others. -/
def RoomFor (V : FileVars) (fileId : Str) (n : Nat) (s : FileStore) : Prop :=
  ∀ cap, V.totalBytes = some cap → ((s.sizes.remove fileId).sumBy fun _ n => n) + n ≤ cap

/-- The size row of a body that is there. -/
theorem move_putSize {blob : Bytes} (hi : i.Wf) (hwrites : i.writes = some fileId)
    (hholds : (contract W V).holdsAt j = i.holds) (hinv : Sound W V s)
    (hblob : s.blob.get fileId = some blob) (hroom : RoomFor V fileId blob.length s) :
    (contract W V).Move { i with unsized := some fileId } j s (s.putSize fileId blob.length) := by
  have hget : ∀ k, (s.putSize fileId blob.length).sizes.get k =
      if fileId = k then some blob.length else s.sizes.get k := fun k => Tree.get_insert _ _ _ _
  refine ⟨⟨hinv.bodies, hinv.owned, ?_⟩, ⟨hi, fun _ => Or.inl rfl, fun _ => Or.inl rfl, ?_⟩, ?_, ?_⟩
  · intro cap hcap
    have hle := hroom cap hcap
    have hinsert := Tree.sumBy_insert (fun _ n => n) s.sizes fileId blob.length
    have hremove := Tree.sumBy_remove (fun _ n => n) s.sizes fileId
    have hnew : (s.putSize fileId blob.length).sizesTotal =
        (s.sizes.insert fileId blob.length).sumBy fun _ n => n := rfl
    rw [hnew]
    omega
  · intro k
    rw [hget]
    split
    · rename_i hk
      exact Or.inr (Or.inl (hwrites.trans (congrArg some hk)))
    · exact Or.inl rfl
  · rw [hholds]
    rfl
  · intro k hk
    left
    show (s.putSize fileId blob.length).sizes.get k = (s.blob.get k).map List.length
    rw [hget]
    by_cases heq : fileId = k
    · subst heq
      rw [if_pos rfl, hblob]
      rfl
    · rw [if_neg heq]
      rcases hk with hpaid | howes
      · exact hpaid
      · exact absurd (Option.some.inj howes) heq

/-- The lock is taken or left. -/
theorem move_lock {locked : Bool} (hi : i.Wf) (hunsized : i.unsized = none)
    (hlock : locked.toNat + i.holds.toNat =
      s.writeLock.toNat + ((contract W V).holdsAt j).toNat) (hinv : Sound W V s) :
    (contract W V).Move i j s { s with writeLock := locked } := by
  refine ⟨⟨hinv.bodies, hinv.owned, hinv.room⟩, ⟨hi, fun _ => Or.inl rfl, fun _ => Or.inl rfl,
    fun _ => Or.inl rfl⟩, hlock, ?_⟩
  rintro k (hpaid | howes)
  · exact Or.inl hpaid
  · rw [show i.unsized = some k from howes] at hunsized
    cases hunsized

end Steps

end TetCore.Files
