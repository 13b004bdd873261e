import TetCore.Files.Contract

/-!
# The operations obey the contract

One lemma for each function of the store: what it leaves true at its end, whatever the other threads do
in between. `Absent` is what an announcement, a removal and an upload have in common: a body that is not
there stays away while they are at it. `starts` is for all operations.
-/

namespace TetCore.Files

open TetCore.Lib

/-- The file has no body, when there is a file. -/
def Absent (o : Option Str) (s : FileStore) : Prop :=
  ∀ fileId, o = some fileId → s.blob.get fileId = none

/-- A place whose thread keeps bodies of the file away. -/
def Place.Guards (i : Place) (o : Option Str) : Prop :=
  ∀ fileId, o = some fileId → i.announces = some fileId ∨ i.writes = some fileId

section Removal

variable {W : World} {V : FileVars} {i : Place} {o : Option Str} {s : FileStore} {fileId : Str}

theorem absent_stable (hi : i.Wf) (hg : i.Guards o) : (contract W V).Stable i (Absent o) := by
  intro s s' hs hrely k hk
  refine rely_absent hi ?_ hrely (hs k hk)
  rcases hg k hk with ha | hw
  · exact Or.inl ha
  · exact Or.inr (Or.inr hw)

theorem gone_stable (hi : i.Wf) (hr : i.removes = some fileId) :
    (contract W V).Stable i fun s => s.blob.get fileId = none := by
  intro s s' hs hrely
  exact rely_absent hi (Or.inr (Or.inl hr)) hrely hs

theorem removeRows_obeys {e : Unit → Option Place} (hi : i.Wf) (hunsized : i.unsized = none)
    (hg : i.Guards o) (he : ∀ u, (contract W V).holdsAt (e u) = i.holds) (hs : Absent o s) :
    (contract W V).Obeys e (fun _ s => Absent o s) (removeRows i fileId) s := by
  have hstable := absent_stable (W := W) (V := V) hi hg
  unfold removeRows removeBlob
  refine Contract.Obeys.bind (Contract.Obeys.write_then (Absent o) hs hstable ?_)
  intro s hs hinv
  refine ⟨move_dropBlob hi hunsized hinv, ?_⟩
  refine Contract.Obeys.write_last (fun s => Absent o s ∧ s.blob.get fileId = none) ⟨?_, ?_⟩
    (Contract.Stable.and (absent_stable hi hg) (gone_stable hi rfl)) ?_
  · intro k hk
    show (s.blob.remove fileId).get k = none
    rw [Tree.get_remove, hs k hk]
    split <;> rfl
  · exact Tree.get_remove_self _ _
  intro s hs hinv
  refine ⟨move_dropSize hi rfl hinv hs.2, ?_⟩
  refine Contract.Obeys.write_last (fun s => Absent o s ∧ s.blob.get fileId = none) hs
    (Contract.Stable.and (absent_stable hi hg) (gone_stable hi rfl)) ?_
  intro s hs hinv
  exact ⟨move_dropMeta hi hunsized (he ()) hinv hs.2, hs.1⟩

theorem deleteFile_obeys {e : Bool → Option Place} (hi : i.Wf) (hunsized : i.unsized = none)
    (hg : i.Guards o) (he : ∀ b, (contract W V).holdsAt (e b) = i.holds) (hs : Absent o s) :
    (contract W V).Obeys e (fun _ s => Absent o s) (deleteFile i fileId) s := by
  have hstable := absent_stable (W := W) (V := V) hi hg
  unfold deleteFile
  refine Contract.Obeys.read_then (Absent o) hs hstable ?_
  intro s hs hinv
  have hrows : ∀ {b : Bool} {s : FileStore}, Absent o s →
      (contract W V).Obeys e (fun _ s => Absent o s)
        (removeRows i fileId >>= fun _ => pure b) s := by
    intro b s hs
    exact Contract.Obeys.bind (removeRows_obeys hi hunsized hg (fun _ => he b) hs)
  cases hget : s.metaTree.get fileId with
  | none => exact ⟨move_same hi hunsized rfl hinv rfl, hrows hs⟩
  | some env =>
    refine ⟨move_same hi hunsized rfl hinv rfl, ?_⟩
    refine Contract.Obeys.write_then (Absent o) hs hstable ?_
    intro s hs hinv
    exact ⟨move_same hi hunsized rfl hinv rfl, hrows hs⟩

theorem pruneFiles_holds {e : Nat → Option Place}
    (he : ∀ n, (contract W V).holdsAt (e n) = i.holds) (fileIds : List Str) (removed : Nat) :
    (contract W V).holdsAt ((pruneFiles i fileIds removed).placeThen e) = i.holds := by
  cases fileIds with
  | nil => exact he removed
  | cons fileId rest => rfl

theorem pruneFiles_obeys {e : Nat → Option Place} (hi : i.Wf) (hunsized : i.unsized = none)
    (hg : i.Guards o) (he : ∀ n, (contract W V).holdsAt (e n) = i.holds) :
    ∀ (fileIds : List Str) (removed : Nat) {s : FileStore}, Absent o s →
      (contract W V).Obeys e (fun _ s => Absent o s) (pruneFiles i fileIds removed) s := by
  intro fileIds
  induction fileIds with
  | nil => exact fun _ _ hs => hs
  | cons fileId rest ih =>
    intro removed s hs
    refine Contract.Obeys.bind ((deleteFile_obeys hi hunsized hg ?_ hs).mono ?_)
    · intro existed
      cases existed with
      | true => exact pruneFiles_holds he rest (removed + 1)
      | false => rfl
    · intro existed s hs
      cases existed with
      | true => exact ih (removed + 1) hs
      | false =>
        refine Contract.Obeys.bind ((removeRows_obeys hi hunsized hg ?_ hs).mono ?_)
        · exact fun _ => pruneFiles_holds he rest removed
        · exact fun _ s hs => ih removed hs

theorem pruneExpired_obeys {e : Nat → Option Place} {nowMs : Nat} (hi : i.Wf)
    (hunsized : i.unsized = none) (hg : i.Guards o)
    (he : ∀ n, (contract W V).holdsAt (e n) = i.holds) (hs : Absent o s) :
    (contract W V).Obeys e (fun _ s => Absent o s) (pruneExpired V i nowMs) s := by
  unfold pruneExpired
  refine Contract.Obeys.read_then (Absent o) hs (absent_stable hi hg) ?_
  intro s hs hinv
  exact ⟨move_same hi hunsized (pruneFiles_holds he _ 0) hinv rfl,
    pruneFiles_obeys hi hunsized hg he _ 0 hs⟩

end Removal

/-! ## Envelopes -/

section Announce

variable {W : World} {V : FileVars} {i j : Place} {s : FileStore} {env : FileEnvelopeV1}
  {nowMs : Nat} {P K : FileStore → Prop} {e : Except FileStoreError Bool → Option Place}

/-- What `store_meta` is called with: the places, and what is known before it (`P`) and after it
succeeded (`K`). -/
structure Announces (W : World) (V : FileVars) (i j : Place) (env : FileEnvelopeV1)
    (P K : FileStore → Prop) : Prop where
  outer : i.Wf
  inner : j.Wf
  outerSized : i.unsized = none
  innerSized : j.unsized = none
  place : j.announces = some env.fileId ∨ j.writes = some env.fileId
  holds : j.holds = i.holds
  before : (contract W V).Stable i P
  after : (contract W V).Stable i K
  known : ∀ s, P s → (s.metaTree.get env.fileId).isSome = true → K s
  put : ∀ s : FileStore, K (s.putMeta env)
  inbox : ∀ (s : FileStore) key, K s → K (s.putInbox key env.fileId)

theorem Announces.guards (h : Announces W V i j env P K) : j.Guards (some env.fileId) := by
  intro k hk
  cases hk
  exact h.place

theorem storeRows_obeys (h : Announces W V i j env P K)
    (he : ∀ r, (contract W V).holdsAt (e r) = i.holds) (hs : Absent (some env.fileId) s) :
    (contract W V).Obeys e (fun _ s => K s) (storeRows i j env) s := by
  unfold storeRows
  refine Contract.Obeys.write_then (Absent (some env.fileId)) hs
    (absent_stable h.inner h.guards) ?_
  intro s hs hinv
  refine ⟨move_putMeta h.inner h.innerSized h.place h.holds.symm hinv (hs _ rfl), ?_⟩
  refine Contract.Obeys.write_then K (h.put s) h.after ?_
  intro s hs hinv
  exact ⟨move_same h.outer h.outerSized (he _) hinv rfl, h.inbox s _ hs⟩

theorem storeNew_obeys (h : Announces W V i j env P K)
    (he : ∀ r, (contract W V).holdsAt (e r) = i.holds) (hs : Absent (some env.fileId) s) :
    (contract W V).Obeys e (fun r s => r.isOk = true → K s) (storeNew V i j env nowMs) s := by
  have hstable := absent_stable (W := W) (V := V) h.inner h.guards
  have hrows : ∀ {s : FileStore}, Absent (some env.fileId) s →
      (contract W V).Obeys e (fun r s => r.isOk = true → K s) (storeRows i j env) s := by
    intro s hs
    exact (storeRows_obeys h he hs).mono fun _ _ hk _ => hk
  have hholds : ∀ n, (contract W V).holdsAt
      ((if V.entries ≤ n then pure (.error (.full V.entries)) else storeRows i j env :
        FileProg (Except FileStoreError Bool)).placeThen e) = j.holds := by
    intro n
    split
    · exact (he _).trans h.holds.symm
    · rfl
  unfold storeNew
  refine Contract.Obeys.read_then (Absent (some env.fileId)) hs hstable ?_
  intro s hs hinv
  split
  · refine ⟨move_same h.inner h.innerSized rfl hinv rfl, ?_⟩
    refine Contract.Obeys.bind ((pruneExpired_obeys h.inner h.innerSized h.guards ?_ hs).mono ?_)
    · exact fun _ => rfl
    intro _ s hs
    refine Contract.Obeys.read_then (Absent (some env.fileId)) hs hstable ?_
    intro s hs hinv
    refine ⟨move_same h.inner h.innerSized (hholds _) hinv rfl, ?_⟩
    split
    · intro hok
      cases hok
    · exact hrows hs
  · exact ⟨move_same h.inner h.innerSized rfl hinv rfl, hrows hs⟩

theorem storeMeta_obeys (h : Announces W V i j env P K)
    (he : ∀ r, (contract W V).holdsAt (e r) = i.holds) (hs : P s) :
    (contract W V).Obeys e (fun r s => r.isOk = true → K s) (storeMeta V i j env nowMs) s := by
  unfold storeMeta
  split
  · refine Contract.Obeys.read_then P hs h.before ?_
    intro s hs hinv
    split
    · rename_i hknown
      exact ⟨move_same h.outer h.outerSized (he _) hinv rfl, fun _ => h.known s hs hknown⟩
    · rename_i hnew
      refine ⟨move_same h.outer h.outerSized h.holds hinv rfl, storeNew_obeys h he ?_⟩
      intro k hk
      cases hk
      cases hblob : s.blob.get env.fileId with
      | none => rfl
      | some blob => exact absurd (hinv.owned env.fileId (by rw [hblob]; rfl)) hnew
  · intro hok
    cases hok

end Announce

/-! ## Bodies -/

/-- The envelope of the file, if there is one, has the hash. -/
def Own (fileId hash : Str) (s : FileStore) : Prop :=
  ∀ env, s.metaTree.get fileId = some env → trimLower env.fileSha256 = hash

/-- The file has an envelope with the hash. -/
def Known (fileId hash : Str) (s : FileStore) : Prop :=
  ∃ env, s.metaTree.get fileId = some env ∧ trimLower env.fileSha256 = hash

section Upload

variable {W : World} {V : FileVars} {i : Place} {s : FileStore} {env : FileEnvelopeV1}
  {blob : Bytes} {fileId hash : Str} {nowMs : Nat}

theorem own_stable (hi : i.Wf) (hwrites : i.writes = some fileId) :
    (contract W V).Stable i (Own fileId hash) := by
  intro s s' hs hrely env henv
  rw [(rely_fixed hi hwrites hrely).2.1] at henv
  exact hs env henv

theorem known_stable (hi : i.Wf) (hwrites : i.writes = some fileId) :
    (contract W V).Stable i (Known fileId hash) := by
  rintro s s' ⟨env, henv, hhash⟩ hrely
  exact ⟨env, by rw [(rely_fixed hi hwrites hrely).2.1, henv], hhash⟩

/-- The other size rows take no more room than they did. -/
theorem rely_rest (hi : i.Wf) (hwrites : i.writes = some fileId) {s s' : FileStore}
    (hrely : (contract W V).Rely i s s') :
    ((s'.sizes.remove fileId).sumBy fun _ n => n) ≤ (s.sizes.remove fileId).sumBy fun _ n => n := by
  refine Tree.sumBy_le fun k => ?_
  rw [Tree.rowWeight_remove, Tree.rowWeight_remove]
  split
  · exact Nat.le_refl _
  · unfold Tree.rowWeight
    rcases rely_sizes (hi _ hwrites) hrely k with hsame | hgone
    · rw [hsame]
    · rw [hgone]
      exact Nat.zero_le _

theorem roomFor_stable (hi : i.Wf) (hwrites : i.writes = some fileId) (n : Nat) :
    (contract W V).Stable i (RoomFor V fileId n) := by
  intro s s' hs hrely cap hcap
  have hle := rely_rest hi hwrites hrely
  have hroom := hs cap hcap
  omega

/-- **The check of the cap**, before a body is stored. -/
theorem ifRoom_obeys {α : Type} {A : FileStore → Prop} {n : Nat}
    {k : FileProg (Except FileStoreError α)} {e : Except FileStoreError α → Option Place}
    {Q : Except FileStoreError α → FileStore → Prop} (hi : i.Wf) (hunsized : i.unsized = none)
    (hwrites : i.writes = some fileId)
    (hcap : ∀ cap, V.totalBytes = some cap → cap < u64Max) (hA : (contract W V).Stable i A)
    (he : ∀ r, (contract W V).holdsAt (e r) = i.holds)
    (hplace : (contract W V).holdsAt (k.placeThen e) = i.holds)
    (herr : ∀ err s, Q (.error err) s)
    (hk : ∀ s, A s → RoomFor V fileId n s → (contract W V).Obeys e Q k s) (hs : A s) :
    (contract W V).Obeys e Q (ifRoom V i fileId n k) s := by
  unfold ifRoom
  cases htotal : V.totalBytes with
  | none =>
    refine hk s hs fun cap hc => ?_
    rw [htotal] at hc
    cases hc
  | some cap =>
    have hlt := hcap cap htotal
    refine Contract.Obeys.read_then A hs hA ?_
    intro s hs hinv
    refine ⟨move_same hi hunsized rfl hinv rfl, ?_⟩
    have hfits : s.totalBlobBytes = s.sizesTotal := by
      have hle := hinv.room cap htotal
      unfold FileStore.totalBlobBytes
      exact Nat.mod_eq_of_lt (by unfold u64Max at hlt; omega)
    -- what the other bodies take, below what was read and the file's own
    refine Contract.Obeys.read_then (fun s' => A s' ∧
      ((s'.sizes.remove fileId).sumBy fun _ n => n) + s'.sizeOf fileId ≤ s.totalBlobBytes)
      ⟨hs, ?_⟩ ?_ ?_
    · have hremove := Tree.sumBy_remove (fun _ n => n) s.sizes fileId
      have hown : s.sizes.rowWeight (fun _ n => n) fileId = s.sizeOf fileId := by
        unfold Tree.rowWeight FileStore.sizeOf
        cases s.sizes.get fileId <;> rfl
      rw [hfits]
      unfold FileStore.sizesTotal
      omega
    · rintro s₁ s₂ ⟨hs₁, hle⟩ hrely
      refine ⟨hA _ _ hs₁ hrely, ?_⟩
      have hrest := rely_rest hi hwrites hrely
      have hsame : s₂.sizeOf fileId = s₁.sizeOf fileId := by
        unfold FileStore.sizeOf
        rw [(rely_fixed hi hwrites hrely).2.2]
      omega
    · rintro s' ⟨hs', hle⟩ hinv'
      dsimp only
      split
      · exact ⟨move_same hi hunsized (he _) hinv' rfl, herr _ _⟩
      · rename_i hroom
        refine ⟨move_same hi hunsized hplace hinv' rfl, hk s' hs' fun cap' hcap' => ?_⟩
        rw [htotal] at hcap'
        cases hcap'
        unfold satAdd at hroom
        omega

theorem storeBody_obeys {e : Except FileStoreError Unit → Option Place} (hi : i.Wf)
    (hunsized : i.unsized = none) (hwrites : i.writes = some fileId)
    (hhash : W.sha256Hex blob = hash) (he : ∀ r, (contract W V).holdsAt (e r) = i.holds)
    (hknown : Known fileId hash s) (hroom : RoomFor V fileId blob.length s) :
    (contract W V).Obeys e (fun _ _ => True) (storeBody i fileId blob) s := by
  unfold storeBody
  refine Contract.Obeys.write_then (fun s => Known fileId hash s ∧ RoomFor V fileId blob.length s)
    ⟨hknown, hroom⟩
    (Contract.Stable.and (known_stable hi hwrites) (roomFor_stable hi hwrites _)) ?_
  rintro s ⟨⟨env, hmeta, henv⟩, hroom⟩ hinv
  refine ⟨move_putBlob hi hunsized hwrites hinv hmeta (hhash.trans henv.symm), ?_⟩
  refine Contract.Obeys.write_then
    (fun s => s.blob.get fileId = some blob ∧ RoomFor V fileId blob.length s)
    ⟨Tree.get_insert_self _ _ _, hroom⟩ (Contract.Stable.and ?_ ?_) ?_
  · intro s₁ s₂ hs hrely
    rw [(rely_fixed (i := { i with unsized := some fileId }) hi hwrites hrely).1, hs]
  · exact roomFor_stable (i := { i with unsized := some fileId }) hi hwrites _
  rintro s ⟨hblob, hroom⟩ hinv
  exact ⟨move_putSize hi hwrites (he _) hinv hblob hroom, trivial⟩

theorem insertBlob_obeys {e : Except FileStoreError Unit → Option Place} (hi : i.Wf)
    (hunsized : i.unsized = none) (hwrites : i.writes = some fileId)
    (hcap : ∀ cap, V.totalBytes = some cap → cap < u64Max)
    (hhash : W.sha256Hex blob = hash) (he : ∀ r, (contract W V).holdsAt (e r) = i.holds)
    (hknown : Known fileId hash s) :
    (contract W V).Obeys e (fun _ _ => True) (insertBlob V i fileId blob) s :=
  ifRoom_obeys hi hunsized hwrites hcap (known_stable hi hwrites) he rfl (fun _ _ => trivial)
    (fun _ hknown hroom => storeBody_obeys hi hunsized hwrites hhash he hknown hroom) hknown

theorem insertBlob_holds {e : Except FileStoreError Unit → Option Place} :
    (contract W V).holdsAt ((insertBlob V i fileId blob).placeThen e) = i.holds := by
  unfold insertBlob ifRoom
  split <;> rfl

/-- An upload calls `store_meta` with its own place. -/
theorem announces_upload (hi : i.Wf) (hunsized : i.unsized = none)
    (hwrites : i.writes = some env.fileId) (hhash : trimLower env.fileSha256 = hash) :
    Announces W V i i env (Own env.fileId hash) (Known env.fileId hash) where
  outer := hi
  inner := hi
  outerSized := hunsized
  innerSized := hunsized
  place := Or.inr hwrites
  holds := rfl
  before := own_stable hi hwrites
  after := known_stable hi hwrites
  known s hs hsome := by
    obtain ⟨env', henv'⟩ := Option.isSome_iff_exists.mp hsome
    exact ⟨env', henv', hs env' henv'⟩
  put s := ⟨env, Tree.get_insert_self _ _ _, hhash⟩
  inbox _ _ h := h

theorem storeBoth_obeys {e : Except FileStoreError Bool → Option Place} (hi : i.Wf)
    (hunsized : i.unsized = none) (hwrites : i.writes = some env.fileId)
    (hcap : ∀ cap, V.totalBytes = some cap → cap < u64Max)
    (hhash : W.sha256Hex blob = trimLower env.fileSha256)
    (he : ∀ r, (contract W V).holdsAt (e r) = i.holds)
    (hown : Own env.fileId (trimLower env.fileSha256) s) :
    (contract W V).Obeys e (fun _ _ => True) (storeBoth V i env blob nowMs) s := by
  unfold storeBoth
  refine Contract.Obeys.bind
    ((storeMeta_obeys (announces_upload hi hunsized hwrites rfl) ?_ hown).mono ?_)
  · intro r
    cases r with
    | error err => exact he _
    | ok newly =>
      exact (congrArg _ (Prog.placeThen_bind _ _ _)).trans insertBlob_holds
  · intro r s hknown
    cases r with
    | error err => exact trivial
    | ok newly =>
      refine Contract.Obeys.bind ((insertBlob_obeys hi hunsized hwrites hcap hhash ?_
        (hknown rfl)).mono fun _ _ _ => trivial)
      exact fun r => he _

theorem storeLocked_obeys {e : Except FileStoreError Bool → Option Place}
    (hcap : ∀ cap, V.totalBytes = some cap → cap < u64Max)
    (hhash : W.sha256Hex blob = trimLower env.fileSha256)
    (he : ∀ r, (contract W V).holdsAt (e r) = true) :
    (contract W V).Obeys e (fun _ _ => True) (storeLocked V env blob nowMs) s := by
  have hheld : held.Wf := fun _ _ => rfl
  have hinside : ({ held with writes := some env.fileId } : Place).Wf := fun _ _ => rfl
  have hplace : (contract W V).holdsAt ((storeBoth V { held with writes := some env.fileId } env
      blob nowMs).placeThen e) = true := by
    unfold storeBoth storeMeta
    split
    · rfl
    · exact he _
  have hroomPlace : (contract W V).holdsAt ((ifRoom V { held with writes := some env.fileId }
      env.fileId blob.length (storeBoth V { held with writes := some env.fileId } env blob
        nowMs)).placeThen e) = true := by
    unfold ifRoom
    split
    · exact hplace
    · rfl
  unfold storeLocked
  refine Contract.Obeys.read_then (fun _ => True) trivial (Contract.stable_true _) ?_
  intro s _ hinv
  split
  · exact ⟨move_same hheld rfl (he _) hinv rfl, trivial⟩
  · rename_i hsame
    refine ⟨move_same hheld rfl hroomPlace hinv rfl, ?_⟩
    refine ifRoom_obeys (A := Own env.fileId (trimLower env.fileSha256)) hinside rfl rfl hcap
      (own_stable hinside rfl) he hplace (fun _ _ => trivial) (fun s hown _ => ?_) ?_
    · exact storeBoth_obeys hinside rfl rfl hcap hhash he hown
    · intro env' henv'
      rw [henv'] at hsame
      simp only [Option.any_some, otherFile, Bool.or_eq_true, bne_iff_ne, ne_eq, not_or,
        not_not] at hsame
      exact hsame.1.2

theorem storeWithBlob_obeys {e : Except FileStoreError Bool → Option Place}
    (hcap : ∀ cap, V.totalBytes = some cap → cap < u64Max)
    (he : ∀ r, (contract W V).holdsAt (e r) = false) :
    (contract W V).Obeys e (fun _ _ => True) (storeWithBlob W V env blob nowMs) s := by
  have houtside : outside.Wf := by
    intro k hk
    cases hk
  have hheld : held.Wf := fun _ _ => rfl
  unfold storeWithBlob
  split
  · exact trivial
  split
  · exact trivial
  rename_i hhash
  refine Contract.Obeys.await_then (fun _ => True) trivial (Contract.stable_true _) ?_
  intro s _ hinv hfree
  have hunlocked : s.writeLock = false := by
    cases hlock : s.writeLock with
    | false => rfl
    | true =>
      rw [hlock] at hfree
      cases hfree
  refine ⟨move_lock houtside rfl (by rw [hunlocked]; rfl) hinv, ?_⟩
  refine Contract.Obeys.bind ((storeLocked_obeys hcap (not_not.mp hhash) ?_).mono ?_)
  · exact fun _ => rfl
  intro r s _
  refine Contract.Obeys.bind (Contract.Obeys.step_of (fun _ => True) trivial
    (Contract.stable_true _) ?_)
  intro s _ hinv hlocked _
  have htaken : s.writeLock = true := hlocked rfl
  refine ⟨move_lock hheld rfl ?_ hinv, trivial⟩
  show 0 + 1 = s.writeLock.toNat + ((contract W V).holdsAt (e r)).toNat
  rw [htaken, he]
  rfl

theorem fetchBlobFromPeer_obeys {e : Option Bytes → Option Place}
    {reply : FileEnvelopeV1 → Option Bytes}
    (hcap : ∀ cap, V.totalBytes = some cap → cap < u64Max)
    (he : ∀ r, (contract W V).holdsAt (e r) = false) :
    (contract W V).Obeys e (fun _ _ => True) (fetchBlobFromPeer W V fileId reply nowMs) s := by
  have houtside : outside.Wf := by
    intro k hk
    cases hk
  unfold fetchBlobFromPeer
  refine Contract.Obeys.read_then (fun _ => True) trivial (Contract.stable_true _) ?_
  intro s _ hinv
  split
  · exact ⟨move_same houtside rfl (he _) hinv rfl, trivial⟩
  · rename_i env blob _
    split
    · exact ⟨move_same houtside rfl (he _) hinv rfl, trivial⟩
    · refine ⟨move_same houtside rfl ?_ hinv rfl, ?_⟩
      · rw [Prog.placeThen_bind]
        unfold storeWithBlob
        split
        · exact he _
        split
        · exact he _
        · rfl
      · exact Contract.Obeys.bind
          ((storeWithBlob_obeys hcap fun r => he _).mono fun _ _ _ => trivial)

end Upload

/-- **Every operation** obeys the contract. -/
theorem starts {W : World} {V : FileVars} (hcap : ∀ cap, V.totalBytes = some cap → cap < u64Max) :
    (contract W V).Starts (Started W V) := by
  have houtside : outside.Wf := by
    intro k hk
    cases hk
  rintro p ⟨op, rfl⟩
  cases op with
  | storeMeta env nowMs =>
    have hcall : Announces W V outside { outside with announces := some env.fileId } env
        (fun _ => True) (fun _ => True) := by
      refine ⟨houtside, ?_, rfl, rfl, Or.inl rfl, rfl, Contract.stable_true _,
        Contract.stable_true _, fun _ _ _ => trivial, fun _ => trivial, fun _ _ _ => trivial⟩
      intro k hk
      cases hk
    refine ⟨?_, fun s _ => Contract.Obeys.bind
      ((storeMeta_obeys hcall (fun _ => rfl) trivial).mono fun _ _ _ => trivial)⟩
    show (contract W V).holdsAt (Prog.placeThen _ (_ >>= _)) = false
    unfold storeMeta
    split <;> rfl
  | storeWithBlob env blob nowMs =>
    refine ⟨?_, fun s _ => Contract.Obeys.bind
      ((storeWithBlob_obeys hcap fun _ => rfl).mono fun _ _ _ => trivial)⟩
    show (contract W V).holdsAt (Prog.placeThen _ (_ >>= _)) = false
    unfold storeWithBlob
    split
    · rfl
    split <;> rfl
  | fetchBlobFromPeer fileId reply nowMs =>
    exact ⟨rfl, fun s _ => Contract.Obeys.bind
      ((fetchBlobFromPeer_obeys hcap fun _ => rfl).mono fun _ _ _ => trivial)⟩
  | deleteFile fileId =>
    refine ⟨rfl, fun s _ => Contract.Obeys.bind
      ((deleteFile_obeys (o := none) houtside rfl ?_ (fun _ => rfl) ?_).mono fun _ _ _ => trivial)⟩
    · intro k hk
      cases hk
    · intro k hk
      cases hk
  | pruneExpired nowMs =>
    refine ⟨rfl, fun s _ => Contract.Obeys.bind
      ((pruneExpired_obeys (o := none) houtside rfl ?_ (fun _ => rfl) ?_).mono fun _ _ _ => trivial)⟩
    · intro k hk
      cases hk
    · intro k hk
      cases hk

end TetCore.Files
