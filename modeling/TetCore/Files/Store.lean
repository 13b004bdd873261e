import TetCore.Ledger.State
import TetCore.Lib.Interleave
import TetCore.Tmail.Policy

/-!
# The store of shared files

Model of `files/storage.rs`: the trees of bodies, envelopes, inbox rows and sizes, and `write_lock`. The
operations are programs whose steps are the operations on one tree, in the order of the source. A walk
over a tree is one step too. Only `store_with_blob` takes the lock.

A step's `Place` says what its thread is in the middle of. It is a note on the program: no step reads it.

A `prune_expired` reads the clock once, so an operation has the time of its prune as an argument. A file
id is kept as text (the text of a UUID is the same for the same id). Left out: failures of the database,
envelopes that cannot be decoded, `put_blob`, which no operation calls, and the rows of the operator's
hide list.
-/

namespace TetCore.Files

open TetCore.Lib TetCore.Tmail

/-! ## Settings -/

/-- The variables the store reads, as parsed. -/
structure FileVars where
  maxTtlMs : Option Nat := none
  defaultTtlMs : Option Nat := none
  maxBodyBytes : Option Nat := none
  maxTotalBytes : Option Nat := none
  maxEntries : Option Nat := none

namespace FileVars

variable (V : FileVars)

/-- `max_body_bytes`; the default is `MAX_FILE_BODY_BYTES`. -/
def bodyBytes : Nat := envOr V.maxBodyBytes (5 * 1024 * 1024)

/-- `max_total_bytes`. -/
def totalBytes : Option Nat := V.maxTotalBytes.filter (0 < ·)

/-- `max_entries`. -/
def entries : Nat := envOr V.maxEntries 10000

/-- `effective_ttl_ms`. -/
def effectiveTtlMs (ttlMs : Nat) : Nat :=
  let max := envOr V.maxTtlMs (30 * 24 * 60 * 60 * 1000)
  if ttlMs = 0 then min (envOr V.defaultTtlMs (30 * 24 * 60 * 60 * 1000)) max else min ttlMs max

end FileVars

/-- `FileEnvelopeV1`, as far as the store reads it. -/
structure FileEnvelopeV1 where
  fileId : Str
  senderWalletId : Str
  receiverWalletId : Str
  fileSize : Nat
  fileSha256 : Str
  createdAtMs : Nat
  ttlMs : Nat
  deriving DecidableEq

/-- `FileStoreError`. -/
inductive FileStoreError where
  | invalidReceiver
  | blobTooLarge (got max : Nat)
  | sha256Mismatch (expected actual : Str)
  | full (max : Nat)
  | idTaken (fileId : Str)
  | storageFull (stored incoming cap : Nat)
  deriving DecidableEq

/-- `is_expired`. -/
def isExpired (V : FileVars) (env : FileEnvelopeV1) (nowMs : Nat) : Bool :=
  decide (satAdd env.createdAtMs (V.effectiveTtlMs env.ttlMs) < nowMs)

/-- `inbox_key`. -/
def inboxKey (receiver : Str) (createdAtMs : Nat) (fileId : Str) : Bytes :=
  utf8 receiver ++ beBytes 8 createdAtMs ++ utf8 fileId

/-! ## The trees -/

/-- `FileStore`. -/
structure FileStore where
  blob : Tree Str Bytes
  metaTree : Tree Str FileEnvelopeV1
  inbox : Tree Bytes Str
  sizes : Tree Str Nat
  /-- `write_lock` is taken. -/
  writeLock : Bool

namespace FileStore

/-- `open`, on a new database. -/
def opened : FileStore := ⟨.empty, .empty, .empty, .empty, false⟩

/-- `size_of`. -/
def sizeOf (s : FileStore) (fileId : Str) : Nat := (s.sizes.get fileId).getD 0

/-- The sum of the size rows. -/
def sizesTotal (s : FileStore) : Nat := s.sizes.sumBy fun _ n => n

/-- `total_blob_bytes`: the sum in 64 bits. -/
def totalBlobBytes (s : FileStore) : Nat := s.sizesTotal % 2 ^ 64

def dropBlob (fileId : Str) (s : FileStore) : FileStore := { s with blob := s.blob.remove fileId }

def dropSize (fileId : Str) (s : FileStore) : FileStore := { s with sizes := s.sizes.remove fileId }

def dropMeta (fileId : Str) (s : FileStore) : FileStore :=
  { s with metaTree := s.metaTree.remove fileId }

def dropInbox (key : Bytes) (s : FileStore) : FileStore := { s with inbox := s.inbox.remove key }

def putBlob (fileId : Str) (blob : Bytes) (s : FileStore) : FileStore :=
  { s with blob := s.blob.insert fileId blob }

def putSize (fileId : Str) (n : Nat) (s : FileStore) : FileStore :=
  { s with sizes := s.sizes.insert fileId n }

def putMeta (env : FileEnvelopeV1) (s : FileStore) : FileStore :=
  { s with metaTree := s.metaTree.insert env.fileId env }

def putInbox (key : Bytes) (fileId : Str) (s : FileStore) : FileStore :=
  { s with inbox := s.inbox.insert key fileId }

end FileStore

/-- What a thread is in the middle of. -/
structure Place where
  /-- It has `write_lock`. -/
  holds : Bool := false
  /-- A `store_with_blob` that has passed its owner check. -/
  writes : Option Str := none
  /-- A `store_meta` that found no envelope and has not written its own. -/
  announces : Option Str := none
  /-- A removal that is not over. -/
  removes : Option Str := none
  /-- The body was written or removed and its size row was not. -/
  unsized : Option Str := none
  deriving DecidableEq

/-- A program over the store. -/
abbrev FileProg (α : Type) : Type := Prog FileStore Place α

/-- The place of a thread without the lock. -/
def outside : Place := {}

/-- The place of a thread that has the lock. -/
def held : Place := { holds := true }

/-! ## Operations -/

section Operations

variable (W : World) (V : FileVars)

/-- `remove_blob`. -/
def removeBlob (i : Place) (fileId : Str) : FileProg Unit := do
  .write i (FileStore.dropBlob fileId)
  .write { i with removes := some fileId, unsized := some fileId } (FileStore.dropSize fileId)

/-- `remove_blob` and the removal of the envelope. -/
def removeRows (i : Place) (fileId : Str) : FileProg Unit := do
  removeBlob i fileId
  .write { i with removes := some fileId } (FileStore.dropMeta fileId)

/-- The inbox row of an envelope, removed. -/
def removeInbox (i : Place) (fileId : Str) : Option FileEnvelopeV1 → FileProg Unit
  | some env =>
    .write i (FileStore.dropInbox (inboxKey (trimLower env.receiverWalletId) env.createdAtMs fileId))
  | none => pure ()

/-- `delete_file`. -/
def deleteFile (i : Place) (fileId : Str) : FileProg Bool := do
  let env ← .read i fun s => s.metaTree.get fileId
  removeInbox i fileId env
  removeRows i fileId
  pure env.isSome

/-- The loop of `prune_expired`. A file that was already gone is cleared again. -/
def pruneFiles (i : Place) : List Str → Nat → FileProg Nat
  | [], removed => pure removed
  | fileId :: rest, removed => do
    let existed ← deleteFile i fileId
    if existed then pruneFiles i rest (removed + 1)
    else do
      removeRows i fileId
      pruneFiles i rest removed

/-- `prune_expired`. -/
def pruneExpired (i : Place) (nowMs : Nat) : FileProg Nat := do
  let expired ← .read i fun s =>
    (s.metaTree.iter.filter fun r => isExpired V r.2 nowMs).map Prod.fst
  pruneFiles i expired 0

/-- The writes of `store_meta`. -/
def storeRows (i j : Place) (env : FileEnvelopeV1) : FileProg (Except FileStoreError Bool) := do
  .write j (FileStore.putMeta env)
  .write i (FileStore.putInbox
    (inboxKey (trimLower env.receiverWalletId) env.createdAtMs env.fileId) env.fileId)
  pure (.ok true)

/-- `store_meta` after it found no envelope: `i` is the place of the caller, `j` the one within. -/
def storeNew (i j : Place) (env : FileEnvelopeV1) (nowMs : Nat) :
    FileProg (Except FileStoreError Bool) := do
  let n ← .read j fun s => s.metaTree.iter.length
  if V.entries ≤ n then do
    let _ ← pruneExpired V j nowMs
    let n ← .read j fun s => s.metaTree.iter.length
    if V.entries ≤ n then pure (.error (.full V.entries)) else storeRows i j env
  else storeRows i j env

/-- `store_meta`. -/
def storeMeta (i j : Place) (env : FileEnvelopeV1) (nowMs : Nat) :
    FileProg (Except FileStoreError Bool) :=
  if isHex64 (trimLower env.receiverWalletId) then do
    let known ← .read i fun s => (s.metaTree.get env.fileId).isSome
    if known then pure (.ok false) else storeNew V i j env nowMs
  else pure (.error .invalidReceiver)

/-- The writes of `insert_blob`. -/
def storeBody (i : Place) (fileId : Str) (blob : Bytes) : FileProg (Except FileStoreError Unit) := do
  .write i (FileStore.putBlob fileId blob)
  .write { i with unsized := some fileId } (FileStore.putSize fileId blob.length)
  pure (.ok ())

/-- The check of the cap, before `k`. -/
def ifRoom {α : Type} (i : Place) (fileId : Str) (incoming : Nat)
    (k : FileProg (Except FileStoreError α)) : FileProg (Except FileStoreError α) :=
  match V.totalBytes with
  | none => k
  | some cap => do
    let total ← .read i FileStore.totalBlobBytes
    let own ← .read i fun s => s.sizeOf fileId
    let stored := total - own
    if cap < satAdd stored incoming then pure (.error (.storageFull stored incoming cap)) else k

/-- `insert_blob`. -/
def insertBlob (i : Place) (fileId : Str) (blob : Bytes) : FileProg (Except FileStoreError Unit) :=
  ifRoom V i fileId blob.length (storeBody i fileId blob)

/-- An envelope of another file. -/
def otherFile (existing env : FileEnvelopeV1) : Bool :=
  trimLower existing.senderWalletId != trimLower env.senderWalletId ||
    trimLower existing.fileSha256 != trimLower env.fileSha256 ||
      trimLower existing.receiverWalletId != trimLower env.receiverWalletId

/-- The envelope and the body, once there is room. -/
def storeBoth (i : Place) (env : FileEnvelopeV1) (blob : Bytes) (nowMs : Nat) :
    FileProg (Except FileStoreError Bool) := do
  let newly ← storeMeta V i i env nowMs
  match newly with
  | .error e => pure (.error e)
  | .ok newly => do
    let inserted ← insertBlob V i env.fileId blob
    pure (inserted.map fun _ => newly)

/-- `store_with_blob` under the lock. -/
def storeLocked (env : FileEnvelopeV1) (blob : Bytes) (nowMs : Nat) :
    FileProg (Except FileStoreError Bool) := do
  let existing ← .read held fun s => s.metaTree.get env.fileId
  if existing.any fun e => otherFile e env then pure (.error (.idTaken env.fileId))
  else
    ifRoom V { held with writes := some env.fileId } env.fileId blob.length
      (storeBoth V { held with writes := some env.fileId } env blob nowMs)

/-- `store_with_blob`. -/
def storeWithBlob (env : FileEnvelopeV1) (blob : Bytes) (nowMs : Nat) :
    FileProg (Except FileStoreError Bool) :=
  if V.bodyBytes < blob.length then pure (.error (.blobTooLarge blob.length V.bodyBytes))
  else if W.sha256Hex blob ≠ trimLower env.fileSha256 then
    pure (.error (.sha256Mismatch (trimLower env.fileSha256) (W.sha256Hex blob)))
  else do
    .await outside (fun s => !s.writeLock) fun s => { s with writeLock := true }
    let stored ← storeLocked V env blob nowMs
    .write held fun s => { s with writeLock := false }
    pure stored

/-- `fetch_blob_from_peer`; `reply` is what the storage node of an envelope answers. -/
def fetchBlobFromPeer (fileId : Str) (reply : FileEnvelopeV1 → Option Bytes) (nowMs : Nat) :
    FileProg (Option Bytes) := do
  let env ← .read outside fun s => s.metaTree.get fileId
  match env.bind fun env => (reply env).map fun blob => (env, blob) with
  | none => pure none
  | some (env, blob) =>
    if blob.length ≠ env.fileSize ∨ W.sha256Hex blob ≠ env.fileSha256 then pure none
    else do
      let _ ← storeWithBlob W V env blob nowMs
      pure (some blob)

/-- The operations that run side by side. -/
inductive FileOp where
  | storeMeta (env : FileEnvelopeV1) (nowMs : Nat)
  | storeWithBlob (env : FileEnvelopeV1) (blob : Bytes) (nowMs : Nat)
  | fetchBlobFromPeer (fileId : Str) (reply : FileEnvelopeV1 → Option Bytes) (nowMs : Nat)
  | deleteFile (fileId : Str)
  | pruneExpired (nowMs : Nat)

/-- The thread of an operation. -/
def FileOp.thread : FileOp → FileProg Unit
  | .storeMeta env nowMs => do
    let _ ← Files.storeMeta V outside { outside with announces := some env.fileId } env nowMs
  | .storeWithBlob env blob nowMs => do
    let _ ← Files.storeWithBlob W V env blob nowMs
  | .fetchBlobFromPeer fileId reply nowMs => do
    let _ ← Files.fetchBlobFromPeer W V fileId reply nowMs
  | .deleteFile fileId => do
    let _ ← Files.deleteFile outside fileId
  | .pruneExpired nowMs => do
    let _ ← Files.pruneExpired V outside nowMs

/-- The threads of operations. -/
def Started (p : FileProg Unit) : Prop := ∃ op : FileOp, p = op.thread W V

end Operations

/-! ## What is stored -/

/-- Bodies match their envelopes and have one, the size rows are the lengths of the bodies and nothing
else, and the bodies are within the cap. -/
structure Matches (W : World) (V : FileVars) (s : FileStore) : Prop where
  bodies : ∀ fileId env blob, s.metaTree.get fileId = some env → s.blob.get fileId = some blob →
    W.sha256Hex blob = trimLower env.fileSha256
  owned : ∀ fileId, (s.blob.get fileId).isSome = true → (s.metaTree.get fileId).isSome = true
  sizes : ∀ fileId, s.sizes.get fileId = (s.blob.get fileId).map List.length
  room : ∀ cap, V.totalBytes = some cap → (s.blob.sumBy fun _ blob => blob.length) ≤ cap

/-- Two threads are not in the middle of things that have to do with one file: none stores the body of a
file while the other one announces or removes it. -/
def Clear (i j : Place) : Prop :=
  ∀ fileId, i.writes = some fileId → j.announces ≠ some fileId ∧ j.removes ≠ some fileId

end TetCore.Files
