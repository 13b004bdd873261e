import TetCore.Tmail.Shelter
import TetCore.Tmail.AnonRegistry
import TetCore.Tmail.Runs

/-!
# Shelter's board

Model of Shelter's part of `tmail/store.rs`: the membership records, the anonymity registry, the roots
that count on the board (`shelter_refresh_roots`), and the posting keys that proofs against them
register.

Membership changes take `shelter_lock`, the roots `shelter_roots_lock`, posts `anon_send_lock`. A step
of a run is what one call does between two of these locks: `send_anonymous` is a check of the proof,
the store of the post and the record of its verdict, and records, registrations and refreshes fall
between them. A clock that a call read earlier may be behind the moment of the step.

The model keeps two things that the code does not, which only statements read: the set a kept root
was built from, and the leaves of the set that the proof behind a posting key was checked against.
-/

namespace TetCore.Tmail

open TetCore.Lib

/-- `SHELTER_ANON_MIN`. -/
def shelterAnonMin : Nat := 3

/-- A root that counts. -/
structure KeptRoot where
  root : Bytes
  seenAtMs : Nat
  /-- The wallets and commitments it was built from, which the code does not keep. -/
  builtFrom : List (Str × Bytes)
  deriving DecidableEq

structure ShelterRoots where
  leaves : List Bytes
  roots : List KeptRoot
  lastLossMs : Nat

/-- A `send_anonymous` that holds `anon_send_lock`. -/
structure Sending where
  env : TmailEnvelopeV1
  nullifierHex : Str
  verifiedAtMs : Nat
  /-- The leaves of the set its proof was checked against. -/
  provedIn : List Bytes
  /-- `store_tmail` returned. -/
  stored : Bool

structure ShelterBoard where
  records : List ShelterRecordV1
  registry : AnonStore
  roots : ShelterRoots
  store : TmailStore
  sending : Option Sending
  /-- The leaves of the set that the proof which registered a posting key was checked against, which
  the code does not keep. -/
  provedIn : Tree FastName (List Bytes)

def ShelterBoard.new : ShelterBoard :=
  ⟨[], AnonStore.new, ⟨[], [], 0⟩, TmailStore.new, none, Tree.empty⟩

namespace ShelterRoots

variable (W : World) (set : List (Str × Bytes)) (now : Nat) (st : ShelterRoots)

/-- A leaf of the newest set is not in this one. -/
def loses : Bool := st.leaves.any fun l => l ∉ set.map Prod.snd

/-- The root of a set. -/
def rootOf : Bytes := merkleRoot W (set.map Prod.snd)

/-- The earlier roots, with the root of this set, the last 64. -/
def withRoot (roots : List KeptRoot) : List KeptRoot :=
  let roots :=
    if roots.any fun k => k.root = rootOf W set then roots
    else roots ++ [⟨rootOf W set, now, set⟩]
  roots.drop (roots.length - 64)

/-- What `shelter_refresh_roots` writes, from the state it read and the set now. -/
def refreshed : ShelterRoots where
  leaves := set.map Prod.snd
  roots :=
    if shelterAnonMin ≤ set.length then
      withRoot W set now (if st.loses set then [] else st.roots)
    else []
  lastLossMs := if st.loses set then now else st.lastLossMs

end ShelterRoots

namespace ShelterBoard

section Calls

variable (A : Auth) (W : World) (cfg : ShelterConfig) (V : Vars) (M : Moment) (s : ShelterBoard)

/-- `shelter_state`. -/
def members : ShelterState := replay A W cfg s.records

/-- The registered commitment of a wallet. -/
def commitmentOf (w : Str) : Option Bytes :=
  (s.registry.anonRegistry.get (trimLower w)).bind StoredAnonRegistration.leaf

/-- `shelter_anon_set`. -/
def anonSet (now : Nat) : List (Str × Bytes) :=
  ((s.members A W cfg).anonEligible now).filterMap fun w => (s.commitmentOf w).map (w, ·)

/-- The posting keys of the board go. -/
def dropBoardKeys (store : TmailStore) : TmailStore :=
  { store with
    fastKeys := ((store.fastKeys.iter.filter fun r => r.1.receiver = cfg.board).map
      Prod.fst).foldl Tree.remove store.fastKeys }

/-- `shelter_refresh_roots`. -/
def refresh (now : Nat) : ShelterBoard :=
  let set := s.anonSet A W cfg now
  { s with
    roots := s.roots.refreshed W set now
    store := if s.roots.loses set then dropBoardKeys cfg s.store else s.store }

/-- `shelter_accepts_root`. -/
def acceptsRoot (now : Nat) (root : Bytes) (bucket nowBucket : Nat) : Bool × ShelterBoard :=
  if absDiff bucket nowBucket > 1 then (false, s)
  else
    let s := s.refresh A W cfg now
    (s.roots.roots.any fun k => k.root = root, s)

/-- `submit_shelter_record`, until it gives `shelter_lock` back. -/
def appendRecord (r : ShelterRecordV1) (now : Nat) : Except ShelterError Unit × ShelterBoard :=
  match verifyRecord A W r with
  | .error e => (.error e, s)
  | .ok _ =>
    if absDiff r.atMs now > shelterRecordSkewMs then (.error .clock, s)
    else if s.records.any fun x => recordId A W x = recordId A W r then (.error .duplicate, s)
    else match ((s.members A W cfg).apply cfg A W r).1 with
      | .error e => (.error e, s)
      | .ok _ => (.ok (), { s with records := s.records ++ [r] })

/-- `submit_shelter_record`. -/
def submitShelterRecord (r : ShelterRecordV1) (now : Nat) :
    Except ShelterError Str × ShelterBoard :=
  match s.appendRecord A W cfg r now with
  | (.error e, s) => (.error e, s)
  | (.ok _, s) => (.ok (recordId A W r), s.refresh A W cfg now)

/-! ## Posting with a proof -/

/-- `anon_root_accepted_for`, with the leaves of the accepted root's set. What the open anonymity set
or a poll says of a root is `elsewhere`. -/
def rootAcceptedFor (env : TmailEnvelopeV1) (root : Bytes) (elsewhere : Option (List Bytes)) :
    Option (List Bytes) × ShelterBoard :=
  if env.receiver = cfg.board then
    if absDiff (bucketIndex env.sentAtMs) (bucketIndex M.now) > 1 then (none, s)
    else
      let s := s.refresh A W cfg M.now
      ((s.roots.roots.find? fun k => k.root = root).map fun k => k.builtFrom.map Prod.snd, s)
  else (elsewhere, s)

/-- `send_anonymous`, until its proof is checked. The root in the proof's journal is `root`, and the
other checks of `verify_anonymous_proof` are `M`'s. -/
def check (env : TmailEnvelopeV1) (root : Bytes) (elsewhere : Option (List Bytes)) :
    ShelterBoard :=
  if s.sending.isSome then s
  else match env.proof with
    | none => s
    | some proof =>
      if !M.receiptDeposited proof.receiptSha256Hex then s
      else match verifyAnonymousProof M env with
        | .verified n t =>
          match s.rootAcceptedFor A W cfg M env root elsewhere with
          | (some leaves, s) => { s with sending := some ⟨env, n, t, leaves, false⟩ }
          | (none, s) => s
        | .failed _ _ | .pending => s

/-- What the store finds of Shelter. -/
def moment : Moment :=
  { M with
    isShelterBoard := fun w => trimLower w = cfg.board
    shelterMayPost := fun w => (s.members A W cfg).mayPost w M.now
    shelterRegistrationOk := fun reg =>
      (s.refresh A W cfg M.now).roots.lastLossMs < reg.registeredAtMs }

/-- `send_anonymous`: the post is stored. -/
def storeSent : ShelterBoard :=
  match s.sending with
  | none => s
  | some p =>
    if p.stored then s
    else match s.store.storeTmail V (s.moment A W cfg M) p.env with
      | (.ok _, store) => { s with store := store, sending := some { p with stored := true } }
      | (.error _, store) => { s with store := store, sending := none }

/-- The posting key that a verified verdict for `msgId` registers. -/
def registersFor (store : TmailStore) (msgId : Str) : Option FastName :=
  ((store.getByMsgId msgId).filter fun env => env.proof.isSome && !store.isPoll env.receiver &&
    (store.fastKeys.get env.fastName).isNone).map TmailEnvelopeV1.fastName

/-- `send_anonymous`: the verdict is recorded, which registers the posting key of the message held
under the id. -/
def recordSent : ShelterBoard :=
  match s.sending with
  | none => s
  | some p =>
    if p.stored then
      { s with
        store := s.store.setAnonVerdict V M p.env.id (.verified p.nullifierHex p.verifiedAtMs)
        sending := none
        provedIn := match registersFor s.store p.env.id with
          | some name => s.provedIn.insert name p.provedIn
          | none => s.provedIn }
    else s

/-! ## Fast posts -/

/-- `fast_registration`, where it counts (`shelter_fast_registration_ok`). -/
def countedRegistration (env : TmailEnvelopeV1) : Option FastKey × ShelterBoard :=
  match s.store.fastRegistration env with
  | none => (none, s)
  | some reg =>
    if env.receiver = cfg.board then
      let s := s.refresh A W cfg M.now
      (if s.roots.lastLossMs < reg.registeredAtMs then some reg else none, s)
    else (some reg, s)

/-- What the store of a fast post gave. -/
def withStore (r : Except FastSendError Bool × TmailStore) :
    Except FastSendError Bool × ShelterBoard := (r.1, { s with store := r.2 })

/-- `send_fast_anonymous`. -/
def sendFast (env : TmailEnvelopeV1) : Except FastSendError Bool × ShelterBoard :=
  match s.store.fastChecks M env with
  | .error e => (.error e, s)
  | .ok () => match s.countedRegistration A W cfg M env with
    | (none, s) => (.error .notRegistered, s)
    | (some reg, s) =>
      if (s.store.byMsgId.get env.id).isSome then (.ok false, s)
      else s.withStore (s.store.storeRegistered V M env reg)

/-- `receive_fast_anonymous`. -/
def receiveFast (env : TmailEnvelopeV1) : Except FastSendError Bool × ShelterBoard :=
  match s.store.fastChecks M env with
  | .error e => (.error e, s)
  | .ok () =>
    if (s.store.byMsgId.get env.id).isSome then (.ok false, s)
    else match s.countedRegistration A W cfg M env with
      | (some reg, s) => s.withStore (s.store.storeRegistered V M env reg)
      | (none, s) => s.withStore (s.store.storeHeld V M env)

end Calls

end ShelterBoard

/-! ## Runs -/

inductive BoardAction where
  /-- A record, by a call that read the clock at `readAt`. -/
  | append (r : ShelterRecordV1) (readAt : Nat)
  /-- The refresh of a submit, or of a reader of the roots. -/
  | refresh (readAt : Nat)
  /-- The anonymity registry. -/
  | register (reg : TmailAnonRegistrationV1)
  | check (M : Moment) (env : TmailEnvelopeV1) (root : Bytes) (elsewhere : Option (List Bytes))
  | storeSent (M : Moment)
  | recordSent (M : Moment)
  | sendFast (M : Moment) (env : TmailEnvelopeV1)
  | receiveFast (M : Moment) (env : TmailEnvelopeV1)

/-- The clock a step reads is now; a reading that a call brings along may be earlier. -/
def BoardAction.readsAt (now : Nat) : BoardAction → Prop
  | .append _ readAt | .refresh readAt => readAt ≤ now
  | .storeSent M | .recordSent M => M.now ≤ now
  | .check M _ _ _ | .sendFast M _ | .receiveFast M _ => M.now = now
  | .register _ => True

/-- One step at the clock `now`. -/
def BoardAction.step (A : Auth) (W : World) (cfg : ShelterConfig) (V : Vars) (now : Nat)
    (s : ShelterBoard) : BoardAction → ShelterBoard
  | .append r readAt => (s.appendRecord A W cfg r readAt).2
  | .refresh readAt => s.refresh A W cfg readAt
  | .register reg => { s with registry := (registerAnon V now reg s.registry).2 }
  | .check M env root elsewhere => s.check A W cfg M env root elsewhere
  | .storeSent M => s.storeSent A W cfg V M
  | .recordSent M => s.recordSent V M
  | .sendFast M env => (s.sendFast A W cfg V M env).2
  | .receiveFast M env => (s.receiveFast A W cfg V M env).2

/-- What steps lead to from a new store, each step where `ok` allows it; the clock only goes
forward. -/
inductive BoardRun (A : Auth) (W : World) (cfg : ShelterConfig) (V : Vars)
    (ok : ShelterBoard → BoardAction → Prop) : Nat → ShelterBoard → Prop where
  | start : BoardRun A W cfg V ok 0 ShelterBoard.new
  | step {t : Nat} {s : ShelterBoard} (now : Nat) (a : BoardAction)
      (before : BoardRun A W cfg V ok t s) (clock : t < now) (reads : a.readsAt now)
      (allowed : ok s a) : BoardRun A W cfg V ok now (a.step A W cfg V now s)

end TetCore.Tmail
