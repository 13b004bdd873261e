import TetCore.Lib.JsValue
import TetCore.Lib.Script

/-!
# Anonymous send: the poster's side

`anon_tree.mjs` and `anon_poster.mjs`: the derivations of a member's browser, the download of the
registry, and one anonymous send as the script of its requests to the node. The hash functions, the
prover, the wallet id of a posting key and the envelope builder are parameters, as they are injected in
the source.

`anonPost_requests`: the requests of two members of the list, against the same answers, are the same
except for the posting key's id, the proof and the envelope, if their helpers succeed alike; and `sent`
is reported only after a 2xx answer to `/tmail/send`. `prewarm_requests`: warming up asks for nothing but
the registry.
-/

namespace TetCore.Page

open TetCore.Lib

/-! ## Derivations -/

/-- The hash functions of the page. -/
structure PageHashes where
  sha256 : Bytes → Bytes
  /-- HKDF-SHA256 to 32 bytes without a salt, of a key and an info. -/
  hkdf : Bytes → Bytes → Bytes

/-- `[0-9a-f]`. -/
def isLowerHexdigit (c : Char) : Bool :=
  (48 ≤ c.toNat && c.toNat ≤ 57) || (97 ≤ c.toNat && c.toNat ≤ 102)

/-- `toHex`. -/
def toHex (b : Bytes) : Str := hexEncode b

/-- `fromHex`. -/
def fromHex (J : JsRuntime) (h : Str) : Except Str Bytes :=
  let s := J.toLowerCase (jsTrim h)
  if s.length % 2 ≠ 0 ∨ s.all isLowerHexdigit = false then .error "bad hex".toList
  else .ok ((hexDecode s).getD [])

/-- `fromHex` of a parsed value: only a string can be trimmed. -/
def fromHexValue (J : JsRuntime) (v : JsValue) : Except Str Bytes :=
  match v with
  | .str h => fromHex J h
  | _ => .error "h.trim is not a function".toList

/-- `anonCommitment`: the registry leaf of a member secret. -/
def anonCommitment (H : PageHashes) (secret32 : Bytes) : Except Str Bytes :=
  if secret32.length ≠ 32 then .error "member secret must be 32 bytes".toList
  else .ok (H.sha256 (utf8 "tet-anon-v1".toList ++ secret32))

/-- `anonParent`. -/
def anonParent (H : PageHashes) (l r : Bytes) : Bytes :=
  H.sha256 (utf8 "tet-node-v1".toList ++ l ++ r)

/-- `anonEmptyHashes()[d]`. -/
def anonEmptyHash (H : PageHashes) : Nat → Bytes
  | 0 => H.sha256 (utf8 "tet-anon-empty-v1".toList)
  | d + 1 => anonParent H (anonEmptyHash H d) (anonEmptyHash H d)

def anonMerkleDepth : Nat := 20

/-- The level above `level`, whose odd last node is paired with `empty`. -/
def anonNextLevel (H : PageHashes) (empty : Bytes) : List Bytes → List Bytes
  | [] => []
  | [l] => [anonParent H l empty]
  | l :: r :: level => anonParent H l r :: anonNextLevel H empty level

/-- The climb of `anonRootAndPath`, with `n` levels to go from depth `d`. -/
def anonClimb (H : PageHashes) : Nat → Nat → List Bytes → Nat → List Bytes → List Bytes × List Bytes
  | 0, _, level, _, siblings => (level, siblings)
  | n + 1, d, level, i, siblings =>
    anonClimb H n (d + 1) (anonNextLevel H (anonEmptyHash H d) level) (i / 2)
      (siblings ++ [level.getD (i ^^^ 1) (anonEmptyHash H d)])

/-- `anonRootAndPath`: the path only for an index of the list. -/
def anonRootAndPath (H : PageHashes) (leaves : List Bytes) (index : Int) :
    Bytes × Option (List Bytes) :=
  let climbed := anonClimb H anonMerkleDepth 0 leaves index.toNat []
  (climbed.1.headD (anonEmptyHash H anonMerkleDepth),
    if 0 ≤ index ∧ index < leaves.length then some climbed.2 else none)

/-- `tmailBucketIndex`. -/
def tmailBucketIndex (sentAtMs : Int) : Int := sentAtMs / 86400000

/-- `tmailEphemeralSeed`; `setBigUint64` keeps the low 64 bits. -/
def tmailEphemeralSeed (H : PageHashes) (anchor32 receiver32 : Bytes) (bucket : Int) : Bytes :=
  H.hkdf anchor32
    (utf8 "tet-ephemeral-v1".toList ++ receiver32 ++ leBytes 8 (bucket % 2 ^ 64).toNat)

/-- The root does not depend on whose path is asked for. -/
theorem anonClimb_fst (H : PageHashes) : ∀ (n d : Nat) (level : List Bytes) (i j : Nat)
    (siblings siblings' : List Bytes),
    (anonClimb H n d level i siblings).1 = (anonClimb H n d level j siblings').1 := by
  intro n
  induction n with
  | zero =>
    intro d level i j siblings siblings'
    rfl
  | succ n ih =>
    intro d level i j siblings siblings'
    exact ih (d + 1) _ _ _ _ _

theorem anonRootAndPath_root (H : PageHashes) (leaves : List Bytes) (i j : Int) :
    (anonRootAndPath H leaves i).1 = (anonRootAndPath H leaves j).1 := by
  unfold anonRootAndPath
  simp only
  rw [anonClimb_fst H anonMerkleDepth 0 leaves i.toNat j.toNat [] []]

/-! ## Requests and reports -/

inductive HttpMethod where
  | get
  | put
  | post
  deriving DecidableEq

/-- A request to the node; the body is the value whose JSON text is sent. -/
structure NodeRequest where
  method : HttpMethod
  path : Str
  body : Option JsValue

/-- What `deps.node` resolves to. -/
structure NodeAnswer where
  status : Nat
  json : JsValue
  text : Option Str

/-- `AnonProof`. -/
structure AnonProof where
  receiptB64 : Str
  journalB64 : Str
  imageIdHex : Str
  receiptSha256Hex : Str

/-- `AnonProveParams`. -/
structure AnonProveParams where
  secretHex : Str
  index : Int
  siblingsHex : List Str
  ephemeralHex : Str
  receiverHex : Str
  bucket : Int

/-- `AnonEnvelopeArgs`. -/
structure AnonEnvelopeArgs where
  ephemeralSeed : Bytes
  ephemeralWalletId : Str
  receiverWalletId : Str
  plaintext : Str
  sentAtMs : Int
  proof : Option AnonProof

/-- `AnonPostState`. -/
inductive AnonPostState where
  | loadingSet
  | notInSet (nextEpochAtMs : JsValue)
  | proving (startedAtMs : Int)
  | depositing
  | sending
  | sent (msgId : JsValue) (fast : Bool)
  | failed (reason : Str)

/-- What a send does besides asking the node. -/
inductive PostReport where
  /-- `emit`. -/
  | shows (s : AnonPostState)
  /-- `deps.proofCache?.delete(key)`. -/
  | forgets (key : Str)

/-- Why `deps.prove`, given the budget of the send, has no proof. -/
inductive ProveError where
  | unavailable (message : Str)
  | timeout (message : Str)
  | other (message : Str)

/-- An envelope: an object with a `msg_id`. -/
abbrev AnonEnvelope := List (Str × JsValue)

/-- `deps`, without the node. A cached proof is a promise: what it comes to within the budget. -/
structure PostDeps where
  prove : AnonProveParams → Except ProveError AnonProof
  ephemeralWalletId : Bytes → Except Str Str
  buildEnvelope : AnonEnvelopeArgs → Except Str AnonEnvelope
  now : Int
  proofCache : Str → Option (Except Unit AnonProof)

/-- `memberTree`. -/
structure MemberTree where
  leaves : List Bytes
  rootHex : Str

/-- `input`, without the member secret. -/
structure PostInput where
  receiverWalletId : Str
  plaintext : Str
  memberTree : Option MemberTree
  knownMember : Bool
  allowFast : Bool

/-- A part of the send. -/
abbrev Client (α : Type) := Script NodeRequest (Except Str NodeAnswer) PostReport α

/-- `deps.node`. -/
def node (r : NodeRequest) : Client NodeAnswer := (Script.request r).bind Script.lift

/-- `emit`. -/
def emit (s : AnonPostState) : Client AnonPostState := .say (.shows s) (.done s)

/-- `fail`. -/
def fail (reason : Str) : Client AnonPostState := emit (.failed reason)

/-- `(HTTP <status>)` after a text. -/
def withStatus (text : Str) (status : Nat) : Str :=
  text ++ " (HTTP ".toList ++ Json.decimal status ++ [')']

/-! ## The registry download -/

/-- What `fetchAnonLeaves` returns. -/
structure AnonSet where
  leaves : List Bytes
  rootHex : JsValue
  nextEpochAtMs : JsValue

/-- A value in a template string. -/
def shown (v : JsValue) : Except Str Str :=
  match v.toText with
  | some text => .ok text
  | none => .error "Cannot convert object to primitive value".toList

/-- What `for … of` goes through. -/
def iterate : JsValue → Except Str (List JsValue)
  | .arr items => .ok items
  | .str s => .ok (s.map fun c => .str [c])
  | _ => .error "not iterable".toList

/-- `first.json.leaves.map(fromHex)`. -/
def firstLeaves (J : JsRuntime) (v : JsValue) : Except Str (List Bytes) :=
  match v with
  | .arr items => items.mapM (fromHexValue J)
  | _ => .error "map is not a function".toList

/-- The leaves of a later page. -/
def pageLeaves (J : JsRuntime) (json : JsValue) : Except Str (List Bytes) := do
  let leaves ← json.member "leaves".toList
  let items ← iterate leaves
  items.mapM (fromHexValue J)

def leavesRequest : NodeRequest := ⟨.get, "/tmail/anon/leaves".toList, none⟩

/-- The later pages, of which `left` may still be fetched. -/
def fetchPages (J : JsRuntime) (epoch : JsValue) : Nat → JsValue → List Bytes → Client (List Bytes)
  | left, next, leaves =>
    if next.isNullish then .done leaves
    else
      match left with
      | 0 => .throw "registry larger than the client will download".toList
      | left + 1 => do
        let epochText ← Script.lift (shown epoch)
        let nextText ← Script.lift (shown next)
        let page ← node ⟨.get, "/tmail/anon/leaves?epoch=".toList ++ epochText ++
          "&offset=".toList ++ nextText, none⟩
        if page.status ≠ 200 ∨ (page.json.get "epoch".toList).same epoch = false then
          .throw (withStatus "registry page failed".toList page.status)
        else do
          let more ← Script.lift (pageLeaves J page.json)
          fetchPages J epoch left (page.json.get "next_offset".toList) (leaves ++ more)

/-- `fetchAnonLeaves`: at most 64 pages. -/
def fetchAnonLeaves (J : JsRuntime) : Client AnonSet := do
  let first ← node leavesRequest
  if first.status ≠ 200 ∨ (first.json.get "ok".toList).truthy = false then
    .throw (withStatus "registry download failed".toList first.status)
  else do
    let leaves ← Script.lift (firstLeaves J (first.json.get "leaves".toList))
    let leaves ← fetchPages J (first.json.get "epoch".toList) 63
      (first.json.get "next_offset".toList) leaves
    if (JsValue.ofNat leaves.length).same (first.json.get "total".toList) = false then
      .throw "registry download incomplete".toList
    else .done ⟨leaves, first.json.get "merkle_root".toList,
      first.json.get "next_epoch_at_ms".toList⟩

/-! ## One send -/

/-- `plainNodeError`. -/
def plainNodeError (J : JsRuntime) (text : Option Str) : Str :=
  let s := text.getD []
  match J.parse s with
  | none => s
  | some j =>
    match j.get "error".toList with
    | .str e => if (jsTrim e).isEmpty then s else jsTrim e
    | _ => s

/-- `/^[0-9a-f]{64}$/`. -/
def isLowerHex64 (s : Str) : Bool := s.length == 64 && s.all isLowerHexdigit

/-- What a send has computed before it asks anything. -/
structure Posting where
  receiver : Str
  ephemeral : Str
  ephemeralSeed : Bytes
  sentAtMs : Int
  bucket : Int

/-- The key of the proof cache. -/
def Posting.key (P : Posting) : Str := P.receiver ++ ':' :: (toString P.bucket).toList

def fastRequest (receiver ephemeral : Str) : NodeRequest :=
  ⟨.get, "/tmail/anon/fast/".toList ++ receiver ++ '/' :: ephemeral, none⟩

def receiptRequest (proof : AnonProof) : NodeRequest :=
  ⟨.put, "/tmail/anon/receipt".toList, some (.obj
    [("receipt_sha256_hex".toList, .str proof.receiptSha256Hex),
      ("receipt_b64".toList, .str proof.receiptB64)])⟩

def sendRequest (env : AnonEnvelope) : NodeRequest := ⟨.post, "/tmail/send".toList, some (.obj env)⟩

/-- Whether a text holds a part. -/
def holds (text part : Str) : Bool := text.tails.any part.isPrefixOf

/-- A 2xx status. -/
def isAccepted (status : Nat) : Prop := 200 ≤ status ∧ status < 300

instance (status : Nat) : Decidable (isAccepted status) := inferInstanceAs (Decidable (_ ∧ _))

/-- `sent.json?.msg_id ?? env.msg_id`. -/
def messageId (json : JsValue) (env : AnonEnvelope) : JsValue :=
  if (json.get "msg_id".toList).isNullish then (JsValue.obj env).get "msg_id".toList
  else json.get "msg_id".toList

section Send

variable (H : PageHashes) (J : JsRuntime) (D : PostDeps) (I : PostInput) (P : Posting)

/-- The arguments of the envelope builder. -/
def envelopeArgs (proof : Option AnonProof) : AnonEnvelopeArgs :=
  ⟨P.ephemeralSeed, P.ephemeral, P.receiver, I.plaintext, P.sentAtMs, proof⟩

/-- The send of a key the node has registered: the flood guard's refusal is tried again once. -/
def sendFast : Client AnonPostState := do
  let _ ← emit .sending
  let env ← Script.lift (D.buildEnvelope (envelopeArgs I P none))
  let sent ← node (sendRequest env)
  let sent ← if sent.status = 429 ∧ holds (sent.text.getD []) "try again in a moment".toList = true
    then node (sendRequest env) else .done sent
  if isAccepted sent.status then emit (.sent (messageId sent.json env) true)
  else if (sent.text.getD []).isEmpty then fail (withStatus "send failed".toList sent.status)
  else fail (sent.text.getD [])

/-- `depositAndSend`. -/
def depositAndSend (proof : AnonProof) : Client AnonPostState := do
  let _ ← emit .depositing
  let put ← node (receiptRequest proof)
  if put.status ≠ 200 then fail (withStatus "receipt deposit failed".toList put.status)
  else do
    let _ ← emit .sending
    let env ← Script.lift (D.buildEnvelope (envelopeArgs I P (some proof)))
    let sent ← node (sendRequest env)
    if isAccepted sent.status then do
      let _ ← Script.report (.forgets P.key)
      emit (.sent (messageId sent.json env) false)
    else if (plainNodeError J sent.text).isEmpty then
      fail (withStatus "send failed".toList sent.status)
    else fail (plainNodeError J sent.text)

/-- `findIndex` of the leaf with this hex text. -/
def leafIndex (leaves : List Bytes) (mine : Bytes) : Int :=
  match leaves.findIdx? fun l => toHex l == toHex mine with
  | some i => i
  | none => -1

/-- The parameters of the proof. -/
def proveParams (secret : Bytes) (index : Int) (siblings : List Bytes) : AnonProveParams :=
  ⟨toHex secret, index, siblings.map toHex, P.ephemeral, P.receiver, P.bucket⟩

/-- The message of a send whose leaves do not make their root. -/
def rootMismatch : Str :=
  if I.memberTree.isSome then
    "the member list does not reproduce its registered root (it changed: try again)".toList
  else "the downloaded registry does not reproduce this node's root".toList

/-- Prove against a set, then send. -/
def proveIn (secret : Bytes) (set : AnonSet) : Client AnonPostState := do
  let mine ← Script.lift (anonCommitment H secret)
  let index := leafIndex set.leaves mine
  let tree := anonRootAndPath H set.leaves index
  let rootText ← Script.lift (shown set.rootHex)
  if toHex tree.1 ≠ J.toLowerCase rootText then fail (rootMismatch I)
  else
    match tree.2 with
    | none => emit (.notInSet set.nextEpochAtMs)
    | some siblings => do
      let _ ← emit (.proving P.sentAtMs)
      match D.prove (proveParams P secret index siblings) with
      | .ok proof => depositAndSend J D I P proof
      | .error (.unavailable message) => fail message
      | .error (.timeout message) => fail message
      | .error (.other message) => fail ("prover: ".toList ++ message)

/-- The set of a send: the member tree, or the downloaded registry. -/
def loadSet : Client AnonSet :=
  match I.memberTree with
  | some tree => .done ⟨tree.leaves, .str tree.rootHex, .ofNat 0⟩
  | none => fetchAnonLeaves J

/-- The send with a proof made for it. -/
def sendFresh (secret : Bytes) : Client AnonPostState := do
  let _ ← emit .loadingSet
  let set ← loadSet J I
  proveIn H J D I P secret set

/-- The cached proof; a member tree takes none. -/
def cachedProof : Option (Except Unit AnonProof) :=
  if I.memberTree.isSome then none else D.proofCache P.key

/-- The send with a proof. -/
def sendProved (secret : Bytes) : Client AnonPostState :=
  match cachedProof D I P with
  | none => sendFresh H J D I P secret
  | some (.ok proof) => do
    let _ ← emit (.proving P.sentAtMs)
    depositAndSend J D I P proof
  | some (.error _) => do
    let _ ← emit (.proving P.sentAtMs)
    let _ ← Script.report (.forgets P.key)
    sendFresh H J D I P secret

/-- Whether the node is asked about the posting key. -/
def asksFast : Bool := (I.memberTree.isNone || I.allowFast) && I.knownMember

/-- The send, once the posting key is derived. -/
def sendFrom (secret : Bytes) : Client AnonPostState :=
  if asksFast I then do
    let q ← node (fastRequest P.receiver P.ephemeral)
    if q.status = 200 ∧ (q.json.get "registered".toList).same (.bool true) = true then
      sendFast D I P
    else sendProved H J D I P secret
  else sendProved H J D I P secret

/-- The posting key of a member for a board and a day. -/
def posting (secret : Bytes) (receiver : Str) : Except Str Posting := do
  let receiver32 ← fromHex J receiver
  let seed := tmailEphemeralSeed H secret receiver32 (tmailBucketIndex D.now)
  let id ← D.ephemeralWalletId seed
  return ⟨receiver, J.toLowerCase (jsTrim id), seed, D.now, tmailBucketIndex D.now⟩

/-- `runAnonPost` of the member with this secret. -/
def runAnonPost (secret : Bytes) : Client AnonPostState :=
  Script.catching
    (if isLowerHex64 (J.toLowerCase (jsTrim I.receiverWalletId)) = false then
      fail "recipient wallet id must be 64 hex chars".toList
    else do
      let P ← Script.lift (posting H J D secret (J.toLowerCase (jsTrim I.receiverWalletId)))
      sendFrom H J D I P secret)
    fail

/-- What `prewarmAnonProof` returns. -/
inductive PrewarmResult where
  | registered
  | cached
  | started
  | notInSet

/-- `prewarmAnonProof` of the member with this secret: the proof is started, not awaited. -/
def prewarmAnonProof (registeredToday : Bool) (secret : Bytes) : Client PrewarmResult :=
  let receiver := J.toLowerCase (jsTrim I.receiverWalletId)
  if (D.proofCache (receiver ++ ':' :: (toString (tmailBucketIndex D.now)).toList)).isSome then
    .done .cached
  else if registeredToday then .done .registered
  else do
    let _ ← Script.lift (posting H J D secret receiver)
    let set ← fetchAnonLeaves J
    let mine ← Script.lift (anonCommitment H secret)
    let tree := anonRootAndPath H set.leaves (leafIndex set.leaves mine)
    if tree.2.isNone then .done .notInSet
    else do
      let rootText ← Script.lift (shown set.rootHex)
      if toHex tree.1 ≠ J.toLowerCase rootText then .done .notInSet else .done .started

end Send

/-! ## Two members -/

/-- What a member's requests may show of its own: the posting key's id, the proofs its prover makes and
the envelopes its builder makes for that key. -/
structure Released where
  ephemeral : Str
  proof : AnonProof → Prop
  envelope : AnonEnvelope → Prop

/-- What a member releases of a posting: the proofs and the envelopes are made for its key, the
envelopes of nothing else that is the member's. -/
def released (D : PostDeps) (I : PostInput) (P : Posting) : Released where
  ephemeral := P.ephemeral
  proof proof := ∃ params, params.ephemeralHex = P.ephemeral ∧ D.prove params = .ok proof
  envelope env := ∃ proof, D.buildEnvelope (envelopeArgs I P proof) = .ok env

/-- Two requests that are the same but for what each member releases. -/
inductive Alike (a b : Released) : NodeRequest → NodeRequest → Prop
  | same (r : NodeRequest) : Alike a b r r
  | fast (receiver : Str) :
      Alike a b (fastRequest receiver a.ephemeral) (fastRequest receiver b.ephemeral)
  | receipt {p q : AnonProof} (hp : a.proof p) (hq : b.proof q) :
      Alike a b (receiptRequest p) (receiptRequest q)
  | send {d e : AnonEnvelope} (hd : a.envelope d) (he : b.envelope e) :
      Alike a b (sendRequest d) (sendRequest e)

/-- Two members' helpers: one clock, one cache state, and each helper succeeds for one member exactly
when it does for the other. -/
structure SucceedAlike (D D' : PostDeps) : Prop where
  now : D.now = D'.now
  cache : D.proofCache = D'.proofCache
  wallet : ∀ seed seed', (D.ephemeralWalletId seed).isOk = (D'.ephemeralWalletId seed').isOk
  prove : ∀ params params', params.receiverHex = params'.receiverHex →
    params.bucket = params'.bucket → (D.prove params).isOk = (D'.prove params').isOk
  envelope : ∀ args args', args.receiverWalletId = args'.receiverWalletId →
    args.plaintext = args'.plaintext → args.sentAtMs = args'.sentAtMs →
    args.proof.isSome = args'.proof.isSome →
      (D.buildEnvelope args).isOk = (D'.buildEnvelope args').isOk

/-- The member's commitment is in the list the send goes by: the member tree, or the registry as these
answers serve it. -/
def Listed (H : PageHashes) (J : JsRuntime) (I : PostInput) (answers : Nat → Except Str NodeAnswer)
    (secret : Bytes) : Prop :=
  ∀ set, ((loadSet J I).run answers (if asksFast I then 1 else 0)).2 = .ok set →
    ∃ c ∈ set.leaves, anonCommitment H secret = .ok c

/-- Two postings of one board and time. -/
structure SamePost (P P' : Posting) : Prop where
  receiver : P.receiver = P'.receiver
  sentAtMs : P.sentAtMs = P'.sentAtMs
  bucket : P.bucket = P'.bucket

theorem leafIndex_of_mem {leaves : List Bytes} {c : Bytes} (h : c ∈ leaves) :
    0 ≤ leafIndex leaves c ∧ leafIndex leaves c < leaves.length := by
  unfold leafIndex
  cases hfind : leaves.findIdx? fun l => toHex l == toHex c with
  | none =>
    rw [List.findIdx?_eq_none_iff] at hfind
    have hc := hfind c h
    rw [beq_self_eq_true] at hc
    cases hc
  | some i =>
    obtain ⟨hi, -⟩ := List.findIdx?_eq_some_iff_getElem.mp hfind
    exact ⟨Int.natCast_nonneg i, Int.ofNat_lt.mpr hi⟩

theorem anonRootAndPath_path (H : PageHashes) {leaves : List Bytes} {c : Bytes} (h : c ∈ leaves) :
    ∃ siblings, (anonRootAndPath H leaves (leafIndex leaves c)).2 = some siblings :=
  ⟨_, if_pos (leafIndex_of_mem h)⟩

section Lockstep

variable {H : PageHashes} {J : JsRuntime} {D D' : PostDeps} {I : PostInput} {P P' : Posting}
variable {answers : Nat → Except Str NodeAnswer} {n : Nat}

/-- The two sends of the two members, from the `n`-th request on. -/
abbrev Together (answers : Nat → Except Str NodeAnswer) (a b : Released) (n : Nat)
    (t t' : Client AnonPostState) : Prop :=
  Script.Lockstep answers (Alike a b) (fun _ _ => True) n t t'

variable {a b : Released}

theorem Together.emit (s s' : AnonPostState) : Together answers a b n (emit s) (emit s') :=
  .say _ _ (.done trivial)

theorem Together.emit_bind {s s' : AnonPostState} {f f' : AnonPostState → Client AnonPostState}
    (h : Together answers a b n (f s) (f' s')) :
    Together answers a b n (Page.emit s >>= f) (Page.emit s' >>= f') :=
  .say _ _ h

theorem Together.node_bind {r r' : NodeRequest} {f f' : NodeAnswer → Client AnonPostState}
    (hr : Alike a b r r') (hf : ∀ q, Together answers a b (n + 1) (f q) (f' q)) :
    Together answers a b n (node r >>= f) (node r' >>= f') := by
  refine .ask hr ?_
  show Together answers a b (n + 1) ((Script.lift (answers n)).bind f)
    ((Script.lift (answers n)).bind f')
  cases answers n with
  | error e => exact .throw _ e e
  | ok q => exact hf q

theorem sendFast_together (hD : SucceedAlike D D') (hP : SamePost P P') :
    Together answers (released D I P) (released D' I P') n (sendFast D I P) (sendFast D' I P') := by
  unfold sendFast
  refine Together.emit_bind ?_
  refine Script.Lockstep.lift_bind ?_ ?_
  · exact hD.envelope _ _ hP.receiver rfl hP.sentAtMs rfl
  intro d e hd he
  have hsend : Alike (released D I P) (released D' I P') (sendRequest d) (sendRequest e) :=
    .send ⟨_, hd⟩ ⟨_, he⟩
  refine Together.node_bind hsend ?_
  intro sent
  have hend : ∀ (m : Nat) (q : NodeAnswer), Together answers (released D I P) (released D' I P') m
      (if isAccepted q.status then emit (.sent (messageId q.json d) true)
        else if (q.text.getD []).isEmpty then fail (withStatus "send failed".toList q.status)
        else fail (q.text.getD []))
      (if isAccepted q.status then emit (.sent (messageId q.json e) true)
        else if (q.text.getD []).isEmpty then fail (withStatus "send failed".toList q.status)
        else fail (q.text.getD [])) := by
    intro m q
    split
    · exact Together.emit _ _
    · split <;> exact Together.emit _ _
  split
  · refine Together.node_bind hsend ?_
    intro q
    exact hend _ q
  · exact hend _ sent

theorem depositAndSend_together (hD : SucceedAlike D D') (hP : SamePost P P') {p q : AnonProof}
    (hproof : p = q ∨ (released D I P).proof p ∧ (released D' I P').proof q) :
    Together answers (released D I P) (released D' I P') n (depositAndSend J D I P p)
      (depositAndSend J D' I P' q) := by
  have hreceipt : Alike (released D I P) (released D' I P') (receiptRequest p) (receiptRequest q) := by
    rcases hproof with rfl | ⟨hp, hq⟩
    · exact .same _
    · exact .receipt hp hq
  unfold depositAndSend
  refine Together.emit_bind ?_
  refine Together.node_bind hreceipt ?_
  intro put
  split
  · exact Together.emit _ _
  refine Together.emit_bind ?_
  refine Script.Lockstep.lift_bind ?_ ?_
  · exact hD.envelope _ _ hP.receiver rfl hP.sentAtMs rfl
  intro d e hd he
  refine Together.node_bind (.send ⟨_, hd⟩ ⟨_, he⟩) ?_
  intro sent
  split
  · exact .say _ _ (Together.emit _ _)
  · split <;> exact Together.emit _ _

theorem proveIn_together (hD : SucceedAlike D D') (hP : SamePost P P') {secret secret' : Bytes}
    {set : AnonSet} (hs : ∃ c ∈ set.leaves, anonCommitment H secret = .ok c)
    (hs' : ∃ c ∈ set.leaves, anonCommitment H secret' = .ok c) :
    Together answers (released D I P) (released D' I P') n (proveIn H J D I P secret set)
      (proveIn H J D' I P' secret' set) := by
  obtain ⟨c, hc, hcommit⟩ := hs
  obtain ⟨c', hc', hcommit'⟩ := hs'
  obtain ⟨path, hpath⟩ := anonRootAndPath_path H hc
  obtain ⟨path', hpath'⟩ := anonRootAndPath_path H hc'
  have hroot := anonRootAndPath_root H set.leaves (leafIndex set.leaves c)
    (leafIndex set.leaves c')
  unfold proveIn
  rw [hcommit, hcommit']
  show Together answers _ _ n (Script.bind _ _) (Script.bind _ _)
  simp only [Script.lift, Script.bind]
  refine Script.Lockstep.lift_bind rfl ?_
  intro rootText rootText' htext htext'
  rw [htext] at htext'
  obtain rfl := Except.ok.inj htext'
  rw [hroot, hpath, hpath']
  split
  · exact Together.emit _ _
  refine Together.emit_bind ?_
  have hok := hD.prove (proveParams P secret (leafIndex set.leaves c) path)
    (proveParams P' secret' (leafIndex set.leaves c') path') hP.receiver hP.bucket
  cases hp : D.prove (proveParams P secret (leafIndex set.leaves c) path) with
  | ok p =>
    cases hq : D'.prove (proveParams P' secret' (leafIndex set.leaves c') path') with
    | ok q => exact depositAndSend_together hD hP (Or.inr ⟨⟨_, rfl, hp⟩, _, rfl, hq⟩)
    | error e =>
      rw [hp, hq] at hok
      cases hok
  | error e =>
    cases hq : D'.prove (proveParams P' secret' (leafIndex set.leaves c') path') with
    | ok q =>
      rw [hp, hq] at hok
      cases hok
    | error e' =>
      cases e <;> cases e' <;> exact Together.emit _ _

/-- The commitment is in every set the send can go by from the `n`-th request on. -/
def ListedAt (H : PageHashes) (J : JsRuntime) (I : PostInput)
    (answers : Nat → Except Str NodeAnswer) (n : Nat) (secret : Bytes) : Prop :=
  ∀ set, ((loadSet J I).run answers n).2 = .ok set →
    ∃ c ∈ set.leaves, anonCommitment H secret = .ok c

theorem sendFresh_together (hD : SucceedAlike D D') (hP : SamePost P P') {secret secret' : Bytes}
    (hs : ListedAt H J I answers n secret) (hs' : ListedAt H J I answers n secret') :
    Together answers (released D I P) (released D' I P') n (sendFresh H J D I P secret)
      (sendFresh H J D' I P' secret') := by
  unfold sendFresh
  refine Together.emit_bind ?_
  refine Script.Lockstep.bind_same .same ?_
  intro m set hset
  exact proveIn_together hD hP (hs set hset) (hs' set hset)

theorem sendProved_together (hD : SucceedAlike D D') (hP : SamePost P P') {secret secret' : Bytes}
    (hs : ListedAt H J I answers n secret) (hs' : ListedAt H J I answers n secret') :
    Together answers (released D I P) (released D' I P') n (sendProved H J D I P secret)
      (sendProved H J D' I P' secret') := by
  have hkey : P.key = P'.key := by
    unfold Posting.key
    rw [hP.receiver, hP.bucket]
  have hcached : cachedProof D' I P' = cachedProof D I P := by
    unfold cachedProof
    rw [hD.cache, hkey]
  unfold sendProved
  rw [hcached]
  rcases cachedProof D I P with _ | e | proof
  · exact sendFresh_together hD hP hs hs'
  · refine Together.emit_bind ?_
    exact .say _ _ (sendFresh_together hD hP hs hs')
  · refine Together.emit_bind ?_
    exact depositAndSend_together hD hP (Or.inl rfl)

theorem sendFrom_together (hD : SucceedAlike D D') (hP : SamePost P P') {secret secret' : Bytes}
    (hs : Listed H J I answers secret) (hs' : Listed H J I answers secret') :
    Together answers (released D I P) (released D' I P') 0 (sendFrom H J D I P secret)
      (sendFrom H J D' I P' secret') := by
  have hfast : Alike (released D I P) (released D' I P') (fastRequest P.receiver P.ephemeral)
      (fastRequest P'.receiver P'.ephemeral) := by
    rw [hP.receiver]
    exact .fast P'.receiver
  unfold sendFrom
  unfold Listed at hs hs'
  split
  · rename_i hask
    rw [if_pos hask] at hs hs'
    refine Together.node_bind hfast ?_
    intro q
    split
    · exact sendFast_together hD hP
    · exact sendProved_together hD hP hs hs'
  · rename_i hask
    rw [if_neg hask] at hs hs'
    exact sendProved_together hD hP hs hs'

/-- What the member with this secret releases. -/
def releasedBy (H : PageHashes) (J : JsRuntime) (D : PostDeps) (I : PostInput) (secret : Bytes) :
    Released :=
  match posting H J D secret (J.toLowerCase (jsTrim I.receiverWalletId)) with
  | .ok P => released D I P
  | .error _ => ⟨[], fun _ => False, fun _ => False⟩

/-- A posting is of its receiver and of the clock, whoever's it is. -/
theorem posting_ok {secret : Bytes} {receiver : Str} (h : posting H J D secret receiver = .ok P) :
    P.receiver = receiver ∧ P.sentAtMs = D.now ∧ P.bucket = tmailBucketIndex D.now := by
  unfold posting at h
  cases hhex : fromHex J receiver with
  | error e =>
    rw [hhex] at h
    cases h
  | ok receiver32 =>
    rw [hhex] at h
    simp only [Bind.bind, Except.bind] at h
    split at h
    · cases h
    · cases h
      exact ⟨rfl, rfl, rfl⟩

theorem posting_isOk (hD : SucceedAlike D D') (secret secret' : Bytes) (receiver : Str) :
    (posting H J D secret receiver).isOk = (posting H J D' secret' receiver).isOk := by
  unfold posting
  cases hhex : fromHex J receiver with
  | error e => rfl
  | ok receiver32 =>
    have hok := hD.wallet (tmailEphemeralSeed H secret receiver32 (tmailBucketIndex D.now))
      (tmailEphemeralSeed H secret' receiver32 (tmailBucketIndex D'.now))
    simp only [Bind.bind, Except.bind]
    cases hw : D.ephemeralWalletId
        (tmailEphemeralSeed H secret receiver32 (tmailBucketIndex D.now)) with
    | error e =>
      cases hw' : D'.ephemeralWalletId
          (tmailEphemeralSeed H secret' receiver32 (tmailBucketIndex D'.now)) with
      | error e' => rfl
      | ok w' =>
        rw [hw, hw'] at hok
        cases hok
    | ok w =>
      cases hw' : D'.ephemeralWalletId
          (tmailEphemeralSeed H secret' receiver32 (tmailBucketIndex D'.now)) with
      | error e' =>
        rw [hw, hw'] at hok
        cases hok
      | ok w' => rfl

theorem runAnonPost_together (hD : SucceedAlike D D') {secret secret' : Bytes}
    (hs : Listed H J I answers secret) (hs' : Listed H J I answers secret') :
    Together answers (releasedBy H J D I secret) (releasedBy H J D' I secret') 0
      (runAnonPost H J D I secret) (runAnonPost H J D' I secret') := by
  unfold runAnonPost
  refine Script.Lockstep.catching ?_ ?_
  · split
    · exact Together.emit _ _
    refine Script.Lockstep.lift_bind (posting_isOk hD secret secret' _) ?_
    intro P P' hP hP'
    obtain ⟨hreceiver, hsent, hbucket⟩ := posting_ok hP
    obtain ⟨hreceiver', hsent', hbucket'⟩ := posting_ok hP'
    unfold releasedBy
    rw [hP, hP']
    refine sendFrom_together hD ⟨?_, ?_, ?_⟩ hs hs'
    · rw [hreceiver, hreceiver']
    · rw [hsent, hsent', hD.now]
    · rw [hbucket, hbucket', hD.now]
  · intro m e e'
    exact Together.emit _ _

/-- Warming up asks for nothing but the registry, whoever of the list does it. -/
theorem prewarm_requests (hD : SucceedAlike D D') (registeredToday : Bool)
    {secret secret' : Bytes}
    (hs : ∀ set, ((fetchAnonLeaves J).run answers 0).2 = .ok set →
      (∃ c ∈ set.leaves, anonCommitment H secret = .ok c) ∧
      ∃ c ∈ set.leaves, anonCommitment H secret' = .ok c) :
    List.Forall₂ Eq
      (Script.requests ((prewarmAnonProof H J D I registeredToday secret).run answers 0).1)
      (Script.requests ((prewarmAnonProof H J D' I registeredToday secret').run answers 0).1) := by
  have htogether : Script.Lockstep answers Eq (fun _ _ => True) 0
      (prewarmAnonProof H J D I registeredToday secret)
      (prewarmAnonProof H J D' I registeredToday secret') := by
    unfold prewarmAnonProof
    simp only
    rw [← hD.cache, ← hD.now]
    split
    · exact .done trivial
    split
    · exact .done trivial
    refine Script.Lockstep.lift_bind (posting_isOk hD secret secret' _) ?_
    intro P P' _ _
    refine Script.Lockstep.bind_same (fun _ => rfl) ?_
    intro m set hset
    obtain ⟨⟨c, hc, hcommit⟩, c', hc', hcommit'⟩ := hs set hset
    obtain ⟨path, hpath⟩ := anonRootAndPath_path H hc
    obtain ⟨path', hpath'⟩ := anonRootAndPath_path H hc'
    have hroot := anonRootAndPath_root H set.leaves (leafIndex set.leaves c)
      (leafIndex set.leaves c')
    rw [hcommit, hcommit']
    refine Script.Lockstep.lift_bind rfl ?_
    intro d d' hd hd'
    obtain rfl := Except.ok.inj hd
    obtain rfl := Except.ok.inj hd'
    rw [hpath, hpath', hroot]
    refine Script.Lockstep.lift_bind rfl ?_
    intro rootText rootText' htext htext'
    split
    · split <;> exact .done trivial
    · split <;> exact .done trivial
  exact htogether.requests

end Lockstep

/-! ## A reported send -/

/-- A 2xx answer to `/tmail/send`. -/
def AcceptedSend (r : NodeRequest) (a : Except Str NodeAnswer) : Prop :=
  r.path = "/tmail/send".toList ∧ ∃ q, a = .ok q ∧ isAccepted q.status

/-- The report of a send. -/
def ReportsSent (r : PostReport) : Prop := ∃ id fast, r = .shows (.sent id fast)

section Earns

variable {H : PageHashes} {J : JsRuntime} {D : PostDeps} {I : PostInput} {P : Posting}
variable {α β : Type} {earned : Prop}

/-- The part makes the report only when it is earned. -/
abbrev Earned (t : Client α) (earned : Prop) (post : α → Prop → Prop) : Prop :=
  Script.Earns AcceptedSend ReportsSent t earned post

/-- The part makes the report only when it is earned, with nothing said of where it ends. -/
abbrev EarnedSend (t : Client α) (earned : Prop) : Prop := Earned t earned fun _ _ => True

theorem EarnedSend.done (a : α) : EarnedSend (.done a) earned := True.intro

theorem EarnedSend.throw (e : Str) : EarnedSend (.throw e : Client α) earned := True.intro

theorem EarnedSend.emit {s : AnonPostState} (h : ∀ id fast, s ≠ .sent id fast) :
    EarnedSend (emit s) earned := by
  refine ⟨?_, trivial⟩
  rintro ⟨id, fast, heq⟩
  exact absurd (PostReport.shows.inj heq) (h id fast)

theorem EarnedSend.fail (reason : Str) : EarnedSend (fail reason) earned :=
  EarnedSend.emit fun _ _ h => by cases h

theorem EarnedSend.emit_bind {s : AnonPostState} {f : AnonPostState → Client β}
    (h : ∀ id fast, s ≠ .sent id fast) (hf : EarnedSend (f s) earned) :
    EarnedSend (Page.emit s >>= f) earned :=
  ⟨(EarnedSend.emit h).1, hf⟩

theorem EarnedSend.lift_bind {x : Except Str α} {f : α → Client β}
    (hf : ∀ a, EarnedSend (f a) earned) : EarnedSend (Script.lift x >>= f) earned := by
  cases x with
  | error e => exact EarnedSend.throw e
  | ok a => exact hf a

theorem EarnedSend.node_bind {r : NodeRequest} {f : NodeAnswer → Client β}
    (hf : ∀ q, EarnedSend (f q) (earned ∨ AcceptedSend r (.ok q))) :
    EarnedSend (node r >>= f) earned := by
  intro a
  show EarnedSend ((Script.lift a).bind f) (earned ∨ AcceptedSend r a)
  cases a with
  | error e => exact EarnedSend.throw e
  | ok q => exact hf q

/-- A part that reports nothing, before one that is right however it is reached. -/
theorem EarnedSend.bind {t : Client α} {f : α → Client β} (ht : EarnedSend t earned)
    (hf : ∀ a e, EarnedSend (f a) e) : EarnedSend (t >>= f) earned := by
  refine Script.earns_bind.mpr (ht.mono ?_)
  intro a e _
  exact hf a e

theorem sendFast_earned : EarnedSend (sendFast D I P) earned := by
  unfold sendFast
  refine EarnedSend.emit_bind (by rintro id fast ⟨⟩) ?_
  refine EarnedSend.lift_bind ?_
  intro env
  refine EarnedSend.node_bind ?_
  intro sent
  have hend : ∀ (e : Prop) (q : NodeAnswer), (isAccepted q.status → e) →
      EarnedSend (if isAccepted q.status then Page.emit (.sent (messageId q.json env) true)
        else if (q.text.getD []).isEmpty then Page.fail (withStatus "send failed".toList q.status)
        else Page.fail (q.text.getD [])) e := by
    intro e q he
    split
    · rename_i haccepted
      exact ⟨fun _ => he haccepted, trivial⟩
    · split <;> exact EarnedSend.fail _
  split
  · refine EarnedSend.node_bind ?_
    intro q
    exact hend _ q fun haccepted => Or.inr ⟨rfl, q, rfl, haccepted⟩
  · exact hend _ sent fun haccepted => Or.inr ⟨rfl, sent, rfl, haccepted⟩

theorem depositAndSend_earned (proof : AnonProof) :
    EarnedSend (depositAndSend J D I P proof) earned := by
  unfold depositAndSend
  refine EarnedSend.emit_bind (by rintro id fast ⟨⟩) ?_
  refine EarnedSend.node_bind ?_
  intro put
  split
  · exact EarnedSend.fail _
  refine EarnedSend.emit_bind (by rintro id fast ⟨⟩) ?_
  refine EarnedSend.lift_bind ?_
  intro env
  refine EarnedSend.node_bind ?_
  intro sent
  split
  · rename_i haccepted
    refine ⟨?_, ?_⟩
    · rintro ⟨id, fast, ⟨⟩⟩
    · exact ⟨fun _ => Or.inr ⟨rfl, sent, rfl, haccepted⟩, trivial⟩
  · split <;> exact EarnedSend.fail _

theorem fetchPages_earned (epoch : JsValue) : ∀ (left : Nat) (next : JsValue)
    (leaves : List Bytes) (earned : Prop), EarnedSend (fetchPages J epoch left next leaves) earned := by
  intro left
  induction left with
  | zero =>
    intro next leaves earned
    unfold fetchPages
    split
    · exact EarnedSend.done leaves
    · exact EarnedSend.throw _
  | succ left ih =>
    intro next leaves earned
    unfold fetchPages
    split
    · exact EarnedSend.done leaves
    refine EarnedSend.lift_bind fun epochText => ?_
    refine EarnedSend.lift_bind fun nextText => ?_
    refine EarnedSend.node_bind fun page => ?_
    split
    · exact EarnedSend.throw _
    refine EarnedSend.lift_bind fun more => ?_
    exact ih _ _ _

theorem loadSet_earned : EarnedSend (loadSet J I) earned := by
  unfold loadSet
  split
  · exact EarnedSend.done _
  unfold fetchAnonLeaves
  refine EarnedSend.node_bind fun first => ?_
  split
  · exact EarnedSend.throw _
  refine EarnedSend.lift_bind fun leaves => ?_
  refine EarnedSend.bind (fetchPages_earned _ _ _ _ _) ?_
  intro leaves e
  split
  · exact EarnedSend.throw _
  · exact EarnedSend.done _

theorem proveIn_earned (secret : Bytes) (set : AnonSet) :
    EarnedSend (proveIn H J D I P secret set) earned := by
  unfold proveIn
  refine EarnedSend.lift_bind fun mine => ?_
  refine EarnedSend.lift_bind fun rootText => ?_
  generalize anonRootAndPath H set.leaves (leafIndex set.leaves mine) = tree
  split
  · exact EarnedSend.fail _
  split
  · exact EarnedSend.emit (by rintro id fast ⟨⟩)
  refine EarnedSend.emit_bind (by rintro id fast ⟨⟩) ?_
  split
  · exact depositAndSend_earned _
  · exact EarnedSend.fail _
  · exact EarnedSend.fail _
  · exact EarnedSend.fail _

theorem sendFresh_earned (secret : Bytes) : EarnedSend (sendFresh H J D I P secret) earned := by
  unfold sendFresh
  refine EarnedSend.emit_bind (by rintro id fast ⟨⟩) ?_
  refine EarnedSend.bind loadSet_earned ?_
  intro set e
  exact proveIn_earned secret set

theorem sendProved_earned (secret : Bytes) : EarnedSend (sendProved H J D I P secret) earned := by
  unfold sendProved
  split
  · exact sendFresh_earned secret
  · refine EarnedSend.emit_bind (by rintro id fast ⟨⟩) ?_
    exact depositAndSend_earned _
  · refine EarnedSend.emit_bind (by rintro id fast ⟨⟩) ?_
    refine ⟨?_, sendFresh_earned secret⟩
    rintro ⟨id, fast, ⟨⟩⟩

theorem runAnonPost_earned (secret : Bytes) : EarnedSend (runAnonPost H J D I secret) earned := by
  unfold runAnonPost
  refine Script.Earns.catching ?_ ?_
  · split
    · exact EarnedSend.fail _
    refine EarnedSend.lift_bind fun P => ?_
    unfold sendFrom
    split
    · refine EarnedSend.node_bind fun q => ?_
      split
      · exact sendFast_earned
      · exact sendProved_earned secret
    · exact sendProved_earned secret
  · intro e earned
    exact EarnedSend.fail e

end Earns

theorem listed_of_run {H : PageHashes} {J : JsRuntime} {I : PostInput}
    {answers : Nat → Except Str NodeAnswer} {secret c : Bytes} {leaves : List Bytes}
    (hrun : ((loadSet J I).run answers (if asksFast I then 1 else 0)).2.toOption.map AnonSet.leaves =
      some leaves)
    (hc : c ∈ leaves) (hcommit : anonCommitment H secret = .ok c) :
    Listed H J I answers secret := by
  intro set hset
  rw [hset] at hrun
  obtain rfl := Option.some.inj hrun
  exact ⟨c, hc, hcommit⟩

/-- Two members of the list the send goes by, whose helpers succeed alike, make the same requests
against the same answers, one for one, but for the posting key's id, the proof and the envelope; and a
send is reported only after a 2xx answer to `/tmail/send`. -/
theorem anonPost_requests (H : PageHashes) (J : JsRuntime) (D D' : PostDeps) (I : PostInput)
    (answers : Nat → Except Str NodeAnswer) (secret secret' : Bytes) (hD : SucceedAlike D D')
    (hs : Listed H J I answers secret) (hs' : Listed H J I answers secret') :
    List.Forall₂ (Alike (releasedBy H J D I secret) (releasedBy H J D' I secret'))
      (Script.requests ((runAnonPost H J D I secret).run answers 0).1)
      (Script.requests ((runAnonPost H J D' I secret').run answers 0).1) ∧
    ∀ (before after : List (Event NodeRequest (Except Str NodeAnswer) PostReport)) (id : JsValue)
      (fast : Bool),
      ((runAnonPost H J D I secret).run answers 0).1 =
        before ++ .said (.shows (.sent id fast)) :: after →
      ∃ r a, .asked r a ∈ before ∧ AcceptedSend r a := by
  refine ⟨(runAnonPost_together hD hs hs').requests, ?_⟩
  intro before after id fast hrun
  have hearned : EarnedSend (runAnonPost H J D I secret) False := runAnonPost_earned secret
  have hreports := hearned.reports answers 0 ⟨id, fast, rfl⟩ hrun
  exact hreports.resolve_left False.elim

namespace Sample

/-- Hash functions that tell the sample's inputs apart. -/
def pageHashes : PageHashes := ⟨fun b => [b.foldl (fun acc x => acc * 3 + x) 7], fun key _ => key⟩

/-- The secret of a member, told by one byte. -/
def memberSecret (x : UInt8) : Bytes := List.replicate 32 x

def memberLeaf (x : UInt8) : Bytes :=
  pageHashes.sha256 (utf8 "tet-anon-v1".toList ++ memberSecret x)

/-- A browser whose prover has a proof for every leaf, or `only` for the first. -/
def postDeps (only : Bool) : PostDeps where
  prove params :=
    if only = false ∨ params.index = 0 then
      .ok ⟨"cmVjZWlwdA==".toList, [], [], params.ephemeralHex⟩
    else .error (.timeout "the native prover did not finish within 300 s".toList)
  ephemeralWalletId seed := .ok (toHex seed)
  buildEnvelope args := .ok [("msg_id".toList, .str args.ephemeralWalletId)]
  now := 1700000000000
  proofCache _ := none

def memberRoot : Str :=
  toHex (anonRootAndPath pageHashes [memberLeaf 1, memberLeaf 2] 0).1

/-- A post to a board by one of two members, with or without their tree in hand. -/
def postInput (tree : Bool) : PostInput where
  receiverWalletId := List.replicate 64 'a'
  plaintext := "hello".toList
  memberTree := if tree then some ⟨[memberLeaf 1, memberLeaf 2], memberRoot⟩ else none
  knownMember := false
  allowFast := false

def registryPage (leaf : Bytes) (next : JsValue) : JsValue :=
  .obj [("ok".toList, .bool true), ("epoch".toList, .ofNat 7),
    ("leaves".toList, .arr [.str (toHex leaf)]), ("next_offset".toList, next),
    ("total".toList, .ofNat 2), ("merkle_root".toList, .str memberRoot)]

/-- A node that serves one leaf a page and names the second page by the first leaf. -/
def pagedAnswers : Nat → Except Str NodeAnswer
  | 0 => .ok ⟨200, registryPage (memberLeaf 1) (.str (toHex (memberLeaf 1))), none⟩
  | 1 => .ok ⟨200, registryPage (memberLeaf 2) .null, none⟩
  | _ => .ok ⟨200, .null, none⟩

/-- The requests of a member's post. -/
def postRequests (only tree : Bool) (x : UInt8) : List NodeRequest :=
  Script.requests
    ((runAnonPost pageHashes JsRuntime.ascii (postDeps only) (postInput tree) (memberSecret x)).run
      pagedAnswers 0).1

theorem memberSecret_commitment (x : UInt8) :
    anonCommitment pageHashes (memberSecret x) = .ok (memberLeaf x) := rfl

theorem postInput_listed (tree : Bool) {x : UInt8} (hx : x = 1 ∨ x = 2) :
    Listed pageHashes JsRuntime.ascii (postInput tree) pagedAnswers (memberSecret x) := by
  have hmem : memberLeaf x ∈ [memberLeaf 1, memberLeaf 2] := by
    rcases hx with rfl | rfl
    · exact List.mem_cons_self
    · exact List.mem_cons_of_mem _ List.mem_cons_self
  have hset : ∀ tree : Bool, ((loadSet JsRuntime.ascii (postInput tree)).run pagedAnswers
      (if asksFast (postInput tree) then 1 else 0)).2.toOption.map AnonSet.leaves =
        some [memberLeaf 1, memberLeaf 2] := by
    decide +kernel
  exact listed_of_run (hset tree) hmem (memberSecret_commitment x)

theorem postDeps_succeedAlike : SucceedAlike (postDeps false) (postDeps false) where
  now := rfl
  cache := rfl
  wallet _ _ := rfl
  prove _ _ _ _ := rfl
  envelope _ _ _ _ _ _ := rfl

/-- The two members warm up. -/
theorem prewarm_requests_members : List.Forall₂ Eq
    (Script.requests ((prewarmAnonProof pageHashes .ascii (postDeps false) (postInput false) false
      (memberSecret 1)).run pagedAnswers 0).1)
    (Script.requests ((prewarmAnonProof pageHashes .ascii (postDeps false) (postInput false) false
      (memberSecret 2)).run pagedAnswers 0).1) :=
  prewarm_requests postDeps_succeedAlike false fun set hset =>
    ⟨postInput_listed false (Or.inl rfl) set hset, postInput_listed false (Or.inr rfl) set hset⟩

end Sample

/-- The prover, which is not the node, may have a proof for one member only, and then only that member
deposits and sends; and the node may name a page of the registry by a member's commitment, which the
request for that page then holds, whoever posts. -/
theorem anonPost_differs :
    (Listed Sample.pageHashes JsRuntime.ascii (Sample.postInput true) Sample.pagedAnswers
        (Sample.memberSecret 1) ∧
      Listed Sample.pageHashes JsRuntime.ascii (Sample.postInput true) Sample.pagedAnswers
        (Sample.memberSecret 2) ∧
      (Sample.postRequests true true 1).length ≠ (Sample.postRequests true true 2).length) ∧
    Listed Sample.pageHashes JsRuntime.ascii (Sample.postInput false) Sample.pagedAnswers
        (Sample.memberSecret 1) ∧
      ∃ c, anonCommitment Sample.pageHashes (Sample.memberSecret 1) = .ok c ∧
        (Sample.postRequests false false 1).any (fun r => holds r.path (toHex c)) = true := by
  refine ⟨⟨Sample.postInput_listed true (Or.inl rfl), Sample.postInput_listed true (Or.inr rfl), ?_⟩,
    Sample.postInput_listed false (Or.inl rfl), _, Sample.memberSecret_commitment 1, ?_⟩
  · decide +kernel
  · decide +kernel

/-- Two members of a paged registry, with a prover that works for both. -/
theorem anonPost_requests_members :
    List.Forall₂
      (Alike
        (releasedBy Sample.pageHashes JsRuntime.ascii (Sample.postDeps false)
          (Sample.postInput false) (Sample.memberSecret 1))
        (releasedBy Sample.pageHashes JsRuntime.ascii (Sample.postDeps false)
          (Sample.postInput false) (Sample.memberSecret 2)))
      (Sample.postRequests false false 1) (Sample.postRequests false false 2) ∧
    (Sample.postRequests false false 1).length = 4 := by
  refine ⟨(anonPost_requests Sample.pageHashes JsRuntime.ascii (Sample.postDeps false)
    (Sample.postDeps false) (Sample.postInput false) Sample.pagedAnswers (Sample.memberSecret 1)
    (Sample.memberSecret 2) Sample.postDeps_succeedAlike
    (Sample.postInput_listed false (Or.inl rfl)) (Sample.postInput_listed false (Or.inr rfl))).1, ?_⟩
  decide +kernel

end TetCore.Page
