import TetCore.Tmail.Policy
import TetCore.Tmail.Shelter

/-!
# The store of signed sites

Model of `sites.rs`: a site is a wallet with a chain of signed edits. `SiteStore` has the two trees of
the store, the edits under site and number and the heads under the site, with the total of bytes in a
row of its own, and the time under the lock, at which expired sites were last pruned.

`append` reads the clock at several places. `Readings` has what it reads, by place; a prune reads it
once a row. The lock is held for the whole call, so the calls on the store are one after the other.

Left out: failures of the database, and the numbers that would not fit in 64 bits (the totals are
below the limits, see `Sound` in the next module). The edits tree holds an edit for its JSON text.
-/

namespace TetCore.Sites

open TetCore.Lib TetCore.Tmail

/-! ## Limits -/

/-- The variables the store reads, as parsed. -/
structure SiteVars where
  editSkewMs : Option Nat := none
  ttlMs : Option Nat := none
  ttlDays : Option Nat := none
  maxTotalBytes : Option Nat := none

/-- `skew_ms`. -/
def SiteVars.skew (V : SiteVars) : Nat := envOr V.editSkewMs (10 * 60 * 1000)

/-- `ttl_ms`. -/
def SiteVars.ttl (V : SiteVars) : Nat :=
  match V.ttlMs.filter (0 < ·) with
  | some ms => ms
  | none => envOr V.ttlDays 30 * 86400000

/-- `total_bytes_cap`. -/
def SiteVars.totalBytesCap (V : SiteVars) : Nat := envOr V.maxTotalBytes (512 * 1024 * 1024)

/-- `SITE_EDIT_KIND`. -/
def siteEditKind : Str := "tet_site_edit_v1".toList

/-- `EDIT_MAX_BODY_BYTES`. -/
def editMaxBodyBytes : Nat := 1500000

/-- `SITE_MAX_BYTES`. -/
def siteMaxBytes : Nat := 5 * 1024 * 1024

/-- `MAX_SITES`. -/
def maxSites : Nat := 100000

/-- `SITE_MAX_EDITS`. -/
def siteMaxEdits : Nat := 2000

/-- `TOTAL_KEY`. -/
def totalKey : Str := "__total_bytes".toList

/-- `ZERO_HASH`. -/
def zeroHash : Str := List.replicate 64 '0'

/-! ## Edits -/

structure SiteEditV1 where
  v : Nat
  kind : Str
  siteWalletId : Str
  seq : Nat
  prevHash : Str
  body : Str
  createdAtMs : Nat
  hybridSig : TmailHybridSig
  deriving DecidableEq

structure SiteHead where
  len : Nat
  headHash : Str
  bytes : Nat
  updatedAtMs : Nat
  deriving DecidableEq

inductive SiteEditError where
  | version
  | malformed
  | signerMismatch
  | signature (e : String)
  | body
  | tooBig
  | notNext (expectedSeq : Nat) (expectedPrev : Str)
  | siteFull
  | storeFull
  | stale
  deriving DecidableEq

/-- The site an edit is for. -/
def SiteEditV1.site (e : SiteEditV1) : Str := trimLower e.siteWalletId

/-- The JSON text of an edit. -/
def SiteEditV1.json (e : SiteEditV1) : Str :=
  Json.record
    [("v".toList, Json.decimal e.v), ("kind".toList, Json.quote e.kind),
      ("site_wallet_id".toList, Json.quote e.siteWalletId), ("seq".toList, Json.decimal e.seq),
      ("prev_hash".toList, Json.quote e.prevHash), ("body".toList, Json.quote e.body),
      ("created_at_ms".toList, Json.decimal e.createdAtMs),
      ("hybrid_sig".toList, Json.record
        [("ed25519_pubkey_hex".toList, Json.quote e.hybridSig.ed25519PubkeyHex),
          ("ed25519_sig_b64".toList, Json.quote e.hybridSig.ed25519SigB64),
          ("mldsa_pubkey_b64".toList, Json.quote e.hybridSig.mldsaPubkeyB64),
          ("mldsa_sig_b64".toList, Json.quote e.hybridSig.mldsaSigB64)])]

/-- The bytes an edit takes as stored. -/
def SiteEditV1.size (e : SiteEditV1) : Nat := byteLen e.json

section Checks

variable (A : Auth) (W : World) (bodyOp : Str → Option Str)

/-- `body_sha256`. -/
def bodySha256 (body : Str) : Str := W.sha256Hex (utf8 body)

/-- The fields both pre-images start with. -/
def SiteEditV1.position (e : SiteEditV1) : Str :=
  "|site=".toList ++ (e.site ++ ("|seq=".toList ++ (Json.decimal e.seq ++ ("|prev=".toList ++
    (trimLower e.prevHash ++ ("|body_sha256=".toList ++ bodySha256 W e.body))))))

/-- `site_edit_auth_message_bytes`. -/
def siteEditAuthMessageBytes (e : SiteEditV1) (mldsaPubkeyB64 : Str) : Bytes :=
  utf8 (A.header "tet site edit v1".toList ++ (e.position W ++ ("|created_at_ms=".toList ++
    (Json.decimal e.createdAtMs ++ ("|mldsa_pk=".toList ++ trim mldsaPubkeyB64)))))

/-- `site_edit_hash`. -/
def siteEditHash (e : SiteEditV1) : Str :=
  W.sha256Hex (utf8 ("tet site edit hash v1".toList ++ e.position W))

/-- The operations a body may have. -/
def bodyOps : List Str :=
  ["add".toList, "replace".toList, "remove".toList, "meta".toList]

/-- `verify_site_edit_v1`. `bodyOp` is the text a body has under `op`, when it parses. -/
def verifySiteEditV1 (e : SiteEditV1) : Except SiteEditError Unit :=
  let signer := trimLower e.hybridSig.ed25519PubkeyHex
  if e.v ≠ 1 ∨ e.kind ≠ siteEditKind then .error .version
  else if !isHex64 e.site || !isHex64 (trim e.prevHash) then .error .malformed
  else if editMaxBodyBytes < byteLen e.body then .error .tooBig
  else if !(bodyOp e.body).any fun op => bodyOps.contains op then .error .body
  else if signer ≠ e.site then .error .signerMismatch
  else match verifyHybrid A signer e.hybridSig
      (siteEditAuthMessageBytes A W e e.hybridSig.mldsaPubkeyB64) with
    | .error err => .error (.signature err)
    | .ok () => .ok ()

/-- A verified edit is for a wallet. -/
theorem siteHex_of_verified {e : SiteEditV1} (h : verifySiteEditV1 A W bodyOp e = .ok ()) :
    isHex64 e.site = true := by
  unfold verifySiteEditV1 at h
  by_cases hv : e.v ≠ 1 ∨ e.kind ≠ siteEditKind
  · rw [if_pos hv] at h
    cases h
  · rw [if_neg hv] at h
    by_cases hhex : (!isHex64 e.site || !isHex64 (trim e.prevHash)) = true
    · rw [if_pos hhex] at h
      cases h
    · simp only [Bool.or_eq_true, Bool.not_eq_true', not_or, Bool.not_eq_false] at hhex
      exact hhex.1

end Checks

/-! ## The store -/

/-- A row of the heads tree. -/
inductive HeadRow where
  | head (h : SiteHead)
  | total (bytes : Nat)

structure SiteStore where
  edits : Tree Bytes SiteEditV1
  heads : Tree Str HeadRow
  /-- The value under the lock: when pruning last ran. -/
  lastPrune : Nat

/-- What the keys of a site's edits start with. -/
def editStart (site : Str) : Bytes := utf8 site ++ utf8 "/".toList

/-- `edit_key`. -/
def editKey (site : Str) (seq : Nat) : Bytes := editStart site ++ beBytes 8 seq

/-- `expired`. -/
def expired (V : SiteVars) (nowMs : Nat) (h : SiteHead) : Bool :=
  h.updatedAtMs != 0 && decide (V.ttl < nowMs - h.updatedAtMs)

namespace SiteStore

/-- `open`, on a new database. -/
def opened : SiteStore := ⟨Tree.empty, Tree.empty, 0⟩

/-- `total_bytes`. -/
def totalBytes (s : SiteStore) : Nat :=
  match s.heads.get totalKey with
  | some (.total n) => n
  | _ => 0

/-- `raw_head`. -/
def rawHead (s : SiteStore) (site : Str) : Option SiteHead :=
  match s.heads.get site with
  | some (.head h) => some h
  | _ => none

/-- `head`. -/
def head (V : SiteVars) (nowMs : Nat) (s : SiteStore) (site : Str) : Option SiteHead :=
  (s.rawHead (trimLower site)).filter fun h => !expired V nowMs h

/-- The edits of a site, deleted. -/
def dropEdits (s : SiteStore) (site : Str) : Tree Bytes SiteEditV1 :=
  ((s.edits.iter.map Prod.fst).filter fun k => (editStart site).isPrefixOf k).foldl
    (fun t k => t.remove k) s.edits

/-- `remove_site`. -/
def removeSite (s : SiteStore) (site : Str) (bytes : Nat) : SiteStore :=
  let removed : SiteStore := ⟨s.dropEdits site, s.heads.remove site, s.lastPrune⟩
  if (s.heads.get site).isSome then
    { removed with heads := removed.heads.insert totalKey (.total (removed.totalBytes - bytes)) }
  else removed

/-- The heads, in key order. -/
def headRows (s : SiteStore) : List (Str × SiteHead) :=
  s.heads.iter.filterMap fun r =>
    if r.1 = totalKey then none
    else match r.2 with
      | .head h => some (r.1, h)
      | .total _ => none

/-- `prune_expired_locked`; `now` is the clock as it is read at each row. -/
def pruneExpiredLocked (V : SiteVars) (now : Str → Nat) (s : SiteStore) : SiteStore :=
  s.headRows.foldl (fun s r => if expired V (now r.1) r.2 then s.removeSite r.1 r.2.bytes else s) s

/-! ## Appending -/

/-- The clock as `append` reads it, by place. -/
structure Readings where
  /-- The edit's own time. -/
  stale : Nat
  /-- An expired site starts over. -/
  startOver : Nat
  /-- `head`. -/
  head : Nat
  /-- Is a prune due? -/
  due : Nat
  /-- The time of the prune, kept under the lock. -/
  pruned : Nat
  /-- The rows of the prune. -/
  row : Str → Nat
  /-- The time of the new head. -/
  updated : Nat

/-- The clock does not go back within the call. -/
structure Readings.Ordered (t : Readings) : Prop where
  stale : t.stale ≤ t.startOver
  startOver : t.startOver ≤ t.head
  head : t.head ≤ t.due
  due : t.due ≤ t.pruned
  pruned : ∀ site, t.pruned ≤ t.row site
  row : ∀ site, t.row site ≤ t.updated

/-- What an edit has to extend: its number, the hash before it, and the bytes of the site. -/
def expected : Option SiteHead → Nat × Str × Nat
  | some h => (h.len, h.headHash, h.bytes)
  | none => (0, zeroHash, 0)

/-- An edit is the next one after a head. -/
def Extends (e : SiteEditV1) (head : Option SiteHead) : Prop :=
  e.seq = (expected head).1 ∧ eqIgnoreAsciiCase (trim e.prevHash) (expected head).2.1 = true

/-- A site has room for an edit. -/
def Fits (e : SiteEditV1) (head : Option SiteHead) : Prop :=
  (expected head).2.2 + e.size ≤ siteMaxBytes ∧ e.seq < siteMaxEdits

instance Extends.decidable (e : SiteEditV1) (head : Option SiteHead) : Decidable (Extends e head) :=
  inferInstanceAs (Decidable (_ ∧ _))

instance Fits.decidable (e : SiteEditV1) (head : Option SiteHead) : Decidable (Fits e head) :=
  inferInstanceAs (Decidable (_ ∧ _))

section Append

variable (W : World) (V : SiteVars) (t : Readings) (e : SiteEditV1)

/-- The closure `over` of `append`, on the total. -/
def overCap (s : SiteStore) (head : Option SiteHead) : Bool :=
  (head.isNone && decide (maxSites ≤ s.heads.iter.length)) ||
    decide (V.totalBytesCap < s.totalBytes + e.size)

/-- An expired site starts over. -/
def startOver (s : SiteStore) : SiteStore :=
  match (s.rawHead e.site).filter (expired V t.startOver) with
  | some h => s.removeSite e.site h.bytes
  | none => s

/-- A prune is due. -/
def PruneDue (s : SiteStore) : Prop := 60000 < t.due - s.lastPrune

instance PruneDue.decidable (s : SiteStore) : Decidable (PruneDue t s) :=
  inferInstanceAs (Decidable (_ < _))

/-- Expired sites are pruned when the store is full, once a minute. -/
def makeRoom (s : SiteStore) (head : Option SiteHead) : SiteStore :=
  if s.overCap V e head = true ∧ PruneDue t s then
    pruneExpiredLocked V t.row { s with lastPrune := t.pruned }
  else s

/-- The head after an edit. -/
def newHead (head : Option SiteHead) : SiteHead :=
  ⟨e.seq + 1, siteEditHash W e, (expected head).2.2 + e.size, t.updated⟩

/-- The writes of an accepted edit. -/
def write (s : SiteStore) (head : Option SiteHead) : SiteStore :=
  let total := s.totalBytes
  { s with
    edits := s.edits.insert (editKey e.site e.seq) e
    heads := (s.heads.insert e.site (.head (newHead W t e head))).insert totalKey
      (.total (total + e.size)) }

/-- `append`. A store that is not full stays as it is in `makeRoom`, and is not full after it. -/
def append (s : SiteStore) : Except SiteEditError SiteHead × SiteStore :=
  if V.skew < (e.createdAtMs - t.stale) + (t.stale - e.createdAtMs) then (.error .stale, s)
  else
    let s := startOver V t e s
    let head := s.head V t.head e.site
    if ¬ Extends e head then
      (.error (.notNext (expected head).1 (expected head).2.1), s)
    else if ¬ Fits e head then (.error .siteFull, s)
    else
      let s := makeRoom V t e s head
      if s.overCap V e head then (.error .storeFull, s)
      else (.ok (newHead W t e head), write W t e s head)

end Append

end SiteStore

end TetCore.Sites
