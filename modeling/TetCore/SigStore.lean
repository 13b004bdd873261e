import TetCore.Ledger.AuditFeed
import TetCore.Lib.IndexOf
import TetCore.Page.VerifyRecord

/-!
# The registry of published records

`sigs.rs`, `SigStore`: `publish` stores a record with its entry in each of four indexes and adds what
that takes to `total_bytes`; `set_anchor` writes a stored record again, with an anchor, and leaves
`total_bytes` as it is.

* `Books`: one entry for each record in every index, the signer's limit and the cap.
* `Keeps`: a call leaves the books so; an anchor moves to an earlier block only; a refused call changes
  nothing.
* `sig_store_iff`: every call of a run `Keeps` that; the total is the bytes that are stored after each
  call exactly when each is `Counted`: no record that is stored is anchored, and no sum runs over.
* `sig_store_anchored`: an anchored record is not counted in full.
-/

namespace TetCore.Sigs

open TetCore.Lib

/-- `CONSENT_PAYLOAD_TYPE`. -/
def consentPayloadType : Str := "tet sig publish v1".toList

/-- `DEFAULT_TOTAL_BYTES`. -/
def defaultTotalBytes : Nat := 256 * 1024 * 1024

/-- `MAX_RECORDS_PER_SIGNER`. -/
def maxRecordsPerSigner : Nat := 1000

/-! ## Records -/

/-- `Anchor`. -/
structure Anchor where
  txHash : Str
  blockHeight : Nat
  deriving DecidableEq

/-- `StoredRecord`. -/
structure StoredRecord where
  recordB64 : Str
  recordSha256 : Str
  fileSha256 : Str
  signerEd25519 : Str
  publishedAtMs : Nat
  anchor : Option Anchor
  deriving DecidableEq

/-- The derived `Serialize` of `Anchor`. -/
def Anchor.toJson (a : Anchor) : Str :=
  Json.record [("tx_hash".toList, Json.quote a.txHash),
    ("block_height".toList, Json.decimal a.blockHeight)]

namespace StoredRecord

/-- The derived `Serialize` of `StoredRecord`: no anchor, no member. -/
def toJson (r : StoredRecord) : Str :=
  Json.record ([("record_b64".toList, Json.quote r.recordB64),
    ("record_sha256".toList, Json.quote r.recordSha256),
    ("file_sha256".toList, Json.quote r.fileSha256),
    ("signer_ed25519".toList, Json.quote r.signerEd25519),
    ("published_at_ms".toList, Json.decimal r.publishedAtMs)] ++
      (r.anchor.map fun a => ("anchor".toList, a.toJson)).toList)

/-- The four entries of a record. -/
def codeEntry (rh : Str) (_ : StoredRecord) : Bytes := utf8 (rh.take 10 ++ rh)

def fileEntry (rh : Str) (r : StoredRecord) : Bytes :=
  utf8 r.fileSha256 ++ (beBytes 8 r.publishedAtMs ++ utf8 rh)

def signerEntry (rh : Str) (r : StoredRecord) : Bytes :=
  utf8 r.signerEd25519 ++ (beBytes 8 r.publishedAtMs ++ utf8 rh)

def timeEntry (rh : Str) (r : StoredRecord) : Bytes := beBytes 8 r.publishedAtMs ++ utf8 rh

/-- What the entries of a record are counted as. -/
def indexCost : Nat := 64 + 10 + 64 + 64 + 64 + 8 + 64 + 8 + 64

/-- What a record takes, as it is stored. -/
def stored (r : StoredRecord) : Nat := byteLen r.toJson + indexCost

end StoredRecord

/-! ## The store -/

/-- `SigsError`, of the store. -/
inductive StoreError where
  /-- What `verify_record` returns. -/
  | record (e : SigsError)
  /-- `Consent`, with the text of an envelope's error. -/
  | consentEnvelope (e : SigsError)
  | consent (text : String)
  | signerFull
  | storeFull
  | unknownRecord
  deriving DecidableEq

/-- `SigStore`. A `total_bytes` that was never written is `0`. -/
structure SigStore where
  records : Tree Str StoredRecord
  byCode : Tree Bytes Unit
  byFile : Tree Bytes Unit
  bySigner : Tree Bytes Unit
  byTime : Tree Bytes Unit
  totalBytes : Nat

section Calls

variable (A : Auth) (W : World) (S : SigPrimitives) (parse : Bytes → Option JsValue)

/-- `verify_consent`. -/
def verifyConsent (record consent : Bytes) : Except StoreError Unit :=
  match verifyEnvelope A W S parse record with
  | .error e => .error (.record e)
  | .ok (_, _, recSigner, recMl) =>
    match verifyEnvelope A W S parse consent with
    | .error e => .error (.consentEnvelope e)
    | .ok (ty, payload, signer, ml) =>
      if ty ≠ consentPayloadType then .error (.consent "not a consent to publish")
      else if signer ≠ recSigner ∨ ml ≠ recMl then
        .error (.consent "signed by a different key than the record")
      else if payload ≠ W.sha256 record then .error (.consent "it's for a different record")
      else .ok ()

namespace SigStore

/-- A new store. -/
def new : SigStore := ⟨.empty, .empty, .empty, .empty, .empty, 0⟩

/-- `by_signer.scan_prefix(signer).count()`. -/
def signerCount (s : SigStore) (signer : Str) : Nat :=
  (s.bySigner.iter.filter fun e => (utf8 signer).isPrefixOf e.1).length

/-- The record and its entries, and the new total. -/
def store (s : SigStore) (r : StoredRecord) : SigStore where
  records := s.records.insert r.recordSha256 r
  byCode := s.byCode.insert (r.codeEntry r.recordSha256) ()
  byFile := s.byFile.insert (r.fileEntry r.recordSha256) ()
  bySigner := s.bySigner.insert (r.signerEntry r.recordSha256) ()
  byTime := s.byTime.insert (r.timeEntry r.recordSha256) ()
  totalBytes := (s.totalBytes + r.stored) % 2 ^ 64

/-- `publish`, under a cap of bytes. -/
def publish (cap : Nat) (s : SigStore) (bytes consent : Bytes) (nowMs : Nat) :
    Except StoreError (StoredRecord × Bool) × SigStore :=
  match verifyRecord A W S parse bytes with
  | .error e => (.error (.record e), s)
  | .ok (fileSha256, signer) =>
    match verifyConsent A W S parse bytes consent with
    | .error e => (.error e, s)
    | .ok _ =>
      let rh := W.sha256Hex bytes
      match s.records.get rh with
      | some r => (.ok (r, false), s)
      | none =>
        if s.signerCount signer ≥ maxRecordsPerSigner then (.error .signerFull, s)
        else
          let r : StoredRecord := ⟨b64Encode bytes, rh, fileSha256, signer, nowMs, none⟩
          -- a `u64` sum
          if (s.totalBytes + r.stored) % 2 ^ 64 > cap then (.error .storeFull, s)
          else (.ok (r, true), s.store r)

/-- `set_anchor`. -/
def setAnchor (s : SigStore) (recordSha256 : Str) (anchor : Anchor) :
    Except StoreError StoredRecord × SigStore :=
  match s.records.get recordSha256 with
  | none => (.error .unknownRecord, s)
  | some r =>
    if r.anchor.any fun a => a.blockHeight ≤ anchor.blockHeight then (.ok r, s)
    else
      let r := { r with anchor := some anchor }
      (.ok r, { s with records := s.records.insert recordSha256 r })

end SigStore

/-! ## Runs -/

inductive SigCall where
  | publish (bytes consent : Bytes) (nowMs : Nat)
  | setAnchor (recordSha256 : Str) (anchor : Anchor)

namespace SigStore

variable (cap : Nat)

def step (s : SigStore) : SigCall → SigStore
  | .publish bytes consent nowMs => (s.publish A W S parse cap bytes consent nowMs).2
  | .setAnchor recordSha256 anchor => (s.setAnchor recordSha256 anchor).2

/-- The call returns an error. -/
def Refused (s : SigStore) : SigCall → Prop
  | .publish bytes consent nowMs => ∃ e, (s.publish A W S parse cap bytes consent nowMs).1 = .error e
  | .setAnchor recordSha256 anchor => ∃ e, (s.setAnchor recordSha256 anchor).1 = .error e

/-- The index has one entry for each record. An entry ends in the SHA-256 of its record. -/
def Indexes (s : SigStore) (index : Tree Bytes Unit) (skip : Nat)
    (entry : Str → StoredRecord → Bytes) : Prop :=
  IndexOf s.records index entry utf8 (List.drop skip)

/-- **The books of the store.** `search` reads an entry's record after the 10, 72, 72 or 8 bytes before
it. -/
structure Books (s : SigStore) : Prop where
  codes : s.Indexes s.byCode 10 fun rh r => r.codeEntry rh
  files : s.Indexes s.byFile 72 fun rh r => r.fileEntry rh
  signers : s.Indexes s.bySigner 72 fun rh r => r.signerEntry rh
  times : s.Indexes s.byTime 8 fun rh r => r.timeEntry rh
  limit : ∀ signer, (s.records.iter.filter fun e => e.2.signerEd25519 = signer).length ≤
    maxRecordsPerSigner
  capped : s.totalBytes ≤ cap

/-- The total is what is stored, anchors included. -/
def Exact (s : SigStore) : Prop := s.totalBytes = s.records.sumBy fun _ r => r.stored

/-- **A call keeps the books**, moves an anchor to an earlier block only, and changes nothing when it is
refused. -/
structure Keeps (s : SigStore) (c : SigCall) : Prop where
  books : (s.step A W S parse cap c).Books cap
  anchors : ∀ rh r, s.records.get rh = some r →
    ∃ r', (s.step A W S parse cap c).records.get rh = some r' ∧ { r' with anchor := r.anchor } = r ∧
      ∀ a, r.anchor = some a → ∃ a', r'.anchor = some a' ∧ (a' = a ∨ a'.blockHeight < a.blockHeight)
  refused : s.Refused A W S parse cap c → s.step A W S parse cap c = s

/-- **A call is sound**: after it the total is exact, too. -/
structure Sound (s : SigStore) (c : SigCall) : Prop extends s.Keeps A W S parse cap c where
  total : (s.step A W S parse cap c).Exact

/-- The record that `publish` would store, where nothing but the room for it is left to check. -/
def Admits (s : SigStore) (bytes consent : Bytes) (nowMs : Nat) (r : StoredRecord) : Prop :=
  ∃ fileSha256 signer, verifyRecord A W S parse bytes = .ok (fileSha256, signer) ∧
    verifyConsent A W S parse bytes consent = .ok () ∧ s.records.get (W.sha256Hex bytes) = none ∧
    s.signerCount signer < maxRecordsPerSigner ∧
    r = ⟨b64Encode bytes, W.sha256Hex bytes, fileSha256, signer, nowMs, none⟩

/-- The sum for a record that is published fits a `u64`, or is over the cap also as it runs over; and
an anchor is for no record of the store. -/
def Counted (s : SigStore) : SigCall → Prop
  | .publish bytes consent nowMs => ∀ r, s.Admits A W S parse bytes consent nowMs r →
      s.totalBytes + r.stored < 2 ^ 64 ∨ cap < (s.totalBytes + r.stored) % 2 ^ 64
  | .setAnchor recordSha256 _ => s.records.get recordSha256 = none

end SigStore

end Calls

/-! ## Sizes -/

section Sizes

variable {A : Auth} {W : World} {S : SigPrimitives} {parse : Bytes → Option JsValue}

theorem verifyConsent_of_envelopes {record consent payload : Bytes} {ty signer ml : Str}
    (hrecord : verifyEnvelope A W S parse record = .ok (ty, payload, signer, ml))
    (hconsent : verifyEnvelope A W S parse consent =
      .ok (consentPayloadType, W.sha256 record, signer, ml)) :
    verifyConsent A W S parse record consent = .ok () := by
  unfold verifyConsent
  rw [hrecord, hconsent]
  simp

/-- A record that passes names a file and a signer by 64 bytes. -/
theorem verifyRecord_length {bytes : Bytes} {fileSha256 signer : Str}
    (h : verifyRecord A W S parse bytes = .ok (fileSha256, signer)) :
    byteLen fileSha256 = 64 ∧ byteLen signer = 64 := by
  unfold verifyRecord at h
  cases henvelope : verifyEnvelope A W S parse bytes with
  | error e =>
    rw [henvelope] at h
    cases h
  | ok out =>
    rw [henvelope] at h
    simp only at h
    split at h
    · cases h
    rename_i hhash
    rw [not_or, not_not, not_not] at hhash
    cases h
    unfold verifyEnvelope at henvelope
    split at henvelope
    · cases henvelope
    split at henvelope
    · cases henvelope
    obtain ⟨r, -, hsigned, rfl⟩ := Envelope.verify_ok.mp henvelope
    refine ⟨by rw [byteLen_hexEncode, hhash.2], ?_⟩
    have hsigner := hsigned.signer
    simp only [SignedRecord.is64hexLower, Bool.and_eq_true, beq_iff_eq] at hsigner
    exact hsigner.1

/-- Ten digits of a proof code. -/
theorem length_take_hexEncode {b : Bytes} (h : b.length = 32) :
    (utf8 ((hexEncode b).take 10)).length = 10 := by
  have hascii : ∀ c ∈ hexEncode b, c.toNat < 128 := by
    intro c hc
    have hdigit := List.all_eq_true.mp (hexEncode_all b) c hc
    simp only [isAsciiHexdigit, Bool.or_eq_true, Bool.and_eq_true, decide_eq_true_eq] at hdigit
    omega
  have hlen := byteLen_hexEncode b
  rw [byteLen_of_ascii hascii, h] at hlen
  show byteLen _ = 10
  rw [byteLen_of_ascii fun c hc => hascii c (List.mem_of_mem_take hc), List.length_take, hlen]
  rfl

end Sizes

/-! ## What a call does -/

namespace SigStore

section Steps

variable {A : Auth} {W : World} {S : SigPrimitives} {parse : Bytes → Option JsValue} {cap : Nat}
  {s : SigStore} {bytes consent : Bytes} {nowMs : Nat} {r : StoredRecord}

/-- A record goes in when it is admitted and its sum is within the cap; else nothing changes. -/
theorem publish_cases (A : Auth) (W : World) (S : SigPrimitives) (parse : Bytes → Option JsValue)
    (cap : Nat) (s : SigStore) (bytes consent : Bytes) (nowMs : Nat) :
    (∃ r, s.Admits A W S parse bytes consent nowMs r ∧ (s.totalBytes + r.stored) % 2 ^ 64 ≤ cap ∧
      s.publish A W S parse cap bytes consent nowMs = (.ok (r, true), s.store r)) ∨
    ((s.publish A W S parse cap bytes consent nowMs).2 = s ∧
      ∀ r, s.Admits A W S parse bytes consent nowMs r →
        cap < (s.totalBytes + r.stored) % 2 ^ 64) := by
  unfold publish
  cases hrecord : verifyRecord A W S parse bytes with
  | error e =>
    refine Or.inr ⟨rfl, ?_⟩
    rintro r ⟨fileSha256, signer, hok, -⟩
    rw [hrecord] at hok
    cases hok
  | ok out =>
    obtain ⟨fileSha256, signer⟩ := out
    simp only
    cases hconsent : verifyConsent A W S parse bytes consent with
    | error e =>
      refine Or.inr ⟨rfl, ?_⟩
      rintro r ⟨fileSha256, signer, -, hok, -⟩
      rw [hconsent] at hok
      cases hok
    | ok u =>
      simp only
      cases hget : s.records.get (W.sha256Hex bytes) with
      | some r =>
        refine Or.inr ⟨rfl, ?_⟩
        rintro r' ⟨fileSha256, signer, -, -, hnone, -⟩
        rw [hget] at hnone
        cases hnone
      | none =>
        simp only
        by_cases hfull : s.signerCount signer ≥ maxRecordsPerSigner
        · rw [if_pos hfull]
          refine Or.inr ⟨rfl, ?_⟩
          rintro r ⟨file', signer', hok, -, -, hroom, -⟩
          rw [hrecord] at hok
          cases hok
          exact absurd hroom (Nat.not_lt_of_ge hfull)
        · rw [if_neg hfull]
          have hadmits : s.Admits A W S parse bytes consent nowMs
              ⟨b64Encode bytes, W.sha256Hex bytes, fileSha256, signer, nowMs, none⟩ :=
            ⟨fileSha256, signer, hrecord, hconsent, hget, Nat.lt_of_not_ge hfull, rfl⟩
          by_cases hcap : (s.totalBytes + StoredRecord.stored
              ⟨b64Encode bytes, W.sha256Hex bytes, fileSha256, signer, nowMs, none⟩) % 2 ^ 64 > cap
          · rw [if_pos hcap]
            refine Or.inr ⟨rfl, ?_⟩
            rintro r ⟨file', signer', hok, -, -, -, rfl⟩
            rw [hrecord] at hok
            cases hok
            exact hcap
          · rw [if_neg hcap]
            exact Or.inl ⟨_, hadmits, Nat.le_of_not_gt hcap, rfl⟩

/-- An unknown record is refused, an anchor that is not earlier is ignored, and any other is written. -/
theorem setAnchor_cases (recordSha256 : Str) (anchor : Anchor) :
    (s.records.get recordSha256 = none ∧ (s.setAnchor recordSha256 anchor).2 = s) ∨
    ∃ r, s.records.get recordSha256 = some r ∧
      ((∃ a, r.anchor = some a ∧ s.setAnchor recordSha256 anchor = (.ok r, s)) ∨
      ((∀ a, r.anchor = some a → anchor.blockHeight < a.blockHeight) ∧
        s.setAnchor recordSha256 anchor = (.ok { r with anchor := some anchor },
          { s with
            records := s.records.insert recordSha256 { r with anchor := some anchor } }))) := by
  unfold setAnchor
  cases hget : s.records.get recordSha256 with
  | none => exact Or.inl ⟨rfl, rfl⟩
  | some r =>
    refine Or.inr ⟨r, rfl, ?_⟩
    simp only
    cases hanchor : r.anchor with
    | none =>
      refine Or.inr ⟨?_, if_neg (by simp)⟩
      intro a ha
      cases ha
    | some a =>
      by_cases hle : a.blockHeight ≤ anchor.blockHeight
      · exact Or.inl ⟨a, rfl, if_pos (decide_eq_true hle)⟩
      · refine Or.inr ⟨?_, if_neg ?_⟩
        · intro a' ha'
          cases ha'
          exact Nat.lt_of_not_le hle
        · exact fun h => hle (of_decide_eq_true h)

/-! ## The books -/

/-- The invariant: the books, and signers of 64 bytes. -/
structure Inv (cap : Nat) (s : SigStore) : Prop extends s.Books cap where
  signer : ∀ rh r, s.records.get rh = some r → byteLen r.signerEd25519 = 64

theorem inv_new (cap : Nat) : new.Inv cap where
  codes := .empty
  files := .empty
  signers := .empty
  times := .empty
  limit signer := Nat.zero_le _
  capped := Nat.zero_le _
  signer rh r h := by
    rw [show new.records.get rh = none from Tree.get_empty rh] at h
    cases h

/-- What an admitted record is. -/
theorem Admits.spec (hsha : ∀ b, (W.sha256 b).length = 32)
    (h : s.Admits A W S parse bytes consent nowMs r) :
    s.records.get r.recordSha256 = none ∧ s.signerCount r.signerEd25519 < maxRecordsPerSigner ∧
      byteLen r.fileSha256 = 64 ∧ byteLen r.signerEd25519 = 64 ∧
      (utf8 (r.recordSha256.take 10)).length = 10 ∧ r.anchor = none := by
  obtain ⟨fileSha256, signer, hrecord, -, hget, hroom, rfl⟩ := h
  obtain ⟨hfile, hsigner⟩ := verifyRecord_length hrecord
  exact ⟨hget, hroom, hfile, hsigner, length_take_hexEncode (hsha bytes), rfl⟩

/-- The entries of a signer are as many as its records. -/
theorem Inv.signerCount_eq (h : s.Inv cap) {signer : Str} (hsigner : byteLen signer = 64) :
    s.signerCount signer =
      (s.records.iter.filter fun e => e.2.signerEd25519 = signer).length := by
  rw [signerCount, h.signers.length_filter fun _ _ heq => utf8_injective heq]
  refine congrArg List.length (List.filter_congr ?_)
  rintro ⟨rh, r⟩ hmem
  have hlen := hsigner.trans (h.signer rh r (Tree.mem_iter.mp hmem)).symm
  rw [StoredRecord.signerEntry, isPrefixOf_utf8_append _ hlen]
  exact beq_eq_decide _ _

/-- **Storing an admitted record** keeps the books. -/
theorem Inv.store (hsha : ∀ b, (W.sha256 b).length = 32) (h : s.Inv cap)
    (hadmits : s.Admits A W S parse bytes consent nowMs r)
    (hcap : (s.totalBytes + r.stored) % 2 ^ 64 ≤ cap) : (s.store r).Inv cap := by
  obtain ⟨hnew, hroom, hfile, hsigner, hcode, -⟩ := hadmits.spec hsha
  have hinj : Function.Injective utf8 := fun _ _ heq => utf8_injective heq
  have hdrop : ∀ {a b : Bytes} {n : Nat}, a.length = n → (a ++ b).drop n = b := by
    rintro a b n rfl
    exact List.drop_left
  have htime := length_beBytes 8 r.publishedAtMs
  refine ⟨⟨h.codes.insert hinj hnew ?_, h.files.insert hinj hnew ?_, h.signers.insert hinj hnew ?_,
    h.times.insert hinj hnew (hdrop htime), fun signer => ?_, hcap⟩, fun rh r' hget => ?_⟩
  · rw [StoredRecord.codeEntry, utf8_append]
    exact hdrop hcode
  · rw [StoredRecord.fileEntry, ← List.append_assoc]
    exact hdrop (by rw [List.length_append, htime]; exact congrArg (· + 8) hfile)
  · rw [StoredRecord.signerEntry, ← List.append_assoc]
    exact hdrop (by rw [List.length_append, htime]; exact congrArg (· + 8) hsigner)
  · have hperm := s.records.iter_insert_perm r.recordSha256 r
    rw [Tree.remove_of_get_none hnew] at hperm
    have hlen := (hperm.filter fun e => e.2.signerEd25519 = signer).length_eq
    refine hlen.trans_le ?_
    by_cases hown : r.signerEd25519 = signer
    · rw [h.signerCount_eq hsigner, hown] at hroom
      simp only [List.filter_cons]
      rw [if_pos (decide_eq_true hown), List.length_cons]
      exact hroom
    · simp only [List.filter_cons]
      rw [if_neg (by rwa [decide_eq_true_eq])]
      exact h.limit signer
  · rw [SigStore.store, Tree.get_insert] at hget
    by_cases hsame : r.recordSha256 = rh
    · rw [if_pos hsame, Option.some.injEq] at hget
      subst hget
      exact hsigner
    · rw [if_neg hsame] at hget
      exact h.signer rh r' hget

/-- **Writing a record again** with an anchor keeps the books. -/
theorem Inv.anchored (h : s.Inv cap) {rh : Str} (hget : s.records.get rh = some r)
    (anchor : Anchor) :
    Inv cap { s with records := s.records.insert rh { r with anchor := some anchor } } := by
  refine ⟨⟨h.codes.rewrite hget rfl, h.files.rewrite hget rfl, h.signers.rewrite hget rfl,
    h.times.rewrite hget rfl, fun signer => ?_, h.capped⟩, fun rh' r' hget' => ?_⟩
  · have hbefore := ((Tree.iter_perm_of_get hget).filter fun e =>
      e.2.signerEd25519 = signer).length_eq
    have hafter := ((s.records.iter_insert_perm rh { r with anchor := some anchor }).filter fun e =>
      e.2.signerEd25519 = signer).length_eq
    refine (hafter.trans ?_).trans_le (h.limit signer)
    rw [hbefore]
    simp only [List.filter_cons]
    by_cases hown : r.signerEd25519 = signer
    · rw [if_pos (decide_eq_true hown), if_pos (decide_eq_true hown)]
      rfl
    · rw [if_neg (by rwa [decide_eq_true_eq]), if_neg (by rwa [decide_eq_true_eq])]
  · rw [Tree.get_insert] at hget'
    by_cases hsame : rh = rh'
    · rw [if_pos hsame, Option.some.injEq] at hget'
      subst hget'
      exact h.signer rh r hget
    · rw [if_neg hsame] at hget'
      exact h.signer rh' r' hget'

/-- **A call** keeps the invariant and the books. -/
theorem Inv.step (hsha : ∀ b, (W.sha256 b).length = 32) (h : s.Inv cap) (c : SigCall) :
    (s.step A W S parse cap c).Inv cap ∧ s.Keeps A W S parse cap c := by
  have hstay : s.step A W S parse cap c = s →
      (s.step A W S parse cap c).Inv cap ∧ s.Keeps A W S parse cap c := by
    intro hsame
    refine ⟨hsame.symm ▸ h, ⟨hsame.symm ▸ h.toBooks, fun rh r hget => ?_, fun _ => hsame⟩⟩
    rw [hsame]
    exact ⟨r, hget, rfl, fun a ha => ⟨a, ha, Or.inl rfl⟩⟩
  cases c with
  | publish bytes consent nowMs =>
    rcases publish_cases A W S parse cap s bytes consent nowMs with
      ⟨r, hadmits, hcap, hpublish⟩ | ⟨hsame, -⟩
    · have hstep : s.step A W S parse cap (.publish bytes consent nowMs) = s.store r := by
        rw [SigStore.step, hpublish]
      have hinv := h.store hsha hadmits hcap
      refine ⟨hstep.symm ▸ hinv, ⟨hstep.symm ▸ hinv.toBooks, fun rh r' hget => ?_, ?_⟩⟩
      · have hne : r.recordSha256 ≠ rh := by
          rintro rfl
          rw [(hadmits.spec hsha).1] at hget
          cases hget
        rw [hstep]
        exact ⟨r', (Tree.get_insert_ne hne).trans hget, rfl, fun a ha => ⟨a, ha, Or.inl rfl⟩⟩
      · rintro ⟨e, he⟩
        rw [hpublish] at he
        cases he
    · exact hstay hsame
  | setAnchor recordSha256 anchor =>
    rcases setAnchor_cases (s := s) recordSha256 anchor with
      ⟨-, hsame⟩ | ⟨r, hget, ⟨a, -, hkept⟩ | hwritten⟩
    · exact hstay hsame
    · exact hstay (congrArg Prod.snd hkept)
    · obtain ⟨hearlier, hset⟩ := hwritten
      have hstep : s.step A W S parse cap (.setAnchor recordSha256 anchor) =
          { s with
            records := s.records.insert recordSha256 { r with anchor := some anchor } } := by
        rw [SigStore.step, hset]
      have hinv := h.anchored hget anchor
      refine ⟨hstep.symm ▸ hinv, ⟨hstep.symm ▸ hinv.toBooks, fun rh r' hget' => ?_, ?_⟩⟩
      · rw [hstep]
        by_cases hsame : recordSha256 = rh
        · subst hsame
          obtain rfl := Option.some.inj (hget.symm.trans hget')
          exact ⟨_, Tree.get_insert_self _ _ _, rfl, fun a ha =>
            ⟨anchor, rfl, Or.inr (hearlier a ha)⟩⟩
        · exact ⟨r', (Tree.get_insert_ne hsame).trans hget', rfl, fun a ha => ⟨a, ha, Or.inl rfl⟩⟩
      · rintro ⟨e, he⟩
        rw [hset] at he
        cases he

/-! ## The total -/

/-- An anchor takes room. -/
theorem stored_lt (hnone : r.anchor = none) (anchor : Anchor) :
    r.stored < StoredRecord.stored { r with anchor := some anchor } := by
  unfold StoredRecord.stored
  refine Nat.add_lt_add_right ?_ _
  unfold StoredRecord.toJson
  rw [hnone]
  exact byteLen_record_lt _ _ _

/-- The total is exact and nothing is anchored. -/
structure Plain (s : SigStore) : Prop where
  total : s.Exact
  bare : ∀ rh r, s.records.get rh = some r → r.anchor = none

theorem plain_new : new.Plain where
  total := (Tree.sumBy_empty _).symm
  bare rh r h := by
    rw [show new.records.get rh = none from Tree.get_empty rh] at h
    cases h

/-- What a new record adds. -/
theorem sumBy_store (hnew : s.records.get r.recordSha256 = none) :
    (s.store r).records.sumBy (fun _ r => r.stored) =
      s.records.sumBy (fun _ r => r.stored) + r.stored := by
  have hsum := Tree.sumBy_insert (fun _ r => StoredRecord.stored r) s.records r.recordSha256 r
  rw [Tree.rowWeight, hnew] at hsum
  exact hsum

theorem Plain.store (hsha : ∀ b, (W.sha256 b).length = 32) (h : s.Plain)
    (hadmits : s.Admits A W S parse bytes consent nowMs r) :
    (s.store r).Exact ↔ s.totalBytes + r.stored < 2 ^ 64 := by
  rw [Exact, sumBy_store (hadmits.spec hsha).1, ← h.total]
  show (s.totalBytes + r.stored) % 2 ^ 64 = s.totalBytes + r.stored ↔ _
  constructor
  · intro heq
    rw [← heq]
    exact Nat.mod_lt _ (Nat.two_pow_pos 64)
  · exact Nat.mod_eq_of_lt

/-- From plain books, the total is exact after a call exactly when the call is counted, and the store
is plain then. -/
theorem Plain.step (hsha : ∀ b, (W.sha256 b).length = 32) (h : s.Plain) (c : SigCall) :
    ((s.step A W S parse cap c).Exact ↔ s.Counted A W S parse cap c) ∧
      (s.Counted A W S parse cap c → (s.step A W S parse cap c).Plain) := by
  cases c with
  | publish bytes consent nowMs =>
    rcases publish_cases A W S parse cap s bytes consent nowMs with
      ⟨r, hadmits, hcap, hpublish⟩ | ⟨hsame, hover⟩
    · have hstep : s.step A W S parse cap (.publish bytes consent nowMs) = s.store r := by
        rw [SigStore.step, hpublish]
      have hcounted : s.Counted A W S parse cap (.publish bytes consent nowMs) ↔
          s.totalBytes + r.stored < 2 ^ 64 := by
        constructor
        · intro hcounted
          exact (hcounted r hadmits).resolve_right (Nat.not_lt_of_ge hcap)
        · rintro hfits r' hadmits'
          obtain ⟨file, signer, hrecord, -, -, -, rfl⟩ := hadmits
          obtain ⟨file', signer', hrecord', -, -, -, rfl⟩ := hadmits'
          cases hrecord.symm.trans hrecord'
          exact Or.inl hfits
      rw [hstep, hcounted]
      have hexact := h.store hsha hadmits
      refine ⟨hexact, fun hfits => ⟨hexact.mpr hfits, fun rh r' hget => ?_⟩⟩
      rw [SigStore.store, Tree.get_insert] at hget
      by_cases hsame : r.recordSha256 = rh
      · rw [if_pos hsame, Option.some.injEq] at hget
        subst hget
        exact (hadmits.spec hsha).2.2.2.2.2
      · rw [if_neg hsame] at hget
        exact h.bare rh r' hget
    · have hstep : s.step A W S parse cap (.publish bytes consent nowMs) = s := hsame
      rw [hstep]
      exact ⟨iff_of_true h.total fun r hadmits => Or.inr (hover r hadmits), fun _ => h⟩
  | setAnchor recordSha256 anchor =>
    rcases setAnchor_cases (s := s) recordSha256 anchor with
      ⟨hnone, hsame⟩ | ⟨r, hget, ⟨a, ha, -⟩ | ⟨-, hset⟩⟩
    · have hstep : s.step A W S parse cap (.setAnchor recordSha256 anchor) = s := hsame
      rw [hstep]
      exact ⟨iff_of_true h.total hnone, fun _ => h⟩
    · rw [h.bare _ r hget] at ha
      cases ha
    · have hknown : ¬s.Counted A W S parse cap (.setAnchor recordSha256 anchor) := by
        intro hnone
        cases hget.symm.trans hnone
      refine ⟨iff_of_false ?_ hknown, fun hcounted => absurd hcounted hknown⟩
      -- the record is longer than it was, and the total is not
      have hlonger := stored_lt (h.bare _ r hget) anchor
      have hsum := Tree.sumBy_insert (fun _ r => StoredRecord.stored r) s.records recordSha256
        { r with anchor := some anchor }
      have hrow : s.records.rowWeight (fun _ r => StoredRecord.stored r) recordSha256 =
          r.stored := by
        rw [Tree.rowWeight, hget, Option.elim_some]
      have htotal := h.total
      rw [Exact] at htotal ⊢
      rw [SigStore.step, hset]
      simp only
      omega

end Steps

end SigStore

/-- **The books of the registry.** Every call of a run from a new store keeps them; and the total is the
bytes that are stored after every call exactly when every call is counted. -/
theorem sig_store_iff {A : Auth} {W : World} {S : SigPrimitives} {parse : Bytes → Option JsValue}
    (hsha : ∀ b, (W.sha256 b).length = 32) (cap : Nat) (calls : List SigCall) :
    Along (SigStore.step A W S parse cap) (SigStore.Keeps A W S parse cap) SigStore.new calls ∧
      (Along (SigStore.step A W S parse cap) (SigStore.Sound A W S parse cap) SigStore.new calls ↔
        Along (SigStore.step A W S parse cap) (SigStore.Counted A W S parse cap) SigStore.new
          calls) := by
  constructor
  · exact along_of_invariant (fun (s : SigStore) c (h : s.Inv cap) => (h.step hsha c).2)
      (fun s c h => (h.step hsha c).1) calls (SigStore.inv_new cap)
  · refine along_iff (fun (s : SigStore) c (h : s.Inv cap ∧ s.Plain) => ?_)
      (fun s c h hcounted => ⟨(h.1.step hsha c).1, (h.2.step hsha c).2 hcounted⟩) calls
      ⟨SigStore.inv_new cap, SigStore.plain_new⟩
    exact ⟨fun hsound => (h.2.step hsha c).1.mp hsound.total,
      fun hcounted => ⟨(h.1.step hsha c).2, (h.2.step hsha c).1.mpr hcounted⟩⟩

end TetCore.Sigs

namespace TetCore.Sample

open TetCore.Lib TetCore.Sigs

/-- Signatures that all verify. -/
def takesAll : SigPrimitives := ⟨fun _ _ _ => true, fun _ _ _ _ => true⟩

/-- What is said by an envelope with a payload. -/
def sealedRecord (payloadType : Str) (payload : Bytes) : SignedRecord :=
  ⟨payloadType, payload, wallet 'a', siteMldsaKey, edPrefix ++ wallet 'a',
    mlPrefix ++ (World.sample 0).sha256Hex siteMldsaKey, List.replicate 64 0, List.replicate 2420 0⟩

/-- Its entries. -/
def sealedEntries : List JsValue :=
  [.obj [("keyid".toList, .str (edPrefix ++ wallet 'a')),
      ("sig".toList, .str (b64Encode (List.replicate 64 0)))],
    .obj [("keyid".toList, .str (mlPrefix ++ (World.sample 0).sha256Hex siteMldsaKey)),
      ("sig".toList, .str (b64Encode (List.replicate 2420 0)))]]

/-- The envelope. -/
def sealedJson (payloadType : Str) (payload : Bytes) : JsValue :=
  .obj [("payloadType".toList, .str payloadType), ("payload".toList, .str (b64Encode payload)),
    ("signatures".toList, .arr sealedEntries), ("tet".toList, recordTet)]

theorem sealedJson_get (payloadType : Str) (payload : Bytes) :
    (sealedJson payloadType payload).get "payloadType".toList = .str payloadType ∧
    (sealedJson payloadType payload).get "payload".toList = .str (b64Encode payload) ∧
    (sealedJson payloadType payload).get "signatures".toList = .arr sealedEntries ∧
    (sealedJson payloadType payload).get "tet".toList = recordTet := by
  have hnames := recordFacts.2.1.1
  simp only [envelopeNames, List.nodup_cons, List.mem_cons, not_or] at hnames
  obtain ⟨⟨h12, h13, h14, -⟩, ⟨h23, h24, -⟩, ⟨h34, -⟩, -⟩ := hnames
  unfold sealedJson
  refine ⟨JsValue.get_cons_same _ _ _, ?_, ?_, ?_⟩
  · rw [JsValue.get_cons_ne h12, JsValue.get_cons_same]
  · rw [JsValue.get_cons_ne h13, JsValue.get_cons_ne h23, JsValue.get_cons_same]
  · rw [JsValue.get_cons_ne h14, JsValue.get_cons_ne h24, JsValue.get_cons_ne h34,
      JsValue.get_cons_same]

/-- **A node reads it**, and its signatures verify. -/
theorem sealed_ok {payloadType : Str} (payload : Bytes) (htype : trim payloadType = payloadType) :
    ∃ e, Envelope.read (sealedJson payloadType payload) = some e ∧
      e.verify auth (World.sample 0) takesAll =
        .ok (payloadType, payload, wallet 'a', trim (b64Encode siteMldsaKey)) := by
  obtain ⟨⟨hhex, hkey⟩, ⟨-, -, hentry, -⟩, ⟨-, hwallet, -⟩, -⟩ := recordFacts
  obtain ⟨hty, hpayload, hsigs, htet⟩ := sealedJson_get payloadType payload
  obtain ⟨hv, hpae, hed, hml⟩ := recordTet_get
  have hobj : (sealedJson payloadType payload).isObject = true := rfl
  have htetObj : recordTet.isObject = true := rfl
  have hread : ∀ k t : Str, SigEntry.read
      (.obj [("keyid".toList, .str k), ("sig".toList, .str t)]) = some ⟨k, t⟩ := by
    intro k t
    rw [SigEntry.read_some, structField_of_object rfl, structField_of_object rfl,
      JsValue.get_cons_same, JsValue.get_cons_ne hentry, JsValue.get_cons_same]
    exact ⟨rfl, rfl⟩
  let ed : SigEntry := ⟨edPrefix ++ wallet 'a', b64Encode (List.replicate 64 0)⟩
  let ml : SigEntry := ⟨mlPrefix ++ (World.sample 0).sha256Hex siteMldsaKey,
    b64Encode (List.replicate 2420 0)⟩
  refine ⟨⟨payloadType, b64Encode payload, [ed, ml],
    ⟨1, agentPayloadDomainV1, wallet 'a', b64Encode siteMldsaKey⟩⟩, ?_, ?_⟩
  · rw [Envelope.read_some, structField_of_object hobj, structField_of_object hobj,
      structField_of_object hobj, structField_of_object hobj, hty, hpayload, hsigs, htet,
      TetBlock.read_some, structField_of_object htetObj, structField_of_object htetObj,
      structField_of_object htetObj, structField_of_object htetObj]
    refine ⟨rfl, rfl, ⟨sealedEntries, rfl, ?_⟩, asU32_one.mpr hv, hpae, hed, hml⟩
    rw [sealedEntries, List.mapM_cons, List.mapM_cons, hread, hread]
    rfl
  · obtain ⟨pk, hpk⟩ := Option.isSome_iff_exists.mp hkey
    refine Envelope.verify_ok.mpr ⟨sealedRecord payloadType payload, ?_, ?_, rfl⟩
    · exact ⟨rfl, rfl, htype.symm, stdDecode_trim_encode _, hwallet.symm, stdDecode_trim_encode _,
        rfl, ed, ml, rfl, rfl, rfl, rfl, stdDecode_encode _, stdDecode_trim_encode _⟩
    · exact ⟨hhex, rfl, rfl, List.length_replicate, siteMldsaKey_length, List.length_replicate,
        ⟨pk, hpk, rfl⟩, rfl⟩

/-- Two byte strings are read: a record of a file, and a consent to publish it. -/
def sealedParse (bytes : Bytes) : Option JsValue :=
  if bytes = [0] then some (sealedJson hashPayloadType (List.replicate 32 0))
  else if bytes = [1] then some (sealedJson consentPayloadType ((World.sample 0).sha256 [0]))
  else none

/-- What is stored of the record. -/
def sealedRow (nowMs : Nat) : StoredRecord :=
  ⟨b64Encode [0], (World.sample 0).sha256Hex [0], hexEncode (List.replicate 32 0), wallet 'a', nowMs,
    none⟩

theorem sealedFacts : trim consentPayloadType = consentPayloadType ∧
    (sealedRow 5).stored ≤ defaultTotalBytes := by
  decide +kernel

/-- An envelope of the two that are parsed. -/
theorem sealed_envelope {bytes : Bytes} {payloadType : Str} {payload : Bytes}
    (hsize : bytes.length ≤ recordMaxBytes)
    (hparse : sealedParse bytes = some (sealedJson payloadType payload))
    (htype : trim payloadType = payloadType) :
    verifyEnvelope auth (World.sample 0) takesAll sealedParse bytes =
      .ok (payloadType, payload, wallet 'a', trim (b64Encode siteMldsaKey)) := by
  obtain ⟨e, hread, hverify⟩ := sealed_ok payload htype
  rw [verifyEnvelope_of_read hsize (by rw [hparse, Option.bind_some, hread]), hverify]

theorem sealed_record_envelope : verifyEnvelope auth (World.sample 0) takesAll sealedParse [0] =
    .ok (hashPayloadType, List.replicate 32 0, wallet 'a', trim (b64Encode siteMldsaKey)) :=
  sealed_envelope (by decide) (if_pos rfl) recordFacts.2.2.1.1

theorem sealed_record : verifyRecord auth (World.sample 0) takesAll sealedParse [0] =
    .ok (hexEncode (List.replicate 32 0), wallet 'a') :=
  verifyRecord_of_envelope sealed_record_envelope List.length_replicate

theorem sealed_consent :
    verifyConsent auth (World.sample 0) takesAll sealedParse [0] [1] = .ok () :=
  verifyConsent_of_envelopes sealed_record_envelope
    (sealed_envelope (by decide) ((if_neg (by decide)).trans (if_pos rfl)) sealedFacts.1)

/-- The record goes into a new store. -/
theorem sealed_publish : SigStore.new.publish auth (World.sample 0) takesAll sealedParse
    defaultTotalBytes [0] [1] 5 = (.ok (sealedRow 5, true), SigStore.new.store (sealedRow 5)) := by
  have hadmits : SigStore.new.Admits auth (World.sample 0) takesAll sealedParse [0] [1] 5
      (sealedRow 5) := by
    refine ⟨_, _, sealed_record, sealed_consent, Tree.get_empty _, ?_, rfl⟩
    show 0 < maxRecordsPerSigner
    decide
  rcases SigStore.publish_cases auth (World.sample 0) takesAll sealedParse defaultTotalBytes
    SigStore.new [0] [1] 5 with ⟨r, hr, -, hpublish⟩ | ⟨-, hover⟩
  · obtain ⟨file, signer, hrecord, -, -, -, rfl⟩ := hr
    cases sealed_record.symm.trans hrecord
    exact hpublish
  · have hcap := hover _ hadmits
    have hle : SigStore.new.totalBytes + (sealedRow 5).stored ≤ defaultTotalBytes := by
      rw [show SigStore.new.totalBytes = 0 from rfl, Nat.zero_add]
      exact sealedFacts.2
    generalize SigStore.new.totalBytes + (sealedRow 5).stored = n at hcap hle
    omega

theorem sealed_stored : (SigStore.new.store (sealedRow 5)).records.get
    ((World.sample 0).sha256Hex [0]) ≠ none := by
  rw [show (SigStore.new.store (sealedRow 5)).records.get ((World.sample 0).sha256Hex [0]) =
    some (sealedRow 5) from Tree.get_insert_self _ _ _]
  exact Option.some_ne_none _

end TetCore.Sample

namespace TetCore.Sigs

open TetCore.Lib

/-- A record is published, and published again. -/
theorem sig_store_twice :
    Along (SigStore.step Sample.auth (World.sample 0) Sample.takesAll Sample.sealedParse
        defaultTotalBytes)
      (SigStore.Sound Sample.auth (World.sample 0) Sample.takesAll Sample.sealedParse
        defaultTotalBytes) SigStore.new [.publish [0] [1] 5, .publish [0] [1] 6] := by
  refine (sig_store_iff (Ledger.sample_sha256_length 0) defaultTotalBytes _).2.mpr ⟨?_, ?_, trivial⟩
  · rintro r ⟨file, signer, hrecord, -, -, -, rfl⟩
    cases Sample.sealed_record.symm.trans hrecord
    have hstored := Sample.sealedFacts.2
    refine Or.inl (lt_of_le_of_lt ?_ (by decide : defaultTotalBytes < 2 ^ 64))
    rw [SigStore.new, Nat.zero_add]
    exact hstored
  · rintro r ⟨file, signer, -, -, hnone, -⟩
    rw [SigStore.step, Sample.sealed_publish] at hnone
    exact absurd hnone Sample.sealed_stored

/-- A record is published and anchored: the total is what it was. -/
theorem sig_store_anchored :
    ¬Along (SigStore.step Sample.auth (World.sample 0) Sample.takesAll Sample.sealedParse
        defaultTotalBytes)
      (SigStore.Sound Sample.auth (World.sample 0) Sample.takesAll Sample.sealedParse
        defaultTotalBytes) SigStore.new
      [.publish [0] [1] 5, .setAnchor ((World.sample 0).sha256Hex [0]) ⟨['0'], 1⟩] := by
  rintro ⟨hpublish, hanchor, -⟩
  have hsha := Ledger.sample_sha256_length 0
  obtain ⟨hcounted, hplain⟩ := SigStore.plain_new.step hsha (.publish [0] [1] 5)
  have hnone := ((hplain (hcounted.mp hpublish.total)).step hsha _).1.mp hanchor.total
  rw [SigStore.step, Sample.sealed_publish] at hnone
  exact absurd hnone Sample.sealed_stored

end TetCore.Sigs
