import TetCore.Lib.WordForm

/-!
# Journals of receipts

`decode_journal_bytes` (`zk_verifier.rs`) on the journals of `nexus-protocol`. The journal of a receipt has
no tag for its type: three types are tried in order on the same bytes, and one is taken if what it decodes
to is encoded as the bytes again, the membership journal only with its kind.

The serde of risc0 is a parameter. What the code relies on is `Risc0Serde.WordAligned`: a value is written
as its words (`WordForm`), and reading succeeds exactly if the words begin with those of a value.

`decodeJournalBytes_eq_ok`: bytes decode to a journal exactly if they are its encoding and a membership
journal has its kind, so no bytes are two journals.
-/

namespace TetCore.Journals

open TetCore.Lib

/-! ## The journals -/

/-- `[u8; 32]`. -/
abbrev Bytes32 := WordForm.WordArray UInt8 32

/-- `InferenceJournalV1`. -/
structure InferenceJournalV1 where
  workerPubkeyBytes : Bytes32
  promptHash : Bytes32
  responseHash : Bytes32
  costMicro : UInt64
  deriving DecidableEq

/-- `ZkCourtJournalV1`. -/
structure ZkCourtJournalV1 where
  commitmentSha256 : Bytes32
  flopsU64 : UInt64
  workerPubkeyBytes : Bytes32
  deriving DecidableEq

/-- `TmailAnonMembershipV1`. -/
structure TmailAnonMembershipV1 where
  journalKind : UInt32
  merkleRoot : Bytes32
  nullifier : Bytes32
  ephemeralPubkeyBytes : Bytes32
  receiverWalletBytes : Bytes32
  bucketIndex : UInt64
  deriving DecidableEq

/-- `TMAIL_ANON_JOURNAL_KIND`: the bytes of `TAM1`, the first one lowest. -/
def tmailAnonJournalKind : UInt32 := 0x314D4154

/-- `VerifiedZkJournal`. -/
inductive VerifiedZkJournal where
  | inference (j : InferenceJournalV1)
  | zkCourt (j : ZkCourtJournalV1)
  | tmailAnon (j : TmailAnonMembershipV1)
  deriving DecidableEq

/-! ## Their words -/

namespace InferenceJournalV1

def toFields (j : InferenceJournalV1) : Bytes32 × Bytes32 × Bytes32 × UInt64 :=
  (j.workerPubkeyBytes, j.promptHash, j.responseHash, j.costMicro)

def ofFields (p : Bytes32 × Bytes32 × Bytes32 × UInt64) : InferenceJournalV1 :=
  ⟨p.1, p.2.1, p.2.2.1, p.2.2.2⟩

theorem ofFields_toFields (j : InferenceJournalV1) : ofFields j.toFields = j := rfl

theorem toFields_ofFields (p : Bytes32 × Bytes32 × Bytes32 × UInt64) : (ofFields p).toFields = p := rfl

/-- The fields in their order. -/
def fields : InferenceJournalV1 ≃ Bytes32 × Bytes32 × Bytes32 × UInt64 :=
  ⟨toFields, ofFields, ofFields_toFields, toFields_ofFields⟩

instance : WordForm InferenceJournalV1 := WordForm.ofEquiv fields

end InferenceJournalV1

namespace ZkCourtJournalV1

def toFields (j : ZkCourtJournalV1) : Bytes32 × UInt64 × Bytes32 :=
  (j.commitmentSha256, j.flopsU64, j.workerPubkeyBytes)

def ofFields (p : Bytes32 × UInt64 × Bytes32) : ZkCourtJournalV1 := ⟨p.1, p.2.1, p.2.2⟩

theorem ofFields_toFields (j : ZkCourtJournalV1) : ofFields j.toFields = j := rfl

theorem toFields_ofFields (p : Bytes32 × UInt64 × Bytes32) : (ofFields p).toFields = p := rfl

/-- The fields in their order. -/
def fields : ZkCourtJournalV1 ≃ Bytes32 × UInt64 × Bytes32 :=
  ⟨toFields, ofFields, ofFields_toFields, toFields_ofFields⟩

instance : WordForm ZkCourtJournalV1 := WordForm.ofEquiv fields

end ZkCourtJournalV1

namespace TmailAnonMembershipV1

def toFields (j : TmailAnonMembershipV1) :
    UInt32 × Bytes32 × Bytes32 × Bytes32 × Bytes32 × UInt64 :=
  (j.journalKind, j.merkleRoot, j.nullifier, j.ephemeralPubkeyBytes, j.receiverWalletBytes,
    j.bucketIndex)

def ofFields (p : UInt32 × Bytes32 × Bytes32 × Bytes32 × Bytes32 × UInt64) : TmailAnonMembershipV1 :=
  ⟨p.1, p.2.1, p.2.2.1, p.2.2.2.1, p.2.2.2.2.1, p.2.2.2.2.2⟩

theorem ofFields_toFields (j : TmailAnonMembershipV1) : ofFields j.toFields = j := rfl

theorem toFields_ofFields (p : UInt32 × Bytes32 × Bytes32 × Bytes32 × Bytes32 × UInt64) :
    (ofFields p).toFields = p := rfl

/-- The fields in their order. -/
def fields : TmailAnonMembershipV1 ≃ UInt32 × Bytes32 × Bytes32 × Bytes32 × Bytes32 × UInt64 :=
  ⟨toFields, ofFields, ofFields_toFields, toFields_ofFields⟩

instance : WordForm TmailAnonMembershipV1 := WordForm.ofEquiv fields

end TmailAnonMembershipV1

/-! ## Decoding -/

/-- `risc0_zkvm::serde`, for the types written in words. -/
structure Risc0Serde where
  toVec : (T : Type) → [WordForm T] → T → Option (List UInt32)
  fromSlice : (T : Type) → [WordForm T] → Bytes → Option T

/-- A value is written as its words; words are read as a value exactly if they begin with its words. -/
structure Risc0Serde.WordAligned (R : Risc0Serde) : Prop where
  toVec_eq : ∀ (T : Type) [WordForm T] (t : T), R.toVec T t = some (WordForm.words t)
  fromSlice_eq : ∀ (T : Type) [WordForm T] (ws : List UInt32) (t : T),
    R.fromSlice T (wordBytes ws) = some t ↔ WordForm.words t <+: ws

section Decode

variable (R : Risc0Serde)

/-- The bytes a value is written as. -/
def encodeJournal (T : Type) [WordForm T] (t : T) : Option Bytes := (R.toVec T t).map wordBytes

/-- `round_trips`. -/
def roundTrips (T : Type) [WordForm T] (bytes : Bytes) : Option T := do
  let decoded ← R.fromSlice T bytes
  let re ← encodeJournal R T decoded
  if re = bytes then some decoded else none

/-- `decode_journal_bytes`. -/
def decodeJournalBytes (bytes : Bytes) : Except Str VerifiedZkJournal :=
  match roundTrips R InferenceJournalV1 bytes with
  | some j => .ok (.inference j)
  | none =>
    match (roundTrips R TmailAnonMembershipV1 bytes).filter
        (·.journalKind == tmailAnonJournalKind) with
    | some j => .ok (.tmailAnon j)
    | none =>
      match roundTrips R ZkCourtJournalV1 bytes with
      | some j => .ok (.zkCourt j)
      | none => .error
        "journal is not a recognised TET journal type (expected risc0-serde encoding)".toList

namespace VerifiedZkJournal

/-- The bytes a guest commits for a journal. -/
def encode : VerifiedZkJournal → Option Bytes
  | .inference j => encodeJournal R InferenceJournalV1 j
  | .zkCourt j => encodeJournal R ZkCourtJournalV1 j
  | .tmailAnon j => encodeJournal R TmailAnonMembershipV1 j

/-- A membership journal has its kind. -/
def RightKind : VerifiedZkJournal → Prop
  | .tmailAnon j => j.journalKind = tmailAnonJournalKind
  | _ => True

end VerifiedZkJournal

variable {R} {T : Type} [WordForm T] {bytes : Bytes}

theorem encodeJournal_eq (hR : R.WordAligned) (t : T) :
    encodeJournal R T t = some (wordBytes (WordForm.words t)) := by
  rw [encodeJournal, hR.toVec_eq, Option.map_some]

theorem length_encodeJournal (hR : R.WordAligned) {t : T} (h : encodeJournal R T t = some bytes) :
    bytes.length = 4 * WordForm.width T := by
  rw [encodeJournal_eq hR, Option.some.injEq] at h
  rw [← h, length_wordBytes, WordForm.length_words]

/-- What round-trips is the encoding. -/
theorem roundTrips_eq_some (hR : R.WordAligned) {t : T} :
    roundTrips R T bytes = some t ↔ encodeJournal R T t = some bytes := by
  unfold roundTrips
  simp only [Option.bind_eq_bind, Option.bind_eq_some_iff, encodeJournal_eq hR, Option.some.injEq]
  constructor
  · rintro ⟨decoded, -, re, rfl, h⟩
    split at h
    · rename_i hre
      cases h
      exact hre
    · cases h
  · rintro rfl
    exact ⟨t, (hR.fromSlice_eq T _ t).mpr (List.prefix_refl _), _, rfl, if_pos rfl⟩

/-- A value is no candidate for bytes of another length. -/
theorem roundTrips_eq_none (hR : R.WordAligned) (h : bytes.length ≠ 4 * WordForm.width T) :
    roundTrips R T bytes = none := by
  rw [Option.eq_none_iff_forall_ne_some]
  intro t ht
  exact h (length_encodeJournal hR ((roundTrips_eq_some hR).mp ht))

theorem width_inference : WordForm.width InferenceJournalV1 = 98 := rfl

theorem width_zkCourt : WordForm.width ZkCourtJournalV1 = 66 := rfl

theorem width_tmailAnon : WordForm.width TmailAnonMembershipV1 = 131 := rfl

/-- **Decoding inverts encoding.** Bytes decode to a journal exactly if they are what risc0 serde writes for
it and a membership journal has its kind; so two such journals with the same bytes are the same. -/
theorem decodeJournalBytes_eq_ok (hR : R.WordAligned) :
    (∀ (bytes : Bytes) (v : VerifiedZkJournal),
      decodeJournalBytes R bytes = .ok v ↔ v.encode R = some bytes ∧ v.RightKind) ∧
    (∀ v : VerifiedZkJournal, ∃ bytes, v.encode R = some bytes) ∧
    ∀ v w : VerifiedZkJournal, v.RightKind → w.RightKind → v.encode R = w.encode R → v = w := by
  have hiff : ∀ (bytes : Bytes) (v : VerifiedZkJournal),
      decodeJournalBytes R bytes = .ok v ↔ v.encode R = some bytes ∧ v.RightKind := by
    intro bytes v
    constructor
    · intro h
      unfold decodeJournalBytes at h
      split at h
      · rename_i j hj
        cases h
        exact ⟨(roundTrips_eq_some hR).mp hj, trivial⟩
      · split at h
        · rename_i j hj
          cases h
          obtain ⟨hj, hkind⟩ := Option.filter_eq_some_iff.mp hj
          exact ⟨(roundTrips_eq_some hR).mp hj, eq_of_beq hkind⟩
        · split at h
          · rename_i j hj
            cases h
            exact ⟨(roundTrips_eq_some hR).mp hj, trivial⟩
          · cases h
    · rintro ⟨henc, hkind⟩
      unfold decodeJournalBytes
      cases v with
      | inference j => rw [(roundTrips_eq_some hR).mpr henc]
      | tmailAnon j =>
        have hlen := length_encodeJournal hR henc
        rw [width_tmailAnon] at hlen
        rw [roundTrips_eq_none hR (by rw [hlen, width_inference]; decide),
          (roundTrips_eq_some hR).mpr henc, Option.filter_some, if_pos (beq_iff_eq.mpr hkind)]
      | zkCourt j =>
        have hlen := length_encodeJournal hR henc
        rw [width_zkCourt] at hlen
        rw [roundTrips_eq_none hR (by rw [hlen, width_inference]; decide),
          roundTrips_eq_none hR (by rw [hlen, width_tmailAnon]; decide),
          (roundTrips_eq_some hR).mpr henc]
        rfl
  have hencodes : ∀ v : VerifiedZkJournal, ∃ bytes, v.encode R = some bytes := by
    intro v
    cases v with
    | inference j => exact ⟨_, encodeJournal_eq hR j⟩
    | tmailAnon j => exact ⟨_, encodeJournal_eq hR j⟩
    | zkCourt j => exact ⟨_, encodeJournal_eq hR j⟩
  refine ⟨hiff, hencodes, fun v w hv hw h => ?_⟩
  obtain ⟨bytes, henc⟩ := hencodes v
  have hdecode := (hiff bytes v).mpr ⟨henc, hv⟩
  rw [(hiff bytes w).mpr ⟨h ▸ henc, hw⟩] at hdecode
  exact (Except.ok.inj hdecode).symm

end Decode

end TetCore.Journals

namespace TetCore.Sample

open TetCore.Lib TetCore.Journals

/-- A serde that is written and read by the words. -/
def wordSerde : Risc0Serde where
  toVec _ _ t := some (WordForm.words t)
  fromSlice T _ bytes := (byteWords bytes).bind fun ws => WordForm.ofWords (ws.take (WordForm.width T))

theorem wordSerde_wordAligned : wordSerde.WordAligned where
  toVec_eq _ _ _ := rfl
  fromSlice_eq T _ ws t := by
    show ((byteWords (wordBytes ws)).bind fun ws => WordForm.ofWords (ws.take (WordForm.width T))) =
      some t ↔ WordForm.words t <+: ws
    rw [byteWords_wordBytes, Option.bind_some]
    exact WordForm.take_eq_some

end TetCore.Sample

namespace TetCore.Journals

open TetCore.Lib

theorem decodeJournalBytes_eq_ok_words :
    (∀ (bytes : Bytes) (v : VerifiedZkJournal), decodeJournalBytes Sample.wordSerde bytes = .ok v ↔
      v.encode Sample.wordSerde = some bytes ∧ v.RightKind) ∧
    (∀ v : VerifiedZkJournal, ∃ bytes, v.encode Sample.wordSerde = some bytes) ∧
    ∀ v w : VerifiedZkJournal, v.RightKind → w.RightKind →
      v.encode Sample.wordSerde = w.encode Sample.wordSerde → v = w :=
  decodeJournalBytes_eq_ok Sample.wordSerde_wordAligned

end TetCore.Journals
