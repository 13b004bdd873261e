import TetCore.Journals

/-!
# The inference commitment

`zk_court_inference_commitment_v1` (`nexus-protocol`): SHA-256 over a domain, the prompt and the response,
each closed by the byte `0xff`, the FLOPs and the worker's key. Neither text contains that byte, as UTF-8
never does; the FLOPs and the key may, but they have a fixed length.

SHA-256 is a parameter.

* `commitmentBytes_injective`: what is hashed determines the transcript.
* `zkCourtInferenceCommitmentV1_eq_iff`: so does the commitment, unless SHA-256 collides on the two.
* `guestZkCourtCommitmentV1_eq_some`: the guest commits a journal exactly if the claimed commitment is
  that of its inputs.
-/

namespace TetCore.Journals

open TetCore.Lib

/-- What a commitment is over. -/
structure Transcript where
  prompt : Str
  response : Str
  flopsLe : UInt64
  workerPubkey : Bytes32
  deriving DecidableEq

/-- The domain of the commitment. -/
def zkCourtCommitDomain : Bytes := utf8 "TET_ZK_COURT_COMMIT_V1".toList

/-- The bytes that are hashed. -/
def commitmentBytes (t : Transcript) : Bytes :=
  zkCourtCommitDomain ++ (utf8 t.prompt ++ 0xff :: (utf8 t.response ++ 0xff ::
    (leBytes 8 t.flopsLe.toNat ++ t.workerPubkey.1)))

section Hash

variable (sha256 : Bytes → Bytes32)

/-- `zk_court_inference_commitment_v1`. -/
def zkCourtInferenceCommitmentV1 (t : Transcript) : Bytes32 := sha256 (commitmentBytes t)

/-- `guest_zk_court_commitment_v1`: the journal it commits, if its assertion holds. -/
def guestZkCourtCommitmentV1 (t : Transcript) (commitmentClaimed : Bytes32) :
    Option ZkCourtJournalV1 :=
  let computed := zkCourtInferenceCommitmentV1 sha256 t
  if computed = commitmentClaimed then some ⟨computed, t.flopsLe, t.workerPubkey⟩ else none

end Hash

/-! ## The bytes -/

/-- **What is hashed determines the transcript.** -/
theorem commitmentBytes_injective {t u : Transcript} (h : commitmentBytes t = commitmentBytes u) :
    t = u := by
  unfold commitmentBytes at h
  -- the texts end at the first byte that is no byte of a text
  obtain ⟨hprompt, h⟩ := cut_unique (ff_notMem_utf8 _) (ff_notMem_utf8 _) (List.append_cancel_left h)
  obtain ⟨hresponse, h⟩ := cut_unique (ff_notMem_utf8 _) (ff_notMem_utf8 _) h
  have hlen : (leBytes 8 t.flopsLe.toNat).length = (leBytes 8 u.flopsLe.toNat).length := by
    rw [leBytes_length, leBytes_length]
  obtain ⟨hflops, hkey⟩ := List.append_inj h hlen
  have hbound : ∀ n : UInt64, n.toNat < 256 ^ 8 := fun n => n.toNat_lt
  have hle := leBytes_injective (hbound _) (hbound _) hflops
  obtain ⟨prompt, response, flopsLe, workerPubkey⟩ := t
  rw [Transcript.mk.injEq]
  exact ⟨utf8_injective hprompt, utf8_injective hresponse, UInt64.toNat_inj.mp hle, Subtype.ext hkey⟩

/-! ## The commitment -/

section Commitment

variable {sha256 : Bytes → Bytes32}

/-- **The commitment fixes the transcript.** Where SHA-256 has no collision between the two that are
compared, commitments are equal only of equal prompts, responses, FLOPs and worker keys. -/
theorem zkCourtInferenceCommitmentV1_eq_iff {t u : Transcript}
    (hsha : sha256 (commitmentBytes t) = sha256 (commitmentBytes u) →
      commitmentBytes t = commitmentBytes u) :
    zkCourtInferenceCommitmentV1 sha256 t = zkCourtInferenceCommitmentV1 sha256 u ↔
      t.prompt = u.prompt ∧ t.response = u.response ∧ t.flopsLe = u.flopsLe ∧
        t.workerPubkey = u.workerPubkey := by
  constructor
  · intro h
    have htu := commitmentBytes_injective (hsha h)
    rw [htu]
    exact ⟨rfl, rfl, rfl, rfl⟩
  · rintro ⟨hprompt, hresponse, hflops, hkey⟩
    unfold zkCourtInferenceCommitmentV1 commitmentBytes
    rw [hprompt, hresponse, hflops, hkey]

/-- The guest's journal is of its inputs, and there is one for the right commitment alone. -/
theorem guestZkCourtCommitmentV1_eq_some {t : Transcript} {claimed : Bytes32} {j : ZkCourtJournalV1} :
    guestZkCourtCommitmentV1 sha256 t claimed = some j ↔
      claimed = zkCourtInferenceCommitmentV1 sha256 t ∧
        j = ⟨zkCourtInferenceCommitmentV1 sha256 t, t.flopsLe, t.workerPubkey⟩ := by
  unfold guestZkCourtCommitmentV1
  dsimp only
  by_cases h : zkCourtInferenceCommitmentV1 sha256 t = claimed
  · rw [if_pos h, Option.some.injEq]
    exact ⟨fun hj => ⟨h.symm, hj.symm⟩, fun hj => hj.2.symm⟩
  · rw [if_neg h]
    constructor
    · intro hj
      cases hj
    · rintro ⟨rfl, -⟩
      exact absurd rfl h

end Commitment

end TetCore.Journals

namespace TetCore.Sample

open TetCore.Lib TetCore.Journals

theorem length_padded (b : Bytes) : ((b.drop 22 ++ List.replicate 32 0).take 32).length = 32 := by
  rw [List.length_take, List.length_append, List.length_replicate]
  omega

/-- The first bytes after the domain, in place of a digest. -/
def firstBytes (b : Bytes) : Bytes32 := ⟨(b.drop 22 ++ List.replicate 32 0).take 32, length_padded b⟩

/-- A key of sevens. -/
def sevenKey : Bytes32 := ⟨List.replicate 32 7, List.length_replicate⟩

def askedAb : Transcript := ⟨"ab".toList, [], 3, sevenKey⟩

def askedA : Transcript := ⟨"a".toList, "b".toList, 3, sevenKey⟩

theorem asked_apart : firstBytes (commitmentBytes askedAb) ≠ firstBytes (commitmentBytes askedA) := by
  decide +kernel

end TetCore.Sample

namespace TetCore.Journals

/-- A letter of the response is no letter of the prompt. -/
theorem zkCourtInferenceCommitmentV1_moved :
    zkCourtInferenceCommitmentV1 Sample.firstBytes Sample.askedAb =
        zkCourtInferenceCommitmentV1 Sample.firstBytes Sample.askedA ↔
      Sample.askedAb.prompt = Sample.askedA.prompt ∧ Sample.askedAb.response = Sample.askedA.response ∧
        Sample.askedAb.flopsLe = Sample.askedA.flopsLe ∧
        Sample.askedAb.workerPubkey = Sample.askedA.workerPubkey :=
  zkCourtInferenceCommitmentV1_eq_iff fun h => absurd h Sample.asked_apart

end TetCore.Journals
