import TetCore.Auth
import TetCore.Lib.Evict

/-!
# Mempool admission

Model of `enqueue_without_broadcast` (`rest/state.rs`) with the checks it makes (`tx_admissible`,
`tx_affordable` of `consensus.rs`): size and byte caps, and eviction of the lowest fee first. The
mempool is the state of a `Proc`, so an error leaves what was evicted before it.

`mempool_admission`: an error leaves the mempool alone exactly when the transactions that score
below the incoming one suffice to make room, or there are none, or a check refuses it first; an
admission evicts lowest first and only what scores below; and admissions stay within both caps.
-/

namespace TetCore

open TetCore.Lib

/-- `serde_json::to_vec` on an envelope, as text. -/
def SignedTxEnvelopeV1.json (A : Auth) (env : SignedTxEnvelopeV1) : Str :=
  Json.record [("v".toList, Json.decimal env.v), ("tx".toList, env.tx.json A),
    ("sig".toList, Json.record [("ed25519_pubkey_hex".toList, Json.quote env.sig.ed25519PubkeyHex),
      ("ed25519_sig_b64".toList, Json.quote env.sig.ed25519SigB64),
      ("mldsa_pubkey_b64".toList, Json.quote env.sig.mldsaPubkeyB64),
      ("mldsa_sig_b64".toList, Json.quote env.sig.mldsaSigB64)]),
    ("attestation".toList, Json.record [("platform".toList, Json.quote env.attestation.platform),
      ("report_b64".toList, Json.quote env.attestation.reportB64)])]

namespace Mempool

/-- `MempoolEnqueueError`. -/
inductive MempoolEnqueueError where
  | txTooLarge (bytes maxBytes : Nat)
  | full (txs bytes : Nat)
  | invalid (why : String)
  deriving DecidableEq

/-- The caps: `TET_MEMPOOL_MAX_TXS` and `TET_MEMPOOL_MAX_BYTES`, where they are numbers. -/
structure Caps where
  maxTxsVar : Option Nat
  maxBytesVar : Option Nat

/-- `mempool_max_txs`. -/
def mempoolMaxTxs (c : Caps) : Nat := (c.maxTxsVar.filter fun v => decide (0 < v)).getD 10000

/-- `mempool_max_bytes`. -/
def mempoolMaxBytes (c : Caps) : Nat :=
  (c.maxBytesVar.filter fun v => decide (0 < v)).getD (64 * 1024 * 1024)

/-- `tx_estimated_bytes`. -/
def txEstimatedBytes (A : Auth) (env : SignedTxEnvelopeV1) : Nat := (utf8 (env.json A)).length

/-- `tx_fee_score`. -/
def txFeeScore (env : SignedTxEnvelopeV1) : Nat :=
  match env.tx with
  | .transfer _ _ amountMicro feeBps =>
    match charge (.transfer feeBps) amountMicro with
    | .ok s => s.feeMicro
    | .error _ => 0
  | .enterpriseInference _ _ _ amountMicro _ _ _ _ => amountMicro
  | .fileFee _ _ _ feeMicro => feeMicro
  | .workerRegister _ _ _ _ _ => 1
  | _ => 0

/-- `tx_admissible`. -/
def txAdmissible (env : SignedTxEnvelopeV1) : Except String Unit := do
  require (signerActsForItself env = true) "signer must be the wallet the transaction acts for"
  match env.tx with
  | .transfer fromWallet toWallet amountMicro feeBps => do
    require ((trim fromWallet).isEmpty = false ∧ (trim toWallet).isEmpty = false) "from/to required"
    require (amountMicro ≠ 0 ∧ amountMicro ≤ maxSupplyMicro) "amount exceeds hard cap"
    let _ ← (charge (.transfer feeBps) amountMicro).mapError FeeError.text
    .ok ()
  | _ => .ok ()

/-- The amounts of a wallet's transfers that wait in the mempool, added up. -/
def waitingMicro (fromWallet : Str) (pending : List SignedTxEnvelopeV1) : Nat :=
  pending.foldl (fun acc e => match e.tx with
    | .transfer f _ a _ => if eqIgnoreAsciiCase (trim f) fromWallet then satAdd acc a else acc
    | _ => acc) 0

/-- `tx_affordable`. -/
def txAffordable (L : Ledger) (nowMs : Nat) (env : SignedTxEnvelopeV1)
    (pending : List SignedTxEnvelopeV1) : Except String Unit :=
  match env.tx with
  | .transfer fromWallet _ amountMicro _ => do
    let fromK := trimLower fromWallet
    let bal := Ledger.amountAt L.balances fromK
    let locked ← (L.lockedBalanceMicro .saturating fromK nowMs).mapError LedgerError.text
    require (satAdd (waitingMicro fromK pending) amountMicro ≤ bal - locked)
      "insufficient funds for this transfer (counting the sender's pending transfers)"
  | _ => .ok ()

/-- The checks before anything is evicted: admissible, small enough, affordable. -/
def admissionChecks (A : Auth) (c : Caps) (L : Ledger) (nowMs : Nat) (env : SignedTxEnvelopeV1)
    (mp : List SignedTxEnvelopeV1) : Except MempoolEnqueueError Unit := do
  (txAdmissible env).mapError .invalid
  require (txEstimatedBytes A env ≤ mempoolMaxBytes c)
    (.txTooLarge (txEstimatedBytes A env) (mempoolMaxBytes c))
  (txAffordable L nowMs env mp).mapError .invalid

/-- `enqueue_without_broadcast`: whether something was evicted. -/
def enqueueWithoutBroadcast (A : Auth) (c : Caps) (L : Ledger) (nowMs : Nat)
    (env : SignedTxEnvelopeV1) : Proc (List SignedTxEnvelopeV1) MempoolEnqueueError Bool :=
  fun mp =>
    match admissionChecks A c L nowMs env mp with
    | .error e => (.err e, mp)
    | .ok _ =>
      let incomingBytes := txEstimatedBytes A env
      let (refused, mp, totalBytes, evicted) := evictLoop txFeeScore (txEstimatedBytes A)
        (mempoolMaxTxs c) (mempoolMaxBytes c) incomingBytes (txFeeScore env) mp.length mp
        (totalSize (txEstimatedBytes A) mp) false
      if refused = true ∨ mempoolMaxTxs c ≤ mp.length ∨
          mempoolMaxBytes c < totalBytes + incomingBytes then
        (.err (.full mp.length totalBytes), mp)
      else (.ok evicted, mp ++ [env])

/-! ## What an admission does -/

/-- An error leaves the mempool alone; an admission evicts, lowest first, transactions that score
below the incoming one, and puts that one at the end. -/
def AdmissionCorrect (A : Auth) (c : Caps) (L : Ledger) (nowMs : Nat) (env : SignedTxEnvelopeV1)
    (mp : List SignedTxEnvelopeV1) : Prop :=
  (∀ e mp', enqueueWithoutBroadcast A c L nowMs env mp = (.err e, mp') → mp' = mp) ∧
    ∀ evicted mp', enqueueWithoutBroadcast A c L nowMs env mp = (.ok evicted, mp') →
      ∃ es rest, Evicts txFeeScore mp es rest ∧ (∀ e ∈ es, txFeeScore e < txFeeScore env) ∧
        mp' = rest ++ [env]

/-- There is no room for the envelope. -/
abbrev NoRoom (A : Auth) (c : Caps) (env : SignedTxEnvelopeV1) (mp : List SignedTxEnvelopeV1) :
    Prop :=
  Full (txEstimatedBytes A) (mempoolMaxTxs c) (mempoolMaxBytes c) (txEstimatedBytes A env) mp

/-- A check refuses the envelope, or nothing scores below it, or there is room without all that
does. -/
def EvictionSuffices (A : Auth) (c : Caps) (L : Ledger) (nowMs : Nat) (env : SignedTxEnvelopeV1)
    (mp : List SignedTxEnvelopeV1) : Prop :=
  (∃ e, admissionChecks A c L nowMs env mp = .error e) ∨
    (∀ e ∈ mp, txFeeScore env ≤ txFeeScore e) ∨
    ¬ NoRoom A c env (mp.filter fun e => txFeeScore env ≤ txFeeScore e)

/-- The mempools that admissions lead to from the empty one. -/
inductive Admissions (A : Auth) (c : Caps) : List SignedTxEnvelopeV1 → Prop where
  | empty : Admissions A c []
  | admitted (L : Ledger) (nowMs : Nat) (env : SignedTxEnvelopeV1) {mp : List SignedTxEnvelopeV1}
      (before : Admissions A c mp) :
      Admissions A c (enqueueWithoutBroadcast A c L nowMs env mp).2

section Admission

variable {A : Auth} {c : Caps} {L : Ledger} {nowMs : Nat} {env : SignedTxEnvelopeV1}
  {mp : List SignedTxEnvelopeV1}

theorem mempoolMaxTxs_pos (c : Caps) : 0 < mempoolMaxTxs c := by
  unfold mempoolMaxTxs
  cases h : c.maxTxsVar.filter fun v => decide (0 < v) with
  | none => decide
  | some v => exact of_decide_eq_true (Option.filter_eq_some_iff.mp h).2

/-- **An admission taken apart**: refused by a check, refused for want of room after evicting `es`,
or done. -/
theorem enqueue_cases (A : Auth) (c : Caps) (L : Ledger) (nowMs : Nat) (env : SignedTxEnvelopeV1)
    (mp : List SignedTxEnvelopeV1) :
    (∃ e, admissionChecks A c L nowMs env mp = .error e ∧
      enqueueWithoutBroadcast A c L nowMs env mp = (.err e, mp)) ∨
    admissionChecks A c L nowMs env mp = .ok () ∧ ∃ es rest, Evicts txFeeScore mp es rest ∧
      (∀ e ∈ es, txFeeScore e < txFeeScore env) ∧
      ((∃ e, enqueueWithoutBroadcast A c L nowMs env mp = (.err e, rest)) ∧ NoRoom A c env rest ∧
          (∀ e ∈ rest, txFeeScore env ≤ txFeeScore e) ∨
        (∃ evicted, enqueueWithoutBroadcast A c L nowMs env mp = (.ok evicted, rest ++ [env])) ∧
          ¬ NoRoom A c env rest) := by
  cases hchecks : admissionChecks A c L nowMs env mp with
  | error e =>
    refine Or.inl ⟨e, rfl, ?_⟩
    simp only [enqueueWithoutBroadcast, hchecks]
  | ok u =>
    refine Or.inr ⟨rfl, ?_⟩
    obtain ⟨es, rest, refused, evicted, hloop, hev, hes, href, hdone⟩ :=
      evictLoop_spec (Nat.le_refl mp.length)
    refine ⟨es, rest, hev, hes, ?_⟩
    simp only [enqueueWithoutBroadcast, hchecks]
    rw [hloop]
    simp only
    have hsize : txEstimatedBytes A env ≤ mempoolMaxBytes c := by
      simp only [admissionChecks, bind_eq_ok, require_eq_ok] at hchecks
      exact hchecks.choose_spec.2.choose_spec.1
    cases refused with
    | true =>
      obtain ⟨hfull, hrest⟩ := href rfl
      rw [if_pos (Or.inl rfl)]
      exact Or.inl ⟨⟨_, rfl⟩, hfull, hrest⟩
    | false =>
      -- an empty mempool has room
      have hroom : ¬ NoRoom A c env rest := by
        rcases hdone rfl with rfl | hroom
        · have hpos := mempoolMaxTxs_pos c
          rintro (hlen | hbytes)
          · rw [List.length_nil] at hlen
            omega
          · rw [totalSize, List.map_nil, List.sum_nil] at hbytes
            omega
        · exact hroom
      rw [if_neg]
      · exact Or.inr ⟨⟨_, rfl⟩, hroom⟩
      · rintro (hfalse | hfull)
        · cases hfalse
        · exact hroom hfull

theorem admissionCorrect_iff (A : Auth) (c : Caps) (L : Ledger) (nowMs : Nat)
    (env : SignedTxEnvelopeV1) (mp : List SignedTxEnvelopeV1) :
    AdmissionCorrect A c L nowMs env mp ↔ EvictionSuffices A c L nowMs env mp := by
  rcases enqueue_cases A c L nowMs env mp with
    ⟨e, hchecks, heq⟩ | ⟨hchecks, es, rest, hev, hes, ⟨⟨e, heq⟩, hfull, hrest⟩ | ⟨⟨b, heq⟩, hroom⟩⟩
  · refine iff_of_true ⟨fun e' mp' h => ?_, fun b mp' h => ?_⟩ (Or.inl ⟨e, hchecks⟩)
    · rw [heq] at h
      cases h
      rfl
    · rw [heq] at h
      cases h
  · -- refused for want of room: what is left is all that does not score below
    have hfilter := hev.filter_eq hes
    rw [List.filter_eq_self.mpr fun x hx => decide_eq_true (hrest x hx)] at hfilter
    constructor
    · intro hcorrect
      have hsame := hcorrect.1 e rest heq
      rw [hsame] at hrest
      exact Or.inr (Or.inl hrest)
    · rintro (⟨e', he'⟩ | hall | hroom)
      · rw [hchecks] at he'
        cases he'
      · have hall' : mp.filter (fun x => txFeeScore env ≤ txFeeScore x) = mp :=
          List.filter_eq_self.mpr fun x hx => decide_eq_true (hall x hx)
        rw [hall'] at hfilter
        refine ⟨fun e' mp' h => ?_, fun b mp' h => ?_⟩
        · rw [heq] at h
          cases h
          exact hfilter.symm
        · rw [heq] at h
          cases h
      · rw [hfilter] at hroom
        exact absurd hfull hroom
  · refine iff_of_true ⟨fun e' mp' h => ?_, fun b' mp' h => ?_⟩ (Or.inr (Or.inr fun hfull => ?_))
    · rw [heq] at h
      cases h
    · rw [heq] at h
      cases h
      exact ⟨es, rest, hev, hes, rfl⟩
    · -- what is left has room, and so has less
      rw [hev.filter_eq hes] at hfull
      exact hroom (hfull.mono List.filter_sublist)

/-- Within both caps. -/
def Capped (A : Auth) (c : Caps) (mp : List SignedTxEnvelopeV1) : Prop :=
  mp.length ≤ mempoolMaxTxs c ∧ totalSize (txEstimatedBytes A) mp ≤ mempoolMaxBytes c

theorem Capped.sublist {mp' : List SignedTxEnvelopeV1} (h : Capped A c mp)
    (hs : List.Sublist mp' mp) : Capped A c mp' :=
  ⟨Nat.le_trans hs.length_le h.1, Nat.le_trans (totalSize_sublist _ hs) h.2⟩

/-- One admission stays within the caps. -/
theorem Capped.enqueue (h : Capped A c mp) :
    Capped A c (enqueueWithoutBroadcast A c L nowMs env mp).2 := by
  rcases enqueue_cases A c L nowMs env mp with
    ⟨e, -, heq⟩ | ⟨-, es, rest, hev, -, ⟨⟨e, heq⟩, -, -⟩ | ⟨⟨b, heq⟩, hroom⟩⟩
  · rw [heq]
    exact h
  · rw [heq]
    exact h.sublist hev.sublist
  · rw [heq]
    unfold NoRoom Full at hroom
    constructor
    · rw [List.length_append, List.length_singleton]
      omega
    · rw [totalSize, List.map_append, List.sum_append, List.map_singleton, List.sum_singleton]
      unfold totalSize at hroom
      omega

theorem Admissions.capped (h : Admissions A c mp) : Capped A c mp := by
  induction h with
  | empty => exact ⟨Nat.zero_le _, Nat.zero_le _⟩
  | admitted L nowMs env _ ih => exact ih.enqueue

/-- **Mempool admission**: an error leaves the mempool alone and an admission evicts lowest first
exactly when the eviction suffices or is not begun, and admissions never exceed the caps. -/
theorem mempool_admission (A : Auth) (c : Caps) :
    (∀ L nowMs env mp, AdmissionCorrect A c L nowMs env mp ↔ EvictionSuffices A c L nowMs env mp) ∧
      ∀ mp, Admissions A c mp → Capped A c mp :=
  ⟨admissionCorrect_iff A c, fun _ h => h.capped⟩

end Admission

end Mempool

namespace Sample

/-- A file fee of `alice`. -/
def fileFee (fileId : Str) (feeMicro : Nat) : SignedTxEnvelopeV1 :=
  signed (.fileFee alice bob fileId feeMicro)

end Sample

namespace Mempool

/-- A mempool of two small transactions, and a large one whose fee is between theirs: the cheaper one
is evicted, and then there is still no room. -/
theorem admission_evicts_and_fails :
    let low := Sample.fileFee [] 1
    let high := Sample.fileFee [] 1000
    let big := Sample.fileFee (List.replicate 1000 'f') 10
    let c : Caps := ⟨none, some 1600⟩
    Admissions Sample.auth c [low, high] ∧
      (enqueueWithoutBroadcast Sample.auth c Sample.ledger 0 big [low, high]).1.isOk = false ∧
      (enqueueWithoutBroadcast Sample.auth c Sample.ledger 0 big [low, high]).2 = [high] ∧
      ¬ AdmissionCorrect Sample.auth c Sample.ledger 0 big [low, high] := by
  intro low high big c
  have hall : (enqueueWithoutBroadcast Sample.auth c Sample.ledger 0 low []).2 = [low] ∧
      (enqueueWithoutBroadcast Sample.auth c Sample.ledger 0 high [low]).2 = [low, high] ∧
      (enqueueWithoutBroadcast Sample.auth c Sample.ledger 0 big [low, high]).1.isOk = false ∧
      (enqueueWithoutBroadcast Sample.auth c Sample.ledger 0 big [low, high]).2 = [high] := by
    decide +kernel
  obtain ⟨hlow, hhigh, herr, hleft⟩ := hall
  have hpool : Admissions Sample.auth c [low, high] := by
    have hfirst := Admissions.admitted Sample.ledger 0 low (.empty : Admissions Sample.auth c [])
    rw [hlow] at hfirst
    have hsecond := Admissions.admitted Sample.ledger 0 high hfirst
    rw [hhigh] at hsecond
    exact hsecond
  have hne : [high] ≠ [low, high] := fun h => nomatch congrArg List.length h
  refine ⟨hpool, herr, hleft, fun hcorrect => ?_⟩
  rcases enqueue_cases Sample.auth c Sample.ledger 0 big [low, high] with
    ⟨e, -, heq⟩ | ⟨-, es, rest, -, -, ⟨⟨e, heq⟩, -, -⟩ | ⟨⟨b, heq⟩, -⟩⟩
  · rw [heq] at hleft
    exact hne hleft.symm
  · rw [heq] at hleft
    exact hne (hleft.symm.trans (hcorrect.1 e rest heq))
  · rw [heq] at herr
    cases herr

end Mempool

end TetCore
