import TetCore.Auth
import TetCore.Consensus.Block
import TetCore.Ledger.Markers
import TetCore.Ledger.UndoInverse

/-!
# What a transaction hash says about the effect

`tx_hash_for_env` hashes the signed bytes. For every serialized kind the bytes determine the
transaction. They do not determine two things that the apply stores: the prompt of an inference
request as it was written (its digest is taken of the trimmed text) and the Ed25519 key of a proof
(`processed_by`). `same_effect_iff` says that these are all: two verified and validated envelopes
with one hash can stand for each other in every block exactly when they agree in what is stored of
the two.
-/

namespace TetCore

open TetCore.Lib

/-- The checks a transaction goes through, by its kind: those of `compute_reward_for_block` and of
`apply_worker_register`. -/
def validateTx (W : World) (tx : TxV1) : Except String Unit :=
  match tx with
  | .enterpriseInference _ _ _ _ _ _ _ _ => validateEnterpriseInferenceTx W tx
  | .workerRegister walletId hardwareIdHex hardwareProfile capabilities tflopsDeclared =>
    validateWorkerRegisterFields walletId hardwareIdHex hardwareProfile capabilities tflopsDeclared
  | .verifyZkProof _ imageId journalB64 receiptB64 => do
    let _ ← W.verifyTxReceiptAndJournal imageId journalB64 receiptB64
    .ok ()
  | _ => .ok ()

namespace Ledger

variable {W : World} {L : Ledger} {nowMs height : Nat}

/-- The same result: one error, or one state root and ledgers that read the same. -/
def SameOutcome : Except LedgerError (Str × Ledger) → Except LedgerError (Str × Ledger) → Prop
  | .ok (root, L), .ok (root', L') => root = root' ∧ ReadEq L L'
  | .error e, .error e' => e = e'
  | _, _ => False

/-- Replacing one envelope by the other changes no block, on any ledger. -/
def SameEffect (W : World) (e e' : SignedTxEnvelopeV1) : Prop :=
  ∀ (L : Ledger) (nowMs height : Nat) (before after : List SignedTxEnvelopeV1) (hashes : List Str)
    (producer : Str) (reward : Nat), SameOutcome
      (applyConsensusBlockBatch W nowMs height (before ++ e :: after) hashes producer reward L)
      (applyConsensusBlockBatch W nowMs height (before ++ e' :: after) hashes producer reward L)

/-- Agreement in what the apply stores of an envelope beyond its signed bytes: the prompt of an
inference request, and the signer of a proof that settles a task. -/
def SameStored (W : World) (e e' : SignedTxEnvelopeV1) : Prop :=
  match e.tx, e'.tx with
  | .enterpriseInference _ prompt _ _ _ _ _ _, .enterpriseInference _ prompt' _ _ _ _ _ _ =>
    prompt = prompt'
  | .verifyZkProof taskId imageId _ _, .verifyZkProof _ _ _ _ =>
    trim taskId ≠ [] → imageId = W.nexusGuestId →
      trimLower e.sig.ed25519PubkeyHex = trimLower e'.sig.ed25519PubkeyHex
  | _, _ => True

theorem SameOutcome.refl (x : Except LedgerError (Str × Ledger)) : SameOutcome x x := by
  cases x with
  | error e => exact rfl
  | ok r => exact ⟨rfl, ReadEq.refl r.2⟩

/-! ## Replacing a transaction -/

/-- Envelopes that every transaction step treats alike. -/
def SameStep (W : World) (e e' : SignedTxEnvelopeV1) : Prop :=
  ∀ (L : Ledger) (nowMs height : Nat) (b : Batch) (txHash : Str),
    applyTx .saturating W L nowMs height b e txHash =
      applyTx .saturating W L nowMs height b e' txHash

theorem SameStep.applyTxs {e e' : SignedTxEnvelopeV1} (h : SameStep W e e')
    (after : List SignedTxEnvelopeV1) : ∀ (before : List SignedTxEnvelopeV1) (hashes : List Str)
    (b : Batch), applyTxs .saturating W L nowMs height ((before ++ e :: after).zip hashes) b =
      applyTxs .saturating W L nowMs height ((before ++ e' :: after).zip hashes) b := by
  intro before
  induction before with
  | nil =>
    intro hashes b
    cases hashes with
    | nil => rfl
    | cons x hashes =>
      simp only [List.nil_append, List.zip_cons_cons, Ledger.applyTxs]
      rw [h]
  | cons a before ih =>
    intro hashes b
    cases hashes with
    | nil => rfl
    | cons x hashes =>
      simp only [List.cons_append, List.zip_cons_cons, Ledger.applyTxs]
      congr 1
      funext b'
      exact ih hashes b'

theorem SameStep.sameEffect {e e' : SignedTxEnvelopeV1} (h : SameStep W e e') :
    SameEffect W e e' := by
  intro L nowMs height before after hashes producer reward
  have heq : applyConsensusBlockBatch W nowMs height (before ++ e :: after) hashes producer reward L =
      applyConsensusBlockBatch W nowMs height (before ++ e' :: after) hashes producer reward L := by
    unfold applyConsensusBlockBatch applyConsensusBlockBatchWith blockBatch
    rw [h.applyTxs after before hashes, List.length_append, List.length_append, List.length_cons,
      List.length_cons]
  rw [heq]
  exact SameOutcome.refl _

/-- The signer of a proof is stored only with a task it settles. -/
theorem applyVerifyZkProof_signer {b : Batch} {signer signer' taskId journal receipt : Str}
    {imageId : List Nat}
    (h : trim taskId ≠ [] → imageId = W.nexusGuestId → trimLower signer = trimLower signer') :
    applyVerifyZkProof W L nowMs b signer taskId imageId journal receipt =
      applyVerifyZkProof W L nowMs b signer' taskId imageId journal receipt := by
  unfold applyVerifyZkProof
  by_cases himage : imageId = W.nexusGuestId
  · by_cases htask : trim taskId = []
    · simp only [htask, List.isEmpty_nil, if_true]
    · rw [h htask himage]
  · rw [require, if_neg himage, error_bind, error_bind]

section Arms

variable {b : Batch} {e : SignedTxEnvelopeV1} {txHash : Str}

theorem applyTx_verifyZkProof {taskId journal receipt : Str} {imageId : List Nat}
    (he : signerActsForItself e = true) (hk : e.tx = .verifyZkProof taskId imageId journal receipt) :
    applyTx .saturating W L nowMs height b e txHash =
      applyVerifyZkProof W L nowMs b e.sig.ed25519PubkeyHex taskId imageId journal receipt := by
  unfold applyTx
  rw [he, hk, require_of rfl]
  rfl

theorem applyTx_enterpriseInference {w p m ph : Str} {amount nonce flag : Nat} {att : Bool}
    (he : signerActsForItself e = true)
    (hk : e.tx = .enterpriseInference w p m amount nonce ph flag att) :
    applyTx .saturating W L nowMs height b e txHash = .ok (applyEnterpriseInference L b txHash
      (newAiWorkloadTask txHash height w p m amount ph flag)) := by
  unfold applyTx
  rw [he, hk, require_of rfl]
  rfl

end Arms

/-- One transaction under two signers who act for themselves. -/
theorem sameStep_of_tx {e e' : SignedTxEnvelopeV1} (he : signerActsForItself e = true)
    (he' : signerActsForItself e' = true) (htx : e.tx = e'.tx) (hst : SameStored W e e') :
    SameStep W e e' := by
  intro L nowMs height b txHash
  cases hk : e'.tx with
  | verifyZkProof tid img j r =>
    rw [SameStored, htx, hk] at hst
    rw [applyTx_verifyZkProof he (htx.trans hk), applyTx_verifyZkProof he' hk,
      applyVerifyZkProof_signer hst]
  | _ =>
    unfold applyTx
    rw [he, he', htx, hk]

/-- Inference requests with the same stored fields. -/
theorem sameStep_of_enterprise {e e' : SignedTxEnvelopeV1} {w w' p m m' ph ph' : Str}
    {amount nonce nonce' flag : Nat} {att att' : Bool} (he : signerActsForItself e = true)
    (he' : signerActsForItself e' = true)
    (hk : e.tx = .enterpriseInference w p m amount nonce ph flag att)
    (hk' : e'.tx = .enterpriseInference w' p m' amount nonce' ph' flag att')
    (hw : trimLower w = trimLower w') (hm : trim m = trim m') (hph : trimLower ph = trimLower ph') :
    SameStep W e e' := by
  intro L nowMs height b txHash
  rw [applyTx_enterpriseInference he hk, applyTx_enterpriseInference he' hk']
  simp only [newAiWorkloadTask, hw, hm, hph]

/-! ## Telling two envelopes apart -/

/-- A block of one transaction, without a reward. -/
theorem apply_single {env : SignedTxEnvelopeV1} {txHash : Str} {b : Batch}
    (h : applyTx .saturating W L nowMs height (startBatch L) env txHash = .ok b) :
    ∃ root L', applyConsensusBlockBatch W nowMs height [env] [txHash] [] 0 L = .ok (root, L') ∧
      ∀ k, k.isCounter = false → L'.metaTree.get k = (L.metaTree.applyBatch b.metaBatch).get k := by
  have hok : ∃ r, applyConsensusBlockBatch W nowMs height [env] [txHash] [] 0 L = .ok r := by
    unfold applyConsensusBlockBatch applyConsensusBlockBatchWith blockBatch
    simp [applyTxs, h, require, Batch.payReward, applyBlockRewardToBalanceMap]
  obtain ⟨⟨root, L'⟩, hr⟩ := hok
  obtain ⟨b', hb', hget⟩ := apply_meta hr
  simp only [List.zip_cons_cons, List.zip_nil_right, applyTxs, h, ok_bind, Except.ok.injEq] at hb'
  subst hb'
  exact ⟨root, L', hr, hget⟩

/-- Two envelopes with the same effect leave the same rows. -/
theorem SameEffect.rows {e e' : SignedTxEnvelopeV1} {b b' : Batch} (h : SameEffect W e e')
    (L : Ledger) (nowMs height : Nat) (txHash : Str)
    (hb : applyTx .saturating W L nowMs height (startBatch L) e txHash = .ok b)
    (hb' : applyTx .saturating W L nowMs height (startBatch L) e' txHash = .ok b') {k : MetaKey}
    (hk : k.isCounter = false) :
    (L.metaTree.applyBatch b.metaBatch).get k = (L.metaTree.applyBatch b'.metaBatch).get k := by
  obtain ⟨root, L₁, hr, hget⟩ := apply_single hb
  obtain ⟨root', L₂, hr', hget'⟩ := apply_single hb'
  have hsame := h L nowMs height [] [] [txHash] [] 0
  rw [List.nil_append, List.nil_append, hr, hr'] at hsame
  have hread := hsame.2.metaRows k
  simp only [readMeta, hk, Bool.false_eq_true, if_false] at hread
  rw [← hget k hk, ← hget' k hk, hread]

theorem prompt_of_sameEffect {e e' : SignedTxEnvelopeV1} {w w' p p' m m' ph ph' : Str}
    {amount amount' nonce nonce' flag flag' : Nat} {att att' : Bool}
    (he : signerActsForItself e = true) (he' : signerActsForItself e' = true)
    (hk : e.tx = .enterpriseInference w p m amount nonce ph flag att)
    (hk' : e'.tx = .enterpriseInference w' p' m' amount' nonce' ph' flag' att')
    (h : SameEffect W e e') : p = p' := by
  -- the first block of an empty ledger stores the task
  have hrow := h.rows Ledger.empty 0 1 [] (applyTx_enterpriseInference he hk)
    (applyTx_enterpriseInference he' hk') (k := aiWorkloadTxMetaKey []) rfl
  have hput : ∀ t, ((Ledger.empty).metaTree.applyBatch (applyEnterpriseInference Ledger.empty
      (startBatch Ledger.empty) [] t).metaBatch).get (aiWorkloadTxMetaKey []) =
        some (.task t) := fun t => rfl
  rw [hput, hput] at hrow
  have htask := MetaVal.task.inj (Option.some.inj hrow)
  exact congrArg AiWorkloadTask.prompt htask

/-- A proof for an open task writes the task last. -/
theorem applyVerifyZkProof_open {taskId : Str} {imageId : List Nat} {task : AiWorkloadTask}
    (nowMs : Nat) (b : Batch) (signer journal receipt : Str) (himg : imageId = W.nexusGuestId)
    (htask : trim taskId ≠ [])
    (hget : L.metaTree.get (aiWorkloadTxMetaKey taskId) = some (.task task))
    (hopen : task.processed = false) :
    ∃ b₁ : Batch, applyVerifyZkProof W L nowMs b signer taskId imageId journal receipt =
      .ok (b₁.putMeta (aiWorkloadTxMetaKey taskId) (.task { task with
        processed := true
        processedBy := some (trimLower signer)
        processedReceiptHashHex := some (W.sha256Hex (utf8 receipt))
        processedAtMs := some nowMs })) := by
  unfold applyVerifyZkProof
  rw [require_of himg, ok_bind, if_neg (by rwa [List.isEmpty_iff])]
  simp only [hget, hopen, Bool.false_eq_true, if_false]
  exact ⟨_, rfl⟩

/-- A task nobody has processed. -/
def openTask : AiWorkloadTask := newAiWorkloadTask [] 1 [] [] [] 1 [] 1

theorem signer_of_sameEffect {e e' : SignedTxEnvelopeV1} {tid j r : Str} {img : List Nat}
    (he : signerActsForItself e = true) (he' : signerActsForItself e' = true)
    (hk : e.tx = .verifyZkProof tid img j r) (hk' : e'.tx = .verifyZkProof tid img j r)
    (htask : trim tid ≠ []) (himg : img = W.nexusGuestId) (h : SameEffect W e e') :
    trimLower e.sig.ed25519PubkeyHex = trimLower e'.sig.ed25519PubkeyHex := by
  -- a ledger where the task is open
  let L : Ledger := { Ledger.empty with
    metaTree := Tree.empty.insert (aiWorkloadTxMetaKey tid) (.task openTask) }
  have hget : L.metaTree.get (aiWorkloadTxMetaKey tid) = some (.task openTask) :=
    Tree.get_insert_self _ _ _
  obtain ⟨b₁, hb⟩ := applyVerifyZkProof_open 0 (startBatch L) e.sig.ed25519PubkeyHex j r himg htask
    hget rfl
  obtain ⟨b₂, hb'⟩ := applyVerifyZkProof_open 0 (startBatch L) e'.sig.ed25519PubkeyHex j r himg
    htask hget rfl
  have hrow := h.rows L 0 1 [] ((applyTx_verifyZkProof he hk).trans hb)
    ((applyTx_verifyZkProof he' hk').trans hb') (k := aiWorkloadTxMetaKey tid) rfl
  have hput : ∀ (b : Batch) (v : MetaVal), (L.metaTree.applyBatch
      (b.putMeta (aiWorkloadTxMetaKey tid) v).metaBatch).get (aiWorkloadTxMetaKey tid) = some v := by
    intro b v
    rw [Batch.putMeta, Tree.applyBatch_append, Tree.applyBatch_cons, Tree.applyBatch_nil,
      Tree.get_insert_self]
  rw [hput, hput] at hrow
  have hrec := MetaVal.task.inj (Option.some.inj hrow)
  exact Option.some.inj (congrArg AiWorkloadTask.processedBy hrec)

end Ledger

/-! ## What one hash leaves open -/

namespace Consensus

open TetCore.Ledger (SameEffect SameStored)

variable {W : World} {A : Auth} {e e' : SignedTxEnvelopeV1} {h : Str}

/-- The signed bytes of an envelope. -/
def signedBytes (A : Auth) (e : SignedTxEnvelopeV1) : Bytes :=
  A.txV1AuthMessageBytes e.tx e.sig.mldsaPubkeyB64

/-- A verified envelope: its hash, its signer and its ML-DSA key. -/
theorem verified_of_hash (hA : A.Lawful) (hh : txHashForEnv (W.signing A) e = .ok h) :
    h = '0' :: 'x' :: W.sha256Hex (signedBytes A e) ∧ signerActsForItself e = true ∧
      '|' ∉ trim e.sig.mldsaPubkeyB64 := by
  simp only [txHashForEnv, bind_eq_ok, Except.ok.injEq] at hh
  obtain ⟨bytes, hbytes, rfl⟩ := hh
  obtain ⟨rfl, hmldsa, hsigner⟩ := Auth.verifyEnvelopeV1_ok hbytes
  exact ⟨rfl, hsigner, hA.mldsa_base64 _ _ _ hmldsa⟩

/-- A validated transaction has finite numbers. -/
theorem finite_of_validateTx {tx : TxV1} (hv : validateTx W tx = .ok ()) : tx.finite = true := by
  cases tx with
  | workerRegister w hw hp caps tf =>
    simp only [validateTx, validateWorkerRegisterFields] at hv
    split_ifs at hv with _ _ _ _ _ hbad
    simp only [Bool.or_eq_true, Bool.not_eq_true', not_or, Bool.not_eq_false] at hbad
    exact hbad.1
  | _ => rfl

/-- A validated inference request: its wallet and its digest are hex texts. -/
theorem enterprise_of_validateTx {w p m ph : Str} {amount nonce flag : Nat} {att : Bool}
    (hv : validateTx W (.enterpriseInference w p m amount nonce ph flag att) = .ok ()) :
    '|' ∉ trimLower w ∧ '|' ∉ trimLower ph ∧ flag = 1 := by
  simp only [validateTx, validateEnterpriseInferenceTx, bind_eq_ok, require_eq_ok] at hv
  obtain ⟨_, hw, _, -, _, -, _, -, _, hflag, hph⟩ := hv
  rw [isHex64, Bool.and_eq_true] at hw
  refine ⟨notMem_of_hexdigit rfl hw.2, ?_, hflag⟩
  rw [← hph]
  exact notMem_of_hexdigit rfl (hexEncode_all _)

/-- Two inference requests over the same bytes. -/
theorem same_effect_iff_prompt {w w' p p' m m' ph ph' : Str}
    {amount amount' nonce nonce' flag flag' : Nat} {att att' : Bool}
    (hs : signerActsForItself e = true) (hs' : signerActsForItself e' = true)
    (hm : '|' ∉ trim e.sig.mldsaPubkeyB64) (hm' : '|' ∉ trim e'.sig.mldsaPubkeyB64)
    (hk : e.tx = .enterpriseInference w p m amount nonce ph flag att)
    (hk' : e'.tx = .enterpriseInference w' p' m' amount' nonce' ph' flag' att')
    (hv : validateTx W e.tx = .ok ()) (hv' : validateTx W e'.tx = .ok ())
    (htext : A.txV1AuthMessage e.tx e.sig.mldsaPubkeyB64 =
      A.txV1AuthMessage e'.tx e'.sig.mldsaPubkeyB64) :
    SameEffect W e e' ↔ p = p' := by
  rw [hk] at hv htext
  rw [hk'] at hv' htext
  obtain ⟨hw, hph, hflag⟩ := enterprise_of_validateTx hv
  obtain ⟨hw', hph', hflag'⟩ := enterprise_of_validateTx hv'
  obtain ⟨h₁, -, h₃, h₄, h₅⟩ := Auth.enterprise_injective hw hw' hph hph' hm hm' htext
  constructor
  · exact Ledger.prompt_of_sameEffect hs hs' hk hk'
  · intro hp
    subst hp h₃ hflag hflag'
    exact (Ledger.sameStep_of_enterprise hs hs' hk hk' h₁ h₅ h₄).sameEffect

/-- Two envelopes of one transaction. -/
theorem same_effect_iff_signer (hs : signerActsForItself e = true)
    (hs' : signerActsForItself e' = true) (hne : e.tx.isEnterprise = false) (htx : e.tx = e'.tx) :
    SameEffect W e e' ↔ SameStored W e e' := by
  constructor
  · intro hsame
    unfold SameStored
    rw [← htx]
    cases hk : e.tx with
    | enterpriseInference w p m amount nonce ph flag att =>
      exact absurd (hk ▸ hne) Bool.noConfusion
    | verifyZkProof tid img j r =>
      intro htask himg
      exact Ledger.signer_of_sameEffect hs hs' hk (htx.symm.trans hk) htask himg hsame
    | _ => trivial
  · exact fun hst => (Ledger.sameStep_of_tx hs hs' htx hst).sameEffect

/-- **One hash, one effect.** Two verified and validated envelopes with one hash, whose signed bytes
SHA-256 tells apart if they differ, can stand for each other in every block if and only if they
agree in the stored prompt and in the stored signer. -/
theorem same_effect_iff (hA : A.Lawful)
    (hsha : W.sha256 (signedBytes A e) = W.sha256 (signedBytes A e') →
      signedBytes A e = signedBytes A e')
    (he : txHashForEnv (W.signing A) e = .ok h) (he' : txHashForEnv (W.signing A) e' = .ok h)
    (hv : validateTx (W.signing A) e.tx = .ok ()) (hv' : validateTx (W.signing A) e'.tx = .ok ()) :
    SameEffect (W.signing A) e e' ↔ SameStored (W.signing A) e e' := by
  obtain ⟨hh, hs, hm⟩ := verified_of_hash hA he
  obtain ⟨hh', hs', hm'⟩ := verified_of_hash hA he'
  rw [hh, List.cons.injEq, List.cons.injEq] at hh'
  have htext := utf8_injective (hsha (hexEncode_injective hh'.2.2))
  cases hk : e.tx.isEnterprise with
  | false =>
    cases hk' : e'.tx.isEnterprise with
    | false =>
      have htx := Auth.serialized_injective hA hk hk' (finite_of_validateTx hv)
        (finite_of_validateTx hv') hm hm' htext
      exact same_effect_iff_signer hs hs' hk htx
    | true => exact absurd htext.symm (Auth.txV1AuthMessage_ne hk' hk)
  | true =>
    cases hk' : e'.tx.isEnterprise with
    | false => exact absurd htext (Auth.txV1AuthMessage_ne hk hk')
    | true =>
      obtain ⟨w, p, m, amount, nonce, ph, flag, att, htx⟩ := TxV1.eq_enterprise hk
      obtain ⟨w', p', m', amount', nonce', ph', flag', att', htx'⟩ := TxV1.eq_enterprise hk'
      rw [same_effect_iff_prompt hs hs' hm hm' htx htx' hv hv' htext, SameStored, htx, htx']

end Consensus

namespace Sample

/-- `alice` asks for an inference, the wallet, the prompt and the model spelled as given. -/
def request (walletId prompt model : Str) : SignedTxEnvelopeV1 :=
  signedWith (.enterpriseInference walletId prompt model 1 1
    (hexEncode (digest (utf8 (trim prompt)))) 1 false) alice "key1".toList

end Sample

namespace Consensus

open TetCore.Ledger (SameEffect)

/-- Blanks around the model and the case of the wallet make no difference. -/
theorem same_effect_iff_spelling :
    let W := World.sample 0
    let e := Sample.request Sample.alice "p".toList "m".toList
    let e' := Sample.request (Sample.wallet 'A') "p".toList " m ".toList
    e ≠ e' ∧ txHashForEnv (W.signing Sample.auth) e = txHashForEnv (W.signing Sample.auth) e' ∧
      SameEffect (W.signing Sample.auth) e e' := by
  intro W e e'
  have hall : e ≠ e' ∧ txHashForEnv (W.signing Sample.auth) e =
        .ok (valueOr (txHashForEnv (W.signing Sample.auth) e) []) ∧
      txHashForEnv (W.signing Sample.auth) e' =
        .ok (valueOr (txHashForEnv (W.signing Sample.auth) e) []) ∧
      signedBytes Sample.auth e = signedBytes Sample.auth e' ∧
      validateTx (W.signing Sample.auth) e.tx = .ok () ∧
      validateTx (W.signing Sample.auth) e'.tx = .ok () := by
    decide +kernel
  obtain ⟨hne, he, he', hbytes, hv, hv'⟩ := hall
  refine ⟨hne, he.trans he'.symm, ?_⟩
  exact (same_effect_iff Sample.auth_lawful (fun _ => hbytes) he he' hv hv').mpr rfl

/-- A blank before the prompt is stored, and not hashed. -/
theorem hash_hides_prompt : ¬ ∀ (W : World) (A : Auth) (e e' : SignedTxEnvelopeV1) (h : Str),
    A.Lawful → (W.sha256 (signedBytes A e) = W.sha256 (signedBytes A e') →
      signedBytes A e = signedBytes A e') →
    txHashForEnv (W.signing A) e = .ok h → txHashForEnv (W.signing A) e' = .ok h →
    validateTx (W.signing A) e.tx = .ok () → validateTx (W.signing A) e'.tx = .ok () →
    SameEffect (W.signing A) e e' := by
  intro hclaim
  let W := World.sample 0
  let e := Sample.request Sample.alice "p".toList "m".toList
  let e' := Sample.request Sample.alice " p".toList "m".toList
  have hall : txHashForEnv (W.signing Sample.auth) e =
        .ok (valueOr (txHashForEnv (W.signing Sample.auth) e) []) ∧
      txHashForEnv (W.signing Sample.auth) e' =
        .ok (valueOr (txHashForEnv (W.signing Sample.auth) e) []) ∧
      signedBytes Sample.auth e = signedBytes Sample.auth e' ∧
      validateTx (W.signing Sample.auth) e.tx = .ok () ∧
      validateTx (W.signing Sample.auth) e'.tx = .ok () ∧
      signerActsForItself e = true ∧ signerActsForItself e' = true := by
    decide +kernel
  obtain ⟨he, he', hbytes, hv, hv', hs, hs'⟩ := hall
  have hsame := hclaim W Sample.auth e e' _ Sample.auth_lawful (fun _ => hbytes) he he' hv hv'
  exact absurd (Ledger.prompt_of_sameEffect hs hs' rfl rfl hsame) (by decide)

end Consensus

end TetCore
