import TetCore.Page.VerifyRecord

/-!
# Looking up a proof code

`proof_code.ts`, `findSignatures`: the answers of a node's registry are joined, of those with one proof
code and one length only the first is kept, and what is left is read, matched, verified and listed. The
SHA-256 is any function.

* `findSignatures_lists`: a lookup lists every distinct matching record once, with its own verdict, exactly
  if it does not throw on a kept record, and the first answer with the code and length of a matching record
  has its bytes and is between the dates.
* `findSignatures_hides`: two records with one code and one length: only the first is listed.
-/

namespace TetCore.Lib

/-! ## The first of each key -/

section KeepFirst

variable {α κ : Type} [DecidableEq κ] (key : α → κ)

/-- The items whose key was not seen before. -/
def keepFirst (seen : List κ) : List α → List α
  | [] => []
  | a :: l => if key a ∈ seen then keepFirst seen l else a :: keepFirst (key a :: seen) l

variable {key}

/-- What is kept is the first item with its key. -/
theorem mem_keepFirst {seen : List κ} {l : List α} {a : α} :
    a ∈ keepFirst key seen l ↔ key a ∉ seen ∧ l.find? (fun b => decide (key b = key a)) = some a := by
  induction l generalizing seen with
  | nil => simp [keepFirst]
  | cons b l ih =>
    unfold keepFirst
    rw [List.find?_cons]
    by_cases hb : key b ∈ seen
    · rw [if_pos hb, ih]
      by_cases hkey : key b = key a
      · have ha : key a ∈ seen := hkey ▸ hb
        simp [ha]
      · simp [hkey]
    · rw [if_neg hb, List.mem_cons, ih]
      by_cases hkey : key b = key a
      · simp only [hkey, List.mem_cons, true_or, not_true_eq_false, false_and, or_false, decide_true,
          Option.some.injEq]
        constructor
        · rintro rfl
          exact ⟨hb, rfl⟩
        · rintro ⟨-, rfl⟩
          rfl
      · have hne : a ≠ b := by
          rintro rfl
          exact hkey rfl
        simp [hne, hkey, Ne.symm hkey]

theorem nodup_map_keepFirst {seen : List κ} {l : List α} :
    ((keepFirst key seen l).map key).Nodup := by
  induction l generalizing seen with
  | nil => exact List.nodup_nil
  | cons a l ih =>
    unfold keepFirst
    split
    · exact ih
    · rw [List.map_cons, List.nodup_cons]
      refine ⟨?_, ih⟩
      intro hmem
      obtain ⟨b, hb, hkey⟩ := List.mem_map.mp hmem
      exact (mem_keepFirst.mp hb).1 (hkey ▸ List.mem_cons_self)

omit [DecidableEq κ] in
/-- Of items with distinct keys, those with one key are the one that has it. -/
theorem filter_eq_singleton {l : List α} (hl : (l.map key).Nodup) {p : α → Bool} {a : α} (ha : a ∈ l)
    (hp : p a = true) (hkey : ∀ b ∈ l, p b = true → key b = key a) : l.filter p = [a] := by
  induction l with
  | nil => exact absurd ha List.not_mem_nil
  | cons b l ih =>
    rw [List.map_cons, List.nodup_cons] at hl
    rcases List.mem_cons.mp ha with rfl | ha
    · rw [List.filter_cons_of_pos hp, List.filter_eq_nil_iff.mpr]
      intro c hc hpc
      exact hl.1 (hkey c (List.mem_cons_of_mem a hc) hpc ▸ List.mem_map_of_mem hc)
    · have hb : ¬ p b = true := by
        intro hpb
        exact hl.1 (hkey b List.mem_cons_self hpb ▸ List.mem_map_of_mem ha)
      rw [List.filter_cons_of_neg hb]
      exact ih hl.2 ha fun c hc => hkey c (List.mem_cons_of_mem b hc)

/-- Filtering what is made of some items, by what it keeps of them. -/
theorem filter_filterMap {β : Type} {f : α → Option β} {p : β → Bool} {q : α → Bool}
    (h : ∀ a b, f a = some b → p b = q a) :
    ∀ l : List α, (l.filterMap f).filter p = (l.filter q).filterMap f
  | [] => rfl
  | a :: l => by
    have ih := filter_filterMap h l
    cases hf : f a with
    | none =>
      rw [List.filterMap_cons_none hf, ih]
      cases hq : q a with
      | false => rw [List.filter_cons_of_neg (by simp [hq])]
      | true => rw [List.filter_cons_of_pos hq, List.filterMap_cons_none hf]
    | some b =>
      rw [List.filterMap_cons_some hf]
      cases hq : q a with
      | false =>
        rw [List.filter_cons_of_neg (by simp [h a b hf, hq]), ih, List.filter_cons_of_neg (by simp [hq])]
      | true =>
        rw [List.filter_cons_of_pos (by rw [h a b hf, hq]), ih, List.filter_cons_of_pos hq,
          List.filterMap_cons_some hf]

end KeepFirst

/-- A loop that may stop: it goes through exactly if no round stops it. -/
theorem mapM_eq_ok {ε α β : Type} {f : α → Except ε β} : ∀ {l : List α} {bs : List β},
    l.mapM f = .ok bs ↔ List.Forall₂ (fun a b => f a = .ok b) l bs
  | [], bs => by
    rw [List.mapM_nil]
    constructor
    · intro h
      cases h
      exact .nil
    · rintro ⟨⟩
      rfl
  | a :: l, bs => by
    rw [List.mapM_cons, bind_eq_ok]
    constructor
    · rintro ⟨b, hb, h⟩
      rw [bind_eq_ok] at h
      obtain ⟨cs, hcs, h⟩ := h
      cases h
      exact .cons hb (mapM_eq_ok.mp hcs)
    · rintro (_ | ⟨hb, hl⟩)
      exact ⟨_, hb, bind_eq_ok.mpr ⟨_, mapM_eq_ok.mpr hl, rfl⟩⟩

end TetCore.Lib

namespace TetCore.Page

open TetCore.Lib TetCore.Sigs

/-! ## The lookup -/

/-- `parseProofCode`. -/
def parseProofCode (J : JsRuntime) (input : Str) : Option Str :=
  let raw := (J.toUpperCase (jsTrim input)).filter fun c => !(isJsBlank c || c == '_')
  let raw := if "TET-".toList.isPrefixOf raw then raw.drop 4
    else if "TET".toList.isPrefixOf raw then raw.drop 3 else raw
  let body := (raw.filter fun c => c != '-').map fun c =>
    if c = 'O' then '0' else if c = 'I' ∨ c = 'L' then '1' else c
  if body.length = 8 ∧ body.all crockford.contains = true then
    some ("TET-".toList ++ body.take 4 ++ '-' :: body.drop 4)
  else none

/-- `codePrefixHex`. -/
def codePrefixHex (J : JsRuntime) (code : Str) : Option Str :=
  (parseProofCode J code).map fun c =>
    hexEncode (beBytes 5 (((c.drop 4).erase '-').foldl (fun bits ch => bits * 32 + crockford.idxOf ch) 0))

/-- `RecordQuery`. -/
structure RecordQuery where
  codePrefix : Option Str := none
  file : Option Str := none
  signer : Option Str := none
  fromMs : Option Int
  toMs : Option Int

/-- A record as the registry answers it. -/
structure RegistryRecord where
  bytes : Bytes
  publishedAtMs : Int
  anchor : Option (Str × Nat)

/-- How a record matched. -/
inductive Match where
  | code
  | file
  | signer
  deriving DecidableEq

/-- `FoundSignature`. -/
structure FoundSignature where
  code : Str
  matched : Match
  fileSha256 : Str
  signerEd25519 : Str
  publishedAtMs : Int
  verified : Bool
  reason : Option Str
  recordBytes : Bytes
  anchor : Option (Str × Nat)

/-- The reason of a refusal. -/
def reasonOf {α : Type} : Except Refusal α → Option Str
  | .error (.no reason) => some reason
  | _ => none

/-- What a lookup is for. -/
structure Lookup where
  query : Str
  chain : ChainBinding
  fromMs : Option Int
  toMs : Option Int

section Lookup

variable (J : JsRuntime) (W : World) (S : SigPrimitives) (parse : Bytes → Option JsValue) (o : Lookup)

/-- The proof code that is looked up. -/
def Lookup.code : Option Str := parseProofCode J o.query

/-- `h`: the query as 64 hex digits, without `0x`. -/
def Lookup.h : Str :=
  let h := J.toLowerCase (jsTrim o.query)
  if "0x".toList.isPrefixOf h then h.drop 2 else h

def Lookup.isHex : Bool := isLowerHex64 (o.h J)

/-- `batches`, joined; none for a query that says nothing. -/
def Lookup.answers (records : RecordQuery → List RegistryRecord) : List RegistryRecord :=
  match o.code J with
  | some code =>
    records { codePrefix := codePrefixHex J code, fromMs := o.fromMs, toMs := o.toMs }
  | none =>
    if o.isHex J then
      records { file := some (o.h J), fromMs := o.fromMs, toMs := o.toMs } ++
        records { signer := some (o.h J), fromMs := o.fromMs, toMs := o.toMs }
    else if o.fromMs.isNone && o.toMs.isNone then []
    else records { fromMs := o.fromMs, toMs := o.toMs }

/-- What duplicates are told by: the code and the length, one after the other. -/
def recordKey (r : RegistryRecord) : Str := proofCode W r.bytes ++ Json.decimal r.bytes.length

/-- `env.tet?.agent_ed25519_pubkey_hex ?? ""`. -/
def signerOf (env : JsValue) : JsValue :=
  ((env.get "tet".toList).get "agent_ed25519_pubkey_hex".toList).orElse (.str [])

/-- Between the dates. -/
def Lookup.within (r : RegistryRecord) : Bool :=
  (o.fromMs.all fun ms => ms ≤ r.publishedAtMs) && o.toMs.all fun ms => r.publishedAtMs ≤ ms

/-- `hit`. -/
def Lookup.hit (r : RegistryRecord) (fileHash signer : Str) : Bool :=
  match o.code J with
  | some code => proofCode W r.bytes == code
  | none => if o.isHex J then fileHash == o.h J || signer == o.h J else true

/-- One round of the loop; nothing where it goes on without listing. -/
def Lookup.listRecord (r : RegistryRecord) : Except Refusal (Option FoundSignature) :=
  match parse r.bytes with
  | none => .ok none
  | some env =>
    if (env.get "payloadType".toList).same (.str hashPayloadType) = false then .ok none
    else
      match (env.get "payload".toList).toText.bind atob with
      | none => .ok none
      | some payload => do
        let fileHash := hexEncode payload
        let text ← coerce (signerOf env)
        let signer := J.toLowerCase text
        if o.within r = true ∧ o.hit J W r fileHash signer = true then
          let v := verifyEnvelope W S o.chain env [] true
          if verdict v = .throws then .error .threw
          else
            let matched := if (o.code J).isSome then .code else if fileHash = o.h J then .file else .signer
            .ok (some ⟨proofCode W r.bytes, matched, fileHash, signer, r.publishedAtMs, v.isOk, reasonOf v,
              r.bytes, r.anchor⟩)
        else .ok none

/-- `findSignatures`: the matches of a file by date, then the others, newest first. -/
def Lookup.findSignatures (records : RecordQuery → List RegistryRecord) :
    Except Refusal (List FoundSignature) := do
  let recs := keepFirst (recordKey W) [] (o.answers J records)
  let out ← recs.mapM (o.listRecord J W S parse)
  let out := out.filterMap id
  let byFile := (out.filter fun f => f.matched == .file).mergeSort fun a b =>
    decide (a.publishedAtMs ≤ b.publishedAtMs)
  let rest := (out.filter fun f => f.matched != .file).mergeSort fun a b =>
    decide (b.publishedAtMs ≤ a.publishedAtMs)
  .ok (byFile ++ rest)

/-! ## What a lookup is to list -/

/-- What is matched: for 64 hex digits, the file or the signer, if it can be shown. -/
def Lookup.Hits (r : RegistryRecord) (fileHash : Str) (signer : Option Str) : Prop :=
  match o.code J with
  | some code => proofCode W r.bytes = code
  | none => o.isHex J = true →
      fileHash = o.h J ∨ ∃ text, signer = some text ∧ J.toLowerCase text = o.h J

/-- The record is read from this envelope as a hash-only one, matches the query, and is between the
dates. -/
structure Lookup.Wanted (r : RegistryRecord) (env : JsValue) : Prop where
  parsed : parse r.bytes = some env
  type : env.get "payloadType".toList = .str hashPayloadType
  within : o.within r = true
  matched : ∃ payload, (env.get "payload".toList).toText.bind atob = some payload ∧
    o.Hits J W r (hexEncode payload) (signerOf env).toText

/-- The lookup returns, and lists every distinct wanted record once, with its own verdict. -/
def Lookup.ListsAll (records : RecordQuery → List RegistryRecord) : Prop :=
  ∃ out, o.findSignatures J W S parse records = .ok out ∧
    ∀ r ∈ o.answers J records, ∀ env, o.Wanted J W parse r env →
      ∃ f, out.filter (fun f => f.recordBytes == r.bytes) = [f] ∧
        f.verified = (verifyEnvelope W S o.chain env [] true).isOk ∧
        f.reason = reasonOf (verifyEnvelope W S o.chain env [] true)

/-- The first answer with the code and the length of a record. -/
def Lookup.firstAlike (records : RecordQuery → List RegistryRecord) (r : RegistryRecord) :
    Option RegistryRecord :=
  (o.answers J records).find? fun x =>
    proofCode W x.bytes == proofCode W r.bytes && x.bytes.length == r.bytes.length

/-- Looking at the record does not throw: its signer can be shown, if it is hash-only, and verifying it
does not throw, if it is wanted. -/
def Lookup.Quiet (r : RegistryRecord) : Prop :=
  ∀ env payload, parse r.bytes = some env → env.get "payloadType".toList = .str hashPayloadType →
    (env.get "payload".toList).toText.bind atob = some payload →
    (signerOf env).toText ≠ none ∧
    (o.Wanted J W parse r env → verdict (verifyEnvelope W S o.chain env [] true) ≠ .throws)

end Lookup

section Results

variable {J : JsRuntime} {W : World} {S : SigPrimitives} {parse : Bytes → Option JsValue} {o : Lookup}
  {records : RecordQuery → List RegistryRecord} {r : RegistryRecord} {env : JsValue}
  {f : FoundSignature}

theorem length_proofCode (bytes : Bytes) : (proofCode W bytes).length = 13 := by
  unfold proofCode
  simp

/-- Records are told apart by their code and their length. -/
theorem recordKey_eq_iff {x : RegistryRecord} : recordKey W x = recordKey W r ↔
    proofCode W x.bytes = proofCode W r.bytes ∧ x.bytes.length = r.bytes.length := by
  unfold recordKey
  constructor
  · intro h
    obtain ⟨hcode, hlen⟩ := List.append_inj h
      ((length_proofCode x.bytes).trans (length_proofCode r.bytes).symm)
    exact ⟨hcode, Json.decimal_injective hlen⟩
  · rintro ⟨hcode, hlen⟩
    rw [hcode, hlen]

theorem mem_kept : r ∈ keepFirst (recordKey W) [] (o.answers J records) ↔
    o.firstAlike J W records r = some r := by
  have hsame : (fun x : RegistryRecord => decide (recordKey W x = recordKey W r)) = fun x =>
      proofCode W x.bytes == proofCode W r.bytes && x.bytes.length == r.bytes.length := by
    funext x
    rw [Bool.eq_iff_iff]
    simp only [decide_eq_true_eq, beq_iff_eq, Bool.and_eq_true]
    exact recordKey_eq_iff
  rw [mem_keepFirst, hsame]
  unfold Lookup.firstAlike
  simp

theorem hit_iff {fileHash text : Str} :
    o.hit J W r fileHash (J.toLowerCase text) = true ↔ o.Hits J W r fileHash (some text) := by
  unfold Lookup.hit Lookup.Hits
  cases o.code J with
  | some code => simp
  | none => cases o.isHex J <;> simp

/-- A round that finds something: it is about a wanted record, with its own verdict. -/
theorem listRecord_some (h : o.listRecord J W S parse r = .ok (some f)) :
    f.recordBytes = r.bytes ∧ ∃ env, o.Wanted J W parse r env ∧
      f.verified = (verifyEnvelope W S o.chain env [] true).isOk ∧
      f.reason = reasonOf (verifyEnvelope W S o.chain env [] true) := by
  unfold Lookup.listRecord at h
  split at h
  · cases h
  rename_i env hparse
  split at h
  · cases h
  rename_i htype
  rw [Bool.not_eq_false, same_str] at htype
  split at h
  · cases h
  rename_i payload hpayload
  rw [bind_eq_ok] at h
  obtain ⟨text, htext, h⟩ := h
  rw [coerce_ok] at htext
  simp only at h
  split at h
  · rename_i hmatch
    split at h
    · cases h
    · cases h
      refine ⟨rfl, env, ⟨hparse, htype, hmatch.1, payload, hpayload, ?_⟩, rfl, rfl⟩
      rw [htext]
      exact hit_iff.mp hmatch.2
  · cases h

/-- A round that does not throw lists what is wanted. -/
theorem listRecord_wanted {out : Option FoundSignature} (hw : o.Wanted J W parse r env)
    (h : o.listRecord J W S parse r = .ok out) : ∃ f, out = some f := by
  obtain ⟨payload, hpayload, hhits⟩ := hw.matched
  unfold Lookup.listRecord at h
  rw [hw.parsed] at h
  simp only at h
  rw [if_neg (by rw [Bool.not_eq_false]; exact same_str.mpr hw.type), hpayload] at h
  simp only [bind_eq_ok, coerce_ok] at h
  obtain ⟨text, htext, h⟩ := h
  rw [htext] at hhits
  rw [if_pos ⟨hw.within, hit_iff.mpr hhits⟩] at h
  split at h
  · cases h
  · cases h
    exact ⟨_, rfl⟩

/-- A record that is not read as a hash-only one is passed over. -/
theorem listRecord_skip (h : ∀ env, parse r.bytes = some env →
    env.get "payloadType".toList = .str hashPayloadType →
    (env.get "payload".toList).toText.bind atob = none) :
    o.listRecord J W S parse r = .ok none := by
  unfold Lookup.listRecord
  split
  · rfl
  rename_i env hparse
  split
  · rfl
  rename_i htype
  rw [Bool.not_eq_false, same_str] at htype
  rw [h env hparse htype]

/-- One that is: its signer is shown, and it is verified if it is wanted. -/
theorem listRecord_read {payload : Bytes} (hparse : parse r.bytes = some env)
    (htype : env.get "payloadType".toList = .str hashPayloadType)
    (hpayload : (env.get "payload".toList).toText.bind atob = some payload) :
    (∃ out, o.listRecord J W S parse r = .ok out) ↔ (signerOf env).toText ≠ none ∧
      (o.Wanted J W parse r env → verdict (verifyEnvelope W S o.chain env [] true) ≠ .throws) := by
  have hwanted : ∀ {text : Str}, (signerOf env).toText = some text →
      (o.within r = true ∧ o.hit J W r (hexEncode payload) (J.toLowerCase text) = true ↔
        o.Wanted J W parse r env) := by
    intro text htext
    rw [hit_iff]
    constructor
    · rintro ⟨hwithin, hhits⟩
      exact ⟨hparse, htype, hwithin, payload, hpayload, htext ▸ hhits⟩
    · intro hw
      obtain ⟨payload', hpayload', hhits⟩ := hw.matched
      obtain rfl := Option.some.inj (hpayload.symm.trans hpayload')
      exact ⟨hw.within, htext ▸ hhits⟩
  unfold Lookup.listRecord
  rw [hparse]
  simp only
  rw [if_neg (by rw [Bool.not_eq_false]; exact same_str.mpr htype), hpayload]
  simp only [bind_eq_ok, coerce_ok]
  constructor
  · rintro ⟨out, text, htext, h⟩
    refine ⟨by rw [htext]; exact Option.some_ne_none _, ?_⟩
    intro hw
    rw [if_pos ((hwanted htext).mpr hw)] at h
    intro hthrows
    rw [if_pos hthrows] at h
    cases h
  · rintro ⟨htext, hquiet⟩
    obtain ⟨text, htext⟩ := Option.ne_none_iff_exists'.mp htext
    by_cases hmatch : o.within r = true ∧
        o.hit J W r (hexEncode payload) (J.toLowerCase text) = true
    · exact ⟨_, text, htext,
        (if_pos hmatch).trans (if_neg (hquiet ((hwanted htext).mp hmatch)))⟩
    · refine ⟨none, text, htext, ?_⟩
      rw [if_neg hmatch]

/-- A round throws on nothing else than a record that is not quiet. -/
theorem listRecord_ok_iff : (∃ out, o.listRecord J W S parse r = .ok out) ↔
    o.Quiet J W S parse r := by
  constructor
  · intro h env payload hparse htype hpayload
    exact (listRecord_read hparse htype hpayload).mp h
  · intro hquiet
    by_cases hskip : ∀ env, parse r.bytes = some env →
        env.get "payloadType".toList = .str hashPayloadType →
        (env.get "payload".toList).toText.bind atob = none
    · exact ⟨none, listRecord_skip hskip⟩
    · simp only [not_forall] at hskip
      obtain ⟨env, hparse, htype, hpayload⟩ := hskip
      obtain ⟨payload, hpayload⟩ := Option.ne_none_iff_exists'.mp hpayload
      exact (listRecord_read hparse htype hpayload).mpr (hquiet env payload hparse htype hpayload)

/-- The lookup returns if no kept record throws, and then lists what the rounds found. -/
theorem findSignatures_ok {out : List FoundSignature} :
    o.findSignatures J W S parse records = .ok out → ∃ found,
      (keepFirst (recordKey W) [] (o.answers J records)).mapM (o.listRecord J W S parse) = .ok found ∧
      out.Perm (found.filterMap id) := by
  intro h
  unfold Lookup.findSignatures at h
  simp only [bind_eq_ok] at h
  obtain ⟨found, hfound, h⟩ := h
  cases h
  refine ⟨found, hfound, ?_⟩
  exact ((List.mergeSort_perm _ _).append (List.mergeSort_perm _ _)).trans
    (List.filter_append_perm (fun f : FoundSignature => f.matched == .file) (found.filterMap id))

/-- What the rounds found, if none throws. -/
theorem mapM_listRecord {kept : List RegistryRecord} {found : List (Option FoundSignature)}
    (h : kept.mapM (o.listRecord J W S parse) = .ok found) :
    (∀ r ∈ kept, ∃ out, o.listRecord J W S parse r = .ok out) ∧
    found.filterMap id = kept.filterMap fun r => valueOr (o.listRecord J W S parse r) none := by
  rw [mapM_eq_ok] at h
  induction h with
  | nil => exact ⟨fun r hr => absurd hr List.not_mem_nil, rfl⟩
  | @cons r out kept found hr _ ih =>
    constructor
    · intro x hx
      rcases List.mem_cons.mp hx with rfl | hx
      · exact ⟨out, hr⟩
      · exact ih.1 x hx
    · have hvalue : valueOr (o.listRecord J W S parse r) none = out := by
        rw [hr]
        rfl
      rw [List.filterMap_cons, List.filterMap_cons, hvalue, ih.2]
      rfl

theorem exists_mapM {kept : List RegistryRecord}
    (h : ∀ r ∈ kept, ∃ out, o.listRecord J W S parse r = .ok out) :
    ∃ found, kept.mapM (o.listRecord J W S parse) = .ok found := by
  induction kept with
  | nil => exact ⟨[], rfl⟩
  | cons r kept ih =>
    obtain ⟨out, hout⟩ := h r List.mem_cons_self
    obtain ⟨found, hfound⟩ := ih fun x hx => h x (List.mem_cons_of_mem r hx)
    exact ⟨out :: found, by rw [List.mapM_cons, hout, ok_bind, hfound, ok_bind]; rfl⟩

/-- Of what was found for kept records, those with the bytes of one are what was found for it. -/
theorem found_of_kept {kept : List RegistryRecord} (hnodup : (kept.map (recordKey W)).Nodup)
    (hr : r ∈ kept) :
    (kept.filterMap fun r => valueOr (o.listRecord J W S parse r) none).filter
      (fun f => f.recordBytes == r.bytes) =
    (valueOr (o.listRecord J W S parse r) none).toList := by
  have hbytes : ∀ (a : RegistryRecord) (f : FoundSignature),
      valueOr (o.listRecord J W S parse a) none = some f →
      (f.recordBytes == r.bytes) = (a.bytes == r.bytes) := by
    intro a f hf
    cases hround : o.listRecord J W S parse a with
    | error e =>
      rw [hround] at hf
      cases hf
    | ok out =>
      rw [hround] at hf
      have hout : out = some f := hf
      rw [hout] at hround
      rw [(listRecord_some hround).1]
  have hone : kept.filter (fun a => a.bytes == r.bytes) = [r] := by
    refine filter_eq_singleton hnodup hr (beq_self_eq_true r.bytes) ?_
    intro b _ hb
    rw [beq_iff_eq] at hb
    rw [recordKey_eq_iff, hb]
    exact ⟨rfl, rfl⟩
  rw [filter_filterMap hbytes, hone, List.filterMap_cons]
  cases valueOr (o.listRecord J W S parse r) none with
  | none => rfl
  | some f => rfl

/-- A lookup lists every distinct matching record once, with its own verdict, exactly if it throws on no
kept record, and the first answer with the code and length of a matching record has its bytes and is
between the dates. -/
theorem findSignatures_lists (J : JsRuntime) (W : World) (S : SigPrimitives)
    (parse : Bytes → Option JsValue) (o : Lookup) (records : RecordQuery → List RegistryRecord) :
    o.ListsAll J W S parse records ↔
      (∀ r, o.firstAlike J W records r = some r → o.Quiet J W S parse r) ∧
      ∀ r ∈ o.answers J records, ∀ env, o.Wanted J W parse r env →
        ∃ first, o.firstAlike J W records r = some first ∧ first.bytes = r.bytes ∧
          o.within first = true := by
  constructor
  · rintro ⟨out, hout, hall⟩
    obtain ⟨found, hfound, hperm⟩ := findSignatures_ok hout
    obtain ⟨hrounds, hvalues⟩ := mapM_listRecord hfound
    constructor
    · intro r hr
      exact listRecord_ok_iff.mp (hrounds r (mem_kept.mpr hr))
    · intro r hr env hw
      obtain ⟨f, hf, -⟩ := hall r hr env hw
      have hmem : f ∈ out.filter fun f => f.recordBytes == r.bytes := hf ▸ List.mem_singleton_self f
      obtain ⟨hfout, hbytes⟩ := List.mem_filter.mp hmem
      have hfound := hperm.mem_iff.mp hfout
      rw [hvalues, List.mem_filterMap] at hfound
      obtain ⟨first, hfirst, hround⟩ := hfound
      obtain ⟨value, hvalue⟩ := hrounds first hfirst
      rw [hvalue] at hround
      have hsome : value = some f := hround
      rw [hsome] at hvalue
      obtain ⟨hown, env', hw', -⟩ := listRecord_some hvalue
      have heq : first.bytes = r.bytes := by
        rw [← hown]
        exact beq_iff_eq.mp hbytes
      refine ⟨first, ?_, heq, hw'.within⟩
      have hkept := mem_kept.mp hfirst
      unfold Lookup.firstAlike at hkept ⊢
      rw [← heq]
      exact hkept
  · rintro ⟨hquiet, hfirst⟩
    have hrounds : ∀ r ∈ keepFirst (recordKey W) [] (o.answers J records),
        ∃ out, o.listRecord J W S parse r = .ok out :=
      fun r hr => listRecord_ok_iff.mpr (hquiet r (mem_kept.mp hr))
    obtain ⟨found, hfound⟩ := exists_mapM hrounds
    obtain ⟨out, hout⟩ : ∃ out, o.findSignatures J W S parse records = .ok out := by
      unfold Lookup.findSignatures
      simp only [hfound, ok_bind]
      exact ⟨_, rfl⟩
    refine ⟨out, hout, ?_⟩
    intro r hr env hw
    obtain ⟨found', hfound', hperm⟩ := findSignatures_ok hout
    obtain rfl := Except.ok.inj (hfound.symm.trans hfound')
    obtain ⟨-, hvalues⟩ := mapM_listRecord hfound
    obtain ⟨first, hfirst, hbytes, hwithin⟩ := hfirst r hr env hw
    have hkept : first ∈ keepFirst (recordKey W) [] (o.answers J records) := by
      rw [mem_kept]
      unfold Lookup.firstAlike at hfirst ⊢
      rw [hbytes]
      exact hfirst
    have hwanted : o.Wanted J W parse first env := by
      refine ⟨hbytes ▸ hw.parsed, hw.type, hwithin, ?_⟩
      obtain ⟨payload, hpayload, hhits⟩ := hw.matched
      refine ⟨payload, hpayload, ?_⟩
      unfold Lookup.Hits at hhits ⊢
      rw [hbytes]
      exact hhits
    obtain ⟨value, hvalue⟩ := hrounds first hkept
    obtain ⟨f, rfl⟩ := listRecord_wanted hwanted hvalue
    obtain ⟨-, env', hw', hverified, hreason⟩ := listRecord_some hvalue
    obtain rfl := Option.some.inj (hwanted.parsed.symm.trans hw'.parsed)
    refine ⟨f, ?_, hverified, hreason⟩
    have hsingle : (found.filterMap id).filter (fun f => f.recordBytes == r.bytes) = [f] := by
      rw [hvalues, ← hbytes, found_of_kept nodup_map_keepFirst hkept, hvalue]
      rfl
    have hfilter := hperm.filter fun f => f.recordBytes == r.bytes
    rw [hsingle] at hfilter
    exact List.perm_singleton.mp hfilter

end Results

end TetCore.Page

namespace TetCore.Sample

open TetCore.Lib TetCore.Page

/-- A hash whose first 40 bits are always the same. -/
def collidingWorld : World := { World.sample 0 with sha256 := fun b => List.replicate 5 0 ++ b }

/-- A published record. -/
def genuineRecord : RegistryRecord := ⟨[1], 10, none⟩

/-- Another, of the same code and length, that says the same with a field more. -/
def craftedRecord : RegistryRecord := ⟨[2], 20, none⟩

/-- What the two say. -/
def collidingParse (b : Bytes) : Option JsValue :=
  if b = [1] then some (recordJson (b64Encode markedHash) [])
  else some (recordJson (b64Encode markedHash) [("note".toList, .str "x".toList)])

/-- A lookup of their code. -/
def codeLookup : Lookup := ⟨"TET-0000-0000".toList, chainOf auth, none, none⟩

end TetCore.Sample

namespace TetCore.Page

open TetCore.Lib

/-- Of two records with one code and one length, the lookup lists only the one answered first. -/
theorem findSignatures_hides :
    let records := fun _ : RecordQuery => [Sample.craftedRecord, Sample.genuineRecord]
    Sample.genuineRecord ∈ Sample.codeLookup.answers JsRuntime.ascii records ∧
    Sample.codeLookup.Wanted JsRuntime.ascii Sample.collidingWorld Sample.collidingParse
      Sample.genuineRecord (Sample.recordJson (b64Encode Sample.markedHash) []) ∧
    ¬ Sample.codeLookup.ListsAll JsRuntime.ascii Sample.collidingWorld Sample.sitePrimitives
      Sample.collidingParse records := by
  intro records
  have hcode : Sample.codeLookup.code JsRuntime.ascii = some "TET-0000-0000".toList ∧
      proofCode Sample.collidingWorld [1] = "TET-0000-0000".toList ∧
      proofCode Sample.collidingWorld [2] = "TET-0000-0000".toList := by
    decide +kernel
  obtain ⟨hcode, hgenuine, hcrafted⟩ := hcode
  have hanswers : Sample.codeLookup.answers JsRuntime.ascii records =
      [Sample.craftedRecord, Sample.genuineRecord] := by
    unfold Lookup.answers
    rw [hcode]
  have hmem : Sample.genuineRecord ∈ Sample.codeLookup.answers JsRuntime.ascii records := by
    rw [hanswers]
    simp
  have hwanted : Sample.codeLookup.Wanted JsRuntime.ascii Sample.collidingWorld
      Sample.collidingParse Sample.genuineRecord (Sample.recordJson (b64Encode Sample.markedHash) []) := by
    obtain ⟨htype, hpayload, -⟩ := Sample.recordJson_get (b64Encode Sample.markedHash) []
    refine ⟨if_pos rfl, htype, rfl, Sample.markedHash, ?_, ?_⟩
    · rw [hpayload, toText_str]
      exact atob_eq (stdDecode_encode _)
    · unfold Lookup.Hits
      rw [hcode]
      exact hgenuine
  refine ⟨hmem, hwanted, ?_⟩
  rintro ⟨out, hout, hall⟩
  obtain ⟨f, hf, -⟩ := hall _ hmem _ hwanted
  obtain ⟨found, hfound, hperm⟩ := findSignatures_ok hout
  obtain ⟨hrounds, hvalues⟩ := mapM_listRecord hfound
  have hlisted : f ∈ out.filter fun f => f.recordBytes == Sample.genuineRecord.bytes :=
    hf ▸ List.mem_singleton_self f
  obtain ⟨hfout, hbytes⟩ := List.mem_filter.mp hlisted
  have hof := hperm.mem_iff.mp hfout
  rw [hvalues, List.mem_filterMap] at hof
  obtain ⟨first, hfirst, hround⟩ := hof
  obtain ⟨value, hvalue⟩ := hrounds first hfirst
  rw [hvalue] at hround
  have hsome : value = some f := hround
  rw [hsome] at hvalue
  have hown := (listRecord_some hvalue).1
  -- what is kept has the bytes of the crafted record
  have hkept := mem_kept.mp hfirst
  unfold Lookup.firstAlike at hkept
  rw [hanswers] at hkept
  rcases List.mem_cons.mp (List.mem_of_find?_eq_some hkept) with rfl | hgen
  · rw [hown] at hbytes
    cases hbytes
  · rw [List.mem_singleton.mp hgen] at hkept
    have hfind : [Sample.craftedRecord, Sample.genuineRecord].find? (fun x =>
        proofCode Sample.collidingWorld x.bytes ==
          proofCode Sample.collidingWorld Sample.genuineRecord.bytes &&
        x.bytes.length == Sample.genuineRecord.bytes.length) = some Sample.craftedRecord := by
      refine List.find?_cons_of_pos ?_
      show (proofCode Sample.collidingWorld [2] == proofCode Sample.collidingWorld [1] && true) = true
      rw [hcrafted, hgenuine, beq_self_eq_true]
      rfl
    rw [hfind] at hkept
    cases hkept

end TetCore.Page
