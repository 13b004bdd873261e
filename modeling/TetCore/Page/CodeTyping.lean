import Mathlib.Data.Bool.AllAny
import TetCore.Page.ProofCode

/-!
# Proof codes as people type them

`proofCode`, `parseProofCode` and `codePrefixHex` (`proof_code.ts`) together: a code stands for the first
40 bits of a record's SHA-256, and is read back from what a person types.

A retyping (`Retyped`) changes the case of letters, puts in and leaves out blanks, underscores and dashes,
writes `O` for `0` and `I` or `L` for `1`, and writes or leaves out the leading `TET`. The parser takes one
`TET` away when the text starts with it, before it takes the dashes away, and never otherwise.

* `codePrefixHex_proofCode`: the first ten hex digits of the hash.
* `proofCode_retyped_iff`: a retyping is read as the code exactly if it starts with `TET` just when the
  leading `TET` is written.
-/

namespace TetCore.Page

open TetCore.Lib TetCore.Sigs

/-! ## Typing -/

/-- White space, underscores and dashes. -/
def isSeparator (c : Char) : Bool := isJsBlank c || c == '_' || c == '-'

/-- What is left of a text without them. -/
def codeLetters (s : Str) : Str := s.filter fun c => !isSeparator c

/-- A typed character for one of a code. -/
def ReadsAs (typed c : Char) : Prop :=
  asciiUpper typed = c ∨ (c = '0' ∧ asciiUpper typed = 'O') ∨
    (c = '1' ∧ (asciiUpper typed = 'I' ∨ asciiUpper typed = 'L'))

/-- A person types `s` for the code `c`, and the leading `TET` or not. -/
def Retyped (c : Str) (prefixWritten : Bool) (s : Str) : Prop :=
  List.Forall₂ ReadsAs (codeLetters s) (if prefixWritten then codeLetters c else (codeLetters c).drop 3)

/-- In upper case, and without blanks and underscores, the text starts with `TET`. -/
def startsWithTet (s : Str) : Bool :=
  "TET".toList.isPrefixOf (toAsciiUppercase (s.filter fun c => !(isJsBlank c || c == '_')))

/-! ## The parser -/

/-- A code of eight digits. -/
def formatCode (body : Str) : Str := "TET-".toList ++ body.take 4 ++ '-' :: body.drop 4

/-- Crockford's look-alikes. -/
def lookAlike (c : Char) : Char := if c = 'O' then '0' else if c = 'I' ∨ c = 'L' then '1' else c

/-- What the parser has left of an upper-case text without blanks and underscores. -/
def codeBody (raw : Str) : Str :=
  ((if "TET".toList.isPrefixOf raw then raw.drop 3 else raw).filter fun c => c != '-').map lookAlike

section Characters

theorem crockford_plain : ∀ c ∈ crockford,
    asciiUpper c = c ∧ isSeparator c = false ∧ lookAlike c = c :=
  List.all_iff_forall_prop.mp (by decide +kernel)

theorem tet_crockford : ∀ c ∈ "TET".toList, c ∈ crockford :=
  List.all_iff_forall_prop.mp (by decide +kernel)

theorem asciiUpper_cases (c : Char) : asciiUpper c = c ∨
    (97 ≤ c.toNat ∧ c.toNat ≤ 122 ∧ (asciiUpper c).toNat + 32 = c.toNat) := by
  unfold asciiUpper
  by_cases h : 97 ≤ c.toNat ∧ c.toNat ≤ 122
  · rw [if_pos h]
    have hall : ∀ n < 91, (Char.ofNat n).toNat = n := by decide
    have hchar := hall (c.toNat - 32) (by omega)
    exact .inr ⟨h.1, h.2, by omega⟩
  · rw [if_neg h]
    exact .inl rfl

theorem isJsBlank_asciiUpper (c : Char) : isJsBlank (asciiUpper c) = isJsBlank c := by
  rcases asciiUpper_cases c with heq | ⟨hlow, hhigh, hsum⟩
  · rw [heq]
  · unfold isJsBlank
    rw [Bool.eq_iff_iff]
    simp only [Bool.or_eq_true, Bool.and_eq_true, decide_eq_true_eq, beq_iff_eq]
    omega

theorem asciiUpper_eq_mark {c d : Char} (hd : d.toNat < 65 ∨ 90 < d.toNat)
    (hd' : d.toNat < 97 ∨ 122 < d.toNat) : asciiUpper c = d ↔ c = d := by
  rcases asciiUpper_cases c with heq | ⟨hlow, hhigh, hsum⟩
  · rw [heq]
  · constructor
    · rintro rfl
      omega
    · rintro rfl
      omega

end Characters

section Parser

variable {J : JsRuntime}

/-- What is typed and read is ASCII but for the blanks. -/
theorem isCasePlain_of_readsAs {typed c : Char} (hc : c ∈ crockford) (h : ReadsAs typed c) :
    isCasePlain typed = true := by
  have hascii : ∀ d ∈ crockford ++ ['O', 'I', 'L'], d.toNat < 128 :=
    List.all_iff_forall_prop.mp (by decide +kernel)
  have hupper : (asciiUpper typed).toNat < 128 := by
    rcases h with rfl | ⟨-, hO⟩ | ⟨-, hI | hL⟩
    · exact hascii _ (List.mem_append_left _ hc)
    · rw [hO]
      decide
    · rw [hI]
      decide
    · rw [hL]
      decide
  have htyped : typed.toNat < 128 := by
    rcases asciiUpper_cases typed with heq | ⟨-, hhigh, -⟩
    · rw [← heq]
      exact hupper
    · omega
  unfold isCasePlain
  simp [htyped]

theorem lookAlike_of_readsAs {typed c : Char} (hc : c ∈ crockford) (h : ReadsAs typed c) :
    lookAlike (asciiUpper typed) = c := by
  rcases h with rfl | ⟨rfl, hO⟩ | ⟨rfl, hI | hL⟩
  · exact (crockford_plain _ hc).2.2
  · rw [hO]
    rfl
  · rw [hI]
    rfl
  · rw [hL]
    rfl

/-- Upper case commutes with taking the blanks and underscores away. -/
theorem filter_toAsciiUppercase (s : Str) :
    (toAsciiUppercase (jsTrim s)).filter (fun c => !(isJsBlank c || c == '_')) =
      toAsciiUppercase (s.filter fun c => !(isJsBlank c || c == '_')) := by
  have hmark : ∀ c, (asciiUpper c == '_') = (c == '_') := by
    intro c
    rw [Bool.eq_iff_iff, beq_iff_eq, beq_iff_eq]
    exact asciiUpper_eq_mark (by decide) (by decide)
  have hkeep : (fun c => !(isJsBlank c || c == '_')) ∘ asciiUpper =
      fun c => !(isJsBlank c || c == '_') := by
    funext c
    simp only [Function.comp, isJsBlank_asciiUpper, hmark]
  unfold toAsciiUppercase
  rw [List.filter_map, hkeep, jsTrim_eq_strip, filter_strip]
  intro c hc
  rw [hc]
  rfl

/-- A dash after the leading `TET` goes with the other dashes. -/
theorem codeBody_eq (raw : Str) :
    codeBody raw = (((if "TET-".toList.isPrefixOf raw then raw.drop 4
      else if "TET".toList.isPrefixOf raw then raw.drop 3 else raw).filter fun c => c != '-').map
        lookAlike) := by
  unfold codeBody
  by_cases hdash : "TET-".toList.isPrefixOf raw = true
  · obtain ⟨rest, rfl⟩ := List.isPrefixOf_iff_prefix.mp hdash
    have htet : "TET".toList.isPrefixOf ("TET-".toList ++ rest) = true :=
      List.isPrefixOf_iff_prefix.mpr ⟨'-' :: rest, rfl⟩
    rw [if_pos hdash, if_pos htet]
    rfl
  · rw [if_neg hdash]

/-- The parser, by what it has left of the text. -/
theorem parseProofCode_eq (s : Str) :
    parseProofCode J s =
      let body := codeBody ((J.toUpperCase (jsTrim s)).filter fun c => !(isJsBlank c || c == '_'))
      if body.length = 8 ∧ body.all crockford.contains = true then some (formatCode body)
      else none := by
  unfold parseProofCode
  simp only [codeBody_eq]
  rfl

/-- Of a text with plain case mappings upper case and trimming may wait. -/
theorem filter_toUpperCase {s : Str} (hplain : ∀ c ∈ s, isCasePlain c = true) :
    (J.toUpperCase (jsTrim s)).filter (fun c => !(isJsBlank c || c == '_')) =
      toAsciiUppercase (s.filter fun c => !(isJsBlank c || c == '_')) := by
  have hsub : ∀ c ∈ jsTrim s, isCasePlain c = true := by
    intro c hc
    unfold jsTrim at hc
    rw [List.mem_reverse] at hc
    exact hplain c (List.dropWhile_subset _
      (List.mem_reverse.mp (List.dropWhile_subset _ hc)))
  have hupper : J.toUpperCase (jsTrim s) = toAsciiUppercase (jsTrim s) :=
    if_pos (List.all_eq_true.mpr hsub)
  rw [hupper, filter_toAsciiUppercase]

/-- The letters of a text, from what the parser keeps. -/
theorem codeLetters_eq (s : Str) :
    (toAsciiUppercase (s.filter fun c => !(isJsBlank c || c == '_'))).filter (fun c => c != '-') =
      toAsciiUppercase (codeLetters s) := by
  have hdash : (fun c => c != '-') ∘ asciiUpper = fun c => c != '-' := by
    funext c
    rw [Function.comp, Bool.eq_iff_iff, bne_iff_ne, bne_iff_ne, Ne,
      asciiUpper_eq_mark (by decide) (by decide)]
  unfold toAsciiUppercase codeLetters
  rw [List.filter_map, hdash, List.filter_filter]
  congr 1
  refine List.filter_congr fun c _ => ?_
  unfold isSeparator
  rw [Bool.not_or (isJsBlank c || c == '_'), Bool.and_comm]
  rfl

/-- What is typed, read. -/
theorem map_lookAlike_of_readsAs {typed target : Str} (h : List.Forall₂ ReadsAs typed target)
    (hcrockford : ∀ c ∈ target, c ∈ crockford) :
    (toAsciiUppercase typed).map lookAlike = target := by
  unfold toAsciiUppercase
  induction h with
  | nil => rfl
  | cons hread _ ih =>
    rw [List.map_cons, List.map_cons, lookAlike_of_readsAs (hcrockford _ List.mem_cons_self) hread,
      ih fun c hc => hcrockford c (List.mem_cons_of_mem _ hc)]

/-- The parser takes three letters away exactly if the text starts with them. -/
theorem codeBody_retyped {s target : Str} (h : List.Forall₂ ReadsAs (codeLetters s) target)
    (hcrockford : ∀ c ∈ target, c ∈ crockford) :
    codeBody (toAsciiUppercase (s.filter fun c => !(isJsBlank c || c == '_'))) =
      if startsWithTet s then target.drop 3 else target := by
  have hletters := codeLetters_eq s
  have hread := map_lookAlike_of_readsAs h hcrockford
  unfold codeBody startsWithTet
  by_cases htet : "TET".toList.isPrefixOf
      (toAsciiUppercase (s.filter fun c => !(isJsBlank c || c == '_'))) = true
  · rw [if_pos htet, if_pos htet]
    obtain ⟨rest, hrest⟩ := List.isPrefixOf_iff_prefix.mp htet
    rw [← hrest] at hletters ⊢
    rw [List.filter_append, show "TET".toList.filter (fun c => c != '-') = "TET".toList from rfl]
      at hletters
    rw [← hread, ← hletters]
    rfl
  · rw [if_neg htet, if_neg htet, hletters, hread]

theorem isCasePlain_of_retyped {s target : Str} (h : List.Forall₂ ReadsAs (codeLetters s) target)
    (hcrockford : ∀ c ∈ target, c ∈ crockford) : ∀ c ∈ s, isCasePlain c = true := by
  intro c hc
  by_cases hsep : isSeparator c = true
  · unfold isSeparator at hsep
    simp only [Bool.or_eq_true, beq_iff_eq] at hsep
    rcases hsep with (hblank | rfl) | rfl
    · unfold isCasePlain
      rw [hblank, Bool.or_true]
    · rfl
    · rfl
  · have hmem : c ∈ codeLetters s :=
      List.mem_filter.mpr ⟨hc, by simpa using hsep⟩
    obtain ⟨i, hi, rfl⟩ := List.mem_iff_getElem.mp hmem
    have hlen := h.length_eq
    exact isCasePlain_of_readsAs (hcrockford _ (List.getElem_mem (by omega)))
      (h.get hi (by omega))

/-! ## The code of a record -/

theorem codeLetters_formatCode {body : Str} (h : ∀ c ∈ body, c ∈ crockford) :
    codeLetters (formatCode body) = "TET".toList ++ body := by
  have hself : ∀ l : Str, (∀ c ∈ l, c ∈ crockford) → l.filter (fun c => !isSeparator c) = l := by
    intro l hl
    refine List.filter_eq_self.mpr fun c hc => ?_
    rw [(crockford_plain c (hl c hc)).2.1]
    rfl
  unfold codeLetters formatCode
  rw [List.filter_append, List.filter_append, List.filter_cons_of_neg (by decide),
    hself _ fun c hc => h c (List.mem_of_mem_take hc),
    hself _ fun c hc => h c (List.mem_of_mem_drop hc), List.append_assoc, List.take_append_drop]
  rfl

/-- **A retyping is read as the code** of eight digits exactly if it starts with `TET` just when the
leading `TET` is written. -/
theorem parse_retyped_iff {body s : Str} {prefixWritten : Bool} (hlen : body.length = 8)
    (hbody : ∀ c ∈ body, c ∈ crockford) (h : Retyped (formatCode body) prefixWritten s) :
    parseProofCode J s = some (formatCode body) ↔ startsWithTet s = prefixWritten := by
  unfold Retyped at h
  rw [codeLetters_formatCode hbody] at h
  have hall : ∀ c ∈ "TET".toList ++ body, c ∈ crockford := by
    intro c hc
    rcases List.mem_append.mp hc with hc | hc
    · exact tet_crockford c hc
    · exact hbody c hc
  have hcrockford : ∀ c ∈ (if prefixWritten then "TET".toList ++ body
      else ("TET".toList ++ body).drop 3), c ∈ crockford := by
    intro c hc
    split at hc
    · exact hall c hc
    · exact hall c (List.mem_of_mem_drop hc)
  have htaken : body.all crockford.contains = true :=
    List.all_eq_true.mpr fun c hc => List.contains_iff_mem.mpr (hbody c hc)
  rw [parseProofCode_eq, filter_toUpperCase (isCasePlain_of_retyped h hcrockford)]
  simp only [codeBody_retyped h hcrockford]
  cases prefixWritten <;> cases startsWithTet s
  · simp only [Bool.false_eq_true, if_false, iff_true]
    exact if_pos ⟨hlen, htaken⟩
  · simp only [Bool.false_eq_true, if_false, if_true, reduceCtorEq, iff_false]
    rw [if_neg]
    · exact (Option.some_ne_none _).symm
    · rintro ⟨hshort, -⟩
      simp [hlen] at hshort
  · simp only [Bool.false_eq_true, if_false, if_true, iff_false]
    rw [if_neg]
    · exact (Option.some_ne_none _).symm
    · rintro ⟨hlong, -⟩
      simp [hlen] at hlong
  · simp only [if_true, iff_true]
    exact if_pos ⟨hlen, htaken⟩

theorem readsAs_self {c : Char} (h : c ∈ crockford) : ReadsAs c c := .inl (crockford_plain c h).1

theorem retyped_self {body : Str} (hbody : ∀ c ∈ body, c ∈ crockford) :
    Retyped (formatCode body) true (formatCode body) := by
  unfold Retyped
  rw [codeLetters_formatCode hbody, if_pos rfl]
  refine List.forall₂_same.mpr fun c hc => readsAs_self ?_
  rcases List.mem_append.mp hc with hc | hc
  · exact tet_crockford c hc
  · exact hbody c hc

/-- A code reads as itself. -/
theorem parse_formatCode {body : Str} (hlen : body.length = 8) (hbody : ∀ c ∈ body, c ∈ crockford) :
    parseProofCode J (formatCode body) = some (formatCode body) :=
  (parse_retyped_iff hlen hbody (retyped_self hbody)).mpr rfl

theorem exists_body {s c : Str} (h : parseProofCode J s = some c) :
    ∃ body, body.length = 8 ∧ (∀ d ∈ body, d ∈ crockford) ∧ c = formatCode body := by
  rw [parseProofCode_eq] at h
  simp only at h
  split at h
  · rename_i hbody
    exact ⟨_, hbody.1, fun d hd => List.contains_iff_mem.mp (List.all_eq_true.mp hbody.2 d hd),
      (Option.some.inj h).symm⟩
  · cases h

/-- The digits of a record's code. -/
def codeDigits (W : World) (bytes : Bytes) : Str :=
  (List.range 8).map fun i =>
    crockford.getD (ofBeBytes ((W.sha256 bytes).take 5) / 32 ^ (7 - i) % 32) '0'

theorem proofCode_eq (W : World) (bytes : Bytes) :
    proofCode W bytes = formatCode (codeDigits W bytes) := rfl

theorem crockford_digits : ∀ k < 32, crockford.getD k '0' ∈ crockford ∧
    crockford.idxOf (crockford.getD k '0') = k := by
  decide +kernel

theorem codeDigits_mem (W : World) (bytes : Bytes) : ∀ c ∈ codeDigits W bytes, c ∈ crockford := by
  intro c hc
  obtain ⟨i, -, rfl⟩ := List.mem_map.mp hc
  exact (crockford_digits _ (Nat.mod_lt _ (by decide))).1

theorem length_codeDigits (W : World) (bytes : Bytes) : (codeDigits W bytes).length = 8 := by
  simp [codeDigits]

/-- Eight digits hold 40 bits. -/
theorem foldl_digits {v : Nat} (h : v < 32 ^ 8) :
    ((List.range 8).map fun i => v / 32 ^ (7 - i) % 32).foldl (fun bits d => bits * 32 + d) 0 = v := by
  simp [List.range_succ]
  omega

theorem erase_dash {body : Str} (hbody : ∀ c ∈ body, c ∈ crockford) :
    ((formatCode body).drop 4).erase '-' = body := by
  have hdash : '-' ∉ body.take 4 := by
    intro hmem
    have hplain := (crockford_plain _ (hbody _ (List.mem_of_mem_take hmem))).2.1
    cases hplain
  show (body.take 4 ++ '-' :: body.drop 4).erase '-' = body
  rw [List.erase_append_right _ hdash, List.erase_cons_head, List.take_append_drop]

theorem hexEncode_take : ∀ (n : Nat) (b : Bytes), hexEncode (b.take n) = (hexEncode b).take (2 * n)
  | 0, _ => rfl
  | n + 1, [] => by simp [hexEncode]
  | n + 1, x :: b => by
    have ih := hexEncode_take n b
    unfold hexEncode at ih ⊢
    rw [List.take_succ_cons, List.flatMap_cons, List.flatMap_cons, ih, Nat.mul_succ]
    rfl

/-- The first ten hex digits of the record's hash. -/
theorem codePrefixHex_proofCode (W : World) (bytes : Bytes) (hsha : (W.sha256 bytes).length = 32) :
    codePrefixHex J (proofCode W bytes) = some ((W.sha256Hex bytes).take 10) := by
  have hlen : ((W.sha256 bytes).take 5).length = 5 := by rw [List.length_take, hsha]; rfl
  obtain ⟨hlt, hbytes⟩ := beBytes_ofBeBytes hlen
  have hfold : (codeDigits W bytes).foldl (fun bits ch => bits * 32 + crockford.idxOf ch) 0 =
      ofBeBytes ((W.sha256 bytes).take 5) := by
    rw [← foldl_digits (show ofBeBytes ((W.sha256 bytes).take 5) < 32 ^ 8 from hlt), codeDigits,
      List.foldl_map, List.foldl_map]
    simp only [(crockford_digits _ (Nat.mod_lt _ (show 0 < 32 by decide))).2]
  unfold codePrefixHex
  rw [proofCode_eq, parse_formatCode (length_codeDigits W bytes) (codeDigits_mem W bytes),
    Option.map_some, erase_dash (codeDigits_mem W bytes), hfold, hbytes]
  exact congrArg some (hexEncode_take 5 _)

end Parser

/-- **Proof codes and what people type.** A record's code stands for the first ten hex digits of its
hash; what the parser gives reads as itself; and a retyping of the code, with or without the leading `TET`,
reads as the code exactly if the text, in upper case and without blanks and underscores, starts with `TET`
just when the leading `TET` is written. -/
theorem proofCode_retyped_iff (J : JsRuntime) (W : World) (bytes : Bytes)
    (hsha : (W.sha256 bytes).length = 32) :
    codePrefixHex J (proofCode W bytes) = some ((W.sha256Hex bytes).take 10) ∧
    (∀ s c, parseProofCode J s = some c → parseProofCode J c = some c) ∧
    ∀ (s : Str) (prefixWritten : Bool), Retyped (proofCode W bytes) prefixWritten s →
      (parseProofCode J s = some (proofCode W bytes) ↔ startsWithTet s = prefixWritten) := by
  refine ⟨codePrefixHex_proofCode W bytes hsha, ?_, ?_⟩
  · intro s c h
    obtain ⟨body, hlen, hbody, rfl⟩ := exists_body h
    exact parse_formatCode hlen hbody
  · intro s prefixWritten h
    exact parse_retyped_iff (length_codeDigits W bytes) (codeDigits_mem W bytes) h

end TetCore.Page

namespace TetCore.Sample

open TetCore.Lib TetCore.Page

/-- The SHA-256 of the text `record 71543`. -/
def tetHash : Bytes :=
  [211, 181, 100, 17, 235, 116, 115, 24, 10, 26, 31, 226, 214, 251, 124, 133, 189, 91, 223, 42, 2, 178,
    236, 84, 157, 54, 24, 87, 90, 188, 194, 51]

def tetWorld : World := { World.sample 0 with sha256 := fun _ => tetHash }

/-- Its code is `TET-TETP-84FB`. -/
def tetRecord : Bytes := utf8 "record 71543".toList

/-- Its code without the leading `TET`. -/
theorem tetRecord_retyped : Retyped (proofCode tetWorld tetRecord) false "tetp 84fb".toList := by
  have hletters : codeLetters "tetp 84fb".toList = "tetp84fb".toList ∧
      (codeLetters (proofCode tetWorld tetRecord)).drop 3 = "TETP84FB".toList := by
    decide +kernel
  unfold Retyped
  rw [hletters.1, if_neg Bool.false_ne_true, hletters.2]
  repeat' constructor

end TetCore.Sample

namespace TetCore.Page

open TetCore.Lib

/-- The code of a record, all of it typed. -/
theorem proofCode_retyped_iff_whole :
    codePrefixHex JsRuntime.ascii (proofCode Sample.tetWorld Sample.tetRecord) =
        some ((Sample.tetWorld.sha256Hex Sample.tetRecord).take 10) ∧
      (∀ s c, parseProofCode JsRuntime.ascii s = some c → parseProofCode JsRuntime.ascii c = some c) ∧
      ∀ (s : Str) (prefixWritten : Bool),
        Retyped (proofCode Sample.tetWorld Sample.tetRecord) prefixWritten s →
          (parseProofCode JsRuntime.ascii s = some (proofCode Sample.tetWorld Sample.tetRecord) ↔
            startsWithTet s = prefixWritten) :=
  proofCode_retyped_iff JsRuntime.ascii Sample.tetWorld Sample.tetRecord rfl

/-- A code that starts with `TET` after the leading one is not read without that. -/
theorem tet_code_lost :
    Retyped (proofCode Sample.tetWorld Sample.tetRecord) false "tetp 84fb".toList ∧
      parseProofCode JsRuntime.ascii "tetp 84fb".toList = none := by
  refine ⟨Sample.tetRecord_retyped, ?_⟩
  decide +kernel

end TetCore.Page
