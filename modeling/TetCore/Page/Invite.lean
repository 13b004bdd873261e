import Mathlib.Data.Bool.AllAny
import TetCore.Lib.Base64
import TetCore.Lib.Utf16
import TetCore.Lib.Utf8

/-!
# Board invites

`board.mjs`: an invite is a prefix, the board's id, its seed and its name, joined by dots. The encoder
trims the name and cuts it to 40 units before it is written as UTF-8; the parser reads it and cuts it
again, and trims nothing.

* `b64urlDecode_encode`: bytes come back.
* `parseInvite_fields`: what is read of an invite that is put together of four fields, in each of the
  forms it is passed on in.
* `invite_iff`: an invite gives the name back exactly when no surrogate is alone in its first 40 units;
  and the board that is read of a text is the same after it is written and read again exactly when its
  name is text without blanks at the ends.
-/

namespace TetCore.Page.Invites

open TetCore.Lib

/-- `BOARD_INVITE_PREFIX`. -/
def boardInvitePrefix : Units := utf16 "tetboard1".toList

/-- `BOARD_NAME_MAX`. -/
def boardNameMax : Nat := 40

/-! ## Base64url -/

/-- `+` and `/` as `-` and `_`. -/
def urlUnit (u : UInt16) : UInt16 := if u = 43 then 45 else if u = 47 then 95 else u

/-- `-` and `_` as `+` and `/`. -/
def stdUnit (u : UInt16) : UInt16 := if u = 45 then 43 else if u = 95 then 47 else u

/-- `[A-Za-z0-9_-]`. -/
def isUrlUnit (u : UInt16) : Bool :=
  let n := u.toNat
  (65 ≤ n && n ≤ 90) || (97 ≤ n && n ≤ 122) || (48 ≤ n && n ≤ 57) || n == 95 || n == 45

/-- `b64urlEncode`. -/
def b64urlEncode (bytes : Bytes) : Units :=
  ((((utf16 (b64Encode bytes)).map urlUnit).reverse).dropWhile (· == 61)).reverse

/-- `b64urlDecode`; nothing where it throws. -/
def b64urlDecode (text : Units) : Option Bytes :=
  if text.all isUrlUnit = true then
    let pad := if text.length % 4 = 0 then [] else List.replicate (4 - text.length % 4) '='
    atob (toChars (text.map stdUnit) ++ pad)
  else none

/-! ## Invites -/

section Invites

-- `toLowerCase`, of the strings with other units than ASCII
variable (lowerOther : Units → Units)

/-- `String.prototype.toLowerCase`. -/
def lowerUnits (s : Units) : Units :=
  if s.all (fun u => u.toNat < 128) = true then
    s.map fun u => if 65 ≤ u.toNat ∧ u.toNat ≤ 90 then u + 32 else u
  else lowerOther s

/-- `/^[0-9a-f]{64}$/`. -/
def isBoardId (s : Units) : Bool :=
  s.length == 64 && s.all fun u => (48 ≤ u.toNat && u.toNat ≤ 57) || (97 ≤ u.toNat && u.toNat ≤ 102)

/-- What `encodeInvite` takes: no name is `none`. -/
structure InviteInput where
  boardWalletId : Units
  seed : Bytes
  name : Option Units

/-- What `parseInvite` returns. -/
structure Board where
  boardWalletId : Units
  seed : Bytes
  name : Units
  deriving DecidableEq

/-- `new TextDecoder("utf-8", { fatal: true }).decode`: a byte order mark in front is dropped. -/
def decodeFatal (bytes : Bytes) : Option Str :=
  (utf8Decode bytes).map fun t => if t.head? = some '\uFEFF' then t.drop 1 else t

/-- The name an invite carries. -/
def inviteName (name : Option Units) : Units := (trimUnits (name.getD [])).take boardNameMax

/-- The four fields of an invite. -/
def joinInvite (wid : Units) (seed name : Bytes) : Units :=
  List.intercalate [46] [boardInvitePrefix, wid, b64urlEncode seed, b64urlEncode name]

/-- `encodeInvite`. `TextEncoder` replaces surrogates that are alone. -/
def encodeInvite (b : InviteInput) : Except Str Units :=
  let wid := lowerUnits lowerOther (trimUnits b.boardWalletId)
  if isBoardId wid = false then .error "board wallet id must be 64 hex chars".toList
  else if b.seed.length ≠ 32 then .error "board seed must be 32 bytes".toList
  else .ok (joinInvite wid b.seed (utf8 (toChars (inviteName b.name))))

/-- `s.slice(s.indexOf(tag) + tag.length)`, where `tag` is in `s`. -/
def afterFirst (tag : Units) : Units → Option Units
  | [] => if tag = [] then some [] else none
  | u :: s => if tag.isPrefixOf (u :: s) = true then some ((u :: s).drop tag.length) else afterFirst tag s

/-- `"#board="`. -/
def boardTag : Units := utf16 "#board=".toList

/-- The fields of the invite that a text ends in. -/
def inviteFields (text : Option Units) : List Units :=
  let s := trimUnits (text.getD [])
  let s := match afterFirst boardTag s with
    | some rest => rest
    | none => if (boardTag.drop 1).isPrefixOf s = true then s.drop 6 else s
  (s.takeWhile (· != 38)).splitOn 46

/-- The checks of `parseInvite` on the fields. -/
def readFields : List Units → Except Str Board
  | [first, id, seed, name] =>
    if first ≠ boardInvitePrefix then .error "not a TET board invite".toList
    else
      let wid := lowerUnits lowerOther id
      if isBoardId wid = false then .error "invite: bad board wallet id".toList
      else match b64urlDecode seed with
        | none => .error "invite: not base64url".toList
        | some seed =>
          if seed.length ≠ 32 then .error "invite: bad board seed".toList
          else match (b64urlDecode name).bind decodeFatal with
            | none => .error "invite: bad board name".toList
            | some t => .ok ⟨wid, seed, (utf16 t).take boardNameMax⟩
  | _ => .error "not a TET board invite".toList

/-- `parseInvite`. -/
def parseInvite (text : Option Units) : Except Str Board := readFields lowerOther (inviteFields text)

/-- `inviteUrl`. -/
def inviteUrl (origin invite : Units) : Units :=
  (origin.reverse.dropWhile (· == 47)).reverse ++ (utf16 "/try".toList ++ (boardTag ++ invite))

/-- `openBoard`'s new invite of a board. -/
def encodeBoard (b : Board) : Except Str Units :=
  encodeInvite lowerOther ⟨b.boardWalletId, b.seed, some b.name⟩

end Invites

/-! ## Base64url round trip -/

/-- The unit of a six-bit value. -/
def urlSextet (n : Nat) : UInt16 := urlUnit (UInt16.ofNat (sextetChar n).toNat)

theorem urlSextet_facts : ∀ n < 64, isUrlUnit (urlSextet n) = true ∧
    charUnits (sextetChar n) = [UInt16.ofNat (sextetChar n).toNat] ∧
    charUnits (sextetChar n) = [stdUnit (urlSextet n)] ∧ (urlSextet n == 61) = false := by
  decide +kernel

/-- What is written: one unit for each six bits. -/
theorem b64urlEncode_eq (bytes : Bytes) : b64urlEncode bytes = (toSextets bytes).map urlSextet := by
  have hlt := toSextets_lt bytes
  have hbody : (utf16 ((toSextets bytes).map sextetChar)).map urlUnit =
      (toSextets bytes).map urlSextet := by
    generalize toSextets bytes = xs at hlt
    induction xs with
    | nil => rfl
    | cons n xs ih =>
      have ih := ih fun m hm => hlt m (List.mem_cons_of_mem n hm)
      rw [List.map_cons, show utf16 (sextetChar n :: xs.map sextetChar) =
        charUnits (sextetChar n) ++ utf16 (xs.map sextetChar) from List.flatMap_cons,
        (urlSextet_facts n (hlt n List.mem_cons_self)).2.1, List.map_append, ih]
      rfl
  have hpad : ∀ k : Nat, (utf16 (List.replicate k '=')).map urlUnit = List.replicate k 61 := by
    intro k
    induction k with
    | zero => rfl
    | succ k ih =>
      rw [List.replicate_succ, show utf16 ('=' :: List.replicate k '=') =
        charUnits '=' ++ utf16 (List.replicate k '=') from List.flatMap_cons, List.map_append, ih]
      rfl
  have hall : ∀ u ∈ List.replicate ((3 - bytes.length % 3) % 3) (61 : UInt16), (u == 61) = true := by
    intro u hu
    rw [(List.mem_replicate.mp hu).2]
    rfl
  have hstop : ((toSextets bytes).map urlSextet).reverse.dropWhile (· == 61) =
      ((toSextets bytes).map urlSextet).reverse := by
    rw [List.dropWhile_eq_self_iff]
    intro hpos
    have hmem := List.getElem_mem hpos
    rw [List.mem_reverse, List.mem_map] at hmem
    obtain ⟨n, hn, heq⟩ := hmem
    rw [← heq, (urlSextet_facts n (hlt n hn)).2.2.2]
    decide
  rw [b64urlEncode, b64Encode, show utf16 (_ ++ _) = utf16 _ ++ utf16 _ from List.flatMap_append,
    List.map_append, hbody, hpad, List.reverse_append, List.dropWhile_append_of_pos (by
      intro u hu
      exact hall u (List.mem_reverse.mp hu)), hstop, List.reverse_reverse]

theorem all_isUrlUnit (bytes : Bytes) : ∀ u ∈ b64urlEncode bytes, isUrlUnit u = true := by
  intro u hu
  rw [b64urlEncode_eq] at hu
  obtain ⟨n, hn, rfl⟩ := List.mem_map.mp hu
  exact (urlSextet_facts n (toSextets_lt bytes n hn)).1

/-- **Bytes come back.** -/
theorem b64urlDecode_encode (bytes : Bytes) : b64urlDecode (b64urlEncode bytes) = some bytes := by
  have hlt := toSextets_lt bytes
  have hchars : ((toSextets bytes).map urlSextet).map stdUnit =
      utf16 ((toSextets bytes).map sextetChar) := by
    generalize toSextets bytes = xs at hlt
    induction xs with
    | nil => rfl
    | cons n xs ih =>
      have ih := ih fun m hm => hlt m (List.mem_cons_of_mem n hm)
      rw [List.map_cons, List.map_cons, ih, List.map_cons,
        show utf16 (sextetChar n :: xs.map sextetChar) =
        charUnits (sextetChar n) ++ utf16 (xs.map sextetChar) from List.flatMap_cons,
        (urlSextet_facts n (hlt n List.mem_cons_self)).2.2.1]
      rfl
  have hpad : (if (toSextets bytes).length % 4 = 0 then []
      else List.replicate (4 - (toSextets bytes).length % 4) '=') =
        List.replicate ((3 - bytes.length % 3) % 3) '=' := by
    have hlen := length_toSextets bytes
    by_cases hzero : (toSextets bytes).length % 4 = 0
    · rw [if_pos hzero, show (3 - bytes.length % 3) % 3 = 0 by omega]
      rfl
    · rw [if_neg hzero, show 4 - (toSextets bytes).length % 4 = (3 - bytes.length % 3) % 3 by omega]
  have hall : (b64urlEncode bytes).all isUrlUnit = true :=
    List.all_eq_true.mpr (all_isUrlUnit bytes)
  rw [b64urlDecode, if_pos hall, b64urlEncode_eq]
  simp only [List.length_map]
  rw [hpad, hchars, toChars_utf16]
  exact atob_eq (stdDecode_encode bytes)

/-! ## The units of an invite -/

/-- A unit of an invite. -/
def isInviteUnit (u : UInt16) : Bool := isUrlUnit u || u == 46

theorem inviteUnit_plain {u : UInt16} (h : isInviteUnit u = true) :
    isBlankUnit u = false ∧ u ≠ 35 ∧ u ≠ 38 := by
  refine ⟨?_, ?_, ?_⟩
  · simp [isInviteUnit, isUrlUnit, ← UInt16.toNat_inj] at h
    simp [isBlankUnit]
    omega
  · rintro rfl
    revert h
    decide
  · rintro rfl
    revert h
    decide

theorem dot_notMem {s : Units} (h : ∀ u ∈ s, isUrlUnit u = true) : (46 : UInt16) ∉ s := by
  intro hmem
  have hdot := h 46 hmem
  revert hdot
  decide

theorem all_isUrlUnit_id {wid : Units} (h : isBoardId wid = true) : ∀ u ∈ wid, isUrlUnit u = true := by
  rw [isBoardId, Bool.and_eq_true, List.all_eq_true] at h
  intro u hu
  have hu := h.2 u hu
  simp [isUrlUnit] at hu ⊢
  omega

theorem boardFacts : (∀ u ∈ boardInvitePrefix, isUrlUnit u = true) ∧
    boardInvitePrefix.head? = some 116 ∧ boardTag = 35 :: boardTag.drop 1 ∧
    (boardTag.drop 1).head? = some 98 ∧ (∀ u ∈ boardTag, isBlankUnit u = false) ∧
    (35 : UInt16) ∉ utf16 "/try".toList := by
  have hurl : ∀ u ∈ boardInvitePrefix, isUrlUnit u = true :=
    List.all_iff_forall_prop.mp (by decide +kernel)
  have hblank : ∀ u ∈ boardTag, isBlankUnit u = false := List.all_iff_forall_prop.mp (by decide +kernel)
  refine ⟨hurl, ?_, ?_, ?_, hblank, ?_⟩
  · decide +kernel
  · decide +kernel
  · decide +kernel
  · decide +kernel

variable {wid : Units} (seed name : Bytes)

theorem fields_plain (hwid : isBoardId wid = true) :
    ∀ f ∈ [boardInvitePrefix, wid, b64urlEncode seed, b64urlEncode name],
      ∀ u ∈ f, isUrlUnit u = true := by
  intro f hf
  simp only [List.mem_cons, List.not_mem_nil, or_false] at hf
  rcases hf with rfl | rfl | rfl | rfl
  · exact boardFacts.1
  · exact all_isUrlUnit_id hwid
  · exact all_isUrlUnit seed
  · exact all_isUrlUnit name

theorem joinInvite_plain (hwid : isBoardId wid = true) :
    ∀ u ∈ joinInvite wid seed name, isInviteUnit u = true := by
  have hfields := fields_plain seed name hwid
  intro u hu
  rw [joinInvite, List.intercalate_cons_cons, List.intercalate_cons_cons,
    List.intercalate_cons_cons, List.intercalate_singleton] at hu
  simp only [List.mem_append, List.mem_singleton] at hu
  rw [isInviteUnit, Bool.or_eq_true, beq_iff_eq]
  rcases hu with (hu | hu) | (hu | hu) | (hu | hu) | hu
  · exact Or.inl (hfields _ (by simp) u hu)
  · exact Or.inr hu
  · exact Or.inl (hfields _ (by simp) u hu)
  · exact Or.inr hu
  · exact Or.inl (hfields _ (by simp) u hu)
  · exact Or.inr hu
  · exact Or.inl (hfields _ (by simp) u hu)

theorem head?_joinInvite : (joinInvite wid seed name).head? = some 116 := by
  rw [joinInvite, List.intercalate_cons_cons, List.append_assoc, List.head?_append, boardFacts.2.1]
  rfl

/-! ## What is passed on -/

theorem afterFirst_none {s : Units} (h : (35 : UInt16) ∉ s) : afterFirst boardTag s = none := by
  induction s with
  | nil =>
    rw [afterFirst, if_neg]
    rw [boardFacts.2.2.1]
    exact List.cons_ne_nil _ _
  | cons u s ih =>
    rw [List.mem_cons, not_or] at h
    rw [afterFirst, if_neg, ih h.2]
    rw [boardFacts.2.2.1, List.isPrefixOf, Bool.and_eq_true, beq_iff_eq]
    exact fun hu => h.1 hu.1

theorem afterFirst_append {s : Units} (h : (35 : UInt16) ∉ s) (rest : Units) :
    afterFirst boardTag (s ++ (boardTag ++ rest)) = some rest := by
  induction s with
  | nil =>
    have hstart : boardTag.isPrefixOf (boardTag ++ rest) = true :=
      List.isPrefixOf_iff_prefix.mpr (List.prefix_append _ _)
    rw [List.nil_append]
    rw [boardFacts.2.2.1, List.cons_append] at hstart ⊢
    rw [afterFirst, if_pos hstart, ← List.cons_append, List.drop_left]
  | cons u s ih =>
    rw [List.mem_cons, not_or] at h
    rw [List.cons_append, afterFirst, if_neg, ih h.2]
    rw [boardFacts.2.2.1, List.isPrefixOf, Bool.and_eq_true, beq_iff_eq]
    exact fun hu => h.1 hu.1

/-- A text that an invite is passed on in: the invite, the fragment, or the whole link. -/
def Carries (text invite : Units) : Prop :=
  text = invite ∨ text = boardTag ++ invite ∨
    ∃ origin : Units, (35 : UInt16) ∉ origin ∧ text = inviteUrl origin invite

/-- **The fields of an invite** are found in each of these. -/
theorem inviteFields_of_carries (hwid : isBoardId wid = true) {text : Units}
    (h : Carries text (joinInvite wid seed name)) :
    inviteFields (some text) =
      [boardInvitePrefix, wid, b64urlEncode seed, b64urlEncode name] := by
  have hplain := joinInvite_plain seed name hwid
  have hhead : (joinInvite wid seed name).head? = some 116 := head?_joinInvite seed name
  have hsplit : ((joinInvite wid seed name).takeWhile (· != 38)).splitOn 46 =
      [boardInvitePrefix, wid, b64urlEncode seed, b64urlEncode name] := by
    have hkeep : (joinInvite wid seed name).takeWhile (· != 38) = joinInvite wid seed name := by
      rw [List.takeWhile_eq_self_iff]
      intro u hu
      rw [bne_iff_ne]
      exact (inviteUnit_plain (hplain u hu)).2.2
    rw [hkeep]
    exact List.splitOn_intercalate 46
      (fun f hf => dot_notMem (fields_plain seed name hwid f hf)) (List.cons_ne_nil _ _)
  generalize joinInvite wid seed name = invite at h hplain hhead hsplit
  have hblank : ∀ u ∈ invite, isBlankUnit u = false := fun u hu => (inviteUnit_plain (hplain u hu)).1
  -- the fragment, after what has no `#`
  have hafter : ∀ before : Units, (35 : UInt16) ∉ before →
      inviteFields (some (before ++ (boardTag ++ invite))) =
        [boardInvitePrefix, wid, b64urlEncode seed, b64urlEncode name] := by
    intro before hbefore
    have htrim : trimUnits (before ++ (boardTag ++ invite)) =
        before.dropWhile isBlankUnit ++ (boardTag ++ invite) := by
      refine trimUnits_append (fun u hu => ?_) ?_
      · rcases List.mem_append.mp hu with hu | hu
        · exact boardFacts.2.2.2.2.1 u hu
        · exact hblank u hu
      · rw [boardFacts.2.2.1]
        exact List.cons_ne_nil _ _
    have hnone : (35 : UInt16) ∉ before.dropWhile isBlankUnit :=
      fun hmem => hbefore ((List.dropWhile_sublist _).subset hmem)
    rw [inviteFields, Option.getD_some, htrim]
    rw [afterFirst_append hnone]
    exact hsplit
  rcases h with rfl | rfl | ⟨origin, horigin, rfl⟩
  · have hnone : (35 : UInt16) ∉ text := fun hmem => (inviteUnit_plain (hplain 35 hmem)).2.1 rfl
    rw [inviteFields, Option.getD_some, trimUnits_of_forall hblank]
    rw [afterFirst_none hnone]
    simp only
    rw [if_neg]
    · exact hsplit
    · intro hstart
      obtain ⟨rest, rfl⟩ := List.isPrefixOf_iff_prefix.mp hstart
      rw [List.head?_append, boardFacts.2.2.2.1] at hhead
      cases hhead
  · exact hafter [] List.not_mem_nil
  · rw [inviteUrl, ← List.append_assoc]
    refine hafter _ fun hmem => ?_
    rcases List.mem_append.mp hmem with hmem | hmem
    · exact horigin (List.mem_reverse.mp ((List.dropWhile_sublist _).subset (List.mem_reverse.mp hmem)))
    · exact boardFacts.2.2.2.2.2 hmem

/-! ## What is read -/

variable {lowerOther : Units → Units}

theorem lowerUnits_of_isBoardId (h : isBoardId wid = true) : lowerUnits lowerOther wid = wid := by
  rw [isBoardId, Bool.and_eq_true, List.all_eq_true] at h
  have hascii : wid.all (fun u => u.toNat < 128) = true := by
    refine List.all_eq_true.mpr fun u hu => ?_
    have hu := h.2 u hu
    simp at hu ⊢
    omega
  rw [lowerUnits, if_pos hascii]
  refine (List.map_congr_left fun u hu => if_neg ?_).trans (List.map_id wid)
  have hu := h.2 u hu
  simp at hu
  omega

/-- The name that comes back: surrogates that are alone are replaced. -/
def keptName (n : Units) : Units := utf16 (toChars n)

/-- A name that starts with no blank is read without loss of its first character. -/
theorem decodeFatal_name {n : Units} (h : ∀ u, n.head? = some u → isBlankUnit u = false) :
    decodeFatal (utf8 (toChars n)) = some (toChars n) := by
  rw [decodeFatal, utf8Decode_utf8, Option.map_some, if_neg]
  intro hbom
  obtain ⟨rest, hn⟩ := prefix_of_toChars hbom (by decide)
  have hhead : n.head? = some 0xFEFF := by
    rw [← hn]
    rfl
  have hblank := h _ hhead
  revert hblank
  decide

/-- **What is read of an invite**, in each of its forms. -/
theorem parseInvite_fields (hwid : isBoardId wid = true) (hseed : seed.length = 32) {n : Units}
    (hhead : ∀ u, n.head? = some u → isBlankUnit u = false) (hlen : n.length ≤ boardNameMax)
    {text : Units} (h : Carries text (joinInvite wid seed (utf8 (toChars n)))) :
    parseInvite lowerOther (some text) = .ok ⟨wid, seed, keptName n⟩ := by
  have hkept : (utf16 (toChars n)).take boardNameMax = keptName n := by
    rw [List.take_of_length_le]
    · rfl
    · rwa [length_utf16_toChars]
  rw [parseInvite, inviteFields_of_carries seed _ hwid h, readFields, if_neg (not_not.mpr rfl),
    lowerUnits_of_isBoardId hwid]
  simp only [hwid, Bool.true_eq_false, if_false, b64urlDecode_encode, hseed, ne_eq,
    not_true_eq_false, Option.bind_some, decodeFatal_name hhead, hkept]

theorem keptName_iff (n : Units) : keptName n = n ↔ isWellFormed n = true := utf16_toChars_iff n

theorem inviteName_head (name : Option Units) (u : UInt16)
    (h : (inviteName name).head? = some u) : isBlankUnit u = false := by
  refine head_trimUnits (s := name.getD []) ?_
  rw [inviteName, List.head?_take, if_neg (by decide)] at h
  exact h

theorem inviteName_length (name : Option Units) : (inviteName name).length ≤ boardNameMax :=
  List.length_take_le _ _

/-- What `encodeInvite` writes, and when it writes it. -/
theorem encodeInvite_ok {b : InviteInput} {invite : Units} :
    encodeInvite lowerOther b = .ok invite ↔
      isBoardId (lowerUnits lowerOther (trimUnits b.boardWalletId)) = true ∧ b.seed.length = 32 ∧
        invite = joinInvite (lowerUnits lowerOther (trimUnits b.boardWalletId)) b.seed
          (utf8 (toChars (inviteName b.name))) := by
  unfold encodeInvite
  simp only
  cases isBoardId (lowerUnits lowerOther (trimUnits b.boardWalletId)) with
  | false => simp
  | true =>
    by_cases hseed : b.seed.length = 32
    · simp [hseed, eq_comm]
    · simp [hseed]

/-- What `parseInvite` reads of the fields of a text. -/
theorem parseInvite_ok {text : Option Units} {b : Board} (h : parseInvite lowerOther text = .ok b) :
    isBoardId b.boardWalletId = true ∧ b.seed.length = 32 ∧
      ∃ first id seed name bytes t, inviteFields text = [first, id, seed, name] ∧
        b64urlDecode name = some bytes ∧ decodeFatal bytes = some t ∧
        b.name = (utf16 t).take boardNameMax := by
  rw [parseInvite] at h
  generalize inviteFields text = fields at h ⊢
  unfold readFields at h
  split at h
  · rename_i first id seed name
    split at h
    · cases h
    simp only at h
    split at h
    · cases h
    rename_i hid
    split at h
    · cases h
    rename_i bytes hbytes
    split at h
    · cases h
    rename_i hlen
    split at h
    · cases h
    rename_i t ht
    cases h
    obtain ⟨bytes', hname, hdecode⟩ := Option.bind_eq_some_iff.mp ht
    exact ⟨Bool.not_eq_false _ ▸ hid, not_not.mp hlen, first, id, seed, name, bytes', t, rfl, hname,
      hdecode, rfl⟩
  · cases h

/-- A name is kept by trimming and replacing only where neither does anything. -/
theorem keptName_trimUnits_iff (n : Units) :
    keptName (trimUnits n) = n ↔ trimUnits n = n ∧ isWellFormed n = true := by
  constructor
  · intro h
    have hlen : (trimUnits n).length = n.length := by
      rw [← length_utf16_toChars (trimUnits n)]
      exact congrArg List.length h
    have htrim : trimUnits n = n := (trimUnits_within n).eq_of_length hlen
    rw [htrim] at h
    exact ⟨htrim, (keptName_iff n).mp h⟩
  · rintro ⟨htrim, hwell⟩
    rw [htrim]
    exact (keptName_iff n).mpr hwell

section Reopen

variable {b : Board} (hid : isBoardId b.boardWalletId = true) (hseed : b.seed.length = 32)
include hid hseed

theorem encodeBoard_ok {invite : Units} : encodeBoard lowerOther b = .ok invite ↔
    invite = joinInvite b.boardWalletId b.seed (utf8 (toChars (inviteName (some b.name)))) := by
  have htrim : trimUnits b.boardWalletId = b.boardWalletId :=
    trimUnits_of_forall fun u hu =>
      (inviteUnit_plain (by rw [isInviteUnit, all_isUrlUnit_id hid u hu, Bool.true_or])).1
  rw [encodeBoard, encodeInvite_ok, htrim, lowerUnits_of_isBoardId hid]
  exact ⟨fun h => h.2.2, fun h => ⟨hid, hseed, h⟩⟩

/-- A board that was read is written, and read again with its name trimmed and replaced. -/
theorem parseInvite_encodeBoard (hshort : b.name.length ≤ boardNameMax) {invite : Units}
    (h : encodeBoard lowerOther b = .ok invite) : parseInvite lowerOther (some invite) =
      .ok ⟨b.boardWalletId, b.seed, keptName (trimUnits b.name)⟩ := by
  rw [encodeBoard_ok hid hseed] at h
  have hname : inviteName (some b.name) = trimUnits b.name := by
    rw [inviteName, Option.getD_some, List.take_of_length_le]
    exact (trimUnits_within b.name).length_le.trans hshort
  rw [parseInvite_fields b.seed hid hseed (inviteName_head _) (inviteName_length _) (Or.inl h), hname]

end Reopen

/-- The name's field of a text is, after the cut, text without blanks at the ends. -/
def NameKept (text : Option Units) : Prop :=
  ∀ first id seed name bytes t, inviteFields text = [first, id, seed, name] →
    b64urlDecode name = some bytes → decodeFatal bytes = some t →
      let n := (utf16 t).take boardNameMax
      trimUnits n = n ∧ isWellFormed n = true

/-- **An invite gives its board back** exactly when the first 40 units of the trimmed name are text; and
the board that is read of a text is read again of the invite it is written as exactly when the name in
the text is, after the cut, text without blanks at the ends. -/
theorem invite_iff (lowerOther : Units → Units) :
    (∀ b invite, encodeInvite lowerOther b = .ok invite →
      ((∀ text, Carries text invite → parseInvite lowerOther (some text) =
          .ok ⟨lowerUnits lowerOther (trimUnits b.boardWalletId), b.seed, inviteName b.name⟩) ↔
        isWellFormed (inviteName b.name) = true)) ∧
    ∀ text b, parseInvite lowerOther text = .ok b →
      ((∃ invite, encodeBoard lowerOther b = .ok invite ∧
          parseInvite lowerOther (some invite) = .ok b) ↔ NameKept text) := by
  constructor
  · intro b invite hencode
    obtain ⟨hid, hseed, rfl⟩ := encodeInvite_ok.mp hencode
    rw [← keptName_iff]
    have hread : ∀ {text : Units}, Carries text _ → parseInvite lowerOther (some text) = _ :=
      fun h => parseInvite_fields b.seed hid hseed (inviteName_head b.name)
        (inviteName_length b.name) h
    constructor
    · intro h
      have hsame := (hread (Or.inl rfl)).symm.trans (h _ (Or.inl rfl))
      exact congrArg Board.name (Except.ok.inj hsame)
    · intro hkept text htext
      rw [hread htext, hkept]
  · intro text b hparse
    obtain ⟨hid, hseed, first, id, seed, name, bytes, t, hfields, hname, hdecode, hb⟩ :=
      parseInvite_ok hparse
    have hshort : b.name.length ≤ boardNameMax := hb ▸ List.length_take_le _ _
    have hkept : NameKept text ↔ keptName (trimUnits b.name) = b.name := by
      rw [keptName_trimUnits_iff]
      constructor
      · intro h
        rw [hb]
        exact h first id seed name bytes t hfields hname hdecode
      · intro h first' id' seed' name' bytes' t' hfields' hname' hdecode'
        cases hfields.symm.trans hfields'
        cases hname.symm.trans hname'
        cases hdecode.symm.trans hdecode'
        rw [← hb]
        exact h
    rw [hkept]
    constructor
    · rintro ⟨invite, hencode, hagain⟩
      have hread := parseInvite_encodeBoard hid hseed hshort hencode
      exact congrArg Board.name (Except.ok.inj (hread.symm.trans hagain))
    · intro hname
      have hencode : encodeBoard lowerOther b = .ok (joinInvite b.boardWalletId b.seed
          (utf8 (toChars (inviteName (some b.name))))) := (encodeBoard_ok hid hseed).mpr rfl
      refine ⟨_, hencode, ?_⟩
      rw [parseInvite_encodeBoard hid hseed hshort hencode, hname]

end TetCore.Page.Invites

namespace TetCore.Sample

open TetCore.Lib TetCore.Page.Invites

/-- A board with a name of 39 letters and a character of two units. -/
def longNamed : InviteInput :=
  ⟨List.replicate 64 48, List.replicate 32 0, some (List.replicate 39 97 ++ [0xD83D, 0xDE00])⟩

theorem longNamedFacts : isBoardId (lowerUnits id (trimUnits longNamed.boardWalletId)) = true ∧
    isWellFormed (inviteName longNamed.name) = false := by
  decide +kernel

end TetCore.Sample

namespace TetCore.Page.Invites

open TetCore.Lib

/-- The cut goes through a character, and half of it is not given back. -/
theorem cut_pair_lost : ∃ invite, encodeInvite id Sample.longNamed = .ok invite ∧
    parseInvite id (some invite) ≠ .ok ⟨lowerUnits id (trimUnits Sample.longNamed.boardWalletId),
      Sample.longNamed.seed, inviteName Sample.longNamed.name⟩ := by
  obtain ⟨hid, hname⟩ := Sample.longNamedFacts
  have hseed : Sample.longNamed.seed.length = 32 := List.length_replicate
  refine ⟨_, encodeInvite_ok.mpr ⟨hid, hseed, rfl⟩, ?_⟩
  rw [parseInvite_fields _ hid hseed (inviteName_head _) (inviteName_length _) (Or.inl rfl)]
  intro h
  have hkept := (keptName_iff _).mp (congrArg Board.name (Except.ok.inj h))
  rw [hname] at hkept
  cases hkept

end TetCore.Page.Invites
