import TetCore.Lib.Trims

/-!
# Base64

The two decoders of the standard alphabet that the nodes and the page use.

* `stdDecode`: the `STANDARD` engine of Rust's `base64`. Padded text, no blanks, and the unused bits of
  the last character are zero.
* `atob`: the forgiving decoder of the browser. ASCII blanks are skipped, padding may be left out, and
  the unused bits are dropped.

`atob_of_stdDecode`: what the first decodes, the second decodes to the same bytes, also with ASCII
blanks put in. `stdDecode_encode` is the round trip.
-/

namespace TetCore.Lib

/-- The value of a character of the alphabet. -/
def sextet (c : Char) : Option Nat :=
  let n := c.toNat
  if 65 ≤ n ∧ n ≤ 90 then some (n - 65)
  else if 97 ≤ n ∧ n ≤ 122 then some (n - 71)
  else if 48 ≤ n ∧ n ≤ 57 then some (n + 4)
  else if n = 43 then some 62
  else if n = 47 then some 63
  else none

/-- The bytes of a text of six-bit values. With `strict` the bits left over are zero. -/
def ofSextets (strict : Bool) : List Nat → Option Bytes
  | [] => some []
  | [_] => none
  | [a, b] =>
    if strict = true ∧ b % 16 ≠ 0 then none else some [UInt8.ofNat (a * 4 + b / 16)]
  | [a, b, c] =>
    if strict = true ∧ c % 4 ≠ 0 then none
    else some [UInt8.ofNat (a * 4 + b / 16), UInt8.ofNat (b % 16 * 16 + c / 4)]
  | a :: b :: c :: d :: rest => do
    let bytes ← ofSextets strict rest
    return UInt8.ofNat (a * 4 + b / 16) :: UInt8.ofNat (b % 16 * 16 + c / 4) ::
      UInt8.ofNat (c % 4 * 64 + d) :: bytes

/-- The text without one or two `=` at its end. -/
def stripPadding (s : Str) : Str :=
  match s.reverse with
  | '=' :: '=' :: rest => rest.reverse
  | '=' :: rest => rest.reverse
  | _ => s

/-- `general_purpose::STANDARD.decode`. -/
def stdDecode (s : Str) : Option Bytes :=
  if s.length % 4 ≠ 0 then none else (stripPadding s).mapM sextet >>= ofSextets true

/-- The blanks `atob` skips: tab, line feed, form feed, carriage return and space. -/
def isAtobBlank (c : Char) : Bool :=
  let n := c.toNat
  n == 9 || n == 10 || n == 12 || n == 13 || n == 32

/-- `atob`; nothing where it throws. -/
def atob (s : Str) : Option Bytes :=
  let t := s.filter fun c => !isAtobBlank c
  (if t.length % 4 = 0 then stripPadding t else t).mapM sextet >>= ofSextets false

/-! ## What both decode -/

theorem ofSextets_of_strict : ∀ {xs : List Nat} {b : Bytes}, ofSextets true xs = some b →
    ofSextets false xs = some b
  | [], _, h => h
  | [_], _, h => h
  | [_, _], _, h => by
    unfold ofSextets at h ⊢
    split at h
    · cases h
    · exact h
  | [_, _, _], _, h => by
    unfold ofSextets at h ⊢
    split at h
    · cases h
    · exact h
  | _ :: _ :: _ :: _ :: rest, _, h => by
    unfold ofSextets at h ⊢
    cases hrest : ofSextets true rest with
    | none =>
      rw [hrest] at h
      cases h
    | some bytes =>
      rw [hrest] at h
      rw [ofSextets_of_strict hrest]
      exact h

theorem stripPadding_cases (s : Str) :
    stripPadding s = s ∨ s = stripPadding s ++ ['='] ∨ s = stripPadding s ++ ['=', '='] := by
  unfold stripPadding
  split
  · rename_i rest h
    right
    right
    rw [← List.reverse_reverse s, h]
    simp
  · rename_i rest _ h
    right
    left
    rw [← List.reverse_reverse s, h]
    simp
  · exact Or.inl rfl

theorem isSome_of_mapM {α β : Type} {f : α → Option β} : ∀ {l : List α} {xs : List β},
    l.mapM f = some xs → ∀ c ∈ l, (f c).isSome = true
  | [], _, _, c, hc => absurd hc List.not_mem_nil
  | d :: l, xs, h, c, hc => by
    rw [List.mapM_cons] at h
    cases hd : f d with
    | none =>
      rw [hd] at h
      cases h
    | some x =>
      rw [hd] at h
      cases hl : l.mapM f with
      | none =>
        rw [hl] at h
        cases h
      | some ys =>
        rcases List.mem_cons.mp hc with rfl | hc
        · rw [hd]
          rfl
        · exact isSome_of_mapM hl c hc

/-- A text that decodes has only characters of the alphabet and `=`. -/
theorem alphabet_of_stdDecode {s : Str} {b : Bytes} (h : stdDecode s = some b) :
    ∀ c ∈ s, (sextet c).isSome = true ∨ c = '=' := by
  unfold stdDecode at h
  split at h
  · cases h
  cases hxs : (stripPadding s).mapM sextet with
  | none =>
    rw [hxs] at h
    cases h
  | some xs =>
    have hbody := isSome_of_mapM hxs
    intro c hc
    rcases stripPadding_cases s with heq | heq | heq
    · rw [heq] at hbody
      exact Or.inl (hbody c hc)
    · rw [heq] at hc
      rcases List.mem_append.mp hc with hc | hc
      · exact Or.inl (hbody c hc)
      · exact Or.inr (List.mem_singleton.mp hc)
    · rw [heq] at hc
      rcases List.mem_append.mp hc with hc | hc
      · exact Or.inl (hbody c hc)
      · right
        simpa using hc

/-- A text the browser decodes has only these characters, and blanks. -/
theorem alphabet_of_atob {s : Str} {b : Bytes} (h : atob s = some b) :
    ∀ c ∈ s, isAtobBlank c = true ∨ (sextet c).isSome = true ∨ c = '=' := by
  intro c hc
  cases hblank : isAtobBlank c with
  | true => exact Or.inl rfl
  | false =>
    right
    have hmem : c ∈ s.filter fun c => !isAtobBlank c :=
      List.mem_filter.mpr ⟨hc, by rw [hblank]; rfl⟩
    unfold atob at h
    simp only at h
    generalize s.filter (fun c => !isAtobBlank c) = t at h hmem
    have hbody : ∀ {u : Str}, (u.mapM sextet >>= ofSextets false) = some b →
        ∀ c ∈ u, (sextet c).isSome = true := by
      intro u hu
      cases hxs : u.mapM sextet with
      | none =>
        rw [hxs] at hu
        cases hu
      | some xs => exact isSome_of_mapM hxs
    split at h
    · have hstripped := hbody h
      rcases stripPadding_cases t with heq | heq | heq
      · rw [heq] at hstripped
        exact Or.inl (hstripped c hmem)
      · rw [heq] at hmem
        rcases List.mem_append.mp hmem with hmem | hmem
        · exact Or.inl (hstripped c hmem)
        · exact Or.inr (List.mem_singleton.mp hmem)
      · rw [heq] at hmem
        rcases List.mem_append.mp hmem with hmem | hmem
        · exact Or.inl (hstripped c hmem)
        · right
          simpa using hmem
    · exact Or.inl (hbody h c hmem)

theorem range_of_sextet {c : Char} (h : (sextet c).isSome = true) :
    c.toNat = 43 ∨ 47 ≤ c.toNat ∧ c.toNat ≤ 122 := by
  unfold sextet at h
  simp only at h
  split at h
  · omega
  split at h
  · omega
  split at h
  · omega
  split at h
  · omega
  split at h
  · omega
  · cases h

theorem ascii_of_sextet {c : Char} (h : (sextet c).isSome = true) : c.toNat < 128 := by
  have := range_of_sextet h
  omega

theorem not_blank_of_sextet {c : Char} (h : (sextet c).isSome = true) :
    isWhitespace c = false ∧ isAtobBlank c = false := by
  have hn := range_of_sextet h
  constructor
  · unfold isWhitespace
    simp
    omega
  · unfold isAtobBlank
    simp
    omega

/-- A text that decodes has no blanks. -/
theorem not_blank_of_stdDecode {s : Str} {b : Bytes} (h : stdDecode s = some b) {c : Char}
    (hc : c ∈ s) : isWhitespace c = false ∧ isAtobBlank c = false := by
  rcases alphabet_of_stdDecode h c hc with hsextet | rfl
  · exact not_blank_of_sextet hsextet
  · decide

/-- What the node's decoder takes, with ASCII blanks put in, the browser's takes. -/
theorem atob_of_stdDecode {s t : Str} {b : Bytes} (h : stdDecode s = some b)
    (ht : t.filter (fun c => !isAtobBlank c) = s) : atob t = some b := by
  unfold stdDecode at h
  split at h
  · cases h
  rename_i hlen
  unfold atob
  rw [ht]
  simp only
  rw [if_pos (not_not.mp hlen)]
  cases hxs : (stripPadding s).mapM sextet with
  | none =>
    rw [hxs] at h
    cases h
  | some xs =>
    rw [hxs] at h
    exact ofSextets_of_strict h

theorem atob_eq {s : Str} {b : Bytes} (h : stdDecode s = some b) : atob s = some b := by
  refine atob_of_stdDecode h (List.filter_eq_self.mpr ?_)
  intro c hc
  rw [(not_blank_of_stdDecode h hc).2]
  rfl

/-! ## Blanks around a text -/

/-- What `trim` takes away is blank. -/
theorem exists_trim (s : Str) : ∃ before after, s = before ++ (trim s ++ after) ∧
    (∀ c ∈ before, isWhitespace c = true) ∧ ∀ c ∈ after, isWhitespace c = true :=
  exists_strip isWhitespace s

/-- A text without the characters `p`, and such characters around it. -/
theorem dropWhile_around {p : Char → Bool} {before s after : Str} (hb : ∀ c ∈ before, p c = true)
    (hs : ∀ c ∈ s, p c = false) (ha : ∀ c ∈ after, p c = true) :
    (((before ++ (s ++ after)).dropWhile p).reverse.dropWhile p).reverse = s := by
  have hall : ∀ {t : Str}, (∀ c ∈ t, p c = true) → ∀ u, (t ++ u).dropWhile p = u.dropWhile p := by
    intro t ht u
    rw [List.dropWhile_append, List.dropWhile_eq_nil_iff.mpr ht]
    rfl
  have hnone : ∀ {t : Str}, (∀ c ∈ t, p c = false) → t.dropWhile p = t := by
    intro t ht
    cases t with
    | nil => rfl
    | cons c t => rw [List.dropWhile_cons_of_neg (by simp [ht c List.mem_cons_self])]
  rw [hall hb]
  cases s with
  | nil =>
    rw [List.nil_append, List.dropWhile_eq_nil_iff.mpr ha]
    rfl
  | cons c s =>
    have hc : p c = false := hs c List.mem_cons_self
    rw [List.cons_append, List.dropWhile_cons_of_neg (by simp [hc]), ← List.cons_append,
      List.reverse_append, hall fun c hc => ha c (List.mem_reverse.mp hc),
      hnone fun c hc => hs c (List.mem_reverse.mp hc), List.reverse_reverse]

/-- A text whose blanks are the ones `atob` skips and whose trimmed form decodes: the browser decodes it
too. -/
theorem atob_of_trim {s : Str} {b : Bytes} (h : stdDecode (trim s) = some b)
    (hblank : ∀ c ∈ s, isWhitespace c = true → isAtobBlank c = true) : atob s = some b := by
  refine atob_of_stdDecode h ?_
  obtain ⟨before, after, hs, hb, ha⟩ := exists_trim s
  have hnone : ∀ {t : Str}, (∀ c ∈ t, c ∈ s) → (∀ c ∈ t, isWhitespace c = true) →
      t.filter (fun c => !isAtobBlank c) = [] := by
    intro t ht hw
    rw [List.filter_eq_nil_iff]
    intro c hc
    rw [hblank c (ht c hc) (hw c hc)]
    decide
  have hbefore := hnone (fun c hc => hs ▸ List.mem_append_left _ hc) hb
  have hafter := hnone (fun c hc => hs ▸ List.mem_append_right _ (List.mem_append_right _ hc)) ha
  have hcore : (trim s).filter (fun c => !isAtobBlank c) = trim s := by
    refine List.filter_eq_self.mpr ?_
    intro c hc
    rw [(not_blank_of_stdDecode h hc).2]
    rfl
  calc s.filter (fun c => !isAtobBlank c)
      = (before ++ (trim s ++ after)).filter (fun c => !isAtobBlank c) := by rw [← hs]
    _ = trim s := by
      rw [List.filter_append, List.filter_append, hbefore, hafter, hcore, List.nil_append,
        List.append_nil]

/-! ## Encoding -/

/-- The character of a six-bit value. -/
def sextetChar (n : Nat) : Char :=
  if n < 26 then Char.ofNat (n + 65)
  else if n < 52 then Char.ofNat (n + 71)
  else if n < 62 then Char.ofNat (n - 4)
  else if n = 62 then '+'
  else '/'

/-- The six-bit values of bytes. -/
def toSextets : Bytes → List Nat
  | [] => []
  | [a] => [a.toNat / 4, a.toNat % 4 * 16]
  | [a, b] => [a.toNat / 4, a.toNat % 4 * 16 + b.toNat / 16, b.toNat % 16 * 4]
  | a :: b :: c :: rest =>
    (a.toNat / 4) :: (a.toNat % 4 * 16 + b.toNat / 16) :: (b.toNat % 16 * 4 + c.toNat / 64) ::
      (c.toNat % 64) :: toSextets rest

/-- `general_purpose::STANDARD.encode`. -/
def b64Encode (b : Bytes) : Str :=
  (toSextets b).map sextetChar ++ List.replicate ((3 - b.length % 3) % 3) '='

theorem sextet_sextetChar : ∀ n < 64, sextet (sextetChar n) = some n := by decide

theorem sextetChar_ne_pad : ∀ n < 64, sextetChar n ≠ '=' := by decide

theorem toSextets_lt : ∀ (b : Bytes), ∀ n ∈ toSextets b, n < 64
  | [], n, h => absurd h List.not_mem_nil
  | [a], n, h => by
    have ha := a.toNat_lt
    simp [toSextets] at h
    omega
  | [a, b], n, h => by
    have ha := a.toNat_lt
    have hb := b.toNat_lt
    simp [toSextets] at h
    omega
  | a :: b :: c :: rest, n, h => by
    have ha := a.toNat_lt
    have hb := b.toNat_lt
    have hc := c.toNat_lt
    simp only [toSextets, List.mem_cons] at h
    rcases h with h | h | h | h | h
    · omega
    · omega
    · omega
    · omega
    · exact toSextets_lt rest n h

theorem ofSextets_toSextets (strict : Bool) : ∀ b : Bytes, ofSextets strict (toSextets b) = some b
  | [] => rfl
  | [a] => by
    have ha := a.toNat_lt
    simp only [toSextets, ofSextets]
    rw [if_neg (by omega)]
    have h : a.toNat / 4 * 4 + a.toNat % 4 * 16 / 16 = a.toNat := by omega
    rw [h, UInt8.ofNat_toNat]
  | [a, b] => by
    have ha := a.toNat_lt
    have hb := b.toNat_lt
    simp only [toSextets, ofSextets]
    rw [if_neg (by omega)]
    have h : a.toNat / 4 * 4 + (a.toNat % 4 * 16 + b.toNat / 16) / 16 = a.toNat := by omega
    have h' : (a.toNat % 4 * 16 + b.toNat / 16) % 16 * 16 + b.toNat % 16 * 4 / 4 = b.toNat := by omega
    rw [h, h', UInt8.ofNat_toNat, UInt8.ofNat_toNat]
  | a :: b :: c :: rest => by
    have ha := a.toNat_lt
    have hb := b.toNat_lt
    have hc := c.toNat_lt
    simp only [toSextets, ofSextets]
    rw [ofSextets_toSextets strict rest]
    have h : a.toNat / 4 * 4 + (a.toNat % 4 * 16 + b.toNat / 16) / 16 = a.toNat := by omega
    have h' : (a.toNat % 4 * 16 + b.toNat / 16) % 16 * 16 +
        (b.toNat % 16 * 4 + c.toNat / 64) / 4 = b.toNat := by omega
    have h'' : (b.toNat % 16 * 4 + c.toNat / 64) % 4 * 64 + c.toNat % 64 = c.toNat := by omega
    rw [h, h', h'', UInt8.ofNat_toNat, UInt8.ofNat_toNat, UInt8.ofNat_toNat]
    rfl

theorem mapM_sextet_map : ∀ {xs : List Nat}, (∀ n ∈ xs, n < 64) →
    (xs.map sextetChar).mapM sextet = some xs
  | [], _ => rfl
  | x :: xs, h => by
    rw [List.map_cons, List.mapM_cons, sextet_sextetChar x (h x List.mem_cons_self),
      mapM_sextet_map fun n hn => h n (List.mem_cons_of_mem x hn)]
    rfl

theorem length_toSextets : ∀ b : Bytes,
    ((toSextets b).length + (3 - b.length % 3) % 3) % 4 = 0
  | [] => by simp [toSextets]
  | [_] => by simp [toSextets]
  | [_, _] => by simp [toSextets]
  | _ :: _ :: _ :: rest => by
    have ih := length_toSextets rest
    simp only [toSextets, List.length_cons]
    omega

theorem stripPadding_replicate {s : Str} (hs : '=' ∉ s) {n : Nat} (hn : n ≤ 2) :
    stripPadding (s ++ List.replicate n '=') = s := by
  have hlast : ∀ t, s.reverse ≠ '=' :: t := by
    intro t ht
    exact hs (List.mem_reverse.mp (ht ▸ List.mem_cons_self))
  have hcases : n = 0 ∨ n = 1 ∨ n = 2 := by omega
  unfold stripPadding
  rcases hcases with rfl | rfl | rfl
  · simp only [List.replicate_zero, List.append_nil]
    split
    · rename_i h
      exact absurd h (hlast _)
    · rename_i h
      exact absurd h (hlast _)
    · rfl
  · simp only [List.replicate_one, List.reverse_append, List.reverse_singleton,
      List.singleton_append]
    exact List.reverse_reverse s
  · simp [List.replicate]

theorem stdDecode_encode (b : Bytes) : stdDecode (b64Encode b) = some b := by
  have hpad : '=' ∉ (toSextets b).map sextetChar := by
    intro hmem
    obtain ⟨n, hn, heq⟩ := List.mem_map.mp hmem
    exact sextetChar_ne_pad n (toSextets_lt b n hn) heq
  unfold stdDecode b64Encode
  rw [if_neg (by simpa using length_toSextets b), stripPadding_replicate hpad (by omega),
    mapM_sextet_map (toSextets_lt b)]
  exact ofSextets_toSextets true b

/-- An encoded text has no blanks to trim. -/
theorem stdDecode_trim_encode (b : Bytes) : stdDecode (trim (b64Encode b)) = some b := by
  rw [trim_of_forall fun c hc => (not_blank_of_stdDecode (stdDecode_encode b) hc).1,
    stdDecode_encode]

theorem length_toSextets_le : ∀ b : Bytes, (toSextets b).length ≤ 2 * b.length
  | [] => by simp [toSextets]
  | [_] => by simp [toSextets]
  | [_, _] => by simp [toSextets]
  | _ :: _ :: _ :: rest => by
    have ih := length_toSextets_le rest
    simp only [toSextets, List.length_cons]
    omega

theorem length_b64Encode_le (b : Bytes) : (b64Encode b).length ≤ 2 * b.length + 2 := by
  have h := length_toSextets_le b
  unfold b64Encode
  rw [List.length_append, List.length_map, List.length_replicate]
  omega

end TetCore.Lib
