import Mathlib.Algebra.GroupWithZero.Nat
import Mathlib.Data.List.Basic

/-!
# Strings, byte strings and saturating words

The Rust types the node computes with, in a form that evaluates in the kernel.

* `Str`: a Rust `String` as its list of scalar values. UTF-8 keeps the order of scalar values, so
  the lexicographic order of `Str` is the byte order of the encoded strings.
* `trim`, `toAsciiLowercase`, `eqIgnoreAsciiCase`: the `str` methods. `trim` strips the Unicode
  `White_Space` characters (`char::is_whitespace`), the lowercasing touches `A`–`Z` only.
* `utf8`, `hexEncode`, `hexDecode`, `leBytes`, `beBytes`: byte encodings.
* `satAdd`: `u64::saturating_add`. `u64::saturating_sub` is the truncated subtraction of `Nat`.
-/

namespace TetCore.Lib

/-- A string: its scalar values. -/
abbrev Str := List Char

instance Str.lawfulBEq : LawfulBEq Str := inferInstance

/-- A byte string. -/
abbrev Bytes := List UInt8

/-- `char::is_whitespace`: the Unicode `White_Space` property. -/
def isWhitespace (c : Char) : Bool :=
  let n := c.toNat
  (9 ≤ n && n ≤ 13) || n == 32 || n == 0x85 || n == 0xA0 || n == 0x1680 ||
    (0x2000 ≤ n && n ≤ 0x200A) || n == 0x2028 || n == 0x2029 || n == 0x202F || n == 0x205F ||
    n == 0x3000

/-- `str::trim`. -/
def trim (s : Str) : Str :=
  ((s.dropWhile isWhitespace).reverse.dropWhile isWhitespace).reverse

/-- `char::to_ascii_lowercase`. -/
def asciiLower (c : Char) : Char :=
  if 65 ≤ c.toNat ∧ c.toNat ≤ 90 then Char.ofNat (c.toNat + 32) else c

/-- `char::to_ascii_uppercase`. -/
def asciiUpper (c : Char) : Char :=
  if 97 ≤ c.toNat ∧ c.toNat ≤ 122 then Char.ofNat (c.toNat - 32) else c

/-- `str::to_ascii_lowercase`. -/
def toAsciiLowercase (s : Str) : Str := s.map asciiLower

/-- `str::to_ascii_uppercase`. -/
def toAsciiUppercase (s : Str) : Str := s.map asciiUpper

/-- `str::eq_ignore_ascii_case`. -/
def eqIgnoreAsciiCase (a b : Str) : Bool := toAsciiLowercase a == toAsciiLowercase b

/-- `s.trim().to_ascii_lowercase()`. -/
def trimLower (s : Str) : Str := toAsciiLowercase (trim s)

/-- `char::is_ascii_hexdigit`. -/
def isAsciiHexdigit (c : Char) : Bool :=
  let n := c.toNat
  (48 ≤ n && n ≤ 57) || (65 ≤ n && n ≤ 70) || (97 ≤ n && n ≤ 102)

/-- The UTF-8 encoding. -/
def utf8 (s : Str) : Bytes := s.flatMap String.utf8EncodeChar

/-- `str::len`, in bytes. -/
def byteLen (s : Str) : Nat := (utf8 s).length

/-- `s.len() == 64 && s.chars().all(|c| c.is_ascii_hexdigit())`. -/
def isHex64 (s : Str) : Bool := byteLen s == 64 && s.all isAsciiHexdigit

/-- A lowercase hex digit. -/
def hexDigit (n : Nat) : Char := if n < 10 then Char.ofNat (48 + n) else Char.ofNat (87 + n)

/-- `hex::encode`. -/
def hexEncode (b : Bytes) : Str :=
  b.flatMap fun x => [hexDigit (x.toNat / 16), hexDigit (x.toNat % 16)]

/-- The value of a hex digit of either case. -/
def hexNibble (c : Char) : Option Nat :=
  let n := c.toNat
  if 48 ≤ n ∧ n ≤ 57 then some (n - 48)
  else if 65 ≤ n ∧ n ≤ 70 then some (n - 55)
  else if 97 ≤ n ∧ n ≤ 102 then some (n - 87)
  else none

/-- `hex::decode`: `none` for an odd length or a character that is no digit. -/
def hexDecode : Str → Option Bytes
  | [] => some []
  | [_] => none
  | a :: b :: s => do
    let hi ← hexNibble a
    let lo ← hexNibble b
    let rest ← hexDecode s
    return UInt8.ofNat (16 * hi + lo) :: rest

/-- The `n` low bytes of `v`, least significant first. -/
def leBytes : Nat → Nat → Bytes
  | 0, _ => []
  | n + 1, v => UInt8.ofNat (v % 256) :: leBytes n (v / 256)

/-- The `n` low bytes of `v`, most significant first. -/
def beBytes (n v : Nat) : Bytes := (leBytes n v).reverse

/-- The number a big-endian byte string denotes. -/
def ofBeBytes (b : Bytes) : Nat := b.foldl (fun acc x => acc * 256 + x.toNat) 0

/-! ## Words -/

/-- `u64::MAX`. -/
def u64Max : Nat := 2 ^ 64 - 1

/-- `u128::MAX`. -/
def u128Max : Nat := 2 ^ 128 - 1

/-- `u64::saturating_add`. -/
def satAdd (a b : Nat) : Nat := min (a + b) u64Max

/-- `u128::saturating_add`. -/
def satAdd128 (a b : Nat) : Nat := min (a + b) u128Max

theorem satAdd_of_le {a b : Nat} (h : a + b ≤ u64Max) : satAdd a b = a + b :=
  Nat.min_eq_left h

/-! ## Trimming -/

theorem dropWhile_of_forall {s : Str} (h : ∀ c ∈ s, isWhitespace c = false) :
    s.dropWhile isWhitespace = s := by
  cases s with
  | nil => rfl
  | cons c s => simp [h c List.mem_cons_self]

/-- A string without white space is its own trimming. -/
theorem trim_of_forall {s : Str} (h : ∀ c ∈ s, isWhitespace c = false) : trim s = s := by
  unfold trim
  rw [dropWhile_of_forall h, dropWhile_of_forall fun c hc => h c (List.mem_reverse.mp hc),
    List.reverse_reverse]

theorem dropWhile_dropWhile {α : Type} (p : α → Bool) : ∀ s : List α,
    (s.dropWhile p).dropWhile p = s.dropWhile p
  | [] => rfl
  | c :: s => by
    cases h : p c with
    | true => rw [List.dropWhile_cons_of_pos h, dropWhile_dropWhile p s]
    | false => rw [List.dropWhile_cons_of_neg (by simp [h]), List.dropWhile_cons_of_neg (by simp [h])]

/-- Stripping the end of a string that starts with no white space leaves it so. -/
theorem dropWhile_reverse_dropWhile {α : Type} {p : α → Bool} {s : List α} (h : s.dropWhile p = s) :
    ((s.reverse.dropWhile p).reverse).dropWhile p = (s.reverse.dropWhile p).reverse := by
  have hpre : (s.reverse.dropWhile p).reverse <+: s := by
    have := (List.dropWhile_suffix (l := s.reverse) p)
    rwa [← List.reverse_prefix, List.reverse_reverse] at this
  generalize (s.reverse.dropWhile p).reverse = t at hpre
  cases t with
  | nil => rfl
  | cons c t =>
    obtain ⟨u, rfl⟩ := hpre
    cases hc : p c with
    | false => exact List.dropWhile_cons_of_neg (by simp [hc])
    | true =>
      -- the head of `s` would have been dropped
      rw [List.cons_append, List.dropWhile_cons_of_pos hc] at h
      have hlen := (List.dropWhile_suffix (l := t ++ u) p).length_le
      rw [h, List.length_cons] at hlen
      omega

theorem trim_trim (s : Str) : trim (trim s) = trim s := by
  unfold trim
  rw [dropWhile_reverse_dropWhile (dropWhile_dropWhile _ s), List.reverse_reverse,
    dropWhile_dropWhile]

theorem asciiLower_cases (c : Char) :
    asciiLower c = c ∨ 65 ≤ c.toNat ∧ c.toNat ≤ 90 ∧ (asciiLower c).toNat = c.toNat + 32 := by
  unfold asciiLower
  by_cases h : 65 ≤ c.toNat ∧ c.toNat ≤ 90
  · rw [if_pos h]
    have hall : ∀ n < 91, (Char.ofNat (n + 32)).toNat = n + 32 := by decide
    exact Or.inr ⟨h.1, h.2, hall _ (by omega)⟩
  · exact Or.inl (if_neg h)

theorem asciiLower_asciiLower (c : Char) : asciiLower (asciiLower c) = asciiLower c := by
  rcases asciiLower_cases c with h | ⟨hlo, -, h⟩
  · rw [h, h]
  · exact if_neg (by omega)

theorem isWhitespace_asciiLower (c : Char) : isWhitespace (asciiLower c) = isWhitespace c := by
  rcases asciiLower_cases c with h | ⟨hlo, hhi, h⟩
  · rw [h]
  · have hnone : ∀ d : Char, 65 ≤ d.toNat → d.toNat ≤ 122 → isWhitespace d = false := by
      intro d h1 h2
      unfold isWhitespace
      simp
      omega
    rw [hnone c hlo (by omega), hnone _ (by omega) (by omega)]

/-- Lowercasing touches no white space, so it commutes with trimming. -/
theorem trim_toAsciiLowercase (s : Str) : trim (toAsciiLowercase s) = toAsciiLowercase (trim s) := by
  have hdrop : ∀ t : Str, (t.map asciiLower).dropWhile isWhitespace =
      (t.dropWhile isWhitespace).map asciiLower := by
    intro t
    rw [List.dropWhile_map]
    congr 2
    funext c
    exact isWhitespace_asciiLower c
  unfold trim toAsciiLowercase
  rw [hdrop, ← List.map_reverse, hdrop, List.map_reverse]

theorem trim_trimLower (s : Str) : trim (trimLower s) = trimLower s := by
  unfold trimLower
  rw [trim_toAsciiLowercase, trim_trim]

theorem trimLower_trimLower (s : Str) : trimLower (trimLower s) = trimLower s := by
  rw [trimLower, trim_trimLower]
  unfold trimLower toAsciiLowercase
  rw [List.map_map]
  congr 1
  funext c
  exact asciiLower_asciiLower c

/-- Trimming and lowercasing keep a plain beginning. -/
theorem trimLower_append {p : Str} (hne : p ≠ [])
    (hp : ∀ c ∈ p, isWhitespace c = false ∧ asciiLower c = c) (x : Str) :
    ∃ y, trimLower (p ++ x) = p ++ y := by
  have hstart : (p ++ x).dropWhile isWhitespace = p ++ x := by
    cases p with
    | nil => exact absurd rfl hne
    | cons c p => simp [(hp c List.mem_cons_self).1]
  have hend : (p.reverse).dropWhile isWhitespace = p.reverse :=
    dropWhile_of_forall fun c hc => (hp c (List.mem_reverse.mp hc)).1
  have hlower : p.map asciiLower = p := by
    rw [List.map_congr_left fun c hc => (hp c hc).2, List.map_id']
  unfold trimLower trim toAsciiLowercase
  rw [hstart, List.reverse_append, List.dropWhile_append]
  by_cases hblank : (x.reverse.dropWhile isWhitespace).isEmpty = true
  · rw [if_pos hblank, hend, List.reverse_reverse, hlower]
    exact ⟨[], (List.append_nil p).symm⟩
  · rw [if_neg hblank, List.reverse_append, List.reverse_reverse, List.map_append, hlower]
    exact ⟨_, rfl⟩
theorem isWhitespace_of_isAsciiHexdigit {c : Char} (h : isAsciiHexdigit c = true) :
    isWhitespace c = false := by
  unfold isAsciiHexdigit at h
  unfold isWhitespace
  simp at h ⊢
  omega

theorem trim_of_isHex64 {s : Str} (h : isHex64 s = true) : trim s = s := by
  simp only [isHex64, Bool.and_eq_true, List.all_eq_true] at h
  exact trim_of_forall fun c hc => isWhitespace_of_isAsciiHexdigit (h.2 c hc)

theorem hexDigit_not_whitespace : ∀ n < 16, isWhitespace (hexDigit n) = false := by
  decide

theorem hexEncode_not_whitespace (b : Bytes) : ∀ c ∈ hexEncode b, isWhitespace c = false := by
  intro c hc
  unfold hexEncode at hc
  rw [List.mem_flatMap] at hc
  obtain ⟨x, -, hx⟩ := hc
  have hlt : x.toNat < 256 := x.toNat_lt
  rcases List.mem_cons.mp hx with rfl | hx
  · exact hexDigit_not_whitespace _ (by omega)
  · rw [List.mem_singleton.mp hx]
    exact hexDigit_not_whitespace _ (by omega)

end TetCore.Lib
