import TetCore.Lib.JsValue

/-!
# JavaScript strings

A JavaScript string is a list of 16-bit units, and need not be text: a surrogate may stand alone.

* `points`: the string as `[...s]` walks it, a pair of surrogates together.
* `trimUnits`: `trim`, which every blank's being one unit makes a matter of units.
* `toChars`: the text of a string, with `U+FFFD` for each surrogate alone, as `TextEncoder` takes it.
* `toChars_utf16`, `utf16_toChars_iff`: text is kept, and a string only if it is text.
-/

namespace TetCore.Lib

/-- A JavaScript string. -/
abbrev Units := List UInt16

def isHighSurrogate (u : UInt16) : Bool := 0xD800 ≤ u.toNat && u.toNat < 0xDC00

def isLowSurrogate (u : UInt16) : Bool := 0xDC00 ≤ u.toNat && u.toNat < 0xE000

/-- The units of a character. -/
def charUnits (c : Char) : Units :=
  let n := c.toNat
  if n < 0x10000 then [UInt16.ofNat n]
  else [UInt16.ofNat (0xD800 + (n - 0x10000) / 1024), UInt16.ofNat (0xDC00 + (n - 0x10000) % 1024)]

/-- The string of a text. -/
def utf16 (s : Str) : Units := s.flatMap charUnits

/-- `[...s]`. -/
def points : Units → List Units
  | [] => []
  | [u] => [[u]]
  | u :: v :: s =>
    if isHighSurrogate u && isLowSurrogate v then [u, v] :: points s else [u] :: points (v :: s)

/-- A JavaScript blank, of one unit each. -/
def isBlankUnit (u : UInt16) : Bool :=
  let n := u.toNat
  (9 ≤ n && n ≤ 13) || n == 32 || n == 0xA0 || n == 0x1680 || (0x2000 ≤ n && n ≤ 0x200A) ||
    n == 0x2028 || n == 0x2029 || n == 0x202F || n == 0x205F || n == 0x3000 || n == 0xFEFF

/-- `String.prototype.trim`. -/
def trimUnits (s : Units) : Units :=
  ((s.dropWhile isBlankUnit).reverse.dropWhile isBlankUnit).reverse

/-- The character of a piece of a string. -/
def pointChar : Units → Char
  | [u] => if isHighSurrogate u || isLowSurrogate u then '\uFFFD' else Char.ofNat u.toNat
  | [u, v] => Char.ofNat (0x10000 + (u.toNat - 0xD800) * 0x400 + (v.toNat - 0xDC00))
  | _ => '\uFFFD'

/-- The text of a string, surrogates alone replaced. -/
def toChars (s : Units) : Str := (points s).map pointChar

/-- No surrogate is alone. -/
def isWellFormed (s : Units) : Bool :=
  (points s).all fun p => !(p.length == 1 && p.any fun u => isHighSurrogate u || isLowSurrogate u)

/-! ## Walking a string -/

/-- Without surrogates the pieces are the units. -/
theorem points_of_bmp {s : Units} (h : ∀ u ∈ s, isHighSurrogate u = false) :
    points s = s.map fun u => [u] := by
  fun_induction points s with
  | case1 => rfl
  | case2 u => rfl
  | case3 u v s hpair ih =>
    rw [h u List.mem_cons_self, Bool.false_and] at hpair
    cases hpair
  | case4 u v s hpair ih =>
    rw [ih fun w hw => h w (List.mem_cons_of_mem u hw)]
    rfl

/-- The first pieces of a string without surrogates. -/
theorem flatten_take_points {s : Units} (h : ∀ u ∈ s, isHighSurrogate u = false) (n : Nat) :
    ((points s).take n).flatten = s.take n := by
  rw [points_of_bmp h, ← List.map_take, ← List.flatMap_def]
  exact List.flatMap_singleton' _

/-! ## Trimming -/

theorem trimUnits_trimUnits (s : Units) : trimUnits (trimUnits s) = trimUnits s := by
  unfold trimUnits
  rw [dropWhile_reverse_dropWhile (dropWhile_dropWhile _ s), List.reverse_reverse,
    dropWhile_dropWhile]

theorem trimUnits_within (s : Units) : trimUnits s <:+: s := by
  unfold trimUnits
  have hback := (List.dropWhile_suffix (l := (s.dropWhile isBlankUnit).reverse) isBlankUnit)
  rw [← List.reverse_prefix, List.reverse_reverse] at hback
  exact hback.isInfix.trans (List.dropWhile_suffix isBlankUnit).isInfix

theorem mem_of_mem_trimUnits {u : UInt16} {s : Units} (h : u ∈ trimUnits s) : u ∈ s :=
  (trimUnits_within s).subset h

/-- A string without blanks, after any other. -/
theorem trimUnits_append {s rest : Units} (h : ∀ u ∈ rest, isBlankUnit u = false) (hne : rest ≠ []) :
    trimUnits (s ++ rest) = s.dropWhile isBlankUnit ++ rest := by
  have hnone : ∀ {t : Units}, (∀ u ∈ t, isBlankUnit u = false) → t.dropWhile isBlankUnit = t := by
    intro t ht
    cases t with
    | nil => rfl
    | cons u t => exact List.dropWhile_cons_of_neg (by simp [ht u List.mem_cons_self])
  have hfront : (s ++ rest).dropWhile isBlankUnit = s.dropWhile isBlankUnit ++ rest := by
    rw [List.dropWhile_append]
    split
    · rename_i hempty
      rw [List.isEmpty_iff.mp hempty, hnone h, List.nil_append]
    · rfl
  have hback : ∀ t : Units, (rest.reverse ++ t).dropWhile isBlankUnit = rest.reverse ++ t := by
    intro t
    cases hrev : rest.reverse with
    | nil => exact absurd (List.reverse_eq_nil_iff.mp hrev) hne
    | cons u r =>
      have hu : u ∈ rest := List.mem_reverse.mp (hrev ▸ List.mem_cons_self)
      exact List.dropWhile_cons_of_neg (by simp [h u hu])
  rw [trimUnits, hfront, List.reverse_append, hback, List.reverse_append, List.reverse_reverse,
    List.reverse_reverse]

theorem trimUnits_of_forall {s : Units} (h : ∀ u ∈ s, isBlankUnit u = false) : trimUnits s = s := by
  cases s with
  | nil => rfl
  | cons u s => exact trimUnits_append (s := []) h (List.cons_ne_nil u s)

/-! ## Text -/

theorem points_cons {u : UInt16} (h : isHighSurrogate u = false) : ∀ s : Units,
    points (u :: s) = [u] :: points s
  | [] => rfl
  | v :: s => by rw [points, h, Bool.false_and, if_neg Bool.false_ne_true]

theorem points_pair {u v : UInt16} (hu : isHighSurrogate u = true) (hv : isLowSurrogate v = true)
    (s : Units) : points (u :: v :: s) = [u, v] :: points s := by
  rw [points, hu, hv, Bool.true_and, if_pos rfl]

/-- **The units of a character** are one piece, and its character is this one. -/
theorem points_charUnits (c : Char) (s : Units) :
    points (charUnits c ++ s) = charUnits c :: points s ∧ pointChar (charUnits c) = c := by
  have hvalid : c.toNat < 0xD800 ∨ 0xDFFF < c.toNat ∧ c.toNat < 0x110000 := c.valid
  unfold charUnits
  simp only
  by_cases hsmall : c.toNat < 0x10000
  · have hunit : (UInt16.ofNat c.toNat).toNat = c.toNat := UInt16.toNat_ofNat_of_lt' hsmall
    have hhigh : isHighSurrogate (UInt16.ofNat c.toNat) = false := by
      simp [isHighSurrogate, hunit]
      omega
    have hlow : isLowSurrogate (UInt16.ofNat c.toNat) = false := by
      simp [isLowSurrogate, hunit]
      omega
    rw [if_pos hsmall]
    refine ⟨points_cons hhigh s, ?_⟩
    rw [pointChar, hhigh, hlow, if_neg (by decide), hunit, Char.ofNat_toNat]
  · have hu : (UInt16.ofNat (0xD800 + (c.toNat - 0x10000) / 1024)).toNat =
        0xD800 + (c.toNat - 0x10000) / 1024 := UInt16.toNat_ofNat_of_lt' (by
      show _ < 65536
      omega)
    have hv : (UInt16.ofNat (0xDC00 + (c.toNat - 0x10000) % 1024)).toNat =
        0xDC00 + (c.toNat - 0x10000) % 1024 := UInt16.toNat_ofNat_of_lt' (by
      show _ < 65536
      omega)
    rw [if_neg hsmall]
    refine ⟨points_pair ?_ ?_ s, ?_⟩
    · simp [isHighSurrogate]
      omega
    · simp [isLowSurrogate]
      omega
    · have hsum : 0x10000 + (0xD800 + (c.toNat - 0x10000) / 1024 - 0xD800) * 0x400 +
          (0xDC00 + (c.toNat - 0x10000) % 1024 - 0xDC00) = c.toNat := by omega
      rw [pointChar, hu, hv, hsum, Char.ofNat_toNat]

/-- **Text is kept.** -/
theorem toChars_utf16 (s : Str) : toChars (utf16 s) = s := by
  unfold toChars
  induction s with
  | nil => rfl
  | cons c s ih =>
    obtain ⟨hpoints, hchar⟩ := points_charUnits c (utf16 s)
    rw [show utf16 (c :: s) = charUnits c ++ utf16 s from List.flatMap_cons, hpoints, List.map_cons,
      hchar, ih]

/-- The character of a number that is no surrogate. -/
theorem toNat_charOfNat {n : Nat} (h : n < 0xD800 ∨ 0xDFFF < n ∧ n < 0x110000) :
    (Char.ofNat n).toNat = n := by
  rw [Char.ofNat, dif_pos h]
  rfl

/-- A unit that is no surrogate is its character's. -/
theorem charUnits_single {u : UInt16} (hhigh : isHighSurrogate u = false)
    (hlow : isLowSurrogate u = false) : charUnits (pointChar [u]) = [u] := by
  have hu : u.toNat < 65536 := u.toNat_lt
  have hvalid : u.toNat < 0xD800 ∨ 0xDFFF < u.toNat ∧ u.toNat < 0x110000 := by
    simp [isHighSurrogate] at hhigh
    simp [isLowSurrogate] at hlow
    omega
  rw [pointChar, hhigh, hlow, if_neg (by decide), charUnits, toNat_charOfNat hvalid, if_pos hu,
    UInt16.ofNat_toNat]

/-- A surrogate alone is replaced. -/
theorem charUnits_lone {u : UInt16} (h : (isHighSurrogate u || isLowSurrogate u) = true) :
    charUnits (pointChar [u]) = [0xFFFD] := by
  rw [pointChar, if_pos h]
  decide

/-- A pair is its character's. -/
theorem charUnits_pair {u v : UInt16} (hhigh : isHighSurrogate u = true)
    (hlow : isLowSurrogate v = true) : charUnits (pointChar [u, v]) = [u, v] := by
  simp [isHighSurrogate] at hhigh
  simp [isLowSurrogate] at hlow
  have hvalid : 0x10000 + (u.toNat - 0xD800) * 0x400 + (v.toNat - 0xDC00) < 0xD800 ∨
      0xDFFF < 0x10000 + (u.toNat - 0xD800) * 0x400 + (v.toNat - 0xDC00) ∧
        0x10000 + (u.toNat - 0xD800) * 0x400 + (v.toNat - 0xDC00) < 0x110000 := by omega
  have hu : 0xD800 + (0x10000 + (u.toNat - 0xD800) * 0x400 + (v.toNat - 0xDC00) - 0x10000) / 1024 =
      u.toNat := by omega
  have hv : 0xDC00 + (0x10000 + (u.toNat - 0xD800) * 0x400 + (v.toNat - 0xDC00) - 0x10000) % 1024 =
      v.toNat := by omega
  rw [pointChar, charUnits, toNat_charOfNat hvalid, if_neg (by omega), hu, hv, UInt16.ofNat_toNat,
    UInt16.ofNat_toNat]

theorem utf16_toChars_cons (p : Units) (ps : List Units) :
    utf16 ((p :: ps).map pointChar) = charUnits (pointChar p) ++ utf16 (ps.map pointChar) :=
  List.flatMap_cons

/-- One unit, replaced or not, is one unit. -/
theorem charUnits_unit (u : UInt16) : ∃ w, charUnits (pointChar [u]) = [w] ∧
    (w = u ↔ (isHighSurrogate u || isLowSurrogate u) = false) := by
  cases h : isHighSurrogate u || isLowSurrogate u with
  | false =>
    rw [Bool.or_eq_false_iff] at h
    exact ⟨u, charUnits_single h.1 h.2, by simp⟩
  | true =>
    refine ⟨0xFFFD, charUnits_lone h, iff_of_false ?_ Bool.true_eq_false.mp⟩
    rintro rfl
    revert h
    decide

/-- Replacing keeps the length. -/
theorem length_utf16_toChars (s : Units) : (utf16 (toChars s)).length = s.length := by
  unfold toChars
  fun_induction points s with
  | case1 => rfl
  | case2 u =>
    obtain ⟨w, hw, -⟩ := charUnits_unit u
    rw [utf16_toChars_cons, hw]
    rfl
  | case3 u v s hpair ih =>
    rw [Bool.and_eq_true] at hpair
    rw [utf16_toChars_cons, charUnits_pair hpair.1 hpair.2, List.length_append, ih, List.length_cons,
      List.length_cons, List.length_cons, List.length_cons, List.length_nil]
    omega
  | case4 u v s hpair ih =>
    obtain ⟨w, hw, -⟩ := charUnits_unit u
    rw [utf16_toChars_cons, hw, List.length_append, ih, List.length_cons, List.length_cons,
      List.length_cons, List.length_nil]
    exact Nat.add_comm _ _

/-- **A string is kept** exactly when no surrogate is alone. -/
theorem utf16_toChars_iff (s : Units) : utf16 (toChars s) = s ↔ isWellFormed s = true := by
  unfold toChars isWellFormed
  fun_induction points s with
  | case1 => exact iff_of_true rfl rfl
  | case2 u =>
    obtain ⟨w, hw, hkept⟩ := charUnits_unit u
    rw [utf16_toChars_cons, hw]
    show [w] = [u] ↔ _
    rw [List.cons.injEq, eq_self, and_true, hkept]
    cases h : isHighSurrogate u || isLowSurrogate u <;> simp [h]
  | case3 u v s hpair ih =>
    rw [Bool.and_eq_true] at hpair
    rw [utf16_toChars_cons, charUnits_pair hpair.1 hpair.2, List.all_cons, Bool.and_eq_true, ← ih]
    simp
  | case4 u v s hpair ih =>
    obtain ⟨w, hw, hkept⟩ := charUnits_unit u
    rw [utf16_toChars_cons, hw, List.singleton_append, List.cons.injEq, hkept, ih, List.all_cons,
      Bool.and_eq_true]
    refine and_congr_left fun _ => ?_
    cases h : isHighSurrogate u || isLowSurrogate u <;> simp [h]

/-- What a string's text starts with, the string starts with, unless it was put there. -/
theorem prefix_of_toChars {s : Units} {c : Char} (h : (toChars s).head? = some c)
    (hc : c ≠ '\uFFFD') : charUnits c <+: s := by
  have hunit : ∀ u : UInt16, pointChar [u] = c → charUnits c = [u] := by
    rintro u rfl
    cases hu : isHighSurrogate u || isLowSurrogate u with
    | true => exact absurd (if_pos hu) hc
    | false =>
      rw [Bool.or_eq_false_iff] at hu
      exact charUnits_single hu.1 hu.2
  unfold toChars at h
  fun_cases points s with
  | case1 => cases h
  | case2 u => exact hunit u (Option.some.inj h) ▸ List.prefix_refl [u]
  | case3 u v s hpair =>
    rw [points, if_pos hpair] at h
    rw [Bool.and_eq_true] at hpair
    obtain rfl := Option.some.inj h
    rw [charUnits_pair hpair.1 hpair.2]
    exact List.prefix_append [u, v] s
  | case4 u v s hpair =>
    rw [points, if_neg hpair] at h
    rw [hunit u (Option.some.inj h)]
    exact List.prefix_append [u] (v :: s)

/-- What is trimmed starts with no blank. -/
theorem head_trimUnits {s : Units} {u : UInt16} (h : (trimUnits s).head? = some u) :
    isBlankUnit u = false := by
  have hfix : (trimUnits s).dropWhile isBlankUnit = trimUnits s :=
    dropWhile_reverse_dropWhile (dropWhile_dropWhile _ s)
  cases ht : trimUnits s with
  | nil =>
    rw [ht] at h
    cases h
  | cons v t =>
    rw [ht, List.dropWhile_cons] at hfix
    rw [ht, List.head?_cons, Option.some.injEq] at h
    subst h
    by_contra hblank
    rw [if_pos (Bool.not_eq_false _ ▸ hblank)] at hfix
    have hlen := (List.dropWhile_suffix (l := t) isBlankUnit).length_le
    rw [hfix, List.length_cons] at hlen
    omega

end TetCore.Lib
