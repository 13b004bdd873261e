import TetCore.Lib.Encoding

/-!
# JSON texts

The compact JSON text of an internally tagged record, as `serde_json::to_string` writes it: the
member `kind` first, then the fields in the order of their declaration, no blanks.

* `quote`: a string with its quotes. Only `"`, `\` and the control characters are escaped.
* `decimal`, `bool`, `array`: numbers, flags and lists of values.
* `object`: a record of a kind and members whose values are already texts.

A value inside a record or a list is followed by a comma or a closing bracket. `ValueCode` says that
a way of writing values can be cut there, and `object_kind`, `members_cut` take a record apart with
it, one member at a time.
-/

namespace TetCore.Lib.Json

/-! ## Writers -/

/-- The escape of one character inside a string. -/
def escapeChar (c : Char) : Str :=
  if c = '"' then ['\\', '"']
  else if c = '\\' then ['\\', '\\']
  else if c.toNat = 8 then ['\\', 'b']
  else if c.toNat = 9 then ['\\', 't']
  else if c.toNat = 10 then ['\\', 'n']
  else if c.toNat = 12 then ['\\', 'f']
  else if c.toNat = 13 then ['\\', 'r']
  else if c.toNat < 32 then
    ['\\', 'u', '0', '0', hexDigit (c.toNat / 16), hexDigit (c.toNat % 16)]
  else [c]

/-- A string. -/
def quote (s : Str) : Str := '"' :: (s.flatMap escapeChar ++ ['"'])

/-- An unsigned number. -/
def decimal (n : Nat) : Str := Nat.toDigits 10 n

/-- `true` or `false`. -/
def bool (b : Bool) : Str := if b then "true".toList else "false".toList

section Array

variable {α : Type}

/-- The elements after the first, and the closing bracket. -/
def arrayTail (enc : α → Str) : List α → Str
  | [] => [']']
  | x :: xs => ',' :: (enc x ++ arrayTail enc xs)

/-- A list of values. -/
def array (enc : α → Str) : List α → Str
  | [] => "[]".toList
  | x :: xs => '[' :: (enc x ++ arrayTail enc xs)

end Array

/-- The members after the kind, and the closing brace. -/
def members : List (Str × Str) → Str
  | [] => ['\x7d']
  | (name, value) :: ms => ',' :: (quote name ++ ':' :: (value ++ members ms))

/-- A record. -/
def object (kind : Str) (ms : List (Str × Str)) : Str :=
  '\x7b' :: (quote "kind".toList ++ ':' :: (quote kind ++ members ms))

/-- A record without a kind. -/
def record : List (Str × Str) → Str
  | [] => ['\x7b', '\x7d']
  | (name, value) :: ms => '\x7b' :: (quote name ++ ':' :: (value ++ members ms))

/-! ## Reading strings back -/

/-- The digit a hex character stands for. -/
def hexVal (c : Char) : Nat := if c.toNat < 58 then c.toNat - 48 else c.toNat - 87

/-- One character of a string, and what follows it; `none` at the closing quote. -/
def unescape : Str → Option (Char × Str)
  | '\\' :: 'b' :: r => some (Char.ofNat 8, r)
  | '\\' :: 't' :: r => some (Char.ofNat 9, r)
  | '\\' :: 'n' :: r => some (Char.ofNat 10, r)
  | '\\' :: 'f' :: r => some (Char.ofNat 12, r)
  | '\\' :: 'r' :: r => some (Char.ofNat 13, r)
  | '\\' :: 'u' :: _ :: _ :: x :: y :: r => some (Char.ofNat (16 * hexVal x + hexVal y), r)
  | '\\' :: c :: r => some (c, r)
  | '"' :: _ => none
  | c :: r => some (c, r)
  | [] => none

theorem hexVal_hexDigit : ∀ n < 16, hexVal (hexDigit n) = n := by decide

theorem eq_ofNat {c : Char} {n : Nat} (h : c.toNat = n) : c = Char.ofNat n := by
  rw [← h, Char.ofNat_toNat]

/-- An escaped character reads back. -/
theorem unescape_escapeChar (c : Char) (r : Str) : unescape (escapeChar c ++ r) = some (c, r) := by
  unfold escapeChar
  split_ifs with hq hb h8 h9 h10 h12 h13 h32
  · rw [hq]
    rfl
  · rw [hb]
    rfl
  · rw [eq_ofNat h8]
    rfl
  · rw [eq_ofNat h9]
    rfl
  · rw [eq_ofNat h10]
    rfl
  · rw [eq_ofNat h12]
    rfl
  · rw [eq_ofNat h13]
    rfl
  · have hval : Char.ofNat (16 * hexVal (hexDigit (c.toNat / 16)) +
        hexVal (hexDigit (c.toNat % 16))) = c := by
      rw [hexVal_hexDigit _ (by omega), hexVal_hexDigit _ (by omega), Nat.div_add_mod,
        Char.ofNat_toNat]
    simp only [List.cons_append, List.nil_append, unescape, hval]
  · rw [List.cons_append, List.nil_append]
    unfold unescape
    split <;> simp_all

/-- No escape starts with the closing quote. -/
theorem escapeChar_ne_quote (c : Char) (r s : Str) : escapeChar c ++ r ≠ '"' :: s := by
  intro h
  have hread := unescape_escapeChar c r
  rw [h] at hread
  cases hread

theorem escape_unique {s t r u : Str}
    (h : s.flatMap escapeChar ++ '"' :: r = t.flatMap escapeChar ++ '"' :: u) :
    s = t ∧ r = u := by
  induction s generalizing t with
  | nil =>
    cases t with
    | nil =>
      rw [List.flatMap_nil, List.nil_append, List.nil_append, List.cons.injEq] at h
      exact ⟨rfl, h.2⟩
    | cons d t =>
      rw [List.flatMap_cons, List.append_assoc] at h
      exact absurd h.symm (escapeChar_ne_quote d _ _)
  | cons c s ih =>
    cases t with
    | nil =>
      rw [List.flatMap_cons, List.append_assoc] at h
      exact absurd h (escapeChar_ne_quote c _ _)
    | cons d t =>
      rw [List.flatMap_cons, List.flatMap_cons, List.append_assoc, List.append_assoc] at h
      have hread := congrArg unescape h
      rw [unescape_escapeChar, unescape_escapeChar, Option.some.injEq, Prod.mk.injEq] at hread
      obtain ⟨hst, hru⟩ := ih hread.2
      exact ⟨by rw [hread.1, hst], hru⟩

/-- A quoted string ends at its closing quote. -/
theorem quote_unique {s t r u : Str} (h : quote s ++ r = quote t ++ u) : s = t ∧ r = u := by
  simp only [quote, List.cons_append, List.append_assoc, List.nil_append, List.cons.injEq,
    true_and] at h
  exact escape_unique h

/-! ## Values that can be cut off -/

/-- The characters that follow a value. -/
def isStop (c : Char) : Bool := c == ',' || c == ']' || c == '\x7d'

/-- A text that starts with a character that follows a value. -/
def Stops (r : Str) : Prop := ∃ c t, r = c :: t ∧ isStop c = true

/-- A way of writing values that can be cut off where the value ends. -/
structure ValueCode {α : Type} (enc : α → Str) : Prop where
  cut : ∀ {a b : α} {r s : Str}, Stops r → Stops s → enc a ++ r = enc b ++ s → a = b ∧ r = s
  start : ∀ a, ∃ c t, enc a = c :: t ∧ isStop c = false

theorem stops_arrayTail {α : Type} (enc : α → Str) (xs : List α) : Stops (arrayTail enc xs) := by
  cases xs with
  | nil => exact ⟨_, _, rfl, rfl⟩
  | cons x xs => exact ⟨_, _, rfl, rfl⟩

theorem stops_members (ms : List (Str × Str)) : Stops (members ms) := by
  cases ms with
  | nil => exact ⟨_, _, rfl, rfl⟩
  | cons m ms => exact ⟨_, _, rfl, rfl⟩

theorem stops_append {r : Str} (h : Stops r) (s : Str) : Stops (r ++ s) := by
  obtain ⟨c, t, rfl, hc⟩ := h
  exact ⟨c, t ++ s, rfl, hc⟩

/-- Two texts of characters that follow no value, cut off at the first one that does. -/
theorem span_unique {x y r s : Str} (hx : ∀ c ∈ x, isStop c = false)
    (hy : ∀ c ∈ y, isStop c = false) (hr : Stops r) (hs : Stops s) (h : x ++ r = y ++ s) :
    x = y ∧ r = s := by
  obtain ⟨c, r, rfl, hc⟩ := hr
  obtain ⟨d, s, rfl, hd⟩ := hs
  induction x generalizing y with
  | nil =>
    cases y with
    | nil => exact ⟨rfl, h⟩
    | cons b y =>
      rw [List.nil_append, List.cons_append, List.cons.injEq] at h
      rw [h.1, hy b List.mem_cons_self] at hc
      cases hc
  | cons a x ih =>
    cases y with
    | nil =>
      rw [List.cons_append, List.nil_append, List.cons.injEq] at h
      rw [← h.1, hx a List.mem_cons_self] at hd
      cases hd
    | cons b y =>
      rw [List.cons_append, List.cons_append, List.cons.injEq] at h
      obtain ⟨hxy, hrs⟩ := ih (fun e he => hx e (List.mem_cons_of_mem _ he))
        (fun e he => hy e (List.mem_cons_of_mem _ he)) h.2
      exact ⟨by rw [h.1, hxy], hrs⟩

/-- Values without a stop character, told apart by their texts. -/
theorem valueCode_of_plain {α : Type} {enc : α → Str} (hne : ∀ a, enc a ≠ [])
    (hplain : ∀ a, ∀ c ∈ enc a, isStop c = false) (hinj : ∀ a b, enc a = enc b → a = b) :
    ValueCode enc where
  cut {a b _ _} hr hs h := by
    obtain ⟨hab, hrs⟩ := span_unique (hplain a) (hplain b) hr hs h
    exact ⟨hinj a b hab, hrs⟩
  start a := by
    obtain ⟨c, t, hct⟩ := List.exists_cons_of_ne_nil (hne a)
    exact ⟨c, t, hct, hplain a c (by rw [hct]; exact List.mem_cons_self)⟩

theorem quote_valueCode : ValueCode quote where
  cut _ _ h := quote_unique h
  start _ := ⟨_, _, rfl, rfl⟩

theorem decimal_digits {n : Nat} : ∀ c ∈ decimal n, c.isDigit = true := fun _ hc =>
  Nat.isDigit_of_mem_toDigits (by decide) (by decide) hc

/-- A decimal number has no character that is not a digit. -/
theorem notMem_decimal {n : Nat} {c : Char} (hc : c.isDigit = false) : c ∉ decimal n := by
  intro hmem
  rw [decimal_digits c hmem] at hc
  cases hc

theorem decimal_injective {m n : Nat} (h : decimal m = decimal n) : m = n := by
  have hval := congrArg (fun ds => Nat.ofDigitChars 10 ds 0) h
  simpa only [decimal, Nat.ofDigitChars_ten_toDigits] using hval

theorem decimal_plain (n : Nat) : ∀ c ∈ decimal n, isStop c = false := by
  intro c hc
  cases hstop : isStop c with
  | false => rfl
  | true =>
    have hdigit := decimal_digits c hc
    simp only [isStop, Bool.or_eq_true, beq_iff_eq] at hstop
    rcases hstop with (rfl | rfl) | rfl <;> cases hdigit

theorem decimal_valueCode : ValueCode decimal :=
  valueCode_of_plain (fun _ => Nat.toDigits_ne_nil) decimal_plain fun _ _ => decimal_injective

theorem bool_plain (b : Bool) : ∀ c ∈ bool b, isStop c = false := by
  cases b <;> simp [bool, isStop]

theorem bool_valueCode : ValueCode bool :=
  valueCode_of_plain (fun b => by cases b <;> simp [bool]) bool_plain
    fun a b => by cases a <;> cases b <;> simp [bool]

section Array

variable {α : Type} {enc : α → Str}

theorem arrayTail_cut (henc : ValueCode enc) : ∀ {xs ys : List α} {r s : Str},
    arrayTail enc xs ++ r = arrayTail enc ys ++ s → xs = ys ∧ r = s := by
  intro xs
  induction xs with
  | nil =>
    intro ys r s h
    cases ys with
    | nil =>
      simp only [arrayTail, List.cons_append, List.nil_append, List.cons.injEq, true_and] at h
      exact ⟨rfl, h⟩
    | cons y ys =>
      simp only [arrayTail, List.cons_append, List.cons.injEq] at h
      exact absurd h.1 (by decide)
  | cons x xs ih =>
    intro ys r s h
    cases ys with
    | nil =>
      simp only [arrayTail, List.cons_append, List.cons.injEq] at h
      exact absurd h.1 (by decide)
    | cons y ys =>
      simp only [arrayTail, List.cons_append, List.append_assoc, List.cons.injEq, true_and] at h
      obtain ⟨hxy, hrest⟩ := henc.cut (stops_append (stops_arrayTail enc xs) r)
        (stops_append (stops_arrayTail enc ys) s) h
      obtain ⟨hxs, hrs⟩ := ih hrest
      exact ⟨by rw [hxy, hxs], hrs⟩

theorem array_valueCode (henc : ValueCode enc) : ValueCode (array enc) where
  cut {xs ys r s} _ _ h := by
    cases xs with
    | nil =>
      cases ys with
      | nil => exact ⟨rfl, List.append_cancel_left h⟩
      | cons y ys =>
        -- a value does not start with the closing bracket
        obtain ⟨c, t, hy, hc⟩ := henc.start y
        simp only [array, hy, String.reduceToList, List.cons_append, List.cons.injEq,
          true_and] at h
        rw [← h.1] at hc
        cases hc
    | cons x xs =>
      cases ys with
      | nil =>
        obtain ⟨c, t, hx, hc⟩ := henc.start x
        simp only [array, hx, String.reduceToList, List.cons_append, List.cons.injEq,
          true_and] at h
        rw [h.1] at hc
        cases hc
      | cons y ys =>
        simp only [array, List.cons_append, List.append_assoc, List.cons.injEq, true_and] at h
        obtain ⟨hxy, hrest⟩ := henc.cut (stops_append (stops_arrayTail enc xs) r)
          (stops_append (stops_arrayTail enc ys) s) h
        obtain ⟨hxs, hrs⟩ := arrayTail_cut henc hrest
        exact ⟨by rw [hxy, hxs], hrs⟩
  start xs := by
    cases xs with
    | nil => exact ⟨_, _, rfl, rfl⟩
    | cons x xs => exact ⟨_, _, rfl, rfl⟩

end Array

/-! ## Taking a record apart -/

theorem object_kind {k l : Str} {ms ns : List (Str × Str)} (h : object k ms = object l ns) :
    k = l ∧ members ms = members ns := by
  rw [object, object, List.cons.injEq] at h
  obtain ⟨-, hkind⟩ := quote_unique h.2
  rw [List.cons.injEq] at hkind
  exact quote_unique hkind.2

/-- The first member of two records that have the same name there. -/
theorem members_value {name v w : Str} {ms ns : List (Str × Str)}
    (h : members ((name, v) :: ms) = members ((name, w) :: ns)) :
    v ++ members ms = w ++ members ns := by
  rw [members, members, List.cons.injEq] at h
  obtain ⟨-, hval⟩ := quote_unique h.2
  rw [List.cons.injEq] at hval
  exact hval.2

theorem members_cut {α : Type} {enc : α → Str} (henc : ValueCode enc) {name : Str} {a b : α}
    {ms ns : List (Str × Str)}
    (h : members ((name, enc a) :: ms) = members ((name, enc b) :: ns)) :
    a = b ∧ members ms = members ns :=
  henc.cut (stops_members ms) (stops_members ns) (members_value h)

end TetCore.Lib.Json

namespace TetCore.Lib

/-! ## The size of a JSON text -/

theorem byteLen_append (s t : Str) : byteLen (s ++ t) = byteLen s + byteLen t := by
  unfold byteLen
  rw [utf8_append, List.length_append]

theorem byteLen_cons (c : Char) (t : Str) : byteLen (c :: t) = byteLen [c] + byteLen t :=
  byteLen_append [c] t

theorem byteLen_escapeChar (c : Char) : byteLen (Json.escapeChar c) ≤ 6 := by
  unfold Json.escapeChar
  split
  · decide
  split
  · decide
  split
  · decide
  split
  · decide
  split
  · decide
  split
  · decide
  split
  · decide
  split
  · rename_i h
    have hhigh := hexDigit_ascii (c.toNat / 16) (by omega)
    have hlow := hexDigit_ascii (c.toNat % 16) (by omega)
    have hstart : byteLen "\\u00".toList = 4 := by decide
    have h : byteLen ("\\u00".toList ++ [hexDigit (c.toNat / 16), hexDigit (c.toNat % 16)]) ≤ 6 := by
      rw [byteLen_append, hstart]
      simp [byteLen, utf8, hhigh, hlow]
    exact h
  · have h := c.utf8Size_le_four
    simp [byteLen, utf8]
    omega

theorem byteLen_flatMap_escapeChar (s : Str) : byteLen (s.flatMap Json.escapeChar) ≤ 6 * s.length := by
  induction s with
  | nil => decide
  | cons c s ih =>
    have hc := byteLen_escapeChar c
    rw [List.flatMap_cons, byteLen_append, List.length_cons]
    omega

theorem byteLen_quote (s : Str) : byteLen (Json.quote s) ≤ 6 * s.length + 2 := by
  have h := byteLen_flatMap_escapeChar s
  have hq : byteLen ['"'] = 1 := by decide
  unfold Json.quote
  rw [byteLen_cons, byteLen_append, hq]
  omega

theorem byteLen_members : ∀ ms : List (Str × Str),
    byteLen (Json.members ms) ≤ (ms.map fun m => 6 * m.1.length + byteLen m.2 + 4).sum + 1
  | [] => by decide
  | (name, value) :: ms => by
    have ih := byteLen_members ms
    have hname := byteLen_quote name
    have hcomma : byteLen [','] = 1 := by decide
    have hcolon : byteLen [':'] = 1 := by decide
    unfold Json.members
    rw [byteLen_cons, byteLen_append, byteLen_cons ':', byteLen_append, List.map_cons, List.sum_cons]
    simp only
    omega

theorem byteLen_record (ms : List (Str × Str)) :
    byteLen (Json.record ms) ≤ (ms.map fun m => 6 * m.1.length + byteLen m.2 + 4).sum + 2 := by
  cases ms with
  | nil => decide
  | cons m ms =>
    obtain ⟨name, value⟩ := m
    have hms := byteLen_members ms
    have hname := byteLen_quote name
    have hbrace : byteLen ['\x7b'] = 1 := by decide
    have hcolon : byteLen [':'] = 1 := by decide
    unfold Json.record
    rw [byteLen_cons, byteLen_append, byteLen_cons ':', byteLen_append, List.map_cons, List.sum_cons]
    simp only
    omega

theorem byteLen_members_cons (a : Str × Str) (ms : List (Str × Str)) :
    byteLen (Json.members (a :: ms)) = byteLen [','] + (byteLen (Json.quote a.1) +
      (byteLen [':'] + (byteLen a.2 + byteLen (Json.members ms)))) := by
  rw [Json.members, byteLen_cons, byteLen_append, byteLen_cons ':', byteLen_append]

theorem byteLen_members_lt (m : Str × Str) (ms : List (Str × Str)) :
    byteLen (Json.members ms) < byteLen (Json.members (ms ++ [m])) := by
  induction ms with
  | nil =>
    have hcomma : byteLen [','] = 1 := by decide
    rw [List.nil_append, byteLen_members_cons]
    omega
  | cons a ms ih =>
    rw [List.cons_append, byteLen_members_cons, byteLen_members_cons]
    omega

/-- A record with one more member is longer. -/
theorem byteLen_record_lt (a m : Str × Str) (ms : List (Str × Str)) :
    byteLen (Json.record (a :: ms)) < byteLen (Json.record (a :: (ms ++ [m]))) := by
  have h := byteLen_members_lt m ms
  rw [Json.record, Json.record, byteLen_cons, byteLen_append, byteLen_cons ':', byteLen_append,
    byteLen_cons _ (Json.quote a.1 ++ ':' :: (a.2 ++ Json.members (ms ++ [m]))), byteLen_append,
    byteLen_cons ':' (a.2 ++ Json.members (ms ++ [m])), byteLen_append]
  omega

end TetCore.Lib
