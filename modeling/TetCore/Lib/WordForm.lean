import TetCore.Lib.Encoding

/-!
# Values written as words

Types whose values are written as a fixed number of 32-bit words (`WordForm`): a `u8` and a `u32` as one
word, a `u64` as two, low one first, arrays element by element and structures field by field. A value is
read back from exactly its words.

* `WordForm.take_eq_some`: reading the first words of a longer list.
* `byteWords_wordBytes`: words as little-endian bytes and back.
-/

namespace TetCore.Lib

/-- A type written in words. -/
class WordForm (T : Type) where
  width : Nat
  words : T → List UInt32
  /-- The value of exactly these words. -/
  ofWords : List UInt32 → Option T
  length_words : ∀ t, (words t).length = width
  ofWords_eq_some : ∀ ws t, ofWords ws = some t ↔ words t = ws

namespace WordForm

section Laws

variable {T : Type} [WordForm T]

/-- The first words of a list are read as a value exactly if the list starts with its words. -/
theorem take_eq_some {ws : List UInt32} {t : T} :
    ofWords (ws.take (width T)) = some t ↔ words t <+: ws := by
  rw [ofWords_eq_some, List.prefix_iff_eq_take, length_words]

end Laws

/-! ## Numbers -/

/-- A word read as a `u8`, if it is in range. -/
def u8OfWords : List UInt32 → Option UInt8
  | [w] => if w.toNat < 256 then some (UInt8.ofNat w.toNat) else none
  | _ => none

theorem u8OfWords_eq_some (ws : List UInt32) (v : UInt8) :
    u8OfWords ws = some v ↔ [UInt32.ofNat v.toNat] = ws := by
  have hv : v.toNat < 256 := v.toNat_lt
  have hword : (UInt32.ofNat v.toNat).toNat = v.toNat := by simp
  constructor
  · intro h
    unfold u8OfWords at h
    split at h
    · rename_i w
      by_cases hw : w.toNat < 256
      · rw [if_pos hw, Option.some.injEq] at h
        rw [← h, UInt8.toNat_ofNat_of_lt' hw, UInt32.ofNat_toNat]
      · rw [if_neg hw] at h
        cases h
    · cases h
  · rintro rfl
    simp only [u8OfWords, hword, if_pos hv, UInt8.ofNat_toNat]

instance instU8 : WordForm UInt8 where
  width := 1
  words v := [UInt32.ofNat v.toNat]
  ofWords := u8OfWords
  length_words _ := List.length_singleton
  ofWords_eq_some := u8OfWords_eq_some

/-- A word read as a `u32`. -/
def u32OfWords : List UInt32 → Option UInt32
  | [w] => some w
  | _ => none

theorem u32OfWords_eq_some (ws : List UInt32) (v : UInt32) : u32OfWords ws = some v ↔ [v] = ws := by
  constructor
  · intro h
    unfold u32OfWords at h
    split at h
    · cases h
      rfl
    · cases h
  · rintro rfl
    rfl

instance instU32 : WordForm UInt32 where
  width := 1
  words v := [v]
  ofWords := u32OfWords
  length_words _ := List.length_singleton
  ofWords_eq_some := u32OfWords_eq_some

/-- The two words of a `u64`. -/
def u64Words (v : UInt64) : List UInt32 :=
  [UInt32.ofNat (v.toNat % 2 ^ 32), UInt32.ofNat (v.toNat / 2 ^ 32)]

/-- Two words read as a `u64`. -/
def u64OfWords : List UInt32 → Option UInt64
  | [low, high] => some (UInt64.ofNat (low.toNat + 2 ^ 32 * high.toNat))
  | _ => none

theorem u64OfWords_eq_some (ws : List UInt32) (v : UInt64) :
    u64OfWords ws = some v ↔ u64Words v = ws := by
  constructor
  · intro h
    unfold u64OfWords at h
    split at h
    · rename_i low high
      cases h
      have hlow : low.toNat < 2 ^ 32 := low.toNat_lt
      have hhigh : high.toNat < 2 ^ 32 := high.toNat_lt
      have hval : (UInt64.ofNat (low.toNat + 2 ^ 32 * high.toNat)).toNat =
          low.toNat + 2 ^ 32 * high.toNat := by
        rw [UInt64.toNat_ofNat']
        omega
      have hmod : (low.toNat + 2 ^ 32 * high.toNat) % 2 ^ 32 = low.toNat := by omega
      have hdiv : (low.toNat + 2 ^ 32 * high.toNat) / 2 ^ 32 = high.toNat := by omega
      unfold u64Words
      rw [hval, hmod, hdiv, UInt32.ofNat_toNat, UInt32.ofNat_toNat]
    · cases h
  · rintro rfl
    have hv : v.toNat < 2 ^ 64 := v.toNat_lt
    have hlow : (UInt32.ofNat (v.toNat % 2 ^ 32)).toNat = v.toNat % 2 ^ 32 := by
      rw [UInt32.toNat_ofNat']
      omega
    have hhigh : (UInt32.ofNat (v.toNat / 2 ^ 32)).toNat = v.toNat / 2 ^ 32 := by
      rw [UInt32.toNat_ofNat']
      omega
    simp only [u64Words, u64OfWords, hlow, hhigh, Nat.mod_add_div, UInt64.ofNat_toNat]

theorem length_u64Words (v : UInt64) : (u64Words v).length = 2 := rfl

instance instU64 : WordForm UInt64 where
  width := 2
  words := u64Words
  ofWords := u64OfWords
  length_words := length_u64Words
  ofWords_eq_some := u64OfWords_eq_some

/-! ## Pairs, arrays and structures -/

section Combine

variable {S T : Type} [WordForm S] [WordForm T]

def pairWords (p : S × T) : List UInt32 := words p.1 ++ words p.2

def pairOfWords (ws : List UInt32) : Option (S × T) := do
  let s ← ofWords (ws.take (width S))
  let t ← ofWords (ws.drop (width S))
  return (s, t)

theorem length_pairWords (p : S × T) : (pairWords p).length = width S + width T := by
  rw [pairWords, List.length_append, length_words, length_words]

/-- Words are those of two values exactly if their first and their other ones are. -/
theorem append_words_eq {ws rest : List UInt32} {s : S} :
    words s ++ rest = ws ↔ words s = ws.take (width S) ∧ rest = ws.drop (width S) := by
  constructor
  · rintro rfl
    rw [← length_words s, List.take_left, List.drop_left]
    exact ⟨rfl, rfl⟩
  · rintro ⟨hs, rfl⟩
    rw [hs, List.take_append_drop]

theorem pairOfWords_eq_some (ws : List UInt32) (p : S × T) :
    pairOfWords ws = some p ↔ pairWords p = ws := by
  unfold pairOfWords pairWords
  rw [append_words_eq, ← ofWords_eq_some, ← ofWords_eq_some]
  constructor
  · intro h
    simp only [Option.bind_eq_bind, Option.bind_eq_some_iff] at h
    obtain ⟨s, hs, t, ht, h⟩ := h
    cases h
    exact ⟨hs, ht⟩
  · rintro ⟨hs, ht⟩
    rw [hs, ht]
    rfl

instance instPair : WordForm (S × T) where
  width := width S + width T
  words := pairWords
  ofWords := pairOfWords
  length_words := length_pairWords
  ofWords_eq_some := pairOfWords_eq_some

def listWords (l : List T) : List UInt32 := l.flatMap words

/-- Words read as `n` values. -/
def listOfWords : Nat → List UInt32 → Option (List T)
  | 0, [] => some []
  | 0, _ :: _ => none
  | n + 1, ws => do
    let t ← ofWords (ws.take (width T))
    let l ← listOfWords n (ws.drop (width T))
    return t :: l

theorem length_listWords (l : List T) : (listWords l).length = l.length * width T := by
  unfold listWords
  induction l with
  | nil => simp
  | cons t l ih =>
    rw [List.flatMap_cons, List.length_append, ih, length_words, List.length_cons, Nat.succ_mul,
      Nat.add_comm]

theorem listOfWords_eq_some {n : Nat} {ws : List UInt32} {l : List T} :
    listOfWords n ws = some l ↔ l.length = n ∧ listWords l = ws := by
  induction n generalizing ws l with
  | zero =>
    cases ws with
    | nil =>
      constructor
      · intro h
        cases h
        exact ⟨rfl, rfl⟩
      · rintro ⟨hlen, -⟩
        rw [List.length_eq_zero_iff.mp hlen]
        rfl
    | cons w ws =>
      constructor
      · intro h
        cases h
      · rintro ⟨hlen, hwords⟩
        rw [List.length_eq_zero_iff.mp hlen] at hwords
        cases hwords
  | succ n ih =>
    unfold listOfWords
    simp only [Option.bind_eq_bind, Option.bind_eq_some_iff, ih]
    constructor
    · rintro ⟨t, ht, l', ⟨hlen, hwords⟩, h⟩
      cases h
      exact ⟨congrArg (· + 1) hlen, append_words_eq.mpr ⟨(ofWords_eq_some _ t).mp ht, hwords⟩⟩
    · rintro ⟨hlen, hwords⟩
      cases l with
      | nil => cases hlen
      | cons t l =>
        obtain ⟨ht, hl⟩ := append_words_eq.mp hwords
        exact ⟨t, (ofWords_eq_some _ t).mpr ht, l, ⟨Nat.succ.inj hlen, hl⟩, rfl⟩

variable (T) in
/-- An array of `n` values. -/
abbrev WordArray (n : Nat) : Type := {l : List T // l.length = n}

def arrayOfWords (n : Nat) (ws : List UInt32) : Option (WordArray T n) :=
  (listOfWords n ws).bind fun l => if h : l.length = n then some ⟨l, h⟩ else none

theorem length_arrayWords {n : Nat} (a : WordArray T n) : (listWords a.1).length = n * width T := by
  rw [length_listWords, a.2]

theorem arrayOfWords_eq_some {n : Nat} (ws : List UInt32) (a : WordArray T n) :
    arrayOfWords n ws = some a ↔ listWords a.1 = ws := by
  unfold arrayOfWords
  rw [Option.bind_eq_some_iff]
  constructor
  · rintro ⟨l, hl, h⟩
    obtain ⟨hlen, hwords⟩ := listOfWords_eq_some.mp hl
    rw [dif_pos hlen] at h
    cases h
    exact hwords
  · intro h
    exact ⟨a.1, listOfWords_eq_some.mpr ⟨a.2, h⟩, dif_pos a.2⟩

instance instArray (n : Nat) : WordForm (WordArray T n) where
  width := n * width T
  words a := listWords a.1
  ofWords := arrayOfWords n
  length_words := length_arrayWords
  ofWords_eq_some := arrayOfWords_eq_some

omit [WordForm S] in
theorem mapOfWords_eq_some (e : S ≃ T) (ws : List UInt32) (s : S) :
    (ofWords ws).map e.symm = some s ↔ words (e s) = ws := by
  rw [← ofWords_eq_some, Option.map_eq_some_iff]
  constructor
  · rintro ⟨t, ht, rfl⟩
    rw [e.apply_symm_apply]
    exact ht
  · intro h
    exact ⟨e s, h, e.symm_apply_apply s⟩

omit [WordForm S] in
theorem length_mapWords (e : S ≃ T) (s : S) : (words (e s)).length = width T := length_words (e s)

omit [WordForm S] in
/-- A structure is written as the tuple of its fields. -/
@[reducible] def ofEquiv (e : S ≃ T) : WordForm S where
  width := width T
  words s := words (e s)
  ofWords ws := (ofWords ws).map e.symm
  length_words := length_mapWords e
  ofWords_eq_some := mapOfWords_eq_some e

end Combine

end WordForm

/-! ## Words as bytes -/

/-- The little-endian bytes of words. -/
def wordBytes (ws : List UInt32) : Bytes := ws.flatMap fun w => leBytes 4 w.toNat

/-- The words of bytes, four at a time. -/
def byteWords : Bytes → Option (List UInt32)
  | [] => some []
  | a :: b :: c :: d :: rest =>
    (byteWords rest).map fun ws =>
      UInt32.ofNat (a.toNat + 256 * (b.toNat + 256 * (c.toNat + 256 * d.toNat))) :: ws
  | _ => none

theorem length_wordBytes (ws : List UInt32) : (wordBytes ws).length = 4 * ws.length := by
  unfold wordBytes
  induction ws with
  | nil => rfl
  | cons w ws ih =>
    rw [List.flatMap_cons, List.length_append, ih, List.length_cons]
    show 4 + 4 * ws.length = 4 * (ws.length + 1)
    omega

theorem byteWords_wordBytes (ws : List UInt32) : byteWords (wordBytes ws) = some ws := by
  unfold wordBytes
  induction ws with
  | nil => rfl
  | cons w ws ih =>
    have hw : w.toNat < 2 ^ 32 := w.toNat_lt
    have hbyte : ∀ n : Nat, (UInt8.ofNat (n % 256)).toNat = n % 256 := by
      intro n
      rw [UInt8.toNat_ofNat']
      omega
    have hval : w.toNat % 256 + 256 * (w.toNat / 256 % 256 + 256 * (w.toNat / 256 / 256 % 256 +
        256 * (w.toNat / 256 / 256 / 256 % 256))) = w.toNat := by omega
    rw [List.flatMap_cons]
    generalize ws.flatMap (fun w => leBytes 4 w.toNat) = rest at ih
    simp only [leBytes, List.cons_append, List.nil_append, byteWords, ih, Option.map_some, hbyte,
      hval, UInt32.ofNat_toNat]

end TetCore.Lib
