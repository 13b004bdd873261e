import TetCore.Lib.Text
import Mathlib.Algebra.Order.BigOperators.Group.List
import Mathlib.Algebra.Order.Ring.Nat

/-!
# Encodings that can be read back

What a byte string determines of the values it was put together from.

* `utf8_injective`, `leBytes_injective`: the encodings of strings and of fixed-width numbers.
* `compare_beBytes_lt`: big-endian numbers are in the order of their bytes.
* `cut_unique`, `cut_last_unique`: a text cut at a separator that one side does not contain.
* `fields_unique`: separated fields, of which only one side is known to be free of the separator: a
  text with as few separators as fields can be cut in one way only.
* `lastFields_unique`: fields after a free text, cut off from the end.
* `intercalate_injective`: a joined list of texts without the separator.
* `rows_injective`: rows of a key and a fixed-width value, written one after the other without
  separators, are determined when no key is a proper prefix of another (`PrefixFree`).
-/

namespace TetCore.Lib

/-! ## Strings and numbers -/

@[simp] theorem utf8_append (s t : Str) : utf8 (s ++ t) = utf8 s ++ utf8 t := List.flatMap_append

theorem utf8_injective {s t : Str} (h : utf8 s = utf8 t) : s = t := by
  have hbytes : s.utf8Encode = t.utf8Encode := congrArg List.toByteArray h
  have hstr : String.ofList s = String.ofList t := by
    rw [← String.toByteArray_inj, String.toByteArray_ofList, String.toByteArray_ofList, hbytes]
  exact String.ofList_injective hstr

/-- Of texts of one length, one starts with the other only when it is the other. -/
theorem isPrefixOf_utf8_append {p s : Str} (rest : Bytes) (hlen : byteLen p = byteLen s) :
    (utf8 p).isPrefixOf (utf8 s ++ rest) = (s == p) := by
  rw [Bool.eq_iff_iff, List.isPrefixOf_iff_prefix, beq_iff_eq]
  constructor
  · intro hstart
    have hsame := List.prefix_of_prefix_length_le hstart (List.prefix_append _ _) hlen.le
    exact utf8_injective (hsame.eq_of_length hlen).symm
  · rintro rfl
    exact List.prefix_append _ _

/-- An ASCII character is written as its code. -/
theorem ascii_byte_notMem {c : Char} {b : UInt8} (hascii : c.toNat < 128) (hne : c.toNat ≠ b.toNat) :
    b ∉ String.utf8EncodeChar c := by
  have hval : c.val.toNat = c.toNat := rfl
  unfold String.utf8EncodeChar
  simp only [hval]
  rw [if_pos (by omega), List.mem_singleton]
  intro h
  have hcode := congrArg UInt8.toNat h
  simp at hcode
  omega

/-- No byte of a character is above `0xf7`. -/
theorem lt_of_mem_utf8EncodeChar {c : Char} {b : UInt8} (h : b ∈ String.utf8EncodeChar c) :
    b.toNat < 0xf8 := by
  have hmod : ∀ {n : Nat}, n < 0xf8 → (UInt8.ofNat n).toNat < 0xf8 := by
    intro n hn
    rw [UInt8.toNat_ofNat_of_lt' (lt_trans hn (by decide))]
    exact hn
  unfold String.utf8EncodeChar at h
  dsimp only at h
  split at h
  · obtain rfl := List.mem_singleton.mp h
    exact hmod (by omega)
  · split at h
    · simp only [List.mem_cons, List.not_mem_nil, or_false] at h
      rcases h with rfl | rfl <;> exact hmod (by omega)
    · split at h
      · simp only [List.mem_cons, List.not_mem_nil, or_false] at h
        rcases h with rfl | rfl | rfl <;> exact hmod (by omega)
      · simp only [List.mem_cons, List.not_mem_nil, or_false] at h
        rcases h with rfl | rfl | rfl | rfl <;> exact hmod (by omega)

/-- The byte `0xff` stands in no text. -/
theorem ff_notMem_utf8 (s : Str) : (0xff : UInt8) ∉ utf8 s := by
  intro h
  obtain ⟨c, -, hc⟩ := List.mem_flatMap.mp h
  exact absurd (lt_of_mem_utf8EncodeChar hc) (by decide)

@[simp] theorem leBytes_length : ∀ n v : Nat, (leBytes n v).length = n
  | 0, _ => rfl
  | n + 1, v => by rw [leBytes, List.length_cons, leBytes_length n]

theorem leBytes_injective : ∀ {n v w : Nat}, v < 256 ^ n → w < 256 ^ n →
    leBytes n v = leBytes n w → v = w := by
  intro n
  induction n with
  | zero =>
    intro v w hv hw _
    omega
  | succ n ih =>
    intro v w hv hw h
    rw [leBytes, leBytes, List.cons.injEq] at h
    have hlow : v % 256 = w % 256 := by
      have := congrArg UInt8.toNat h.1
      simpa using this
    have hhigh : v / 256 = w / 256 := by
      refine ih ?_ ?_ h.2 <;> rw [Nat.div_lt_iff_lt_mul (by omega)] <;> omega
    omega

theorem compare_append_left (p : Bytes) (a b : Bytes) : compare (p ++ a) (p ++ b) = compare a b := by
  induction p with
  | nil => rfl
  | cons x p ih =>
    rw [List.cons_append, List.cons_append, List.compare_cons_cons, Std.ReflOrd.compare_self, ih]
    rfl

theorem compare_concat : ∀ {a b : Bytes}, a.length = b.length → ∀ (x y : UInt8),
    compare (a ++ [x]) (b ++ [y]) = (compare a b).then (compare x y)
  | [], [], _, x, y => by
    rw [List.nil_append, List.nil_append, List.compare_cons_cons]
    cases h : compare x y <;> rfl
  | c :: a, d :: b, h, x, y => by
    rw [List.cons_append, List.cons_append, List.compare_cons_cons, List.compare_cons_cons,
      compare_concat (Nat.succ.inj h) x y]
    cases compare c d <;> rfl

/-- The first parts of one length decide, where they differ. -/
theorem compare_append_of_lt : ∀ {a b : Bytes}, a.length = b.length → compare a b = .lt →
    ∀ x y : Bytes, compare (a ++ x) (b ++ y) = .lt
  | [], [], _, h, x, y => by cases h
  | c :: a, d :: b, hlen, h, x, y => by
    rw [List.compare_cons_cons] at h
    rw [List.cons_append, List.cons_append, List.compare_cons_cons]
    cases hcd : compare c d with
    | lt => rfl
    | eq =>
      rw [hcd] at h
      exact compare_append_of_lt (Nat.succ.inj hlen) h x y
    | gt =>
      rw [hcd] at h
      cases h

theorem beBytes_succ (n v : Nat) : beBytes (n + 1) v = beBytes n (v / 256) ++ [UInt8.ofNat (v % 256)] := by
  unfold beBytes
  rw [leBytes, List.reverse_cons]

theorem length_beBytes (n v : Nat) : (beBytes n v).length = n := by
  induction n generalizing v with
  | zero => rfl
  | succ n ih => rw [beBytes_succ, List.length_append, ih, List.length_singleton]

/-- Big-endian bytes are in the order of the numbers. -/
theorem compare_beBytes_lt : ∀ {n v w : Nat}, v < w → w < 256 ^ n →
    compare (beBytes n v) (beBytes n w) = .lt
  | 0, v, w, hlt, hw => by simp at hw; omega
  | n + 1, v, w, hlt, hw => by
    rw [beBytes_succ, beBytes_succ, compare_concat (by rw [length_beBytes, length_beBytes])]
    have hw' : w / 256 < 256 ^ n := by
      rw [Nat.pow_succ] at hw
      omega
    by_cases hdiv : v / 256 < w / 256
    · rw [compare_beBytes_lt hdiv hw']
      rfl
    · have heq : v / 256 = w / 256 := by omega
      rw [heq, Std.ReflOrd.compare_self]
      have hmod : v % 256 < w % 256 := by omega
      show compareOfLessAndEq (UInt8.ofNat (v % 256)) (UInt8.ofNat (w % 256)) = .lt
      rw [compareOfLessAndEq, if_pos]
      rw [UInt8.lt_iff_toNat_lt, UInt8.toNat_ofNat_of_lt' (by simp [UInt8.size]; omega),
        UInt8.toNat_ofNat_of_lt' (by simp [UInt8.size]; omega)]
      exact hmod

/-- A number in front decides, where it is not the same one. -/
theorem compare_beBytes_append {n v w : Nat} (hv : v < 256 ^ n) (hw : w < 256 ^ n) (x y : Bytes) :
    compare (beBytes n v ++ x) (beBytes n w ++ y) = (compare v w).then (compare x y) := by
  have hlen : (beBytes n v).length = (beBytes n w).length := by
    rw [length_beBytes, length_beBytes]
  rcases Nat.lt_trichotomy v w with hlt | rfl | hgt
  · rw [compare_append_of_lt hlen (compare_beBytes_lt hlt hw), Nat.compare_eq_lt.mpr hlt]
    rfl
  · rw [compare_append_left, Std.ReflOrd.compare_self]
    rfl
  · have hback := compare_append_of_lt hlen.symm (compare_beBytes_lt hgt hv) y x
    rw [Std.OrientedCmp.gt_of_lt hback, Nat.compare_eq_gt.mpr hgt]
    rfl

theorem hexDigit_injective : ∀ m < 16, ∀ n < 16, hexDigit m = hexDigit n → m = n := by decide

theorem hexEncode_injective : ∀ {a b : Bytes}, hexEncode a = hexEncode b → a = b := by
  intro a
  induction a with
  | nil =>
    intro b h
    cases b with
    | nil => rfl
    | cons y b => cases h
  | cons x a ih =>
    intro b h
    cases b with
    | nil => cases h
    | cons y b =>
      have hx := x.toNat_lt
      have hy := y.toNat_lt
      simp only [hexEncode, List.flatMap_cons, List.cons_append, List.nil_append,
        List.cons.injEq] at h
      obtain ⟨hhigh, hlow, hrest⟩ := h
      have hhigh := hexDigit_injective _ (by omega) _ (by omega) hhigh
      have hlow := hexDigit_injective _ (by omega) _ (by omega) hlow
      rw [ih hrest, UInt8.toNat_inj.mp (by omega : x.toNat = y.toNat)]

/-- A hex digit is not the given other character. -/
theorem notMem_of_hexdigit {c : Char} (hc : isAsciiHexdigit c = false) {s : Str}
    (hs : s.all isAsciiHexdigit = true) : c ∉ s := by
  intro hmem
  rw [List.all_eq_true.mp hs c hmem] at hc
  cases hc

theorem hexDigit_isAsciiHexdigit : ∀ n < 16, isAsciiHexdigit (hexDigit n) = true := by decide

theorem hexEncode_all (b : Bytes) : (hexEncode b).all isAsciiHexdigit = true := by
  rw [List.all_eq_true]
  intro c hc
  obtain ⟨x, -, hx⟩ := List.mem_flatMap.mp hc
  have hlt := x.toNat_lt
  rcases List.mem_cons.mp hx with rfl | hx
  · exact hexDigit_isAsciiHexdigit _ (by omega)
  · rw [List.mem_singleton.mp hx]
    exact hexDigit_isAsciiHexdigit _ (by omega)

theorem hexDigit_ascii : ∀ n < 16, (String.utf8EncodeChar (hexDigit n)).length = 1 := by decide

theorem asciiLower_hexDigit : ∀ n < 16, asciiLower (hexDigit n) = hexDigit n := by decide

theorem byteLen_hexEncode (b : Bytes) : byteLen (hexEncode b) = 2 * b.length := by
  induction b with
  | nil => rfl
  | cons x b ih =>
    have hx := x.toNat_lt
    have hhigh := hexDigit_ascii (x.toNat / 16) (by omega)
    have hlow := hexDigit_ascii (x.toNat % 16) (by omega)
    simp only [byteLen, utf8, hexEncode, List.flatMap_cons, List.flatMap_append, List.flatMap_nil,
      List.length_append, List.length_nil, List.length_cons] at ih ⊢
    omega

theorem isHex64_hexEncode {b : Bytes} (h : b.length = 32) : isHex64 (hexEncode b) = true := by
  simp [isHex64, byteLen_hexEncode, h, hexEncode_all]

/-- Encoded bytes are lowercase and have no white space. -/
theorem trimLower_hexEncode (b : Bytes) : trimLower (hexEncode b) = hexEncode b := by
  unfold trimLower toAsciiLowercase
  rw [trim_of_forall (hexEncode_not_whitespace b)]
  refine (List.map_congr_left fun c hc => ?_).trans (List.map_id _)
  obtain ⟨x, -, hx⟩ := List.mem_flatMap.mp hc
  have hlt := x.toNat_lt
  rcases List.mem_cons.mp hx with rfl | hx
  · exact asciiLower_hexDigit _ (by omega)
  · rw [List.mem_singleton.mp hx]
    exact asciiLower_hexDigit _ (by omega)

/-! ## Cutting at a separator -/

section Cut

variable {α : Type} {c : α}

/-- The part before the first separator, and what follows it. -/
theorem cut_unique {x y r s : List α} (hx : c ∉ x) (hy : c ∉ y) (h : x ++ c :: r = y ++ c :: s) :
    x = y ∧ r = s := by
  induction x generalizing y with
  | nil =>
    cases y with
    | nil =>
      rw [List.nil_append, List.nil_append, List.cons.injEq] at h
      exact ⟨rfl, h.2⟩
    | cons b y =>
      rw [List.nil_append, List.cons_append, List.cons.injEq] at h
      exact absurd (h.1 ▸ List.mem_cons_self) hy
  | cons a x ih =>
    cases y with
    | nil =>
      rw [List.cons_append, List.nil_append, List.cons.injEq] at h
      exact absurd (h.1 ▸ List.mem_cons_self) hx
    | cons b y =>
      rw [List.cons_append, List.cons_append, List.cons.injEq] at h
      obtain ⟨rfl, h⟩ := h
      obtain ⟨rfl, hr⟩ := ih (fun hc => hx (List.mem_cons_of_mem _ hc))
        (fun hc => hy (List.mem_cons_of_mem _ hc)) h
      exact ⟨rfl, hr⟩

/-- The part after the last separator, and what is before it. -/
theorem cut_last_unique {x y r s : List α} (hr : c ∉ r) (hs : c ∉ s)
    (h : x ++ c :: r = y ++ c :: s) : x = y ∧ r = s := by
  have hrev := congrArg List.reverse h
  rw [List.reverse_append, List.reverse_append, List.reverse_cons, List.reverse_cons,
    List.append_assoc, List.append_assoc] at hrev
  obtain ⟨hrs, hxy⟩ := cut_unique (fun hc => hr (List.mem_reverse.mp hc))
    (fun hc => hs (List.mem_reverse.mp hc)) hrev
  exact ⟨List.reverse_injective hxy, List.reverse_injective hrs⟩

/-- The fields of a text, each after the first introduced by the separator and its tag. -/
def joinFields (c : α) (first : List α) : List (List α × List α) → List α
  | [] => first
  | (tag, field) :: rest => first ++ c :: (tag ++ joinFields c field rest)

/-- A text with the fields of `xs`, none of which has the separator, has no more separators. -/
theorem count_joinFields [DecidableEq α] {x : List α} {xs : List (List α × List α)}
    (htag : ∀ f ∈ xs, c ∉ f.1) :
    (joinFields c x xs).count c = x.count c + xs.length + (xs.map fun f => f.2.count c).sum := by
  induction xs generalizing x with
  | nil => rfl
  | cons f xs ih =>
    have hf := htag f List.mem_cons_self
    rw [joinFields, List.count_append, List.count_cons_self, List.count_append,
      List.count_eq_zero.mpr hf, ih fun g hg => htag g (List.mem_cons_of_mem _ hg), List.length_cons,
      List.map_cons, List.sum_cons]
    omega

theorem sum_count_eq_zero [DecidableEq α] {xs : List (List α × List α)} (h : ∀ f ∈ xs, c ∉ f.2) :
    (xs.map fun f => f.2.count c).sum = 0 := by
  refine List.sum_eq_zero fun n hn => ?_
  obtain ⟨f, hf, rfl⟩ := List.mem_map.mp hn
  exact List.count_eq_zero.mpr (h f hf)

/-- Fields without the separator are the ones the text is cut into. -/
theorem joinFields_unique {x y : List α} {xs ys : List (List α × List α)}
    (htags : xs.map Prod.fst = ys.map Prod.fst) (hx : c ∉ x) (hy : c ∉ y) (htag : ∀ f ∈ xs, c ∉ f.1)
    (hxs : ∀ f ∈ xs, c ∉ f.2) (hys : ∀ f ∈ ys, c ∉ f.2)
    (h : joinFields c x xs = joinFields c y ys) : x = y ∧ xs = ys := by
  induction xs generalizing x y ys with
  | nil =>
    cases ys with
    | nil => exact ⟨h, rfl⟩
    | cons g ys => cases htags
  | cons f xs ih =>
    cases ys with
    | nil => cases htags
    | cons g ys =>
      rw [List.map_cons, List.map_cons, List.cons.injEq] at htags
      rw [joinFields, joinFields] at h
      obtain ⟨hxy, hrest⟩ := cut_unique hx hy h
      rw [← htags.1] at hrest
      obtain ⟨hf, hxs'⟩ := ih htags.2 (hxs f List.mem_cons_self) (hys g List.mem_cons_self)
        (fun k hk => htag k (List.mem_cons_of_mem _ hk))
        (fun k hk => hxs k (List.mem_cons_of_mem _ hk))
        (fun k hk => hys k (List.mem_cons_of_mem _ hk)) (List.append_cancel_left hrest)
      exact ⟨hxy, by rw [Prod.ext htags.1 hf, hxs']⟩

/-- **Separated fields.** When no field of one side has the separator, no field of the other has it
either, and the fields agree. -/
theorem fields_unique [DecidableEq α] {x y : List α} {xs ys : List (List α × List α)}
    (htags : xs.map Prod.fst = ys.map Prod.fst) (htag : ∀ f ∈ xs, c ∉ f.1) (hx : c ∉ x)
    (hxs : ∀ f ∈ xs, c ∉ f.2) (h : joinFields c x xs = joinFields c y ys) : x = y ∧ xs = ys := by
  have htag' : ∀ f ∈ ys, c ∉ f.1 := by
    intro f hf
    have hmem : f.1 ∈ xs.map Prod.fst := htags ▸ List.mem_map_of_mem hf
    obtain ⟨g, hg, heq⟩ := List.mem_map.mp hmem
    exact heq ▸ htag g hg
  -- both sides have as many separators as fields after the first
  have hcount := congrArg (List.count c) h
  have hlen : xs.length = ys.length := by
    rw [← List.length_map (f := Prod.fst), htags, List.length_map]
  rw [count_joinFields htag, count_joinFields htag', List.count_eq_zero.mpr hx,
    sum_count_eq_zero hxs, hlen] at hcount
  refine joinFields_unique htags hx (List.count_eq_zero.mp (by omega)) htag hxs ?_ h
  intro f hf
  have hle : f.2.count c ≤ (ys.map fun f => f.2.count c).sum :=
    List.single_le_sum (fun _ _ => Nat.zero_le _) _ (List.mem_map_of_mem hf)
  exact List.count_eq_zero.mp (by omega)

/-- A first field that is cut off at the back may be long. -/
theorem joinFields_cons (x : List α) (tag field : List α) (xs : List (List α × List α)) :
    joinFields c x ((tag, field) :: xs) = joinFields c (x ++ c :: (tag ++ field)) xs := by
  cases xs with
  | nil => rfl
  | cons g xs => simp [joinFields]

/-- **Fields after a free text**: the first field may have the separator, the others do not. -/
theorem lastFields_unique {xs ys : List (List α × List α)}
    (htags : xs.map Prod.fst = ys.map Prod.fst) (htag : ∀ f ∈ xs, c ∉ f.1)
    (hxs : ∀ f ∈ xs, c ∉ f.2) (hys : ∀ f ∈ ys, c ∉ f.2) {x y : List α}
    (h : joinFields c x xs = joinFields c y ys) : x = y ∧ xs = ys := by
  induction xs generalizing x y ys with
  | nil =>
    cases ys with
    | nil => exact ⟨h, rfl⟩
    | cons g ys => cases htags
  | cons f xs ih =>
    cases ys with
    | nil => cases htags
    | cons g ys =>
      rw [List.map_cons, List.map_cons, List.cons.injEq] at htags
      rw [joinFields_cons, joinFields_cons, ← htags.1] at h
      obtain ⟨hfirst, hrest⟩ := ih htags.2 (fun k hk => htag k (List.mem_cons_of_mem f hk))
        (fun k hk => hxs k (List.mem_cons_of_mem f hk))
        (fun k hk => hys k (List.mem_cons_of_mem g hk)) h
      have hfree : ∀ z, c ∉ z → c ∉ f.1 ++ z := fun z hz =>
        List.not_mem_append (htag f List.mem_cons_self) hz
      obtain ⟨hxy, htail⟩ := cut_last_unique (hfree f.2 (hxs f List.mem_cons_self))
        (hfree g.2 (hys g List.mem_cons_self)) hfirst
      exact ⟨hxy, by rw [Prod.ext htags.1 (List.append_cancel_left htail), hrest]⟩

theorem intercalate_cons_eq (f : List α) (xs : List (List α)) :
    [c].intercalate (f :: xs) = joinFields c f (xs.map fun g => ([], g)) := by
  induction xs generalizing f with
  | nil => exact List.intercalate_singleton
  | cons g xs ih =>
    rw [List.intercalate_cons_cons, ih g, List.append_assoc]
    rfl

/-- A joined list with a first text that is not empty is not empty. -/
theorem intercalate_cons_ne_nil {f : List α} {xs : List (List α)} (hf : f ≠ []) :
    [c].intercalate (f :: xs) ≠ [] := by
  rw [intercalate_cons_eq]
  cases xs with
  | nil => exact hf
  | cons g xs => exact List.append_ne_nil_of_left_ne_nil hf _

/-- **Joined lists** of texts without the separator. -/
theorem intercalate_injective [DecidableEq α] {xs ys : List (List α)}
    (hxs : ∀ f ∈ xs, f ≠ [] ∧ c ∉ f) (hys : ∀ f ∈ ys, f ≠ [] ∧ c ∉ f)
    (h : [c].intercalate xs = [c].intercalate ys) : xs = ys := by
  cases xs with
  | nil =>
    cases ys with
    | nil => rfl
    | cons g ys => exact absurd h.symm (intercalate_cons_ne_nil (hys g List.mem_cons_self).1)
  | cons f xs =>
    cases ys with
    | nil => exact absurd h (intercalate_cons_ne_nil (hxs f List.mem_cons_self).1)
    | cons g ys =>
      rw [intercalate_cons_eq, intercalate_cons_eq] at h
      have hfields : ∀ {zs : List (List α)}, (∀ f ∈ zs, c ∉ f) →
          ∀ p ∈ zs.map (fun g => (([] : List α), g)), c ∉ p.2 := by
        intro zs hzs p hp
        obtain ⟨k, hk, rfl⟩ := List.mem_map.mp hp
        exact hzs k hk
      have htag : ∀ {zs : List (List α)}, ∀ p ∈ zs.map (fun g => (([] : List α), g)), c ∉ p.1 := by
        intro zs p hp
        obtain ⟨k, -, rfl⟩ := List.mem_map.mp hp
        exact List.not_mem_nil
      have hxs' := hfields fun k hk => (hxs k (List.mem_cons_of_mem f hk)).2
      have hys' := hfields fun k hk => (hys k (List.mem_cons_of_mem g hk)).2
      have hf := (hxs f List.mem_cons_self).2
      have hg := (hys g List.mem_cons_self).2
      -- the number of separators gives the number of texts
      have hlen : xs.length = ys.length := by
        have hcount := congrArg (List.count c) h
        rw [count_joinFields htag, count_joinFields htag, sum_count_eq_zero hxs',
          sum_count_eq_zero hys', List.count_eq_zero.mpr hf, List.count_eq_zero.mpr hg,
          List.length_map, List.length_map] at hcount
        omega
      have htags : (xs.map fun g => (([] : List α), g)).map Prod.fst =
          (ys.map fun g => (([] : List α), g)).map Prod.fst := by
        simp only [List.map_map, Function.comp_def, List.map_const', hlen]
      obtain ⟨hfg, hrest⟩ := joinFields_unique htags hf hg htag hxs' hys' h
      have hmap := congrArg (List.map Prod.snd) hrest
      rw [List.map_map, List.map_map] at hmap
      rw [hfg]
      congr 1
      simpa [Function.comp_def] using hmap

end Cut

/-! ## Rows without separators -/

/-- No key of one list is a proper prefix of a key of the other. -/
def PrefixFree (ks ls : List Bytes) : Prop := ∀ k ∈ ks, ∀ l ∈ ls, (k <+: l ∨ l <+: k) → k = l

/-- **Rows** of a key and a value of `n` bytes, one after the other. -/
theorem rows_injective {n : Nat} (hn : 0 < n) : ∀ {xs ys : List (Bytes × Nat)},
    PrefixFree (xs.map Prod.fst) (ys.map Prod.fst) → (∀ r ∈ xs, r.2 < 256 ^ n) →
    (∀ r ∈ ys, r.2 < 256 ^ n) →
    (xs.flatMap fun r => r.1 ++ leBytes n r.2) = (ys.flatMap fun r => r.1 ++ leBytes n r.2) →
    xs = ys := by
  intro xs
  induction xs with
  | nil =>
    intro ys _ _ _ h
    cases ys with
    | nil => rfl
    | cons s ys =>
      have hlen := congrArg List.length h
      simp only [List.flatMap_nil, List.flatMap_cons, List.length_nil, List.length_append,
        leBytes_length] at hlen
      omega
  | cons r xs ih =>
    intro ys hfree hxs hys h
    cases ys with
    | nil =>
      have hlen := congrArg List.length h
      simp only [List.flatMap_nil, List.flatMap_cons, List.length_nil, List.length_append,
        leBytes_length] at hlen
      omega
    | cons s ys =>
      rw [List.flatMap_cons, List.flatMap_cons, List.append_assoc, List.append_assoc] at h
      -- both keys start the same text, so one is a prefix of the other
      have hkey : r.1 = s.1 := by
        refine hfree _ List.mem_cons_self _ List.mem_cons_self ?_
        exact List.prefix_or_prefix_of_prefix (List.prefix_append r.1 _) (h ▸ List.prefix_append s.1 _)
      rw [hkey] at h
      obtain ⟨hval, hrest⟩ := List.append_inj (List.append_cancel_left h)
        (by rw [leBytes_length, leBytes_length])
      have hrs : r = s := Prod.ext hkey
        (leBytes_injective (hxs r List.mem_cons_self) (hys s List.mem_cons_self) hval)
      have htail := ih (fun k hk l hl => hfree k (List.mem_cons_of_mem _ hk) l
        (List.mem_cons_of_mem _ hl)) (fun q hq => hxs q (List.mem_cons_of_mem _ hq))
        (fun q hq => hys q (List.mem_cons_of_mem _ hq)) hrest
      rw [hrs, htail]

theorem byteLen_of_ascii {s : Str} (h : ∀ c ∈ s, c.toNat < 128) : byteLen s = s.length := by
  induction s with
  | nil => rfl
  | cons c s ih =>
    have hc : (String.utf8EncodeChar c).length = 1 := by
      rw [String.length_utf8EncodeChar, Char.utf8Size_eq_one_iff]
      have h := h c List.mem_cons_self
      show c.val.toNat ≤ 127
      have hval : c.val.toNat = c.toNat := rfl
      omega
    have ih := ih fun d hd => h d (List.mem_cons_of_mem c hd)
    unfold byteLen utf8 at ih ⊢
    rw [List.flatMap_cons, List.length_append, hc, ih, List.length_cons]
    omega

theorem exists_hexNibble {c : Char} (h : isAsciiHexdigit c = true) : ∃ n, hexNibble c = some n := by
  unfold isAsciiHexdigit at h
  unfold hexNibble
  simp only [Bool.or_eq_true, Bool.and_eq_true, decide_eq_true_eq] at h ⊢
  rcases h with (h | h) | h
  · exact ⟨_, if_pos h⟩
  · exact ⟨_, (if_neg (by omega)).trans (if_pos h)⟩
  · exact ⟨_, (if_neg (by omega)).trans ((if_neg (by omega)).trans (if_pos h))⟩

/-- A text of pairs of hex digits decodes, to a byte a pair. -/
theorem exists_hexDecode : ∀ {n : Nat} {s : Str}, s.length = 2 * n →
    (∀ c ∈ s, isAsciiHexdigit c = true) → ∃ b, hexDecode s = some b ∧ b.length = n
  | 0, [], _, _ => ⟨[], rfl, rfl⟩
  | 0, _ :: _, hlen, _ => by simp at hlen
  | n + 1, [], hlen, _ => by simp at hlen
  | n + 1, [_], hlen, _ => by
    rw [List.length_singleton] at hlen
    omega
  | n + 1, a :: b :: s, hlen, h => by
    rw [List.length_cons, List.length_cons] at hlen
    obtain ⟨hi, hhi⟩ := exists_hexNibble (h a List.mem_cons_self)
    obtain ⟨lo, hlo⟩ := exists_hexNibble (h b (List.mem_cons_of_mem a List.mem_cons_self))
    obtain ⟨rest, hrest, hlen⟩ := exists_hexDecode (s := s) (n := n) (by omega) fun c hc =>
      h c (List.mem_cons_of_mem a (List.mem_cons_of_mem b hc))
    refine ⟨UInt8.ofNat (16 * hi + lo) :: rest, ?_, ?_⟩
    · unfold hexDecode
      rw [hhi, hlo, hrest]
      rfl
    · rw [List.length_cons, hlen]

/-- Text of 64 hex digits decodes to 32 bytes. -/
theorem exists_hexDecode_of_isHex64 {s : Str} (h : isHex64 s = true) :
    ∃ b, hexDecode s = some b ∧ b.length = 32 := by
  obtain ⟨hlen, hall⟩ := Bool.and_eq_true_iff.mp h
  have hdigits : ∀ c ∈ s, isAsciiHexdigit c = true := List.all_eq_true.mp hall
  have hascii : ∀ c ∈ s, c.toNat < 128 := by
    intro c hc
    have hd := hdigits c hc
    unfold isAsciiHexdigit at hd
    simp only [Bool.or_eq_true, Bool.and_eq_true, decide_eq_true_eq] at hd
    omega
  refine exists_hexDecode (n := 32) ?_ hdigits
  rw [← byteLen_of_ascii hascii]
  exact eq_of_beq hlen

theorem ofBeBytes_concat (b : Bytes) (x : UInt8) :
    ofBeBytes (b ++ [x]) = ofBeBytes b * 256 + x.toNat := by
  simp [ofBeBytes, List.foldl_append]

/-- Big-endian bytes read as a number and written again. -/
theorem beBytes_ofBeBytes : ∀ {n : Nat} {b : Bytes}, b.length = n →
    ofBeBytes b < 256 ^ n ∧ beBytes n (ofBeBytes b) = b
  | 0, b, h => by
    rw [List.length_eq_zero_iff.mp h]
    exact ⟨by decide, rfl⟩
  | n + 1, b, h => by
    have hne : b ≠ [] := List.ne_nil_of_length_eq_add_one h
    have hinit : b.dropLast.length = n := by rw [List.length_dropLast, h, Nat.add_sub_cancel]
    obtain ⟨hlt, hbytes⟩ := beBytes_ofBeBytes hinit
    have hx : (b.getLast hne).toNat < 256 := (b.getLast hne).toNat_lt
    have hval : ofBeBytes b = ofBeBytes b.dropLast * 256 + (b.getLast hne).toNat := by
      rw [← ofBeBytes_concat, List.dropLast_append_getLast hne]
    have hdiv : ofBeBytes b / 256 = ofBeBytes b.dropLast := by omega
    have hmod : ofBeBytes b % 256 = (b.getLast hne).toNat := by omega
    refine ⟨by rw [Nat.pow_succ]; omega, ?_⟩
    rw [beBytes_succ, hdiv, hmod, hbytes, UInt8.ofNat_toNat, List.dropLast_append_getLast hne]

end TetCore.Lib
