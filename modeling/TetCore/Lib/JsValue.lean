import TetCore.Lib.Json

/-!
# JavaScript values

What the page's scripts compute with: the values `JSON.parse` makes, read as JavaScript reads them, and
the `String` methods that differ from Rust's. A number is the text JavaScript shows it as, which tells
numbers apart exactly as `===` does.
-/

namespace TetCore.Lib

/-- A value parsed from JSON, or `undefined`. -/
inductive JsValue where
  | undefined
  | null
  | bool (b : Bool)
  | num (shown : Str)
  | str (s : Str)
  | arr (items : List JsValue)
  | obj (members : List (Str × JsValue))

/-- A JavaScript blank: white space or a line terminator. -/
def isJsBlank (c : Char) : Bool :=
  let n := c.toNat
  (9 ≤ n && n ≤ 13) || n == 32 || n == 0xA0 || n == 0x1680 || (0x2000 ≤ n && n ≤ 0x200A) ||
    n == 0x2028 || n == 0x2029 || n == 0x202F || n == 0x205F || n == 0x3000 || n == 0xFEFF

/-- `String.prototype.trim`. -/
def jsTrim (s : Str) : Str :=
  ((s.dropWhile isJsBlank).reverse.dropWhile isJsBlank).reverse

namespace JsValue

/-- `n` as a value. -/
def ofNat (n : Nat) : JsValue := .num (Json.decimal n)

/-- `v == null`. -/
def isNullish : JsValue → Bool
  | .undefined | .null => true
  | _ => false

/-- Whether `v` counts as true. -/
def truthy : JsValue → Bool
  | .undefined | .null => false
  | .bool b => b
  | .num shown => shown != ['0']
  | .str s => !s.isEmpty
  | .arr _ | .obj _ => true

/-- `v?.name`. -/
def get (v : JsValue) (name : Str) : JsValue :=
  match v with
  | .obj members => ((members.find? fun m => m.1 == name).map Prod.snd).getD .undefined
  | _ => .undefined

/-- `v.name`: nothing can be read of `undefined` and `null`. -/
def member (v : JsValue) (name : Str) : Except Str JsValue :=
  if v.isNullish then .error "Cannot read properties".toList else .ok (v.get name)

/-- `v === w`, of values that were parsed apart. -/
def same : JsValue → JsValue → Bool
  | .undefined, .undefined => true
  | .null, .null => true
  | .bool a, .bool b => a == b
  | .num a, .num b => a == b
  | .str a, .str b => a == b
  | _, _ => false

/-- `v` when it is a string. -/
def asStr : JsValue → Option Str
  | .str s => some s
  | _ => none

/-- `v` when it is an array. -/
def asArray : JsValue → Option (List JsValue)
  | .arr items => some items
  | _ => none

/-- Whether `v` is an object and no array. -/
def isObject : JsValue → Bool
  | .obj _ => true
  | _ => false

/-- `Object.keys(v)`, of an object. -/
def keys : JsValue → List Str
  | .obj members => members.map Prod.fst
  | _ => []

/-- `v?.length`; of a string it is in UTF-16 units. -/
def lengthOf : JsValue → JsValue
  | .arr items => ofNat items.length
  | .str s => ofNat (s.map fun c => if c.toNat < 0x10000 then 1 else 2).sum
  | v => v.get "length".toList

/-- `v ?? w`. -/
def orElse (v w : JsValue) : JsValue := if v.isNullish then w else v

mutual

/-- `JSON.stringify(v)` of a parsed value, or of `undefined` as a template shows it. -/
def stringify : JsValue → Str
  | .undefined => "undefined".toList
  | .null => "null".toList
  | .bool b => Json.bool b
  | .num shown => shown
  | .str s => Json.quote s
  | .arr items => '[' :: (stringifyItems items ++ [']'])
  | .obj members => '\x7b' :: (stringifyMembers members ++ ['\x7d'])

/-- The elements of an array, with commas between them. -/
def stringifyItems : List JsValue → Str
  | [] => []
  | [v] => v.stringify
  | v :: w :: items => v.stringify ++ ',' :: stringifyItems (w :: items)

/-- The members of an object, with commas between them. -/
def stringifyMembers : List (Str × JsValue) → Str
  | [] => []
  | [m] => stringifyMember m
  | m :: n :: members => stringifyMember m ++ ',' :: stringifyMembers (n :: members)

/-- A member of an object. -/
def stringifyMember : Str × JsValue → Str
  | (name, v) => Json.quote name ++ ':' :: v.stringify

end

mutual

/-- `String(v)`; nothing for an object that hides `toString`, of which it throws. -/
def toText : JsValue → Option Str
  | .undefined => some "undefined".toList
  | .null => some "null".toList
  | .bool b => some (Json.bool b)
  | .num shown => some shown
  | .str s => some s
  | .arr items => itemsText items
  | .obj members =>
    if members.any fun m => m.1 == "toString".toList then none else some "[object Object]".toList

/-- `Array.prototype.join(",")`. -/
def itemsText : List JsValue → Option Str
  | [] => some []
  | [v] => if v.isNullish then some [] else v.toText
  | v :: w :: items => do
    let head ← if v.isNullish then some [] else v.toText
    let rest ← itemsText (w :: items)
    return head ++ ',' :: rest

end

theorem get_cons_same (name : Str) (v : JsValue) (ms : List (Str × JsValue)) :
    (obj ((name, v) :: ms)).get name = v := by
  unfold get
  simp only
  rw [List.find?_cons_of_pos (by rw [beq_self_eq_true])]
  rfl

theorem get_cons_ne {name other : Str} (h : name ≠ other) (v : JsValue) (ms : List (Str × JsValue)) :
    (obj ((name, v) :: ms)).get other = (obj ms).get other := by
  unfold get
  simp only
  rw [List.find?_cons_of_neg (by simpa using h)]

/-- A member of an object whose names are apart, by its position. -/
theorem get_of_position {ms : List (Str × JsValue)} {name : Str} {v : JsValue} (i : Nat)
    (hnames : (ms.map Prod.fst).Nodup) (h : ms[i]? = some (name, v)) : (obj ms).get name = v := by
  induction ms generalizing i with
  | nil => cases h
  | cons m ms ih =>
    rw [List.map_cons, List.nodup_cons] at hnames
    cases i with
    | zero =>
      obtain rfl := Option.some.inj h
      exact get_cons_same name v ms
    | succ i =>
      rw [List.getElem?_cons_succ] at h
      have hne : m.1 ≠ name := by
        intro heq
        have hmem : name ∈ ms.map Prod.fst := List.mem_map_of_mem (f := Prod.fst) (List.mem_of_getElem? h)
        exact hnames.1 (heq ▸ hmem)
      exact (get_cons_ne hne m.2 ms).trans (ih i hnames.2 h)

theorem exists_obj_of_get {v : JsValue} (name : Str) (h : v.get name ≠ .undefined) :
    v.isObject = true := by
  cases v with
  | obj members => rfl
  | undefined | null | bool | num | str | arr => exact absurd rfl h

end JsValue

/-- What the scripts use of the JavaScript runtime as it is. The case mappings are here for the texts
with other characters than ASCII and blanks, the decimal text for numbers above `2 ^ 53`. -/
structure JsRuntime where
  lowerOther : Str → Str
  upperOther : Str → Str
  /-- `JSON.parse`; nothing for a text it throws on. -/
  parse : Str → Option JsValue
  showBig : Nat → Str
  /-- `match(/../g)` and `parseInt(_, 16)`, of a text that is not of pairs of hex digits. -/
  hexOther : Str → Bytes

/-- A runtime for texts of ASCII. -/
def JsRuntime.ascii : JsRuntime :=
  ⟨toAsciiLowercase, toAsciiUppercase, fun _ => none, Json.decimal, fun _ => []⟩

/-- A character that the case mappings treat as ASCII does. -/
def isCasePlain (c : Char) : Bool := c.toNat < 128 || isWhitespace c || isJsBlank c

namespace JsRuntime

variable (J : JsRuntime)

/-- `String.prototype.toLowerCase`. -/
def toLowerCase (s : Str) : Str :=
  if s.all isCasePlain then toAsciiLowercase s else J.lowerOther s

/-- `String.prototype.toUpperCase`. -/
def toUpperCase (s : Str) : Str :=
  if s.all isCasePlain then toAsciiUppercase s else J.upperOther s

/-- An integer in a template string. -/
def showNumber (n : Nat) : Str := if n ≤ 2 ^ 53 then Json.decimal n else J.showBig n

/-- The bytes of a text of pairs of hex digits. -/
def hexBytes (h : Str) : Bytes := (hexDecode h).getD (J.hexOther h)

variable {J}

theorem toLowerCase_of_plain {s : Str} (h : ∀ c ∈ s, isCasePlain c = true) :
    J.toLowerCase s = toAsciiLowercase s :=
  if_pos (List.all_eq_true.mpr h)

theorem showNumber_of_le {n : Nat} (h : n ≤ 2 ^ 53) : J.showNumber n = Json.decimal n := if_pos h

end JsRuntime

theorem isCasePlain_of_hexdigit {c : Char} (h : isAsciiHexdigit c = true) : isCasePlain c = true := by
  have hascii : c.toNat < 128 := by
    unfold isAsciiHexdigit at h
    simp at h
    omega
  unfold isCasePlain
  simp [hascii]

theorem isCasePlain_of_lower {c : Char} (h : isAsciiHexdigit (asciiLower c) = true) :
    isCasePlain c = true := by
  have hascii : c.toNat < 128 := by
    rcases asciiLower_cases c with heq | ⟨-, hle, -⟩
    · rw [heq] at h
      unfold isAsciiHexdigit at h
      simp at h
      omega
    · omega
  unfold isCasePlain
  simp [hascii]

/-- An id that is 64 hex digits in lower case is lowercased as ASCII. -/
theorem toLowerCase_of_hex {J : JsRuntime} {s : Str} (h : isHex64 (toAsciiLowercase s) = true) :
    J.toLowerCase s = toAsciiLowercase s := by
  simp only [isHex64, Bool.and_eq_true, List.all_eq_true] at h
  refine JsRuntime.toLowerCase_of_plain ?_
  intro c hc
  exact isCasePlain_of_lower (h.2 _ (List.mem_map_of_mem hc))

end TetCore.Lib
