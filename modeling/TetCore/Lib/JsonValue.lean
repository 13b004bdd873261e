import TetCore.Lib.Json

/-!
# JSON values

`serde_json::Value` as far as it is read with `get` and the `as_` functions, and its compact text. A
number above the range of a `u64` is read back as a float, so it is a value of its own (`big`), which
no `as_` function of an unsigned integer reads.

`get_append_of_notMem` looks a member up in an object that is put together from parts.
-/

namespace TetCore.Lib

/-- `serde_json::Value`. -/
inductive JsonValue where
  | null
  | bool (b : Bool)
  /-- A number that is a `u64`. -/
  | num (n : Nat)
  /-- An unsigned number above the range of a `u64`. -/
  | big (n : Nat)
  | str (s : Str)
  | arr (items : List JsonValue)
  | obj (members : List (Str × JsonValue))

namespace JsonValue

/-- An unsigned number. -/
def ofNat (n : Nat) : JsonValue := if n ≤ u64Max then .num n else .big n

/-- `Value::get` of a member. -/
def get (v : JsonValue) (key : Str) : Option JsonValue :=
  match v with
  | .obj members => (members.find? fun m => m.1 == key).map Prod.snd
  | _ => none

/-- `Value::get` of an item. -/
def item (v : JsonValue) (i : Nat) : Option JsonValue :=
  match v with
  | .arr items => items[i]?
  | _ => none

/-- `as_u64`. -/
def asU64 : JsonValue → Option Nat
  | .num n => some n
  | _ => none

/-- `as_str`. -/
def asStr : JsonValue → Option Str
  | .str s => some s
  | _ => none

/-- `as_array`. -/
def asArray : JsonValue → Option (List JsonValue)
  | .arr items => some items
  | _ => none

mutual

/-- `serde_json::to_vec`, as text. -/
def text : JsonValue → Str
  | .null => "null".toList
  | .bool b => Json.bool b
  | .num n => Json.decimal n
  | .big n => Json.decimal n
  | .str s => Json.quote s
  | .arr [] => "[]".toList
  | .arr (v :: items) => '[' :: (v.text ++ itemsText items)
  | .obj [] => ['\x7b', '\x7d']
  | .obj ((name, v) :: members) =>
    '\x7b' :: (Json.quote name ++ ':' :: (v.text ++ membersText members))

/-- The items after the first, and the closing bracket. -/
def itemsText : List JsonValue → Str
  | [] => [']']
  | v :: items => ',' :: (v.text ++ itemsText items)

/-- The members after the first, and the closing brace. -/
def membersText : List (Str × JsonValue) → Str
  | [] => ['\x7d']
  | (name, v) :: members => ',' :: (Json.quote name ++ ':' :: (v.text ++ membersText members))

end

variable {members more : List (Str × JsonValue)} {key : Str} {v : JsonValue}

theorem get_obj (members : List (Str × JsonValue)) (key : Str) :
    (obj members).get key = (members.find? fun m => m.1 == key).map Prod.snd := rfl

/-- A member that the first part of an object does not have. -/
theorem get_append_of_notMem (h : key ∉ members.map Prod.fst) :
    (obj (members ++ more)).get key = (obj more).get key := by
  have hnone : members.find? (fun m => m.1 == key) = none := by
    rw [List.find?_eq_none]
    intro m hm heq
    exact h (List.mem_map.mpr ⟨m, hm, beq_iff_eq.mp heq⟩)
  rw [get_obj, get_obj, List.find?_append, hnone, Option.none_or]

/-- A member that the first part of an object has. -/
theorem get_append_of_get (h : (obj members).get key = some v) :
    (obj (members ++ more)).get key = some v := by
  rw [get_obj] at h ⊢
  rw [List.find?_append]
  cases hfind : members.find? (fun m => m.1 == key) with
  | none =>
    rw [hfind] at h
    cases h
  | some m =>
    rw [hfind] at h
    exact h

theorem get_obj_singleton (key : Str) (v : JsonValue) : (obj [(key, v)]).get key = some v := by
  have hfind : [(key, v)].find? (fun m => m.1 == key) = some (key, v) :=
    List.find?_cons_of_pos (beq_self_eq_true key)
  rw [get_obj, hfind]
  rfl

end JsonValue

end TetCore.Lib
