import TetCore.Lib.Encoding

/-!
# Reading UTF-8

`String::from_utf8` and a decoder that refuses: the text of a byte string, if it is the encoding of one.

* `utf8Decode_utf8`: the encoding of a text is read as that text.
-/

namespace TetCore.Lib

/-- The text of well-formed bytes. -/
def utf8Decode (b : Bytes) : Option Str := (ByteArray.utf8Decode? b.toByteArray).map Array.toList

theorem utf8Encode_eq (s : Str) : s.utf8Encode = (utf8 s).toByteArray := rfl

theorem utf8Decode_utf8 (s : Str) : utf8Decode (utf8 s) = some s := by
  unfold utf8Decode
  rw [← utf8Encode_eq, List.utf8Decode?_utf8Encode]
  rfl

end TetCore.Lib
