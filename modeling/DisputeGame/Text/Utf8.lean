/-!
Texts as the bytes of UTF-8, for rules that count bytes and not characters.
-/

namespace DisputeGame.Text.Utf8

/-- The number of bytes that a text takes. -/
def byteLength : List Char → Nat
  | [] => 0
  | c :: rest => c.utf8Size + byteLength rest

/-- The first byte of a character. -/
def leadByte (c : Char) : UInt8 := (String.utf8EncodeChar c).headD 0

end DisputeGame.Text.Utf8
