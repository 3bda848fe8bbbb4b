import DisputeGame.Text.Extending
import DisputeGame.Text.Ignorable
import DisputeGame.Text.Unprintable

/-!
Quoted texts for messages: a text stands between double quotes, and whatever
could not be told apart on a screen is escaped. Tab, return, newline and the null
character have escapes of their own; a character without a shape, one that would be
drawn onto its neighbour and one that may show as nothing are written as their code
points in braces.
-/

namespace DisputeGame.Text.Quoted

/-- Characters of plain text; the tables speak for all others. -/
def isPlain (c : Char) : Bool :=
  if c.toNat < 0x7F then 0x20 ≤ c.toNat
  else !(Unprintable.isUnprintable c || Extending.isExtending c || Ignorable.isIgnorable c)

def encodePoint (c : Char) : List Char :=
  '\\' :: 'u' :: '\x7b' :: Nat.toDigits 16 c.toNat ++ ['\x7d']

def encodeChar (c : Char) : List Char :=
  if c = '"' then ['\\', '"']
  else if c = '\\' then ['\\', '\\']
  else if c = '\t' then ['\\', 't']
  else if c = '\r' then ['\\', 'r']
  else if c = '\n' then ['\\', 'n']
  else if c = '\x00' then ['\\', '0']
  else if isPlain c then [c]
  else encodePoint c

def encode (s : List Char) : List Char := '"' :: s.flatMap encodeChar ++ ['"']

def quote (s : String) : String := String.ofList (encode s.toList)

end DisputeGame.Text.Quoted
