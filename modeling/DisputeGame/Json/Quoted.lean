import DisputeGame.Json.Fault
import DisputeGame.Text.Numeral
import DisputeGame.Text.Utf8

/-!
Strings of JSON, read from behind the opening quote. An escape gives a character by
a letter or by the four hexadecimal digits of a UTF-16 unit; a character outside the
basic plane takes two such escapes in a row, a leading and a trailing surrogate. A
string that is passed over may hold surrogates without their partners.
-/

namespace DisputeGame.Json

/-- What a reading is for: the value, or only the place where it ends. -/
inductive Purpose
  | keep
  | skip
  deriving DecidableEq, Repr

def isLeading (unit : Nat) : Bool := 0xD800 ≤ unit && unit < 0xDC00

def isTrailing (unit : Nat) : Bool := 0xDC00 ≤ unit && unit < 0xE000

def joinSurrogates (leading trailing : Nat) : Char :=
  Char.ofNat (0x10000 + (leading - 0xD800) * 0x400 + (trailing - 0xDC00))

/-- The UTF-16 unit of four hexadecimal digits. -/
def unit? (a b c d : Char) : Option Nat := do
  let digits ← [a, b, c, d].mapM (Text.Numeral.digit? 16)
  return digits.foldl (fun unit digit => unit * 16 + digit) 0

def unescape? : Char → Option Char
  | '"' => some '"'
  | '\\' => some '\\'
  | '/' => some '/'
  | 'b' => some '\x08'
  | 'f' => some '\x0c'
  | 'n' => some '\n'
  | 'r' => some '\r'
  | 't' => some '\t'
  | _ => none

/-- The fault of an escape with fewer than four characters after it: they may still be the
four bytes that the digits would take. -/
def shortUnit (rest : List Char) : Fault :=
  if Text.Utf8.byteLength rest < 4 then .truncated else .malformed

/-- Reads on with a leading surrogate that waits for its partner, or with none. -/
def readTextFrom (purpose : Purpose) :
    Option Nat → List Char → Except Fault (List Char × List Char)
  | _, [] => .error .truncated
  | waiting, '"' :: rest => if waiting.isSome then .error .malformed else .ok ([], rest)
  | _, ['\\'] => .error .truncated
  | waiting, '\\' :: 'u' :: a :: b :: c :: d :: rest =>
    match unit? a b c d, purpose, waiting with
    | none, _, _ => .error .malformed
    | some _, .skip, _ => readTextFrom purpose none rest
    | some unit, .keep, none =>
      if isLeading unit then readTextFrom purpose (some unit) rest
      else if isTrailing unit then .error .malformed
      else (readTextFrom purpose none rest).map fun (s, rest) => (Char.ofNat unit :: s, rest)
    | some unit, .keep, some leading =>
      if isTrailing unit then
        (readTextFrom purpose none rest).map fun (s, rest) =>
          (joinSurrogates leading unit :: s, rest)
      else .error .malformed
  | _, '\\' :: 'u' :: rest => .error (shortUnit rest)
  | waiting, '\\' :: c :: rest =>
    match waiting, unescape? c with
    | none, some c => (readTextFrom purpose none rest).map fun (s, rest) => (c :: s, rest)
    | _, _ => .error .malformed
  | waiting, c :: rest =>
    if waiting.isSome || c.toNat < 0x20 then .error .malformed
    else (readTextFrom purpose none rest).map fun (s, rest) => (c :: s, rest)

def readText (purpose : Purpose) (s : List Char) : Except Fault (String × List Char) :=
  (readTextFrom purpose none s).map fun (s, rest) => (String.ofList s, rest)

end DisputeGame.Json
