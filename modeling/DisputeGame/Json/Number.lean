import DisputeGame.Json.Fault
import DisputeGame.Json.Value
import DisputeGame.Text.Numeral

/-!
Numbers of JSON. A literal without point and exponent that fits in a word is an
integer. Any other is a float, and it has to stay within the range of doubles: its
leading digits are gathered as far as a word holds them, the power of ten that is
left over is applied by one multiplication, and the product must not be infinite.
-/

namespace DisputeGame.Json

open Text

structure NumberLiteral where
  negative : Bool
  whole : List Char
  fraction : Option (List Char)
  exponent : Option Int
  deriving DecidableEq, Repr

/-- At least one digit. -/
def readDigits (s : List Char) : Except Fault (List Char × List Char) :=
  match s.takeWhile Char.isDigit with
  | [] => stopAt s
  | digits => .ok (digits, s.dropWhile Char.isDigit)

/-- A zero stands alone before the point. -/
def readWhole (s : List Char) : Except Fault (List Char × List Char) :=
  match s with
  | '0' :: c :: _ => if c.isDigit then stopAt s else readDigits s
  | _ => readDigits s

def readFraction : List Char → Except Fault (Option (List Char) × List Char)
  | '.' :: rest => do
    let (digits, rest) ← readDigits rest
    return (some digits, rest)
  | s => .ok (none, s)

/-- The number that decimal digits spell. -/
def valueOf (digits : List Char) : Nat := Nat.ofDigitChars 10 digits 0

def readExponent : List Char → Except Fault (Option Int × List Char)
  | [] => .ok (none, [])
  | c :: rest =>
    if c = 'e' || c = 'E' then
      match rest with
      | '-' :: rest => do
        let (digits, rest) ← readDigits rest
        return (some (-valueOf digits), rest)
      | '+' :: rest => do
        let (digits, rest) ← readDigits rest
        return (some (valueOf digits), rest)
      | _ => do
        let (digits, rest) ← readDigits rest
        return (some (valueOf digits), rest)
    else .ok (none, c :: rest)

def readUnsigned (negative : Bool) (s : List Char) : Except Fault (NumberLiteral × List Char) := do
  let (whole, rest) ← readWhole s
  let (fraction, rest) ← readFraction rest
  let (exponent, rest) ← readExponent rest
  return (⟨negative, whole, fraction, exponent⟩, rest)

def readLiteral : List Char → Except Fault (NumberLiteral × List Char)
  | '-' :: rest => readUnsigned true rest
  | s => readUnsigned false s

/-- Appends digits to a number while it stays below the bound of a word, and returns the
number and the digits that are left. -/
def gather : Nat → List Char → Nat × List Char
  | n, [] => (n, [])
  | n, c :: rest =>
    let next := n * 10 + valueOf [c]
    if next < Numeral.wordLimit then gather next rest else (n, c :: rest)

/-- The nearest number of 53 significant bits; of two nearest ones, the one with an even
last bit. -/
def roundSignificand (n : Nat) : Nat :=
  let dropped := n.log2 + 1 - 53
  let unit := 1 <<< dropped
  let quotient := n / unit
  let twice := 2 * (n % unit)
  if twice < unit || (twice = unit && quotient % 2 = 0) then quotient * unit
  else (quotient + 1) * unit

/-- Half a unit above the largest double: products from here on are infinite. -/
def infinityBound : Nat := (1 <<< 1024) - (1 <<< 970)

/-- The largest power of ten that is applied at once. -/
def maxPower : Nat := 308

def isInfinite (significand : Nat) (power : Int) : Bool :=
  match power with
  | .ofNat e =>
    significand ≠ 0 &&
      (maxPower < e ||
        infinityBound ≤ roundSignificand significand * roundSignificand (Nat.pow 10 e))
  | .negSucc _ => false

namespace NumberLiteral

def isInteger (l : NumberLiteral) : Bool := l.fraction.isNone && l.exponent.isNone

def isOutOfRange (l : NumberLiteral) : Bool :=
  let fraction := l.fraction.getD []
  let (significand, wholeLeft) := gather 0 l.whole
  let (significand, fractionLeft) := gather significand fraction
  let placesUsed := fraction.length - fractionLeft.length
  isInfinite significand ((wholeLeft.length : Int) - placesUsed + l.exponent.getD 0)

def scalar (l : NumberLiteral) : Scalar :=
  let n := valueOf l.whole
  if !l.isInteger then .float
  else if l.negative then
    if 0 < n && n ≤ Numeral.wordLimit / 2 then .int (-n) else .float
  else if n < Numeral.wordLimit then .int n
  else .float

end NumberLiteral

def readNumber (s : List Char) : Except Fault (Scalar × List Char) := do
  let (literal, rest) ← readLiteral s
  if literal.isOutOfRange then .error .malformed else return (literal.scalar, rest)

/-- Passes a number over. Its range does not matter, and a text that ends within it is
malformed. -/
def skipNumber (s : List Char) : Except Fault (Scalar × List Char) :=
  match readLiteral s with
  | .ok (literal, rest) => .ok (literal.scalar, rest)
  | .error _ => .error .malformed

end DisputeGame.Json
