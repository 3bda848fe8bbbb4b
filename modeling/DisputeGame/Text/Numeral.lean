/-!
Numerals in base ten and base sixteen. A reading takes one leading plus sign
off and skips underscores between the digits, so one number has many spellings.
Counts given on a command line follow a narrower rule: digits only, below a bound.
-/

namespace DisputeGame.Text.Numeral

/-- The value of a digit of `base`; letters stand for ten to fifteen in either case. -/
def digit? (base : Nat) (c : Char) : Option Nat :=
  let value :=
    if '0' ≤ c ∧ c ≤ '9' then some (c.toNat - '0'.toNat)
    else if 'a' ≤ c ∧ c ≤ 'f' then some (c.toNat - 'a'.toNat + 10)
    else if 'A' ≤ c ∧ c ≤ 'F' then some (c.toNat - 'A'.toNat + 10)
    else none
  value.filter (· < base)

/-- Reads digits behind a number that is already there; an underscore adds nothing. -/
def readFrom? (base : Nat) : Nat → List Char → Option Nat
  | value, [] => some value
  | value, c :: rest =>
    if c = '_' then readFrom? base value rest
    else (digit? base c).bind fun d => readFrom? base (value * base + d) rest

/-- One plus sign may lead the digits, but a doubled one stays and spoils them. -/
def dropPlus : List Char → List Char
  | '+' :: '+' :: rest => '+' :: '+' :: rest
  | '+' :: rest => rest
  | s => s

/-- A number needs a digit at its front: nothing and a leading underscore are no numbers. -/
def read? (base : Nat) (s : List Char) : Option Nat :=
  match dropPlus s with
  | [] => none
  | '_' :: _ => none
  | body => readFrom? base 0 body

/-- The first number that a 64-bit word cannot hold. -/
def wordLimit : Nat := 1 <<< 64

/-- A plain decimal count of at most 64 bits, without separators. -/
def readCount? (s : List Char) : Option Nat :=
  match dropPlus s with
  | [] => none
  | body =>
    if body.all Char.isDigit then (readFrom? 10 0 body).filter (· < wordLimit) else none

/-- The decimal digits of a number, none of them a leading zero unless the number is zero. -/
def decimal (n : Nat) : List Char := Nat.toDigits 10 n

/-- The text of a number set against the right edge of a column. -/
def alignRight (width : Nat) (n : Nat) : String := String.ofList ((decimal n).leftpad width ' ')

end DisputeGame.Text.Numeral
