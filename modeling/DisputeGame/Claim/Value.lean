import DisputeGame.Text.Numeral
import DisputeGame.Text.Utf8

/-!
Claim values. A value commits to a trace by thirty-two bytes and is written as
sixty-four hexadecimal digits behind a marker. A reading may leave out the marker,
use either case and set gaps between the digits; the text has to be as long as if
there were none, so the bytes that the gaps displace are zero.
-/

namespace DisputeGame

structure ClaimValue where
  bytes : Vector UInt8 32
  deriving DecidableEq, Repr

instance : Hashable ClaimValue := ⟨fun v => hash v.bytes.toList⟩

instance : Inhabited ClaimValue := ⟨⟨Vector.replicate 32 0⟩⟩

namespace ClaimValue

open Text

inductive ReadError
  | wrongLength (bytes : Nat)
  /-- `byte` is the first one that is neither a digit nor a gap, `offset` bytes into the text. -/
  | badDigit (byte : UInt8) (offset : Nat)
  deriving DecidableEq, Repr

def isGap (c : Char) : Bool := c = ' ' || c = '\t' || c = '\r' || c = '\n'

/-- The values of the digits in a text that starts `offset` bytes into the whole. -/
def digitsFrom : Nat → List Char → Except ReadError (List Nat)
  | _, [] => .ok []
  | offset, c :: rest =>
    match Numeral.digit? 16 c with
    | some d => (digitsFrom (offset + 1) rest).map (d :: ·)
    | none =>
      if isGap c then digitsFrom (offset + 1) rest
      else .error (.badDigit (Utf8.leadByte c) offset)

/-- Two digits make a byte; a last one without a partner is dropped. -/
def pairDigits : List Nat → List UInt8
  | high :: low :: rest => UInt8.ofNat (16 * high + low) :: pairDigits rest
  | _ => []

/-- The value that starts with the given bytes and goes on with zeros. -/
def ofBytes (bytes : List UInt8) : ClaimValue := ⟨Vector.ofFn fun i => bytes.getD i 0⟩

def readFrom (offset : Nat) (body : List Char) : Except ReadError ClaimValue :=
  if Utf8.byteLength body = 64 then
    (digitsFrom offset body).map fun digits => ofBytes (pairDigits digits)
  else .error (.wrongLength (Utf8.byteLength body))

def read : List Char → Except ReadError ClaimValue
  | '0' :: 'x' :: body => readFrom 2 body
  | body => readFrom 0 body

def encodeByte (b : UInt8) : List Char :=
  [Nat.digitChar (b.toNat / 16), Nat.digitChar (b.toNat % 16)]

def encode (v : ClaimValue) : List Char := '0' :: 'x' :: v.bytes.toList.flatMap encodeByte

def display (v : ClaimValue) : String := String.ofList v.encode

end ClaimValue

end DisputeGame
