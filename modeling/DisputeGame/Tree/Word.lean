/-!
Unsigned words. A number goes into a word if the word has room for it, and how that is
found out differs: for the small word the number is compared with the limit, and for the
large one the bytes of the number are counted before they are put together again.
-/

namespace DisputeGame

/-- Unsigned words that a generalized index may have to fit in. -/
inductive Word
  | uint128
  | uint256
  deriving DecidableEq, Repr

namespace Word

def bits : Word → Nat
  | uint128 => 128
  | uint256 => 256

/-- The first number that the word cannot hold. -/
def limit (w : Word) : Nat := 1 <<< w.bits

def name : Word → String
  | uint128 => "u128"
  | uint256 => "U256"

/-- The last bytes of a number, so many of them and the highest first. -/
def lowBytes : Nat → Nat → List UInt8
  | 0, _ => []
  | count + 1, n => UInt8.ofNat (n >>> (8 * count)) :: lowBytes count n

/-- All bytes of a number, the highest first. Zero takes one byte, as every small number. -/
def bytes (n : Nat) : List UInt8 := lowBytes (n.log2 / 8 + 1) n

/-- The number that bytes make, the highest first. -/
def ofBytes (bytes : List UInt8) : Nat := bytes.foldl (fun n b => n * 256 + b.toNat) 0

/-- How many bytes the large word has room for. -/
def byteRoom : Nat := 32

/-- A number as a word, unless it is too large. -/
def narrow? : (w : Word) → Nat → Option (BitVec w.bits)
  | uint128, n => if n < limit uint128 then some (BitVec.ofNat (bits uint128) n) else none
  | uint256, n =>
    if byteRoom < (bytes n).length then none
    else some (BitVec.ofNat (bits uint256) (ofBytes (bytes n)))

end Word

end DisputeGame
