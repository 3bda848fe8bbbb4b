import DisputeGame.Record.Mismatch
import DisputeGame.Tree.Spelling

/-!
The parts of a record. A part is told from the shape of its value alone: containers
are never parts, and scalars are read before they are judged.
-/

namespace DisputeGame.Record

def countOf (wanted : Wanted) : Shape → Except Mismatch Nat
  | .scalar (.int (.ofNat n)) => .ok n
  | .scalar (.int n) => .error (.negative n wanted)
  | found => .error (.wrongType found wanted)

/-- A position is its generalized index, as an integer or in writing. -/
def positionOf : Shape → Except Mismatch Position
  | .scalar (.int (.ofNat n)) => (Position.ofGindex n).mapError .badPosition
  | .scalar (.text s) => (Position.parse s).mapError .badPosition
  | found => .error (.wrongType found .position)

def Mismatch.ofValueError : ClaimValue.ReadError → Mismatch
  | .wrongLength bytes => .wrongLength bytes .value
  | .badDigit byte offset => .badDigit byte offset

def valueOf : Shape → Except Mismatch ClaimValue
  | .scalar (.text s) => (ClaimValue.read s.toList).mapError .ofValueError
  | found => .error (.wrongType found .value)

end DisputeGame.Record
