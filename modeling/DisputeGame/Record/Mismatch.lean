import DisputeGame.Claim.Value
import DisputeGame.Json.Fault
import DisputeGame.Json.Value
import DisputeGame.Text.Quoted
import DisputeGame.Tree.Error

/-!
Why a JSON text is no record of the game. A text that is not JSON has no message of
its own, and neither has a float in the place of something else, whose digits are
not kept. All other causes have one.
-/

namespace DisputeGame.Record

/-- What a reading wants to find. -/
inductive Wanted
  | depth
  | slot
  | position
  | value
  | claimData
  | claimPair
  | claim
  | claims
  deriving DecidableEq, Repr

namespace Wanted

def text : Wanted → String
  | depth => "u64"
  | slot => "usize"
  | position => "a generalized index as an unsigned integer or a decimal/hex string"
  | value => "a (both 0x-prefixed or not) hex string or byte array containing 32 bytes"
  | claimData => "struct ClaimData"
  | claimPair => "struct ClaimData with 2 elements"
  | claim => "struct Claim"
  | claims => "a sequence"

end Wanted

/-- The parts of what is claimed. -/
inductive DataField
  | value
  | position
  deriving DecidableEq, Repr

/-- The named parts of a claim. -/
inductive Field
  | data (field : DataField)
  | contractIndex
  | parentIndex
  deriving DecidableEq, Repr

namespace Field

def name : Field → String
  | data .value => "value"
  | data .position => "position"
  | contractIndex => "contract_index"
  | parentIndex => "parent_index"

def ofKey? (key : String) : Option Field :=
  [data .value, data .position, contractIndex, parentIndex].find? fun f => f.name = key

end Field

/-- The field of a key that says what is claimed or where. -/
def DataField.ofKey? (key : String) : Option DataField :=
  match Field.ofKey? key with
  | some (.data field) => some field
  | _ => none

inductive Mismatch
  | fault (fault : Json.Fault)
  | wrongType (found : Shape) (wanted : Wanted)
  /-- An integer below zero where a count is wanted. -/
  | negative (n : Int) (wanted : Wanted)
  | wrongLength (length : Nat) (wanted : Wanted)
  | badDigit (byte : UInt8) (offset : Nat)
  | badPosition (why : TreeError)
  | missing (field : Field)
  | duplicate (field : Field)
  deriving DecidableEq, Repr

instance : Json.OfFault Mismatch := ⟨Mismatch.fault⟩

/-- Floats have no description. -/
def describe? : Shape → Option String
  | .scalar .null => some "null"
  | .scalar (.bool b) => some s!"boolean `{b}`"
  | .scalar (.int n) => some s!"integer `{n}`"
  | .scalar .float => none
  | .scalar (.text s) => some s!"string {Text.Quoted.quote s}"
  | .array => some "sequence"
  | .object => some "map"

namespace Mismatch

def message? : Mismatch → Option String
  | fault _ => none
  | wrongType found wanted =>
    (describe? found).map fun what => s!"invalid type: {what}, expected {wanted.text}"
  | negative n wanted => some s!"invalid value: integer `{n}`, expected {wanted.text}"
  | wrongLength length wanted => some s!"invalid length {length}, expected {wanted.text}"
  | badDigit byte offset =>
    some s!"invalid hex character: {Char.ofNat byte.toNat}, at {offset}"
  | badPosition why => some why.message
  | missing field => some s!"missing field `{field.name}`"
  | duplicate field => some s!"duplicate field `{field.name}`"

end Mismatch

end DisputeGame.Record
