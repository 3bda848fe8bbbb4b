/-!
JSON values. Integers of one 64-bit word are kept exactly; every other number is
known to be one and no more. Members of an object stay in the order of the text,
repeated keys included.
-/

namespace DisputeGame

inductive Scalar
  | null
  | bool (b : Bool)
  /-- An integer from -2^63 to 2^64 - 1. -/
  | int (n : Int)
  /-- A number that is written with a point or an exponent or fits in no word; also -0. -/
  | float
  | text (s : String)
  deriving DecidableEq, Repr

inductive Json
  | scalar (s : Scalar)
  | array (items : List Json)
  | object (members : List (String × Json))

namespace Json

mutual

def decEq : (a b : Json) → Decidable (a = b)
  | scalar s, scalar t => decidable_of_iff (s = t) (by simp)
  | array items, array others =>
    have := decEqItems items others
    decidable_of_iff (items = others) (by simp)
  | object members, object others =>
    have := decEqMembers members others
    decidable_of_iff (members = others) (by simp)
  | scalar _, array _ | scalar _, object _ | array _, scalar _ | array _, object _
  | object _, scalar _ | object _, array _ => isFalse nofun

def decEqItems : (items others : List Json) → Decidable (items = others)
  | [], [] => isTrue rfl
  | a :: items, b :: others =>
    have := decEq a b
    have := decEqItems items others
    decidable_of_iff (a = b ∧ items = others) (by simp)
  | [], _ :: _ | _ :: _, [] => isFalse nofun

def decEqMembers : (members others : List (String × Json)) → Decidable (members = others)
  | [], [] => isTrue rfl
  | (key, a) :: members, (other, b) :: others =>
    have := decEq a b
    have := decEqMembers members others
    decidable_of_iff ((key = other ∧ a = b) ∧ members = others) (by simp)
  | [], _ :: _ | _ :: _, [] => isFalse nofun

end

instance : DecidableEq Json := decEq

end Json

/-- What a value is, as far as its first token tells. -/
inductive Shape
  | scalar (s : Scalar)
  | array
  | object
  deriving DecidableEq, Repr

def Json.shape : Json → Shape
  | scalar s => .scalar s
  | array _ => .array
  | object _ => .object

end DisputeGame
