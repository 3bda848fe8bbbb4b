/-!
Faults of a text that is not JSON. Either something stands where nothing of its
kind may stand, or the text ends before the value does. Readings with further causes
of their own take the faults in.
-/

namespace DisputeGame.Json

inductive Fault
  | malformed
  | truncated
  deriving DecidableEq, Repr

/-- The fault of a reading that cannot go on with the rest of the text. -/
def Fault.here : List Char → Fault
  | [] => truncated
  | _ => malformed

class OfFault (E : Type) where
  ofFault : Fault → E

instance : OfFault Fault := ⟨id⟩

/-- Ends a reading at the rest of the text. -/
def stopAt {E α : Type} [OfFault E] (rest : List Char) : Except E α :=
  .error (OfFault.ofFault (Fault.here rest))

theorem stopAt_ne_ok {E α : Type} [OfFault E] {rest : List Char} {a : α} :
    (stopAt rest : Except E α) ≠ .ok a := by
  intro h
  cases h

/-- Passes the fault of an inner reading on. -/
def lift {E α : Type} [OfFault E] : Except Fault α → Except E α
  | .ok a => .ok a
  | .error f => .error (OfFault.ofFault f)

theorem lift_eq_ok {E α : Type} [OfFault E] {x : Except Fault α} {a : α} :
    (lift x : Except E α) = .ok a ↔ x = .ok a := by
  cases x with
  | ok b => simp [lift]
  | error f => simp [lift]

end DisputeGame.Json
