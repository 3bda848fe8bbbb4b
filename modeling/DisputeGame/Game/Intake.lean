import DisputeGame.Inspect.Event
import Std.Data.HashMap

/-!
Taking a list of claims in, whatever their indices are. The indices of the list are
names only: every claim gets the next slot of the game, and the name of the claim it
answers is replaced by the slot of the latest admitted claim of that name. A claim
that repeats an earlier one, answers one that was not admitted or is refused by the
game is passed over; the others do not suffer.
-/

namespace DisputeGame

/-- What became of a claim of the list. -/
inductive Verdict
  | duplicate
  | orphan
  | refused (why : Refusal)
  | admitted (slot : Nat)
  deriving DecidableEq, Repr

/-- A claim as the list gave it, with its verdict. -/
structure Ruling where
  claim : Claim
  verdict : Verdict
  deriving DecidableEq, Repr

/-- The game so far, the slot that each name stands for, and what was noted. -/
structure Intake where
  game : Game
  slots : Std.HashMap Nat Nat
  log : List Inspect.Event

namespace Intake

open Inspect

def start (maxDepth : Nat) : Intake := ⟨Game.empty maxDepth, ∅, []⟩

/-- The claim with the slot of its parent for its name. A claim at the root has no parent
and keeps what it says. -/
def resolve? (s : Intake) (c : Claim) : Option Claim :=
  if c.isRoot then some c
  else s.slots[c.parentIndex]?.map fun slot => { c with parentIndex := slot }

def offer (s : Intake) (c : Claim) : Verdict × Intake :=
  if s.game.isDuplicate c then (.duplicate, s)
  else
    match s.resolve? c with
    | none => (.orphan, s)
    | some resolved =>
      let slot := s.game.size
      let (answer, left) := s.game.call { resolved with contractIndex := slot }
      let log := s.log ++ left.notes.map Event.ofNote
      match answer with
      | .error why =>
        (.refused why, ⟨left.value, s.slots, log ++ [Event.rejected c.contractIndex why]⟩)
      | .ok () => (.admitted slot, ⟨left.value, s.slots.insert c.contractIndex slot, log⟩)

/-- Offers the claims in order. -/
def run : Intake → List Claim → List Ruling × Intake
  | s, [] => ([], s)
  | s, c :: rest =>
    let (verdict, next) := s.offer c
    let (rulings, last) := next.run rest
    (⟨c, verdict⟩ :: rulings, last)

end Intake

end DisputeGame
