import DisputeGame.Claim.Basic
import Std.Data.HashSet

/-!
The claim set of one game. Claims are only ever appended, each to the next free
slot; a claim that lies too deep, names another slot, repeats an earlier one or
answers a claim that is not there is refused. A call works on the game it is made
on, so it leaves a game behind whatever its answer is.
-/

namespace DisputeGame

/-- Why a claim is not taken into the set. -/
inductive Refusal
  | exceedsMaxDepth (depth maxDepth : Nat)
  | unexpectedIndex (expected got : Nat)
  | duplicate (gindex : Nat)
  | missingParent (index : Nat)
  deriving DecidableEq, Repr

namespace Refusal

def message : Refusal → String
  | exceedsMaxDepth depth maxDepth =>
    s!"claim depth {depth} exceeds the max game depth {maxDepth}"
  | unexpectedIndex expected got => s!"expected claim index {expected}, got {got}"
  | duplicate gindex => s!"duplicate claim at gindex {gindex}"
  | missingParent index => s!"parent claim {index} not found"

end Refusal

structure Game where
  maxDepth : Nat
  /-- The claims by their slots. -/
  claims : Array Claim
  /-- What the claims say and where, for looking up repetitions. -/
  seen : Std.HashSet ClaimData

namespace Game

def empty (maxDepth : Nat) : Game := ⟨maxDepth, #[], ∅⟩

def size (g : Game) : Nat := g.claims.size

def isEmpty (g : Game) : Bool := g.claims.isEmpty

def get? (g : Game) (slot : Nat) : Option Claim := g.claims[slot]?

def isDuplicate (g : Game) (c : Claim) : Bool := g.seen.contains c.toClaimData

/-- The claim that `c` answers. -/
def parent? (g : Game) (c : Claim) : Option Claim :=
  if c.isRoot then none else g.get? c.parentIndex

/-- Tells whether a claim defends the one it answers, which may have to be looked up. -/
def testParent (g : Game) (c : Claim) : Noted Bool := c.testParent (g.parent? c)

def defendsParent (g : Game) (c : Claim) : Bool := (g.testParent c).value

theorem defendsParent_eq (g : Game) (c : Claim) :
    g.defendsParent c = c.defendsParent (g.parent? c) := rfl

def insertSeen (g : Game) (d : ClaimData) : Game := { g with seen := g.seen.insert d }

def pushClaim (g : Game) (c : Claim) : Game := { g with claims := g.claims.push c }

/-- Takes a claim without looking at it. -/
def append (g : Game) (c : Claim) : Game := (g.insertSeen c.toClaimData).pushClaim c

/-- Enters a claim into the game at hand. A refusal ends the call there and then, with whatever
has been made of the game by that time. -/
def enter (c : Claim) : ExceptT Refusal (StateM (Noted Game)) Unit := do
  let g := (← get).value
  if g.maxDepth < c.position.depth then
    throw (.exceedsMaxDepth c.position.depth g.maxDepth)
  else if c.contractIndex ≠ g.size then
    throw (.unexpectedIndex g.size c.contractIndex)
  else if g.isDuplicate c then
    throw (.duplicate c.position.gindex)
  else if !c.isRoot && g.size ≤ c.parentIndex then
    throw (.missingParent c.parentIndex)
  else
    modify (·.note (.admitting c.contractIndex c.position))
    modify (·.map (·.insertSeen c.toClaimData))
    modify (·.map (·.pushClaim c))

/-- A call on a game: its answer, and the game that it leaves behind, refused or not, with
what was noted. -/
def call (g : Game) (c : Claim) : Except Refusal Unit × Noted Game :=
  (enter c).run.run (.silent g)

/-- The game with the claim in it. Of a call that is refused only the reason is kept. -/
def put (g : Game) (c : Claim) : Except Refusal Game :=
  let (answer, left) := g.call c
  answer.map fun _ => left.value

/-- Puts the claims in order; the first refusal ends it. -/
def ofClaims (maxDepth : Nat) (claims : List Claim) : Except Refusal Game :=
  claims.foldlM put (empty maxDepth)

end Game

end DisputeGame
