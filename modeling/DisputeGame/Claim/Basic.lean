import DisputeGame.Claim.Value
import DisputeGame.Tree.Subtree
import DisputeGame.Tree.Navigation

/-!
Claims about a trace and how two of them relate. A claim repeats another if both
make the same commitment at the same place. A claim defends another if it sits two
levels below it and hangs off its right child.
-/

namespace DisputeGame

/-- What is claimed, and where. -/
structure ClaimData where
  value : ClaimValue
  position : Position
  deriving DecidableEq, Hashable, Repr, Inhabited

/-- A claim as it is recorded: its own slot, and the slot of the claim it answers. The
latter says nothing for a claim at the root. -/
structure Claim extends ClaimData where
  contractIndex : Nat
  parentIndex : Nat
  deriving DecidableEq, Repr, Inhabited

namespace Claim

def isRoot (c : Claim) : Bool := c.position.isRoot

/-- Whether one of the claims makes the same commitment at the same place. -/
def isDuplicate (c : Claim) (existing : List Claim) : Bool :=
  existing.any fun other => other.toClaimData == c.toClaimData

/-- The look at a claim from another two levels above it. From elsewhere there is none. -/
def lookFrom (c parent : Claim) : Noted (Option Position) :=
  if c.position.depth = parent.position.depth + 2 then
    (c.position.reroot parent.position.depth).map Except.toOption
  else .silent none

/-- A grandchild of the root defends it unless it hangs off the left child. -/
def testDefense (c parent : Claim) : Noted Bool :=
  (c.lookFrom parent).map fun seen? => seen?.any fun p => p.rightOf ⟨1, 0⟩

/-- A claim without a parent defends nothing. -/
def testParent (c : Claim) : Option Claim → Noted Bool
  | none => .silent false
  | some parent => c.testDefense parent

def seenFrom? (c parent : Claim) : Option Position := (c.lookFrom parent).value

def defends (c parent : Claim) : Bool := (c.testDefense parent).value

def defendsParent (c : Claim) (parent? : Option Claim) : Bool := (c.testParent parent?).value

end Claim

end DisputeGame
