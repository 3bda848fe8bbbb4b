import DisputeGame.Tree.Error

/-!
Arithmetic on depths. Only depths up to a fixed limit are supported, so that a
generalized index never needs more than 65536 bits; a step past the limit or
above the root is refused and never wraps around.
-/

namespace DisputeGame.Depth

/-- The deepest level of a tree. -/
def limit : Nat := 65535

def isSupported (d : Nat) : Bool := d ≤ limit

def ensureSupported (d : Nat) : Except TreeError Nat :=
  if d ≤ limit then .ok d else .error (.overflow (.depth d))

def isRoot (d : Nat) : Bool := d = 0

def isOdd (d : Nat) : Bool := d % 2 = 1

/-- The number of nodes at a depth, which is also the generalized index of the leftmost one. -/
def width (d : Nat) : Nat := 1 <<< d

def supportedWidth (d : Nat) : Except TreeError Nat := do
  let d ← ensureSupported d
  return width d

def below (d : Nat) : Except TreeError Nat :=
  if d < limit then .ok (d + 1) else .error (.invalidNavigation .deepest)

def above : Nat → Except TreeError Nat
  | 0 => .error (.invalidNavigation .root)
  | d + 1 => .ok d

/-- How far `d` lies below `ancestor`. -/
def minus (d ancestor : Nat) : Except TreeError Nat :=
  if ancestor ≤ d then .ok (d - ancestor) else .error (.depthTooSmall ancestor d)

end DisputeGame.Depth
