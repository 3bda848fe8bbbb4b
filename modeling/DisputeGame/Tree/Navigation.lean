import DisputeGame.Tree.Position

/-!
Steps between positions. A step down adds a bit to the index, a step up drops it.
An attack on a position is its left child. A defense is the left child of the
node to its right under the same parent, so it exists below the root only.
-/

namespace DisputeGame

/-- The two answers to a claim. -/
inductive Move
  | attack
  | defend
  deriving DecidableEq, Repr

namespace Move

def ofIsAttack (isAttack : Bool) : Move := if isAttack then attack else defend

end Move

namespace Position

def leftChild (p : Position) : Except TreeError Position := do
  let depth ← Depth.below p.depth
  return ⟨depth, p.index <<< 1⟩

def rightChild (p : Position) : Except TreeError Position := do
  let depth ← Depth.below p.depth
  return ⟨depth, p.index <<< 1 ||| 1⟩

def parent (p : Position) : Except TreeError Position := do
  let depth ← Depth.above p.depth
  return ⟨depth, p.index >>> 1⟩

def attack (p : Position) : Except TreeError Position := p.leftChild

def defend (p : Position) : Except TreeError Position := do
  let parent ← p.parent
  let sibling ← parent.rightChild
  sibling.leftChild

def play (p : Position) : Move → Except TreeError Position
  | .attack => p.attack
  | .defend => p.defend

/-- Plays a line of moves, one after the other. -/
def playAll (p : Position) : List Move → Except TreeError Position
  | [] => .ok p
  | m :: rest => do
    let next ← p.play m
    next.playAll rest

/-- The neighbour to the right; the rightmost node of a depth has none. -/
def moveRight (p : Position) : Except TreeError Position := make p.depth (p.index + 1)

/-- Whether the parent of `p` would have another index than `q`; depths are not compared. -/
def rightOf (p q : Position) : Bool := p.index >>> 1 != q.index

end Position

end DisputeGame
