import DisputeGame.Log.Note

/-!
Subtrees and what they cover. Seen from an ancestor, a position keeps the lower
bits of its index. A position stands for the whole trace up to the rightmost leaf
below it; the index of that leaf is its trace index.
-/

namespace DisputeGame.Position

/-- The look at a position from its ancestor at the given depth: its place inside the subtree
of the ancestor. An index that has no bits above the subtree is kept as it is. -/
def reroot (p : Position) (ancestor : Nat) : Noted (Except TreeError Position) :=
  match Depth.minus p.depth ancestor with
  | .error why => .silent (.error why)
  | .ok depth =>
    let index := if bitCount p.index ≤ depth then p.index else p.index % Depth.width depth
    ⟨.ok ⟨depth, index⟩, [.rerooted p ancestor ⟨depth, index⟩]⟩

def relativeTo (p : Position) (ancestor : Nat) : Except TreeError Position :=
  (p.reroot ancestor).value

/-- The rightmost node at depth `maxDepth` of the subtree of `p`. -/
def rightmost (p : Position) (maxDepth : Nat) : Except TreeError Position := do
  let maxDepth ← Depth.ensureSupported maxDepth
  let remaining ← Depth.minus maxDepth p.depth
  return ⟨maxDepth, p.index <<< remaining ||| (Depth.width remaining - 1)⟩

def traceIndex (p : Position) (maxDepth : Nat) : Except TreeError Nat := do
  let leaf ← p.rightmost maxDepth
  return leaf.index

end DisputeGame.Position
