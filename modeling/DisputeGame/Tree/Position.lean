import DisputeGame.Tree.Depth

/-!
Positions of the game tree and their generalized indices. The nodes of one depth
are numbered from the left; the generalized index puts the bit of the depth in
front of that number, so the root is 1 and the children of g are 2g and 2g + 1.
-/

namespace DisputeGame

structure Position where
  /-- How many edges the node lies below the root. -/
  depth : Nat
  /-- The number of nodes to the left at the same depth. -/
  index : Nat
  deriving DecidableEq, Hashable, Repr, Inhabited

namespace Position

/-- The node exists: its depth is supported and has that many nodes. -/
def Valid (p : Position) : Prop := p.depth ≤ Depth.limit ∧ p.index < Depth.width p.depth

instance (p : Position) : Decidable p.Valid := inferInstanceAs (Decidable (_ ∧ _))

def root : Position := ⟨0, 0⟩

def isRoot (p : Position) : Bool := p.depth = 0 && p.index = 0

/-- The place of the highest set bit. Zero has none and counts as depth zero. -/
def topBit (n : Nat) : Nat := n.log2

/-- How many bits a number takes; none for zero. -/
def bitCount (n : Nat) : Nat := if n = 0 then 0 else n.log2 + 1

/-- The node of a depth and an index; the index has to be written in as many bits as the
depth, so that the width of a depth is never worked out. -/
def make (depth : Nat) (index : Nat) : Except TreeError Position := do
  let depth ← Depth.ensureSupported depth
  if bitCount index ≤ depth then .ok ⟨depth, index⟩ else .error (.indexOutOfRange depth index)

/-- The bit of the depth joined with an index that need not fit below it. -/
def joinGindex (depth : Nat) (index : Nat) : Except TreeError Nat := do
  let bit ← Depth.supportedWidth depth
  return bit ||| index

def gindex (p : Position) : Nat := Depth.width p.depth ||| p.index

/-- Takes the highest bit off. Zero is no node and stands for the root. -/
def decode (gindex : Nat) : Position :=
  ⟨topBit gindex, gindex - Depth.width (topBit gindex)⟩

def ofGindex (gindex : Nat) : Except TreeError Position :=
  if topBit gindex ≤ Depth.limit then .ok (decode gindex)
  else .error (.overflow (.position (bitCount gindex)))

/-- A 128-bit word is never too wide to be a generalized index. -/
def ofWord (gindex : BitVec 128) : Position := decode gindex.toNat

def toWord (w : Word) (p : Position) : Except TreeError (BitVec w.bits) :=
  match w.narrow? p.gindex with
  | some gindex => .ok gindex
  | none => .error (.overflow (.word p.gindex w))

end Position

end DisputeGame
