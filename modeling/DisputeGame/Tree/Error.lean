import DisputeGame.Text.Quoted
import DisputeGame.Tree.Word

/-!
Depths of the game tree, and the causes for which an operation on its nodes is
refused. Every cause has one message; the numbers in it are decimal.
-/

namespace DisputeGame

/-- How many edges a node lies below the root. -/
abbrev Depth := Nat

/-- The two places where a step would leave the tree. -/
inductive Edge
  | root
  | deepest
  deriving DecidableEq, Repr

namespace Edge

def message : Edge → String
  | root => "the root has no parent"
  | deepest => "position is already at the maximum depth"

end Edge

/-- What was too large: a depth, a generalized index by its number of bits, or a
generalized index for a word. -/
inductive Overflow
  | depth (depth : Depth)
  | position (bits : Nat)
  | word (gindex : Nat) (word : Word)
  deriving DecidableEq, Repr

namespace Overflow

def value : Overflow → String
  | depth d => toString d
  | position bits => s!"gindex of {bits} bits"
  | word gindex _ => toString gindex

def target : Overflow → String
  | depth _ => "Depth"
  | position _ => "Position"
  | word _ w => w.name

end Overflow

inductive TreeError
  /-- At least `required` levels are needed where there are `actual`. -/
  | depthTooSmall (required actual : Depth)
  | invalidNavigation (edge : Edge)
  | overflow (what : Overflow)
  | indexOutOfRange (depth : Depth) (index : Nat)
  /-- The text is no number; it is kept without the blanks around it. -/
  | invalidGindex (text : String)
  deriving DecidableEq, Repr

namespace TreeError

def message : TreeError → String
  | depthTooSmall required actual =>
    s!"position depth is too small: need at least {required}, got {actual}"
  | invalidNavigation edge => s!"invalid navigation: {edge.message}"
  | overflow what => s!"{what.value} does not fit in {what.target}"
  | indexOutOfRange depth index => s!"index {index} is out of range for depth {depth}"
  | invalidGindex text => s!"invalid generalized index {Text.Quoted.quote text}"

end TreeError

end DisputeGame
