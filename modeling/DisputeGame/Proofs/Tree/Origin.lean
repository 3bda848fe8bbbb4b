import DisputeGame.Proofs.Tree.Validity
import DisputeGame.Record.Reader

/-!
Where positions come from. One is made from numbers, from a generalized index, from a text
or from JSON, or it is found from another one by a step. Every source checks what it is
given and every step keeps to the tree, whatever depth it is asked for; so the positions
that can be had are those that name a node, and each of these can be had.
-/

namespace DisputeGame.Position

open Depth

/-- The steps from a position to another one, some of them with a depth of the caller's. -/
inductive Step
  | leftChild
  | rightChild
  | parent
  | attack
  | defend
  | play (move : Move)
  | relativeTo (ancestor : Nat)
  | rightmost (maxDepth : Nat)
  | moveRight
  deriving DecidableEq, Repr

def follow (p : Position) : Step → Except TreeError Position
  | .leftChild => p.leftChild
  | .rightChild => p.rightChild
  | .parent => p.parent
  | .attack => p.attack
  | .defend => p.defend
  | .play move => p.play move
  | .relativeTo ancestor => p.relativeTo ancestor
  | .rightmost maxDepth => p.rightmost maxDepth
  | .moveRight => p.moveRight

/-- The positions that can be had: from a source, and on from there by steps that succeed. -/
inductive Obtained : Position → Prop
  | root : Obtained root
  | default : Obtained default
  | make (depth index : Nat) {p : Position} (h : make depth index = .ok p) : Obtained p
  | ofGindex (gindex : Nat) {p : Position} (h : ofGindex gindex = .ok p) : Obtained p
  | ofWord (gindex : BitVec 128) : Obtained (ofWord gindex)
  | parse (text : String) {p : Position} (h : parse text = .ok p) : Obtained p
  /-- A text of JSON that is a position, -/
  | json (text : String) {p : Position} (h : Record.parsePosition text = .ok p) : Obtained p
  /-- or a value of JSON that stands for one inside a record. -/
  | part (shape : Shape) {p : Position} (h : Record.positionOf shape = .ok p) : Obtained p
  | step (s : Step) {p q : Position} (hp : Obtained p) (h : p.follow s = .ok q) : Obtained q

theorem parse_valid {text : String} {p : Position} (h : parse text = .ok p) : p.Valid := by
  unfold parse at h
  cases hread : readGindex? (Text.Blank.trim text.toList) with
  | some g => exact ofGindex_valid (by simpa [hread] using h)
  | none => simp [hread] at h

theorem positionOf_valid {shape : Shape} {p : Position}
    (h : Record.positionOf shape = .ok p) : p.Valid := by
  unfold Record.positionOf at h
  split at h
  · exact ofGindex_valid (mapError_eq_ok.mp h)
  · exact parse_valid (mapError_eq_ok.mp h)
  · cases h

/-- A text of JSON is a position by the value in it. -/
theorem positionOf_of_parsePosition {text : String} {p : Position}
    (h : Record.parsePosition text = .ok p) : ∃ shape, Record.positionOf shape = .ok p := by
  unfold Record.parsePosition Json.readAll Record.readPart at h
  obtain ⟨⟨value, rest⟩, hread, hend⟩ := bind_eq_ok.mp h
  obtain ⟨⟨shape, behind⟩, -, hpart⟩ := bind_eq_ok.mp hread
  obtain ⟨found, hfound, hpair⟩ := bind_eq_ok.mp hpart
  cases hpair
  refine ⟨shape, ?_⟩
  simp only at hend
  split at hend
  · cases hend
    exact hfound
  · cases hend

theorem follow_valid {p q : Position} {s : Step} (hp : p.Valid)
    (h : p.follow s = .ok q) : q.Valid := by
  cases s with
  | leftChild => exact leftChild_valid hp h
  | rightChild => exact rightChild_valid hp h
  | parent => exact parent_valid hp h
  | attack => exact leftChild_valid hp h
  | defend => exact defend_valid hp h
  | play move => exact play_valid hp h
  | relativeTo ancestor => exact relativeTo_valid hp h
  | rightmost maxDepth => exact rightmost_valid hp h
  | moveRight => exact make_valid h

theorem Obtained.valid {p : Position} (h : p.Obtained) : p.Valid := by
  induction h with
  | root => exact root_valid
  | default => exact root_valid
  | make depth index h => exact make_valid h
  | ofGindex gindex h => exact ofGindex_valid h
  | ofWord gindex => exact ofWord_valid gindex
  | parse text h => exact parse_valid h
  | json text h =>
    obtain ⟨shape, hshape⟩ := positionOf_of_parsePosition h
    exact positionOf_valid hshape
  | part shape h => exact positionOf_valid h
  | step s _ h ih => exact follow_valid ih h

/-- Whatever the source and however many steps were taken from there, a position lies at a
supported depth and numbers one of the nodes of that depth; and all of these can be had. -/
theorem obtained_iff_names_node (p : Position) :
    p.Obtained ↔ p.depth ≤ limit ∧ p.index < width p.depth := by
  constructor
  · intro h
    exact h.valid
  · intro h
    exact .make p.depth p.index (make_of_valid h)

end DisputeGame.Position
