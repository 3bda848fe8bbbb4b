import DisputeGame.Proofs.Tree.Encoding
import DisputeGame.Proofs.Tree.Paths

/-!
Steps stay in the tree. What is made from numbers is checked before it is a position, and
every step from a position that names a node leads to one that does: a step down or up keeps
to the children and the parent, a look from an ancestor cuts the index to the depth that is
left, and the last node below another one lies within its level.
-/

namespace DisputeGame.Position

open Depth

theorem root_valid : root.Valid := ⟨Nat.zero_le limit, width_pos 0⟩

theorem make_valid {depth index : Nat} {p : Position} (h : make depth index = .ok p) :
    p.Valid := by
  rw [make_eq] at h
  obtain ⟨hlimit, h⟩ := guard_eq_ok.mp h
  obtain ⟨hindex, h⟩ := guard_eq_ok.mp h
  cases h
  exact ⟨hlimit, hindex⟩

theorem make_of_valid {p : Position} (hp : p.Valid) : make p.depth p.index = .ok p := by
  rw [make_eq, if_pos hp.1, if_pos hp.2]

theorem ofGindex_valid {g : Nat} {p : Position} (h : ofGindex g = .ok p) : p.Valid := by
  rw [ofGindex_eq] at h
  obtain ⟨hg, h⟩ := guard_eq_ok.mp h
  cases h
  exact decode_valid hg

theorem toNat_lt_gindexLimit (g : BitVec 128) : g.toNat < gindexLimit := by
  have hword : g.toNat < width 128 := g.isLt
  exact Nat.lt_of_lt_of_le hword (width_le_width (by decide))

theorem ofWord_valid (g : BitVec 128) : (ofWord g).Valid := decode_valid (toNat_lt_gindexLimit g)

theorem depth_eq_zero_iff {p : Position} (hp : p.Valid) : p.depth = 0 ↔ p = root := by
  constructor
  · intro hdepth
    have hindex := hp.2
    rw [hdepth, width_zero, Nat.lt_one_iff] at hindex
    obtain ⟨depth, index⟩ := p
    exact Position.mk.injEq .. ▸ ⟨hdepth, hindex⟩
  · intro h
    rw [h]
    rfl

section Steps

variable {p q : Position}

theorem child_valid {s : Side} (hp : p.Valid) (h : p.child s = .ok q) : q.Valid := by
  obtain ⟨hdepth, rfl⟩ := child_eq_ok.mp h
  refine ⟨hdepth, ?_⟩
  rw [width_succ]
  exact s.descend_lt hp.2

theorem walk_valid {path : List Side} (hp : p.Valid) (h : p.walk path = .ok q) : q.Valid := by
  induction path generalizing p with
  | nil =>
    cases h
    exact hp
  | cons s rest ih =>
    obtain ⟨next, hchild, hrest⟩ := bind_eq_ok.mp h
    exact ih (child_valid hp hchild) hrest

theorem leftChild_valid (hp : p.Valid) (h : p.leftChild = .ok q) : q.Valid :=
  child_valid (s := .left) hp h

theorem rightChild_valid (hp : p.Valid) (h : p.rightChild = .ok q) : q.Valid :=
  child_valid (s := .right) hp h

theorem parent_valid (hp : p.Valid) (h : p.parent = .ok q) : q.Valid := by
  obtain ⟨depth, index⟩ := p
  cases depth with
  | zero => cases h
  | succ d =>
    obtain ⟨hdepth, hindex⟩ := hp
    change d + 1 ≤ limit at hdepth
    change index < width (d + 1) at hindex
    rw [width_succ] at hindex
    rw [parent_eq, if_neg (Nat.succ_ne_zero d)] at h
    cases h
    refine ⟨Nat.le_of_succ_le hdepth, ?_⟩
    change index / 2 < width d
    omega

theorem defend_valid (hp : p.Valid) (h : p.defend = .ok q) : q.Valid := by
  obtain ⟨parent, hparent, h⟩ := bind_eq_ok.mp h
  obtain ⟨sibling, hsibling, h⟩ := bind_eq_ok.mp h
  exact leftChild_valid (rightChild_valid (parent_valid hp hparent) hsibling) h

theorem play_valid {m : Move} (hp : p.Valid) (h : p.play m = .ok q) : q.Valid := by
  cases m with
  | attack => exact leftChild_valid hp h
  | defend => exact defend_valid hp h

theorem playAll_valid {ms : List Move} (hp : p.Valid) (h : p.playAll ms = .ok q) :
    q.Valid := by
  induction ms generalizing p with
  | nil =>
    cases h
    exact hp
  | cons m rest ih =>
    obtain ⟨next, hplay, hrest⟩ := bind_eq_ok.mp h
    exact ih (play_valid hp hplay) hrest

theorem relativeTo_valid {ancestor : Nat} (hp : p.Valid) (h : p.relativeTo ancestor = .ok q) :
    q.Valid := by
  obtain ⟨-, rfl⟩ := relativeTo_eq_ok.mp h
  exact ⟨Nat.le_trans (Nat.sub_le _ _) hp.1, Nat.mod_lt _ (width_pos _)⟩

theorem rightmost_valid {maxDepth : Nat} (hp : p.Valid) (h : p.rightmost maxDepth = .ok q) :
    q.Valid := by
  obtain ⟨hlimit, hle, rfl⟩ := rightmost_eq_ok.mp h
  -- the last subtree of the level ends where the level ends
  have hlast : (p.index + 1) * width (maxDepth - p.depth) ≤ width maxDepth := by
    rw [← width_mul_width_sub hle]
    exact Nat.mul_le_mul_right _ hp.2
  have hpos := width_pos maxDepth
  refine ⟨hlimit, ?_⟩
  change (p.index + 1) * width (maxDepth - p.depth) - 1 < width maxDepth
  omega

end Steps

end DisputeGame.Position
