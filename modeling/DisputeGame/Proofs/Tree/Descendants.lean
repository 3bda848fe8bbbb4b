import DisputeGame.Proofs.Tree.Paths
import Mathlib.Order.Bounds.Basic

/-!
The nodes below a node. Those that the paths of one length lead to fill a stretch of their level
without a gap, and the path that keeps to the right ends at the last of them. This is the node
that commits to the same trace index; it is found in one go, and exactly when its level is
supported and not above the node.
-/

namespace DisputeGame.Position

open Depth

/-- The indices of the nodes that lie the given number of levels below. -/
def indicesBelow (p : Position) (levels : Nat) : Set Nat :=
  {i | ∃ path q, path.length = levels ∧ p.walk path = .ok q ∧ q.index = i}

theorem mem_indicesBelow_iff {p : Position} {levels i : Nat} (hdepth : p.depth + levels ≤ limit) :
    i ∈ p.indicesBelow levels ↔
      p.index * width levels ≤ i ∧ i < (p.index + 1) * width levels := by
  have hp : p.depth ≤ limit := by omega
  constructor
  · intro h
    obtain ⟨path, q, rfl, hwalk, rfl⟩ := h
    rw [walk_eq p path hp, guard_eq_ok] at hwalk
    obtain ⟨-, hq⟩ := hwalk
    cases hq
    rw [Side.descendAll_eq, Nat.succ_mul]
    exact ⟨Nat.le_add_right _ _, Nat.add_lt_add_left (Side.descendAll_zero_lt path) _⟩
  · intro h
    obtain ⟨path, rfl, hend⟩ := Side.exists_descendAll levels p.index i h.1 h.2
    exact ⟨path, _, rfl, by rw [walk_eq p path hp, if_pos hdepth], hend⟩

theorem indicesBelow_eq {p : Position} {levels : Nat} (hdepth : p.depth + levels ≤ limit) :
    p.indicesBelow levels =
      Set.Icc (p.index * width levels) ((p.index + 1) * width levels - 1) := by
  have hpos : 0 < (p.index + 1) * width levels := Nat.mul_pos (Nat.succ_pos _) (width_pos levels)
  ext i
  rw [mem_indicesBelow_iff hdepth, Set.mem_Icc]
  omega

/-- The last node of a stretch has the last one of the next stretch for its right child. -/
theorem iterate_rightChild {p : Position} {levels : Nat} (hdepth : p.depth + levels ≤ limit) :
    p.iterate rightChild levels =
      .ok ⟨p.depth + levels, (p.index + 1) * width levels - 1⟩ := by
  induction levels generalizing p with
  | zero => simp [iterate]
  | succ n ih =>
    have hlt : p.depth < limit := by omega
    have hnext := ih (p := ⟨p.depth + 1, 2 * p.index + 1⟩)
      (by change p.depth + 1 + n ≤ limit; omega)
    have hleaves : (2 * p.index + 1 + 1) * width n = (p.index + 1) * width (n + 1) := by
      rw [width_succ, Nat.mul_left_comm, ← Nat.mul_assoc]
      rfl
    rw [iterate_succ, rightChild_eq, if_pos hlt, ok_bind, hnext, hleaves, Nat.add_assoc,
      Nat.add_comm 1 n]

theorem traceIndex_eq_map (p : Position) (maxDepth : Nat) :
    p.traceIndex maxDepth = (p.rightmost maxDepth).map (·.index) := rfl

theorem exists_traceIndex_iff_rightmost {p : Position} {maxDepth : Nat} :
    (∃ t, p.traceIndex maxDepth = .ok t) ↔ ∃ leaf, p.rightmost maxDepth = .ok leaf := by
  rw [traceIndex_eq_map]
  cases p.rightmost maxDepth with
  | ok leaf => exact ⟨fun _ => ⟨leaf, rfl⟩, fun _ => ⟨leaf.index, rfl⟩⟩
  | error why => exact ⟨nofun, nofun⟩

theorem traceIndex_of_rightmost {p leaf : Position} {maxDepth : Nat}
    (h : p.rightmost maxDepth = .ok leaf) : p.traceIndex maxDepth = .ok leaf.index := by
  rw [traceIndex_eq_map, h]
  rfl

theorem traceIndex_of_refused {p : Position} {maxDepth : Nat} {why : TreeError}
    (h : p.rightmost maxDepth = .error why) : p.traceIndex maxDepth = .error why := by
  rw [traceIndex_eq_map, h]
  rfl

/-- Steps to the right lead to the last node of the level that lies below. -/
theorem iterate_rightChild_rightmost {p leaf : Position} {maxDepth : Nat}
    (h : p.rightmost maxDepth = .ok leaf) :
    p.iterate rightChild (maxDepth - p.depth) = .ok leaf ∧
      p.indicesBelow (maxDepth - p.depth) =
        Set.Icc (p.index * width (maxDepth - p.depth)) leaf.index := by
  obtain ⟨hlimit, hle, rfl⟩ := rightmost_eq_ok.mp h
  have hlevels : p.depth + (maxDepth - p.depth) = maxDepth := Nat.add_sub_cancel' hle
  have hdepth : p.depth + (maxDepth - p.depth) ≤ limit := by
    rw [hlevels]
    exact hlimit
  have hright := iterate_rightChild hdepth
  rw [hlevels] at hright
  exact ⟨hright, indicesBelow_eq hdepth⟩

/-- The node that stands for a position at the last level is the last one of those below it, and
its index is the trace index. It is where steps to the right lead, and the nodes below fill the
stretch up to it. Only a level that is not supported or lies above the position has none, and
of the two the first is noticed first. -/
theorem rightmost_closes_stretch (p : Position) (hp : p.Valid) (maxDepth : Nat) :
    ((∃ leaf, p.rightmost maxDepth = .ok leaf) ↔ maxDepth ≤ limit ∧ p.depth ≤ maxDepth) ∧
    ((∃ t, p.traceIndex maxDepth = .ok t) ↔ maxDepth ≤ limit ∧ p.depth ≤ maxDepth) ∧
    (limit < maxDepth → ∃ what : Overflow, what.target = "Depth" ∧
      p.rightmost maxDepth = .error (.overflow what) ∧
      p.traceIndex maxDepth = .error (.overflow what)) ∧
    (maxDepth < p.depth →
      p.rightmost maxDepth = .error (.depthTooSmall p.depth maxDepth) ∧
      p.traceIndex maxDepth = .error (.depthTooSmall p.depth maxDepth)) ∧
    ∀ leaf, p.rightmost maxDepth = .ok leaf →
      p.iterate rightChild (maxDepth - p.depth) = .ok leaf ∧ leaf.depth = maxDepth ∧
      p.traceIndex maxDepth = .ok leaf.index ∧
      leaf.index = (p.index + 1) * width (maxDepth - p.depth) - 1 ∧
      IsGreatest (p.indicesBelow (maxDepth - p.depth)) leaf.index ∧
      p.indicesBelow (maxDepth - p.depth) =
        Set.Icc (p.index * width (maxDepth - p.depth)) leaf.index := by
  have hexists : (∃ leaf, p.rightmost maxDepth = .ok leaf) ↔
      maxDepth ≤ limit ∧ p.depth ≤ maxDepth := by
    simp only [rightmost_eq_ok, exists_and_left, exists_eq', and_true]
  refine ⟨hexists, exists_traceIndex_iff_rightmost.trans hexists, ?_, ?_, ?_⟩
  · intro hdeep
    have hrefused : p.rightmost maxDepth = .error (.overflow (.depth maxDepth)) := by
      rw [rightmost_eq, if_neg (Nat.not_le.mpr hdeep)]
    exact ⟨_, rfl, hrefused, traceIndex_of_refused hrefused⟩
  · intro hhigh
    have hlimit : maxDepth ≤ limit := Nat.le_trans (Nat.le_of_lt hhigh) hp.1
    have hrefused : p.rightmost maxDepth = .error (.depthTooSmall p.depth maxDepth) := by
      rw [rightmost_eq, if_pos hlimit, if_neg (Nat.not_le.mpr hhigh)]
    exact ⟨hrefused, traceIndex_of_refused hrefused⟩
  · intro leaf hleaf
    obtain ⟨hright, hbelow⟩ := iterate_rightChild_rightmost hleaf
    have htrace := traceIndex_of_rightmost hleaf
    obtain ⟨-, -, rfl⟩ := rightmost_eq_ok.mp hleaf
    have hfirst : p.index * width (maxDepth - p.depth) ≤
        (p.index + 1) * width (maxDepth - p.depth) - 1 := by
      have hpos := width_pos (maxDepth - p.depth)
      rw [Nat.succ_mul]
      omega
    refine ⟨hright, rfl, htrace, rfl, ?_, hbelow⟩
    rw [hbelow]
    exact isGreatest_Icc hfirst

/-- Below the third of four nodes lie those numbered 8 to 11 of the fourth level. -/
theorem rightmost_closes_stretch_third_of_four :
    (⟨2, 2⟩ : Position).Valid ∧ rightmost ⟨2, 2⟩ 4 = .ok ⟨4, 11⟩ ∧
    iterate ⟨2, 2⟩ rightChild 2 = .ok ⟨4, 11⟩ ∧ traceIndex ⟨2, 2⟩ 4 = .ok 11 ∧
    IsGreatest (indicesBelow ⟨2, 2⟩ 2) 11 ∧ indicesBelow ⟨2, 2⟩ 2 = Set.Icc 8 11 ∧
    1 < (⟨2, 2⟩ : Position).depth ∧ traceIndex ⟨2, 2⟩ 1 = .error (.depthTooSmall 2 1) ∧
    limit < limit + 1 ∧
    (∃ what : Overflow, what.target = "Depth" ∧
      rightmost ⟨2, 2⟩ (limit + 1) = .error (.overflow what) ∧
      traceIndex ⟨2, 2⟩ (limit + 1) = .error (.overflow what)) := by
  have hvalid : (⟨2, 2⟩ : Position).Valid := by decide
  have hleaf : rightmost ⟨2, 2⟩ 4 = .ok ⟨4, 11⟩ := rfl
  obtain ⟨-, -, -, -, hlast⟩ := rightmost_closes_stretch ⟨2, 2⟩ hvalid 4
  obtain ⟨-, -, -, hhigh, -⟩ := rightmost_closes_stretch ⟨2, 2⟩ hvalid 1
  obtain ⟨-, -, hdeep, -⟩ := rightmost_closes_stretch ⟨2, 2⟩ hvalid (limit + 1)
  obtain ⟨hright, -, htrace, -, hgreatest, hbelow⟩ := hlast _ hleaf
  exact ⟨hvalid, hleaf, hright, htrace, hgreatest, hbelow, by decide, (hhigh (by decide)).2,
    Nat.lt_succ_self limit, hdeep (Nat.lt_succ_self limit)⟩

end DisputeGame.Position
