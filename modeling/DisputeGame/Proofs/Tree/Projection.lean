import DisputeGame.Proofs.Tree.Descendants

/-!
Trace indices inside a subtree. The leaves below a node are a stretch of the leaves below each of
its ancestors, so it does not matter whether the last one of them is found first and then looked
at from the ancestor, or the node is looked at first and the last leaf is found inside the
subtree. The trace index inside the subtree is the remainder of the one in the whole tree.
-/

namespace DisputeGame.Position

open Depth

/-- The last leaf below a node as an ancestor sees it. -/
theorem rightmost_relativeTo {p : Position} {a maxDepth : Nat} (ha : a ≤ p.depth)
    (hle : p.depth ≤ maxDepth) (hlimit : maxDepth ≤ limit) :
    ∃ leaf, (p.rightmost maxDepth >>= (·.relativeTo a)) = .ok leaf ∧
      (p.relativeTo a >>= (·.rightmost (maxDepth - a))) = .ok leaf := by
  have hseen := relativeTo_eq_ok.mpr ⟨ha, rfl⟩
  have hleaf := rightmost_eq_ok.mpr ⟨hlimit, hle, rfl⟩
  have hlevels : maxDepth - a - (p.depth - a) = maxDepth - p.depth := by omega
  have hwidth := width_sub_mul_width_sub ha hle
  have hcut := last_mod_mul p.index (width (p.depth - a)) (width (maxDepth - p.depth))
    (width_pos _)
  refine ⟨⟨maxDepth - a, (p.index % width (p.depth - a) + 1) * width (maxDepth - p.depth) - 1⟩,
    ?_, ?_⟩
  · rw [hleaf, ok_bind]
    apply relativeTo_eq_ok.mpr
    refine ⟨Nat.le_trans ha hle, ?_⟩
    rw [← hcut, hwidth]
  · rw [hseen, ok_bind]
    apply rightmost_eq_ok.mpr
    refine ⟨by omega, Nat.sub_le_sub_right hle a, ?_⟩
    rw [hlevels]

/-- A look from an ancestor and the way to the last leaf below may be taken in either order, and
the trace index inside the subtree of the ancestor is what is left of the trace index in the
tree when it is cut to the leaves of the subtree. -/
theorem relativeTo_commutes_with_rightmost (p : Position) (a maxDepth : Nat) (ha : a ≤ p.depth)
    (hle : p.depth ≤ maxDepth) (hlimit : maxDepth ≤ limit) :
    (∃ leaf, (p.rightmost maxDepth >>= (·.relativeTo a)) = .ok leaf ∧
      (p.relativeTo a >>= (·.rightmost (maxDepth - a))) = .ok leaf) ∧
    ∃ t, p.traceIndex maxDepth = .ok t ∧
      (p.relativeTo a >>= (·.traceIndex (maxDepth - a))) = .ok (t % width (maxDepth - a)) := by
  have hcommute := rightmost_relativeTo ha hle hlimit
  refine ⟨hcommute, ?_⟩
  obtain ⟨leaf, hafter, hbefore⟩ := hcommute
  obtain ⟨last, hlast, hlook⟩ := bind_eq_ok.mp hafter
  obtain ⟨seen, hseen, hbelow⟩ := bind_eq_ok.mp hbefore
  have htrace := traceIndex_of_rightmost hlast
  have hinside : (p.relativeTo a >>= (·.traceIndex (maxDepth - a))) = .ok leaf.index := by
    rw [hseen, ok_bind]
    exact traceIndex_of_rightmost hbelow
  obtain ⟨-, -, rfl⟩ := rightmost_eq_ok.mp hlast
  obtain ⟨-, rfl⟩ := relativeTo_eq_ok.mp hlook
  exact ⟨_, htrace, hinside⟩

/-- Node 5 of depth 3 has the leaves 20 to 23 of depth 5 below it. Its ancestor at depth 1 has
sixteen leaves below it, the upper half of the level, and there they are numbered 4 to 7. -/
theorem relativeTo_commutes_with_rightmost_five :
    1 ≤ (⟨3, 5⟩ : Position).depth ∧ (⟨3, 5⟩ : Position).depth ≤ 5 ∧ 5 ≤ limit ∧
    (rightmost ⟨3, 5⟩ 5 >>= (·.relativeTo 1)) = .ok ⟨4, 7⟩ ∧
    (∃ leaf, (rightmost ⟨3, 5⟩ 5 >>= (·.relativeTo 1)) = .ok leaf ∧
      (relativeTo ⟨3, 5⟩ 1 >>= (·.rightmost 4)) = .ok leaf) ∧
    ∃ t, traceIndex ⟨3, 5⟩ 5 = .ok t ∧
      (relativeTo ⟨3, 5⟩ 1 >>= (·.traceIndex 4)) = .ok (t % width 4) := by
  have ha : 1 ≤ (⟨3, 5⟩ : Position).depth := by decide
  have hle : (⟨3, 5⟩ : Position).depth ≤ 5 := by decide
  have hlimit : 5 ≤ limit := by decide
  have h := relativeTo_commutes_with_rightmost ⟨3, 5⟩ 1 5 ha hle hlimit
  exact ⟨ha, hle, hlimit, rfl, h.1, h.2⟩

end DisputeGame.Position
