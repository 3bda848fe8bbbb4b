import DisputeGame.Proofs.Tree.Descendants
import DisputeGame.Proofs.Tree.TraceIndex

/-!
Positions that commit to the same trace index. The last leaf below a node is the last leaf below
its right child too, and so on down the right spine of the node. No other node at its depth or
below it shares that leaf: the leaves up to there are counted in whole subtrees, and the size of
the smaller ones divides out. What is left compares the two nodes at the depth of the deeper one,
where the depth of the game plays no part.
-/

namespace DisputeGame.Position

open Depth

/-- The nodes that steps to the right lead to from a node, itself among them. -/
def rightSpine (p : Position) : Set Position :=
  {q | ∃ steps, p.iterate rightChild steps = .ok q}

section

variable {p q : Position} {maxDepth : Nat}

theorem depth_of_iterate_rightChild {steps : Nat} (h : p.iterate rightChild steps = .ok q) :
    q.depth = p.depth + steps := by
  induction steps generalizing p with
  | zero =>
    cases h
    rfl
  | succ n ih =>
    obtain ⟨next, hchild, hrest⟩ := bind_eq_ok.mp h
    obtain ⟨-, rfl⟩ := child_eq_ok (s := .right).mp hchild
    have hdepth : q.depth = p.depth + 1 + n := ih hrest
    omega

/-- The spine has one node at each depth, the rightmost one there. -/
theorem mem_rightSpine_iff (hq : q.depth ≤ limit) :
    q ∈ p.rightSpine ↔ p.rightmost q.depth = .ok q := by
  constructor
  · intro h
    obtain ⟨steps, hsteps⟩ := h
    have hdepth := depth_of_iterate_rightChild hsteps
    have hlevels : q.depth - p.depth = steps := by omega
    obtain ⟨leaf, hleaf⟩ : ∃ leaf, p.rightmost q.depth = .ok leaf :=
      ⟨_, rightmost_eq_ok.mpr ⟨hq, by omega, rfl⟩⟩
    have hright := (iterate_rightChild_rightmost hleaf).1
    rw [hlevels, hsteps] at hright
    rw [hleaf, hright]
  · intro h
    exact ⟨q.depth - p.depth, (iterate_rightChild_rightmost h).1⟩

/-- The last leaf is found in two stages as in one. -/
theorem rightmost_rightmost {d : Nat} (hp : p.depth ≤ d) (hd : d ≤ maxDepth)
    (hlimit : maxDepth ≤ limit) :
    (p.rightmost d >>= (·.rightmost maxDepth)) = p.rightmost maxDepth := by
  have hupper := rightmost_eq_ok.mpr ⟨Nat.le_trans hd hlimit, hp, rfl⟩
  have hleaf := rightmost_eq_ok.mpr ⟨hlimit, Nat.le_trans hp hd, rfl⟩
  have hpos : 0 < (p.index + 1) * width (d - p.depth) :=
    Nat.mul_pos (Nat.succ_pos _) (width_pos _)
  rw [hupper, ok_bind, hleaf]
  apply rightmost_eq_ok.mpr
  refine ⟨hlimit, hd, ?_⟩
  rw [Nat.sub_add_cancel hpos, Nat.mul_assoc, width_sub_mul_width_sub hp hd]

/-- A node shares its last leaf with a deeper one exactly if that is the last node of its level
below the first. -/
theorem traceIndex_eq_iff_rightmost (hpq : p.depth ≤ q.depth) (hq : q.depth ≤ maxDepth)
    (hlimit : maxDepth ≤ limit) :
    p.traceIndex maxDepth = q.traceIndex maxDepth ↔ p.rightmost q.depth = .ok q := by
  constructor
  · intro h
    obtain ⟨t, ht⟩ := exists_traceIndex hq hlimit
    have hleaves := (traceIndex_eq_ok (Nat.le_trans hpq hq) hlimit).mp (h.trans ht)
    -- both count the leaves in subtrees of the size of the one below `q`
    have hcount : (q.index + 1) * width (maxDepth - q.depth) =
        (p.index + 1) * width (q.depth - p.depth) * width (maxDepth - q.depth) := by
      rw [← (traceIndex_eq_ok hq hlimit).mp ht, hleaves, Nat.mul_assoc,
        width_sub_mul_width_sub hpq hq]
    have hindex := Nat.eq_of_mul_eq_mul_right (width_pos _) hcount
    apply rightmost_eq_ok.mpr
    refine ⟨Nat.le_trans hq hlimit, hpq, ?_⟩
    rw [← hindex, Nat.add_sub_cancel]
  · intro h
    have hleaf : p.rightmost maxDepth = q.rightmost maxDepth := by
      rw [← rightmost_rightmost hpq hq hlimit, h, ok_bind]
    rw [traceIndex_eq_map, traceIndex_eq_map, hleaf]

/-- Whether two nodes share their last leaf is settled where the deeper one lies. -/
theorem traceIndex_eq_congr_maxDepth {d e : Nat} (hp : p.depth ≤ d) (hq : q.depth ≤ d)
    (hd : d ≤ limit) (hp' : p.depth ≤ e) (hq' : q.depth ≤ e) (he : e ≤ limit) :
    p.traceIndex d = q.traceIndex d ↔ p.traceIndex e = q.traceIndex e := by
  rcases Nat.le_total p.depth q.depth with hpq | hqp
  · rw [traceIndex_eq_iff_rightmost hpq hq hd, traceIndex_eq_iff_rightmost hpq hq' he]
  · rw [eq_comm, traceIndex_eq_iff_rightmost hqp hp hd, eq_comm (a := p.traceIndex e),
      traceIndex_eq_iff_rightmost hqp hp' he]

end

/-- Of two positions the deeper one commits to the trace index of the other exactly if it is the
rightmost node of its depth below the other, which is to say, on its right spine. So the depth of
the game does not matter for it, as long as both lie within; and the leaf that a position stands
for is also the one that its rightmost node at any depth between stands for. -/
theorem traceIndex_eq_iff_right_spine :
    (∀ (p q : Position) (maxDepth : Nat), p.depth ≤ q.depth → q.depth ≤ maxDepth →
      maxDepth ≤ limit →
      ∃ s t, p.traceIndex maxDepth = .ok s ∧ q.traceIndex maxDepth = .ok t ∧
        (s = t ↔ p.rightmost q.depth = .ok q) ∧ (s = t ↔ q ∈ p.rightSpine)) ∧
    (∀ (p q : Position) (d e : Nat), p.depth ≤ d → q.depth ≤ d → d ≤ limit →
      p.depth ≤ e → q.depth ≤ e → e ≤ limit →
      (p.traceIndex d = q.traceIndex d ↔ p.traceIndex e = q.traceIndex e)) ∧
    (∀ (p : Position) (d e : Nat), p.depth ≤ d → d ≤ e → e ≤ limit →
      ∃ leaf, p.rightmost e = .ok leaf ∧ (p.rightmost d >>= (·.rightmost e)) = .ok leaf) := by
  refine ⟨?_, ?_, ?_⟩
  · intro p q maxDepth hpq hq hlimit
    obtain ⟨s, hs⟩ := exists_traceIndex (Nat.le_trans hpq hq) hlimit
    obtain ⟨t, ht⟩ := exists_traceIndex hq hlimit
    have hshared : s = t ↔ p.rightmost q.depth = .ok q := by
      rw [← traceIndex_eq_iff_rightmost hpq hq hlimit, hs, ht, Except.ok.injEq]
    refine ⟨s, t, hs, ht, hshared, ?_⟩
    rw [hshared, mem_rightSpine_iff (Nat.le_trans hq hlimit)]
  · intro p q d e hp hq hd hp' hq' he
    exact traceIndex_eq_congr_maxDepth hp hq hd hp' hq' he
  · intro p d e hp hde he
    have hleaf := rightmost_eq_ok.mpr ⟨he, Nat.le_trans hp hde, rfl⟩
    exact ⟨_, hleaf, (rightmost_rightmost hp hde he).trans hleaf⟩

/-- Below the first of two nodes the spine leads to the fourth node of depth 3. Both stand for
leaf 15 of depth 5, and for leaf 7 of depth 4; the node to the left of it stands for leaf 11. -/
theorem traceIndex_eq_iff_right_spine_fourth :
    (⟨1, 0⟩ : Position).depth ≤ (⟨3, 3⟩ : Position).depth ∧
    (⟨3, 3⟩ : Position).depth ≤ 5 ∧ 5 ≤ limit ∧
    traceIndex ⟨1, 0⟩ 5 = .ok 15 ∧ traceIndex ⟨3, 3⟩ 5 = .ok 15 ∧
    (⟨3, 3⟩ : Position) ∈ rightSpine ⟨1, 0⟩ ∧
    traceIndex ⟨3, 2⟩ 5 = .ok 11 ∧ (⟨3, 2⟩ : Position) ∉ rightSpine ⟨1, 0⟩ ∧
    traceIndex ⟨1, 0⟩ 4 = traceIndex ⟨3, 3⟩ 4 ∧
    ∃ leaf, rightmost ⟨1, 0⟩ 5 = .ok leaf ∧
      (rightmost ⟨1, 0⟩ 3 >>= (·.rightmost 5)) = .ok leaf := by
  obtain ⟨hshared, hdepths, hstages⟩ := traceIndex_eq_iff_right_spine
  have hlimit : 5 ≤ limit := by decide
  have hfirst : traceIndex ⟨1, 0⟩ 5 = .ok 15 := rfl
  have hfourth : traceIndex ⟨3, 3⟩ 5 = .ok 15 := rfl
  have hthird : traceIndex ⟨3, 2⟩ 5 = .ok 11 := rfl
  have hspine : (⟨3, 3⟩ : Position) ∈ rightSpine ⟨1, 0⟩ := by
    obtain ⟨s, t, hs, ht, -, hiff⟩ :=
      hshared ⟨1, 0⟩ ⟨3, 3⟩ 5 (by decide) (by decide) hlimit
    cases hs.symm.trans hfirst
    cases ht.symm.trans hfourth
    exact hiff.mp rfl
  have hapart : (⟨3, 2⟩ : Position) ∉ rightSpine ⟨1, 0⟩ := by
    obtain ⟨s, t, hs, ht, -, hiff⟩ :=
      hshared ⟨1, 0⟩ ⟨3, 2⟩ 5 (by decide) (by decide) hlimit
    cases hs.symm.trans hfirst
    cases ht.symm.trans hthird
    intro hmem
    exact absurd (hiff.mpr hmem) (by decide)
  have hless := (hdepths ⟨1, 0⟩ ⟨3, 3⟩ 5 4 (by decide) (by decide) hlimit (by decide) (by decide)
    (by decide)).mp (hfirst.trans hfourth.symm)
  exact ⟨by decide, by decide, hlimit, hfirst, hfourth, hspine, hthird, hapart, hless,
    hstages ⟨1, 0⟩ 3 5 (by decide) (by decide) hlimit⟩

end DisputeGame.Position
