import DisputeGame.Proofs.Tree.Construction
import DisputeGame.Proofs.Tree.TraceIndex

/-!
A level from left to right. A step to the right adds one to the index and to the generalized
index, and takes the trace index on by the leaves below one node. Steps from the first node of a
level come to every node of it, each after as many steps as its index says. At the last node the
level ends: there is no further step, and the trace index is the last one of the game.
-/

namespace DisputeGame.Position

open Depth

section

variable {p q : Position} {maxDepth : Nat}

theorem moveRight_eq (hp : p.depth ≤ limit) :
    p.moveRight = if p.index + 1 < width p.depth then .ok ⟨p.depth, p.index + 1⟩
      else .error (.indexOutOfRange p.depth (p.index + 1)) := by
  unfold moveRight
  rw [make_eq, if_pos hp]

/-- Steps to the right add up until they would leave the level; the refusal names the first index
that is not on it, however many steps are still to come. -/
theorem iterate_moveRight (hp : p.Valid) (k : Nat) :
    p.iterate moveRight k = if p.index + k < width p.depth then .ok ⟨p.depth, p.index + k⟩
      else .error (.indexOutOfRange p.depth (width p.depth)) := by
  -- the first step is taken apart, so the node where the rest begins varies
  induction k generalizing p with
  | zero => exact (if_pos hp.2).symm
  | succ k ih =>
    rw [iterate_succ, moveRight_eq hp.1]
    by_cases hnext : p.index + 1 < width p.depth
    · have hrest := ih (p := ⟨p.depth, p.index + 1⟩) ⟨hp.1, hnext⟩
      have hindex : p.index + 1 + k = p.index + (k + 1) := by omega
      rw [if_pos hnext, ok_bind, hrest, hindex]
    · have hlast := hp.2
      have hend : p.index + 1 = width p.depth := by omega
      have hfar : ¬p.index + (k + 1) < width p.depth := by omega
      rw [if_neg hnext, if_neg hfar, error_bind, hend]

/-- The leaves below one node lie between the trace indices of neighbours. -/
theorem traceIndex_moveRight (h : p.moveRight = .ok q) (hle : p.depth ≤ maxDepth)
    (hlimit : maxDepth ≤ limit) :
    ∃ t, p.traceIndex maxDepth = .ok t ∧
      q.traceIndex maxDepth = .ok (t + width (maxDepth - p.depth)) := by
  obtain ⟨-, rfl⟩ := make_eq_ok.mp h
  obtain ⟨t, ht⟩ := exists_traceIndex hle hlimit
  have hleaves := (traceIndex_eq_ok hle hlimit).mp ht
  refine ⟨t, ht, ?_⟩
  apply (traceIndex_eq_ok (p := ⟨p.depth, p.index + 1⟩) hle hlimit).mpr
  change t + width (maxDepth - p.depth) + 1 = (p.index + 1 + 1) * width (maxDepth - p.depth)
  rw [Nat.succ_mul, ← hleaves]
  omega

theorem traceIndex_last {d : Nat} (hle : d ≤ maxDepth) (hlimit : maxDepth ≤ limit) :
    traceIndex ⟨d, width d - 1⟩ maxDepth = .ok (width maxDepth - 1) := by
  apply (traceIndex_eq_ok hle hlimit).mpr
  rw [Nat.sub_add_cancel (width_pos maxDepth), Nat.sub_add_cancel (width_pos d),
    width_mul_width_sub hle]

end

/-- The node that so many steps to the right lead to from the first one of a level. -/
def sweep (d k : Nat) : Except TreeError Position := do
  let first ← make d 0
  first.iterate moveRight k

theorem sweep_eq {d : Nat} (hd : d ≤ limit) (k : Nat) :
    sweep d k = if k < width d then .ok ⟨d, k⟩ else .error (.indexOutOfRange d (width d)) := by
  have hfirst : (⟨d, 0⟩ : Position).Valid := ⟨hd, width_pos d⟩
  have hsteps := iterate_moveRight hfirst k
  unfold sweep
  rw [make_of_valid hfirst, ok_bind, hsteps, Nat.zero_add]

theorem sweep_eq_ok {d k : Nat} (hd : d ≤ limit) {p : Position} :
    sweep d k = .ok p ↔ k < width d ∧ (⟨d, k⟩ : Position) = p := by
  rw [sweep_eq hd, guard_eq_ok, Except.ok.injEq]

/-- Steps to the right from the first node of a supported level come to each node of it exactly
once and from left to right: after `k` of them the index is `k`, so they succeed as long as there
is such a node. Each takes the trace index on by as many leaves as lie below one node, and the
last node has the last leaf. One step more fails, and all after it, with the first index that is
not on the level. -/
theorem sweep_visits_level (d : Nat) (hd : d ≤ limit) :
    (∀ k, (∃ p, sweep d k = .ok p) ↔ k < width d) ∧
    (∀ k p, sweep d k = .ok p → p.depth = d ∧ p.index = k ∧ p.gindex = width d + k) ∧
    (∀ p : Position, p.Valid → p.depth = d → ∃! k, sweep d k = .ok p) ∧
    (∀ p q : Position, p.depth = d → p.moveRight = .ok q →
      ∀ maxDepth, d ≤ maxDepth → maxDepth ≤ limit →
        ∃ t, p.traceIndex maxDepth = .ok t ∧
          q.traceIndex maxDepth = .ok (t + width (maxDepth - d))) ∧
    (∃ last, sweep d (width d - 1) = .ok last ∧
      (∀ maxDepth, d ≤ maxDepth → maxDepth ≤ limit →
        last.traceIndex maxDepth = .ok (width maxDepth - 1)) ∧
      last.moveRight = .error (.indexOutOfRange d (width d))) ∧
    ∀ k, width d ≤ k → sweep d k = .error (.indexOutOfRange d (width d)) := by
  refine ⟨?_, ?_, ?_, ?_, ?_, ?_⟩
  · intro k
    simp only [sweep_eq_ok hd, exists_and_left, exists_eq', and_true]
  · intro k p h
    obtain ⟨hk, rfl⟩ := (sweep_eq_ok hd).mp h
    exact ⟨rfl, rfl, gindex_eq _ ⟨hd, hk⟩⟩
  · intro p hp hdepth
    subst d
    refine ⟨p.index, (sweep_eq_ok hd).mpr ⟨hp.2, rfl⟩, ?_⟩
    intro k hk
    obtain ⟨-, hend⟩ := (sweep_eq_ok hd).mp hk
    exact congrArg Position.index hend
  · intro p q hdepth h maxDepth hle hlimit
    subst d
    exact traceIndex_moveRight h hle hlimit
  · have hpos := width_pos d
    have hlast : width d - 1 + 1 = width d := Nat.sub_add_cancel hpos
    have hend := moveRight_eq (p := ⟨d, width d - 1⟩) hd
    rw [hlast, if_neg (Nat.lt_irrefl _)] at hend
    exact ⟨⟨d, width d - 1⟩, (sweep_eq_ok hd).mpr ⟨by omega, rfl⟩,
      fun maxDepth => traceIndex_last, hend⟩
  · intro k hk
    rw [sweep_eq hd, if_neg (Nat.not_lt.mpr hk)]

/-- The third of the four nodes of depth 2 is two steps away from the first. One more step takes
its trace index in a game of depth 4 from 11 to 15, which is the last; the root has no
neighbour at all. -/
theorem sweep_visits_level_two :
    2 ≤ limit ∧ 0 ≤ limit ∧ sweep 2 2 = .ok ⟨2, 2⟩ ∧ gindex ⟨2, 2⟩ = 4 + 2 ∧
    (∃! k, sweep 2 k = .ok ⟨2, 2⟩) ∧ moveRight ⟨2, 2⟩ = .ok ⟨2, 3⟩ ∧
    (∃ t, traceIndex ⟨2, 2⟩ 4 = .ok t ∧ traceIndex ⟨2, 3⟩ 4 = .ok (t + 4)) ∧
    (∃ last, sweep 2 3 = .ok last ∧ last.traceIndex 4 = .ok 15 ∧
      last.moveRight = .error (.indexOutOfRange 2 4)) ∧
    sweep 2 5 = .error (.indexOutOfRange 2 4) ∧
    ∃ last, sweep 0 0 = .ok last ∧ last.moveRight = .error (.indexOutOfRange 0 1) := by
  have hlimit : 2 ≤ limit := by decide
  have hdeep : 4 ≤ limit := by decide
  obtain ⟨-, hnode, honce, hshift, ⟨last, hlast, htrace, hend⟩, hpast⟩ :=
    sweep_visits_level 2 hlimit
  obtain ⟨-, -, -, -, ⟨top, htop, -, halone⟩, -⟩ := sweep_visits_level 0 (Nat.zero_le limit)
  have hthird : sweep 2 2 = .ok ⟨2, 2⟩ := rfl
  have hright : moveRight ⟨2, 2⟩ = .ok ⟨2, 3⟩ := rfl
  exact ⟨hlimit, Nat.zero_le limit, hthird, (hnode 2 _ hthird).2.2, honce _ (by decide) rfl,
    hright, hshift _ _ rfl hright 4 (by decide) hdeep,
    ⟨last, hlast, htrace 4 (by decide) hdeep, hend⟩, hpast 5 (by decide), top, htop, halone⟩

end DisputeGame.Position
