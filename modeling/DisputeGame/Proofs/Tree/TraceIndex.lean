import DisputeGame.Proofs.Tree.Lines

/-!
What moves do to the trace index. The trace index of a node is the last leaf below it, so one
more than it counts the leaves up to there. A move leads one level down, where the leaves
under a node are half as many: an attack gives up the half of the right child, and a defense
of a left child takes in the half of the next node. The answers to a right child are one and
the same, but from the root no line leads to one.
-/

namespace DisputeGame.Position

open Depth

variable {p : Position} {maxDepth t : Nat}

theorem traceIndex_eq_ok (hle : p.depth ≤ maxDepth) (hlimit : maxDepth ≤ limit) :
    p.traceIndex maxDepth = .ok t ↔ t + 1 = (p.index + 1) * width (maxDepth - p.depth) := by
  have hpos : 0 < (p.index + 1) * width (maxDepth - p.depth) :=
    Nat.mul_pos (Nat.succ_pos p.index) (width_pos _)
  rw [traceIndex_eq p maxDepth hle hlimit, Except.ok.injEq]
  omega

theorem exists_traceIndex (hle : p.depth ≤ maxDepth) (hlimit : maxDepth ≤ limit) :
    ∃ t, p.traceIndex maxDepth = .ok t := ⟨_, traceIndex_eq p maxDepth hle hlimit⟩

theorem traceIndex_lt (hp : p.Valid) (ht : p.traceIndex maxDepth = .ok t) :
    t < width maxDepth := by
  obtain ⟨leaf, hleaf, ht⟩ := bind_eq_ok.mp ht
  have hvalid := rightmost_valid hp hleaf
  obtain ⟨-, -, rfl⟩ := rightmost_eq_ok.mp hleaf
  cases ht
  exact hvalid.2

/-- The leaves up to the last one of a node, counted in stretches of its children. -/
theorem traceIndex_in_halves (hdeep : p.depth < maxDepth) (hlimit : maxDepth ≤ limit)
    (ht : p.traceIndex maxDepth = .ok t) :
    t + 1 = 2 * (p.index + 1) * width (maxDepth - p.depth - 1) := by
  obtain ⟨r, hr⟩ : ∃ r, maxDepth - p.depth = r + 1 := ⟨maxDepth - p.depth - 1, by omega⟩
  rw [(traceIndex_eq_ok (Nat.le_of_lt hdeep) hlimit).mp ht, hr, width_succ,
    Nat.add_sub_cancel, Nat.mul_left_comm, Nat.mul_assoc]

theorem traceIndex_below (d i : Nat) (hdeep : d < maxDepth) (hlimit : maxDepth ≤ limit) :
    ∃ s, traceIndex ⟨d + 1, i⟩ maxDepth = .ok s ∧ s + 1 = (i + 1) * width (maxDepth - d - 1) := by
  obtain ⟨s, hs⟩ := exists_traceIndex (p := ⟨d + 1, i⟩) hdeep hlimit
  exact ⟨s, hs, (traceIndex_eq_ok hdeep hlimit).mp hs⟩

theorem traceIndex_attack (hdeep : p.depth < maxDepth) (hlimit : maxDepth ≤ limit)
    (ht : p.traceIndex maxDepth = .ok t) :
    ∃ s, (p.attack >>= (·.traceIndex maxDepth)) = .ok s ∧
      s + width (maxDepth - p.depth - 1) = t := by
  have hattack : p.attack = .ok ⟨p.depth + 1, 2 * p.index⟩ :=
    leftChild_eq_ok.mpr ⟨Nat.lt_of_lt_of_le hdeep hlimit, rfl⟩
  obtain ⟨s, hs, hleaves⟩ := traceIndex_below p.depth (2 * p.index) hdeep hlimit
  refine ⟨s, by rw [hattack, ok_bind, hs], ?_⟩
  have hhalves := traceIndex_in_halves hdeep hlimit ht
  have hnext : 2 * (p.index + 1) = 2 * p.index + 1 + 1 := rfl
  rw [hnext, Nat.succ_mul, ← hleaves] at hhalves
  omega

theorem defend_eq_of_even (hpos : 0 < p.depth) (hlt : p.depth < limit)
    (heven : p.index % 2 = 0) : p.defend = .ok ⟨p.depth + 1, 2 * (p.index + 1)⟩ := by
  have hindex : 2 * (p.index / 2) = p.index := by omega
  rw [defend_eq, if_neg (Nat.ne_of_gt hpos), if_pos hlt, hindex]

theorem traceIndex_defend (hpos : 0 < p.depth) (heven : p.index % 2 = 0)
    (hdeep : p.depth < maxDepth) (hlimit : maxDepth ≤ limit)
    (ht : p.traceIndex maxDepth = .ok t) :
    ∃ s, (p.defend >>= (·.traceIndex maxDepth)) = .ok s ∧
      s = t + width (maxDepth - p.depth - 1) := by
  have hdefend := defend_eq_of_even hpos (Nat.lt_of_lt_of_le hdeep hlimit) heven
  obtain ⟨s, hs, hleaves⟩ := traceIndex_below p.depth (2 * (p.index + 1)) hdeep hlimit
  refine ⟨s, by rw [hdefend, ok_bind, hs], ?_⟩
  rw [Nat.succ_mul, ← traceIndex_in_halves hdeep hlimit ht] at hleaves
  omega

/-- The node to the right of a right child has another parent, so its answers coincide. -/
theorem defend_eq_attack_of_odd (hp : p.Valid) (hodd : p.index % 2 = 1) :
    p.defend = p.attack := by
  have hroot : p.depth ≠ 0 := by
    intro hzero
    have hindex := hp.2
    rw [hzero, width_zero] at hindex
    omega
  have hindex : 2 * (p.index / 2) + 1 = p.index := by omega
  change p.defend = p.leftChild
  rw [defend_eq, leftChild_eq, if_neg hroot, hindex]

/-- An attack moves the trace index left by the leaves under a child. A defense of a left child
moves it right by as many and stays within the level; a defense of a right child is an attack.
The root has no defense, and every line from the root leads to a left child. -/
theorem moves_shift_traceIndex :
    (∀ (p : Position) (maxDepth : Nat), p.Valid → p.depth < maxDepth → maxDepth ≤ limit →
      ∃ t, p.traceIndex maxDepth = .ok t ∧
        (∃ s, (p.attack >>= (·.traceIndex maxDepth)) = .ok s ∧
          s + width (maxDepth - p.depth - 1) = t ∧ s < t) ∧
        (0 < p.depth → p.index % 2 = 0 →
          ∃ s, (p.defend >>= (·.traceIndex maxDepth)) = .ok s ∧
            s = t + width (maxDepth - p.depth - 1) ∧ t < s ∧ s < width maxDepth) ∧
        (p.index % 2 = 1 → p.defend = p.attack)) ∧
    (∀ (ms : List Move) (p : Position), ms ≠ [] → root.playAll ms = .ok p →
      p.index % 2 = 0 ∧
      ∀ maxDepth, p.depth < maxDepth → maxDepth ≤ limit →
        ∃ t, p.traceIndex maxDepth = .ok t ∧
          (∃ s, (p.play .attack >>= (·.traceIndex maxDepth)) = .ok s ∧ s < t) ∧
          (∃ s, (p.play .defend >>= (·.traceIndex maxDepth)) = .ok s ∧ t < s)) := by
  constructor
  · intro p maxDepth hp hdeep hlimit
    obtain ⟨t, ht⟩ := exists_traceIndex (Nat.le_of_lt hdeep) hlimit
    have hleaves := width_pos (maxDepth - p.depth - 1)
    refine ⟨t, ht, ?_, ?_, defend_eq_attack_of_odd hp⟩
    · obtain ⟨s, hs, hshift⟩ := traceIndex_attack hdeep hlimit ht
      exact ⟨s, hs, hshift, by omega⟩
    · intro hpos heven
      obtain ⟨s, hs, hshift⟩ := traceIndex_defend hpos heven hdeep hlimit ht
      obtain ⟨q, hq, hsq⟩ := bind_eq_ok.mp hs
      exact ⟨s, hs, hshift, by omega, traceIndex_lt (defend_valid hp hq) hsq⟩
  · intro ms p hne hplay
    obtain ⟨hpos, heven⟩ := even_of_playAll_root hne hplay
    refine ⟨heven, ?_⟩
    intro maxDepth hdeep hlimit
    obtain ⟨t, ht⟩ := exists_traceIndex (Nat.le_of_lt hdeep) hlimit
    have hleaves := width_pos (maxDepth - p.depth - 1)
    obtain ⟨s, hs, hleft⟩ := traceIndex_attack hdeep hlimit ht
    obtain ⟨s', hs', hright⟩ := traceIndex_defend hpos heven hdeep hlimit ht
    exact ⟨t, ht, ⟨s, hs, by omega⟩, s', hs', by omega⟩

/-- Of four nodes the third commits to leaf 11 of 16. Its answers commit to 9 and to 13. -/
theorem moves_shift_traceIndex_third_of_four :
    (⟨2, 2⟩ : Position).Valid ∧ 2 < 4 ∧ 4 ≤ limit ∧
    traceIndex ⟨2, 2⟩ 4 = .ok 11 ∧
    (∃ s, (attack ⟨2, 2⟩ >>= (·.traceIndex 4)) = .ok s ∧ s + 2 = 11 ∧ s < 11) ∧
    (∃ s, (defend ⟨2, 2⟩ >>= (·.traceIndex 4)) = .ok s ∧ s = 11 + 2 ∧ 11 < s ∧ s < 16) ∧
    (⟨2, 3⟩ : Position).Valid ∧ defend ⟨2, 3⟩ = attack ⟨2, 3⟩ ∧
    root.playAll [.attack, .defend] = .ok ⟨2, 2⟩ ∧
    (∃ s, (play ⟨2, 2⟩ .defend >>= (·.traceIndex 4)) = .ok s ∧ 11 < s) := by
  have hvalid : (⟨2, 2⟩ : Position).Valid := by decide
  have hright : (⟨2, 3⟩ : Position).Valid := by decide
  have hlimit : 4 ≤ limit := by decide
  have htrace : traceIndex ⟨2, 2⟩ 4 = .ok 11 := rfl
  have hline : root.playAll [.attack, .defend] = .ok ⟨2, 2⟩ := rfl
  obtain ⟨t, ht, hattack, hdefend, -⟩ :=
    moves_shift_traceIndex.1 ⟨2, 2⟩ 4 hvalid (by decide) hlimit
  obtain ⟨-, -, -, -, hodd⟩ := moves_shift_traceIndex.1 ⟨2, 3⟩ 4 hright (by decide) hlimit
  obtain ⟨t', ht', -, hplay⟩ :=
    (moves_shift_traceIndex.2 _ ⟨2, 2⟩ (List.cons_ne_nil _ _) hline).2 4 (by decide) hlimit
  cases htrace.symm.trans ht
  cases htrace.symm.trans ht'
  exact ⟨hvalid, by decide, hlimit, htrace, hattack, hdefend (by decide) rfl, hright,
    hodd rfl, hline, hplay⟩

end DisputeGame.Position
