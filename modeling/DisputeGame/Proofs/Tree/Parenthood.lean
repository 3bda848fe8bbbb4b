import DisputeGame.Proofs.Tree.Ancestors

/-!
The test for a parent, and what a look from an ancestor leaves of it. The test compares the
index without its last bit and asks for no depth, so between neighbouring levels it tells the
children of a node from all others. A look from an ancestor cuts both indices, and the test
then compares the lower parts only. It is the same test again where the upper parts, which are
the ancestors themselves, agree; from anywhere below the root other nodes pass it as well.
-/

namespace DisputeGame.Position

open Depth

/-- A number halves into another one exactly if its lower and its upper part do. -/
theorem div_two_eq_iff_parts (i j w : Nat) :
    i / 2 = j ↔ i % (2 * w) / 2 = j % w ∧ i / (2 * w) = j / w := by
  rw [Nat.mod_mul_right_div_self, ← Nat.div_div_eq_div_mul]
  constructor
  · intro h
    subst h
    exact ⟨rfl, rfl⟩
  · intro h
    obtain ⟨hlow, hhigh⟩ := h
    rw [← Nat.div_add_mod (i / 2) w, hlow, hhigh, Nat.div_add_mod]

/-- So many steps up drop as many bits of the index. -/
theorem iterate_parent_eq {p : Position} {n : Nat} (hn : n ≤ p.depth) :
    p.iterate parent n = .ok ⟨p.depth - n, p.index / width n⟩ := by
  induction n generalizing p with
  | zero => simp [iterate]
  | succ n ih =>
    have hbelow : p.depth ≠ 0 := by omega
    have hrest := ih (p := ⟨p.depth - 1, p.index / 2⟩) (by change n ≤ p.depth - 1; omega)
    have hdepth : p.depth - 1 - n = p.depth - (n + 1) := by omega
    rw [iterate_succ, parent_eq, if_neg hbelow, ok_bind, hrest, hdepth, width_succ,
      Nat.div_div_eq_div_mul]

theorem rightOf_eq_false_iff {p q : Position} :
    p.rightOf q = false ↔ p.index / 2 = q.index := by
  simp [rightOf, Nat.shiftRight_eq_div_pow]

section Neighbours

variable {p q : Position}

theorem parent_eq_ok (hdepth : p.depth = q.depth + 1) :
    p.parent = .ok q ↔ p.index / 2 = q.index := by
  obtain ⟨depth, index⟩ := q
  change p.depth = depth + 1 at hdepth
  have hbelow : p.depth ≠ 0 := by omega
  have hup : p.depth - 1 = depth := by omega
  rw [parent_eq, if_neg hbelow, hup, Except.ok.injEq, Position.mk.injEq, and_iff_right rfl]

/-- A node has its parent for the only one of which it is a child. -/
theorem parent_eq_ok_iff_child (hp : p.depth ≤ limit) (hdepth : p.depth = q.depth + 1) :
    p.parent = .ok q ↔ q.leftChild = .ok p ∨ q.rightChild = .ok p := by
  constructor
  · intro h
    have hindex := (parent_eq_ok hdepth).mp h
    have hlimit : q.depth < limit := by omega
    obtain ⟨depth, index⟩ := p
    change depth = q.depth + 1 at hdepth
    change index / 2 = q.index at hindex
    rw [leftChild_eq, rightChild_eq, if_pos hlimit, if_pos hlimit]
    simp only [Except.ok.injEq, Position.mk.injEq]
    omega
  · intro h
    rcases h with hleft | hright
    · exact parent_child (s := .left) hleft
    · exact parent_child (s := .right) hright

/-- The test on what an ancestor sees, together with the ancestors, is the test on the nodes. -/
theorem rightOf_eq_false_iff_seen {a : Nat} (hdepth : p.depth = q.depth + 1) (ha : a ≤ q.depth) :
    ∃ pSeen qSeen pTop qTop : Position,
      p.relativeTo a = .ok pSeen ∧ q.relativeTo a = .ok qSeen ∧
      p.iterate parent (p.depth - a) = .ok pTop ∧ pTop.depth = a ∧
      q.iterate parent (q.depth - a) = .ok qTop ∧ qTop.depth = a ∧
      (p.rightOf q = false ↔ pSeen.rightOf qSeen = false ∧ pTop = qTop) := by
  have hp : a ≤ p.depth := by omega
  have hpTop : p.depth - (p.depth - a) = a := Nat.sub_sub_self hp
  have hqTop : q.depth - (q.depth - a) = a := Nat.sub_sub_self ha
  have hlevels : p.depth - a = q.depth - a + 1 := by omega
  refine ⟨_, _, _, _, relativeTo_eq_ok.mpr ⟨hp, rfl⟩, relativeTo_eq_ok.mpr ⟨ha, rfl⟩,
    iterate_parent_eq (Nat.sub_le _ _), hpTop, iterate_parent_eq (Nat.sub_le _ _), hqTop, ?_⟩
  rw [rightOf_eq_false_iff, rightOf_eq_false_iff, Position.mk.injEq, hpTop, hqTop,
    and_iff_right rfl, hlevels, width_succ]
  exact div_two_eq_iff_parts p.index q.index (width (q.depth - a))

end Neighbours

/-- Below the root every index has another one of its level that is the same in its lower part. -/
theorem exists_alike {a d i : Nat} (hpos : 0 < a) (ha : a ≤ d) (hi : i < width d) :
    ∃ j, j < width d ∧ j % width (d - a) = i % width (d - a) ∧ j ≠ i := by
  have hunit := width_pos (d - a)
  have htwo : 2 * width (d - a) ≤ width d := by
    rw [← width_succ]
    exact width_le_width (by omega)
  by_cases hfirst : i < width (d - a)
  · exact ⟨i + width (d - a), by omega, Nat.add_mod_right i _, by omega⟩
  · exact ⟨i - width (d - a), by omega, (Nat.mod_eq_sub_mod (Nat.le_of_not_lt hfirst)).symm,
      by omega⟩

/-- The test tells the children of a node among the nodes of the next level: it fails for those
of which the node is the parent, which are its left and its right child. Seen from an ancestor
the test fails too, and conversely, if the ancestors of both at that depth are one. That this is
needed is shown by any node below the root: from every depth down to it but that of the root
itself there is a node of the next level that looks like a child and is none. -/
theorem rightOf_tells_children :
    (∀ p q : Position, p.Valid → q.Valid → p.depth = q.depth + 1 →
      (p.rightOf q = false ↔ p.parent = .ok q) ∧
      (p.parent = .ok q ↔ q.leftChild = .ok p ∨ q.rightChild = .ok p) ∧
      ∀ a, a ≤ q.depth → ∃ pSeen qSeen pTop qTop : Position,
        p.relativeTo a = .ok pSeen ∧ q.relativeTo a = .ok qSeen ∧
        p.iterate parent (p.depth - a) = .ok pTop ∧ pTop.depth = a ∧
        q.iterate parent (q.depth - a) = .ok qTop ∧ qTop.depth = a ∧
        (p.rightOf q = false ↔ pSeen.rightOf qSeen = false ∧ pTop = qTop)) ∧
    (∀ (q : Position) (a : Nat), q.Valid → q.depth < limit → 0 < a → a ≤ q.depth →
      ∃ p pSeen qSeen : Position, p.Valid ∧ p.depth = q.depth + 1 ∧
        p.relativeTo a = .ok pSeen ∧ q.relativeTo a = .ok qSeen ∧
        pSeen.rightOf qSeen = false ∧ p.rightOf q = true ∧ p.parent ≠ .ok q) := by
  constructor
  · intro p q hp _ hdepth
    refine ⟨?_, parent_eq_ok_iff_child hp.1 hdepth, fun a ha => rightOf_eq_false_iff_seen hdepth ha⟩
    rw [rightOf_eq_false_iff, parent_eq_ok hdepth]
  · intro q a hq hlimit hpos ha
    obtain ⟨j, hj, halike, hne⟩ := exists_alike hpos ha hq.2
    -- the left child of the other node
    let p : Position := ⟨q.depth + 1, 2 * j⟩
    have hhalf : p.index / 2 = j := Nat.mul_div_cancel_left j Nat.two_pos
    have hother : ¬p.rightOf q = false := by
      rw [rightOf_eq_false_iff, hhalf]
      exact hne
    have hlevels : q.depth + 1 - a = q.depth - a + 1 := by omega
    refine ⟨p, _, _, ⟨hlimit, ?_⟩, rfl, relativeTo_eq_ok.mpr ⟨Nat.le_succ_of_le ha, rfl⟩,
      relativeTo_eq_ok.mpr ⟨ha, rfl⟩, ?_, Bool.not_eq_false _ ▸ hother, ?_⟩
    · change 2 * j < width (q.depth + 1)
      rw [width_succ]
      omega
    · rw [rightOf_eq_false_iff]
      change 2 * j % width (q.depth + 1 - a) / 2 = q.index % width (q.depth - a)
      rw [hlevels, width_succ, Nat.mod_mul_right_div_self, Nat.mul_div_cancel_left j Nat.two_pos,
        halike]
    · rw [Ne, parent_eq_ok rfl, ← rightOf_eq_false_iff]
      exact hother

/-- Node 11 is a child of node 5. From depth 1 node 15 looks like a child of node 5 too, for the
two differ in the part that is cut off: one lies below node 3 and the other one below node 2. -/
theorem rightOf_tells_children_eleven :
    (⟨3, 3⟩ : Position).Valid ∧ (⟨2, 1⟩ : Position).Valid ∧
    rightOf ⟨3, 3⟩ ⟨2, 1⟩ = false ∧ parent ⟨3, 3⟩ = .ok ⟨2, 1⟩ ∧
    (leftChild ⟨2, 1⟩ = .ok ⟨3, 3⟩ ∨ rightChild ⟨2, 1⟩ = .ok ⟨3, 3⟩) ∧
    (⟨3, 7⟩ : Position).Valid ∧
    relativeTo ⟨3, 7⟩ 1 = .ok ⟨2, 3⟩ ∧ relativeTo ⟨2, 1⟩ 1 = .ok ⟨1, 1⟩ ∧
    rightOf ⟨2, 3⟩ ⟨1, 1⟩ = false ∧
    (∃ pSeen qSeen pTop qTop : Position,
      relativeTo ⟨3, 7⟩ 1 = .ok pSeen ∧ relativeTo ⟨2, 1⟩ 1 = .ok qSeen ∧
      iterate ⟨3, 7⟩ parent 2 = .ok pTop ∧ pTop.depth = 1 ∧
      iterate ⟨2, 1⟩ parent 1 = .ok qTop ∧ qTop.depth = 1 ∧
      (rightOf ⟨3, 7⟩ ⟨2, 1⟩ = false ↔ pSeen.rightOf qSeen = false ∧ pTop = qTop)) ∧
    iterate ⟨3, 7⟩ parent 2 = .ok ⟨1, 1⟩ ∧ iterate ⟨2, 1⟩ parent 1 = .ok ⟨1, 0⟩ ∧
    2 < limit ∧
    ∃ p pSeen qSeen : Position, p.Valid ∧ p.depth = 3 ∧
      p.relativeTo 1 = .ok pSeen ∧ relativeTo ⟨2, 1⟩ 1 = .ok qSeen ∧
      pSeen.rightOf qSeen = false ∧ p.rightOf ⟨2, 1⟩ = true ∧ p.parent ≠ .ok ⟨2, 1⟩ := by
  obtain ⟨hpairs, hother⟩ := rightOf_tells_children
  have hnode : (⟨2, 1⟩ : Position).Valid := by decide
  have hchild : (⟨3, 3⟩ : Position).Valid := by decide
  have hfar : (⟨3, 7⟩ : Position).Valid := by decide
  have hdeep : (⟨2, 1⟩ : Position).depth < limit := by decide
  have htest : rightOf ⟨3, 3⟩ ⟨2, 1⟩ = false := rfl
  obtain ⟨hparent, hchildren, -⟩ := hpairs _ _ hchild hnode rfl
  obtain ⟨-, -, hseen⟩ := hpairs _ _ hfar hnode rfl
  exact ⟨hchild, hnode, htest, hparent.mp htest, hchildren.mp (hparent.mp htest), hfar, rfl, rfl,
    rfl, hseen 1 (by decide), rfl, rfl, hdeep, hother _ 1 hnode hdeep (by decide) (by decide)⟩

end DisputeGame.Position
