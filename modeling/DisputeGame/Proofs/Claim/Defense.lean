import DisputeGame.Proofs.Game.Runs
import DisputeGame.Proofs.Tree.Numbering

/-!
What the test for a defense finds out. It compares depths and then looks at two bits of
the claim's index, so the index of the claim that is answered plays no part in it: the test
tells whether the claim hangs off the right child of some node as deep as that claim. It is
a test for that claim itself exactly where no other node of its depth will do, and nothing
in a game keeps a claim from hanging off another one.
-/

namespace DisputeGame

open Depth

namespace Position

/-- The parent of `p` is the right child of `q`. -/
def HangsOffRight (p q : Position) : Prop := ∃ r, p.parent = .ok r ∧ q.rightChild = .ok r

theorem hangsOffRight_iff (p q : Position) (hp : p.depth ≤ limit) :
    p.HangsOffRight q ↔ p.depth = q.depth + 2 ∧ p.index / 2 = 2 * q.index + 1 := by
  unfold HangsOffRight
  rw [parent_eq, rightChild_eq]
  constructor
  · intro h
    obtain ⟨r, hparent, hright⟩ := h
    by_cases hroot : p.depth = 0
    · simp [hroot] at hparent
    by_cases hlt : q.depth < limit
    · rw [if_neg hroot] at hparent
      rw [if_pos hlt, ← hparent] at hright
      obtain ⟨hdepth, hindex⟩ := Position.mk.inj (Except.ok.inj hright)
      exact ⟨by omega, hindex.symm⟩
    · simp [hlt] at hright
  · intro h
    obtain ⟨hdepth, hindex⟩ := h
    have hroot : p.depth ≠ 0 := by omega
    have hlt : q.depth < limit := by omega
    have hup : p.depth - 1 = q.depth + 1 := by omega
    exact ⟨⟨q.depth + 1, 2 * q.index + 1⟩, by rw [if_neg hroot, hup, hindex], if_pos hlt⟩

/-- A node off whose right child another one hangs is the only one of this kind. -/
theorem HangsOffRight.unique {p q n : Position} (hp : p.depth ≤ limit)
    (hq : p.HangsOffRight q) (hn : p.HangsOffRight n) : n = q := by
  obtain ⟨hqdepth, hqindex⟩ := (hangsOffRight_iff p q hp).mp hq
  obtain ⟨hndepth, hnindex⟩ := (hangsOffRight_iff p n hp).mp hn
  obtain ⟨depth, index⟩ := n
  obtain ⟨depth', index'⟩ := q
  simp only [Position.mk.injEq] at *
  omega

theorem HangsOffRight.valid {p q : Position} (hp : p.Valid) (h : p.HangsOffRight q) :
    q.Valid := by
  obtain ⟨hdepth, hindex⟩ := (hangsOffRight_iff p q hp.1).mp h
  obtain ⟨hlimit, hwidth⟩ := hp
  rw [hdepth, width_succ, width_succ] at hwidth
  exact ⟨by omega, by omega⟩

end Position

namespace Claim

open Position

/-- From two levels above, two bits of the index are left, and the look is noted. -/
theorem lookFrom_eq (c q : Claim) :
    c.lookFrom q = if c.position.depth = q.position.depth + 2 then
      let seen : Position := ⟨2, c.position.index % 4⟩
      ⟨some seen, [.rerooted c.position q.position.depth seen]⟩ else .silent none := by
  unfold lookFrom
  by_cases hdepth : c.position.depth = q.position.depth + 2
  · have hle : q.position.depth ≤ c.position.depth := by omega
    have hcut : c.position.depth - q.position.depth = 2 := by omega
    have hwidth : width 2 = 4 := rfl
    rw [if_pos hdepth, if_pos hdepth, reroot_eq, if_pos hle, hcut, hwidth]
    rfl
  · rw [if_neg hdepth, if_neg hdepth]

theorem seenFrom?_eq (c q : Claim) :
    c.seenFrom? q = if c.position.depth = q.position.depth + 2 then
      some ⟨2, c.position.index % 4⟩ else none := by
  unfold seenFrom?
  rw [lookFrom_eq]
  split
  · rfl
  · rfl

theorem defends_iff (c q : Claim) :
    c.defends q = true ↔
      c.position.depth = q.position.depth + 2 ∧ c.position.index / 2 % 2 = 1 := by
  have htold : c.defends q = (c.seenFrom? q).any fun p => p.rightOf ⟨1, 0⟩ := rfl
  rw [htold, seenFrom?_eq]
  by_cases hdepth : c.position.depth = q.position.depth + 2
  · have hbit : c.position.index % 4 / 2 ≠ 0 ↔ c.position.index / 2 % 2 = 1 := by omega
    simpa [hdepth, rightOf, Nat.shiftRight_eq_div_pow] using hbit
  · simp [hdepth]

/-- The two bits say of which node of that depth the claim hangs off the right child, not
whether it is the one answered. -/
theorem defends_iff_some_node (c q : Claim) (hc : c.position.Valid) :
    c.defends q = true ↔
      ∃ n : Position, n.depth = q.position.depth ∧ c.position.HangsOffRight n := by
  rw [defends_iff]
  constructor
  · intro h
    obtain ⟨hdepth, hbit⟩ := h
    refine ⟨⟨q.position.depth, c.position.index / 4⟩, rfl, ?_⟩
    apply (hangsOffRight_iff _ _ hc.1).mpr
    refine ⟨hdepth, ?_⟩
    change c.position.index / 2 = 2 * (c.position.index / 4) + 1
    omega
  · intro h
    obtain ⟨n, hn, hhangs⟩ := h
    obtain ⟨hdepth, hindex⟩ := (hangsOffRight_iff _ _ hc.1).mp hhangs
    exact ⟨by omega, by omega⟩

/-- The test accepts a claim that hangs off the right child of any node as deep as the claim
it answers. So it is the test for that claim exactly if no other such node will do. -/
theorem defendsParent_iff_some_node (c q : Claim) (hc : c.position.Valid) :
    (c.defendsParent (some q) = true ↔
      ∃ n : Position, n.Valid ∧ n.depth = q.position.depth ∧ c.position.HangsOffRight n) ∧
    ((c.defendsParent (some q) = true ↔ c.position.HangsOffRight q.position) ↔
      ∀ n : Position, n.depth = q.position.depth → c.position.HangsOffRight n →
        n = q.position) := by
  have htest : c.defendsParent (some q) = true ↔
      ∃ n : Position, n.depth = q.position.depth ∧ c.position.HangsOffRight n :=
    defends_iff_some_node c q hc
  rw [htest]
  refine ⟨⟨?_, ?_⟩, ?_, ?_⟩
  · intro h
    obtain ⟨n, hn, hhangs⟩ := h
    exact ⟨n, hhangs.valid hc, hn, hhangs⟩
  · intro h
    obtain ⟨n, -, hn, hhangs⟩ := h
    exact ⟨n, hn, hhangs⟩
  · intro hagree n hn hhangs
    exact (hagree.mp ⟨n, hn, hhangs⟩).unique hc.1 hhangs
  · intro honly
    constructor
    · intro h
      obtain ⟨n, hn, hhangs⟩ := h
      rw [← honly n hn hhangs]
      exact hhangs
    · intro hhangs
      obtain ⟨hdepth, -⟩ := (hangsOffRight_iff _ _ hc.1).mp hhangs
      exact ⟨q.position, rfl, hhangs⟩

/-- A claim under the right half of the tree against a claim in the left half. -/
theorem defendsParent_iff_some_node_apart :
    (⟨3, 6⟩ : Position).Valid ∧
    (∃ n : Position, n.Valid ∧ n.depth = 1 ∧ HangsOffRight ⟨3, 6⟩ n) ∧
    ((defendsParent ⟨⟨default, ⟨3, 6⟩⟩, 2, 1⟩ (some ⟨⟨default, ⟨1, 0⟩⟩, 1, 0⟩) = true ↔
        HangsOffRight ⟨3, 6⟩ ⟨1, 0⟩) ↔
      ∀ n : Position, n.depth = 1 → HangsOffRight ⟨3, 6⟩ n → n = ⟨1, 0⟩) := by
  have hvalid : (⟨3, 6⟩ : Position).Valid := by decide
  have h := defendsParent_iff_some_node
    ⟨⟨default, ⟨3, 6⟩⟩, 2, 1⟩ ⟨⟨default, ⟨1, 0⟩⟩, 1, 0⟩ hvalid
  exact ⟨hvalid, h.1.mp (by decide), h.2⟩

/-- A game takes in a claim under the right half of the tree as an answer to one in the left
half, and the test then accepts it. -/
theorem defendsParent_of_cousin :
    let top : Claim := ⟨⟨default, ⟨0, 0⟩⟩, 0, 0⟩
    let left : Claim := ⟨⟨default, ⟨1, 0⟩⟩, 1, 0⟩
    let far : Claim := ⟨⟨default, ⟨3, 6⟩⟩, 2, 1⟩
    let g := (Game.empty 3).offerAll [top, left, far]
    g.get? 2 = some far ∧ g.parent? far = some left ∧ g.defendsParent far = true ∧
      far.defendsParent (some left) = true ∧ ¬far.position.HangsOffRight left.position := by
  intro top left far g
  have htop : (Game.empty 3).Accepts top :=
    ⟨by decide, rfl, Game.isDuplicate_empty 3 top, Or.inl rfl⟩
  have hleft : ((Game.empty 3).append top).Accepts left :=
    ⟨by decide, rfl,
      Game.isDuplicate_append_elsewhere (by decide) (Game.isDuplicate_empty 3 left),
      Or.inr (by decide)⟩
  have hfar : (((Game.empty 3).append top).append left).Accepts far :=
    ⟨by decide, rfl, Game.isDuplicate_append_elsewhere (by decide)
      (Game.isDuplicate_append_elsewhere (by decide) (Game.isDuplicate_empty 3 far)),
      Or.inr (by decide)⟩
  have hg : g = (((Game.empty 3).append top).append left).append far := by
    change (((Game.empty 3).offer top).offer left).offer far = _
    rw [Game.offer_of_accepts htop, Game.offer_of_accepts hleft, Game.offer_of_accepts hfar]
  rw [hg]
  refine ⟨rfl, rfl, by decide, by decide, ?_⟩
  rw [hangsOffRight_iff _ _ (by decide)]
  decide

end Claim

end DisputeGame
