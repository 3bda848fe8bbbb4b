import DisputeGame.Proofs.Claim.Defense
import DisputeGame.Proofs.Tree.Rerooting
import Mathlib.Data.List.Basic

/-!
The test for a defense as a test of one bit, and the lines of moves that pass it. Two levels
below the claim that is answered the test asks for the last bit but one of the index, whatever
the index of the answered claim is. An attack leaves that bit clear and a defense sets it. So
of the lines of moves from a claim exactly those pass which are two moves long and end with a
defense, and no single move does.
-/

namespace DisputeGame.Claim

open Depth Position

/-- From two levels above, the depth test does not let the look fail, and the bit is the upper
one of the two that are left of the index. -/
theorem defends_iff_seen {c q : Claim} (hdepth : c.position.depth = q.position.depth + 2) :
    ∃ seen, c.position.relativeTo q.position.depth = .ok seen ∧ seen.depth = 2 ∧
      (c.defends q = true ↔ seen.index = 2 ∨ seen.index = 3) := by
  have hcut : c.position.depth - q.position.depth = 2 := by omega
  have hlook : c.position.relativeTo q.position.depth = .ok ⟨2, c.position.index % 4⟩ := by
    apply relativeTo_eq_ok.mpr
    refine ⟨by omega, ?_⟩
    rw [hcut]
    rfl
  refine ⟨_, hlook, rfl, ?_⟩
  rw [defends_iff, and_iff_right hdepth]
  change _ ↔ c.position.index % 4 = 2 ∨ c.position.index % 4 = 3
  omega

/-- The test asks one bit of the claim and the depth of the other claim, and nothing else. -/
theorem defends_congr_depth {c q q' : Claim} (hdepth : q'.position.depth = q.position.depth) :
    c.defends q' = c.defends q := by
  rw [Bool.eq_iff_iff, defends_iff, defends_iff, hdepth]

theorem even_descend (m : Move) (i : Nat) : m.descend i % 2 = 0 := by
  cases m with
  | attack => exact Nat.mul_mod_right 2 i
  | defend => exact Nat.mul_mod_right 2 _

/-- From a left child a defense sets the bit and an attack leaves it clear. -/
theorem descend_bit (m : Move) {i : Nat} (heven : i % 2 = 0) :
    m.descend i / 2 % 2 = 1 ↔ m = .defend := by
  cases m with
  | attack =>
    simp only [Move.descend, reduceCtorEq, iff_false]
    omega
  | defend =>
    simp only [Move.descend, iff_true]
    omega

/-- A line from a claim leads to one that defends it exactly if it is two moves long and the
second move is a defense. -/
theorem defends_iff_line {c q : Claim} {ms : List Move}
    (hplay : q.position.playAll ms = .ok c.position) :
    c.defends q = true ↔ ∃ m, ms = [m, .defend] := by
  rw [defends_iff, eq_of_playAll hplay]
  constructor
  · intro h
    obtain ⟨hdepth, hbit⟩ := h
    obtain ⟨m, n, rfl⟩ := List.length_eq_two.mp (Nat.add_left_cancel hdepth)
    have hlast := (descend_bit n (even_descend m q.position.index)).mp hbit
    exact ⟨m, by rw [hlast]⟩
  · intro h
    obtain ⟨m, rfl⟩ := h
    exact ⟨rfl, (descend_bit .defend (even_descend m q.position.index)).mpr rfl⟩

/-- The test for a defense is the test of one bit. A claim passes it exactly if it lies two
levels below the other claim and the last bit but one of its index is set; the look from above
then succeeds, and the two bits that it leaves are 2 or 3. Of the other claim only the depth
counts. So an attack that is followed by a defense passes, one that is followed by an attack
does not, and no line of another length does, in particular no single move. -/
theorem defendsParent_tests_bit :
    (∀ c q : Claim, c.position.Valid → q.position.Valid →
      (c.defendsParent (some q) = true ↔
        c.position.depth = q.position.depth + 2 ∧ c.position.index / 2 % 2 = 1) ∧
      (c.position.depth = q.position.depth + 2 →
        ∃ seen, c.position.relativeTo q.position.depth = .ok seen ∧ seen.depth = 2 ∧
          (c.defendsParent (some q) = true ↔ seen.index = 2 ∨ seen.index = 3)) ∧
      ∀ q' : Claim, q'.position.depth = q.position.depth →
        c.defendsParent (some q') = c.defendsParent (some q)) ∧
    (∀ p : Position, p.depth + 2 ≤ limit →
      ∃ answered attacked, (p.attack >>= (·.defend)) = .ok answered ∧
        (p.attack >>= (·.attack)) = .ok attacked ∧
        ∀ c q : Claim, q.position = p →
          (c.position = answered → c.defendsParent (some q) = true) ∧
          (c.position = attacked → c.defendsParent (some q) = false)) ∧
    (∀ (c q : Claim) (ms : List Move), q.position.playAll ms = .ok c.position →
      (c.defendsParent (some q) = true ↔ ∃ m, ms = [m, .defend])) ∧
    (∀ (c q : Claim) (m : Move), q.position.play m = .ok c.position →
      c.defendsParent (some q) = false) := by
  refine ⟨?_, ?_, fun c q ms hplay => defends_iff_line hplay, ?_⟩
  · intro c q _ _
    exact ⟨defends_iff c q, defends_iff_seen, fun q' hdepth => defends_congr_depth hdepth⟩
  · intro p hdepth
    obtain ⟨answered, hanswered⟩ := exists_playAll_attack p .defend hdepth
    obtain ⟨attacked, hattacked⟩ := exists_playAll_attack p .attack hdepth
    refine ⟨answered, attacked, ?_, ?_, ?_⟩
    · rw [← hanswered, playAll_pair]
      rfl
    · rw [← hattacked, playAll_pair]
      rfl
    intro c q hq
    subst hq
    constructor
    · intro hc
      exact (defends_iff_line (hc ▸ hanswered)).mpr ⟨.attack, rfl⟩
    · intro hc
      apply Bool.eq_false_iff.mpr
      intro h
      obtain ⟨m, hline⟩ := (defends_iff_line (hc ▸ hattacked)).mp h
      cases hline
  · intro c q m hplay
    rw [← playAll_singleton] at hplay
    apply Bool.eq_false_iff.mpr
    intro h
    obtain ⟨n, hline⟩ := (defends_iff_line hplay).mp h
    cases hline

/-- The claim at node 26 defends the one at node 6, for the two bits of 26 below it are 10, and
one at node 5 would do as well. A single move from there does not pass. -/
theorem defendsParent_tests_bit_six :
    let below : Claim := ⟨⟨default, ⟨4, 10⟩⟩, 2, 1⟩
    let upper : Claim := ⟨⟨default, ⟨2, 2⟩⟩, 1, 0⟩
    let cousin : Claim := ⟨⟨default, ⟨2, 1⟩⟩, 3, 0⟩
    let near : Claim := ⟨⟨default, ⟨3, 2⟩⟩, 4, 3⟩
    below.position.Valid ∧ upper.position.Valid ∧
    (below.defendsParent (some upper) = true ↔ 4 = 2 + 2 ∧ 10 / 2 % 2 = 1) ∧
    (∃ seen, below.position.relativeTo 2 = .ok seen ∧ seen.depth = 2 ∧
      (below.defendsParent (some upper) = true ↔ seen.index = 2 ∨ seen.index = 3)) ∧
    cousin.position.depth = upper.position.depth ∧
    below.defendsParent (some cousin) = below.defendsParent (some upper) ∧
    upper.position.depth + 2 ≤ limit ∧ (attack ⟨2, 2⟩ >>= (·.defend)) = .ok below.position ∧
    below.defendsParent (some upper) = true ∧
    playAll ⟨2, 2⟩ [.attack, .defend] = .ok below.position ∧
    (below.defendsParent (some upper) = true ↔ ∃ m, [Move.attack, .defend] = [m, .defend]) ∧
    play ⟨2, 1⟩ .defend = .ok near.position ∧ near.defendsParent (some cousin) = false := by
  intro below upper cousin near
  obtain ⟨hbit, hpairs, hlines, hmoves⟩ := defendsParent_tests_bit
  have hbelow : below.position.Valid := by decide
  have hupper : upper.position.Valid := by decide
  have hdeep : upper.position.depth + 2 ≤ limit := by decide
  have hpair : (attack ⟨2, 2⟩ >>= (·.defend)) = .ok ⟨4, 10⟩ := rfl
  have hline : playAll ⟨2, 2⟩ [.attack, .defend] = .ok ⟨4, 10⟩ := rfl
  have hmove : play ⟨2, 1⟩ .defend = .ok ⟨3, 2⟩ := rfl
  obtain ⟨htest, hseen, hdepth⟩ := hbit below upper hbelow hupper
  obtain ⟨answered, attacked, hanswered, -, hclaims⟩ := hpairs ⟨2, 2⟩ hdeep
  have hend : below.position = answered := Except.ok.inj (hpair.symm.trans hanswered)
  exact ⟨hbelow, hupper, htest, hseen rfl, rfl, hdepth cousin rfl, hdeep, hpair,
    (hclaims below upper rfl).1 hend, hline, hlines below upper _ hline, hmove,
    hmoves near cousin .defend hmove⟩

end DisputeGame.Claim
