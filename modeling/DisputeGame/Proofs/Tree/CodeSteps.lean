import DisputeGame.Proofs.Tree.Rerooting
import DisputeGame.Proofs.Tree.Validity

/-!
Steps as arithmetic on generalized indices. The bit of the depth stands above the index and
moves along with it, so a step does to the generalized index what it does to the index: a child
puts one bit behind it, the parent drops one, and a move sets the last bit for a defense and
leaves it for an attack before it goes on below. The formula holds wherever there is a move,
which is everywhere above the last level but for a defense of the root.
-/

namespace DisputeGame

open Depth

namespace Move

theorem or_one_eq (n : Nat) : n ||| 1 = 2 * (n / 2) + 1 := by
  have hrest : (n ||| 1) / 2 = n / 2 := Nat.or_div_two.trans (Nat.or_zero (n / 2))
  have hlast : (n ||| 1) % 2 = 1 := Nat.or_mod_two_eq_one.mpr (Or.inr rfl)
  omega

/-- The bit that the move sets. -/
def bit : Move → Nat
  | attack => 0
  | defend => 1

theorem descend_eq (m : Move) (n : Nat) : m.descend n = 2 * (n ||| m.bit) := by
  cases m with
  | attack => exact congrArg (2 * ·) (Nat.or_zero n).symm
  | defend => exact congrArg (2 * ·) (or_one_eq n).symm

end Move

namespace Edge

theorem message_inj {e f : Edge} : e.message = f.message ↔ e = f := by
  cases e <;> cases f <;> simp [message]

end Edge

namespace Position

section Codes

variable {p q : Position}

theorem gindex_child {s : Side} (hp : p.Valid) (h : p.child s = .ok q) :
    q.gindex = s.descend p.gindex := by
  have hq := child_valid hp h
  obtain ⟨-, rfl⟩ := child_eq_ok.mp h
  rw [gindex_eq _ hq, gindex_eq p hp]
  change width (p.depth + 1) + s.descend p.index = s.descend (width p.depth + p.index)
  rw [width_succ]
  cases s with
  | left => exact (Nat.mul_add 2 _ _).symm
  | right =>
    simp only [Side.descend]
    omega

theorem gindex_walk {path : List Side} (hp : p.Valid) (h : p.walk path = .ok q) :
    q.gindex = Side.descendAll path p.gindex := by
  induction path generalizing p with
  | nil =>
    cases h
    rfl
  | cons s rest ih =>
    obtain ⟨next, hchild, hrest⟩ := bind_eq_ok.mp h
    rw [ih (child_valid hp hchild) hrest, gindex_child hp hchild, Side.descendAll_cons]

/-- The two refusals exclude each other, since the last level is not the root. -/
theorem play_eq_error (hp : p.Valid) {m : Move} {why : TreeError} :
    p.play m = .error why ↔
      (p.depth = 0 ∧ m = .defend) ∧ why = .invalidNavigation .root ∨
      p.depth = limit ∧ why = .invalidNavigation .deepest := by
  have hlimit : limit ≠ 0 := by decide
  rw [play_outcome]
  by_cases hroot : p.depth = 0 ∧ m = .defend
  · rw [if_pos hroot, Except.error.injEq]
    simp [hroot, hlimit.symm, eq_comm]
  · rw [if_neg hroot]
    by_cases hdepth : p.depth < limit
    · simp [hroot, Nat.ne_of_lt hdepth, hdepth]
    · have hlast : p.depth = limit := Nat.le_antisymm hp.1 (Nat.le_of_not_lt hdepth)
      rw [if_neg hdepth, Except.error.injEq]
      simp [hlast, hlimit, eq_comm]

theorem gindex_play {m : Move} (hp : p.Valid) (h : p.play m = .ok q) :
    q.gindex = m.descend p.gindex := by
  have hq := play_valid hp h
  cases m with
  | attack => exact gindex_child (s := .left) hp h
  | defend =>
    obtain ⟨hroot, -, rfl⟩ := play_eq_ok.mp h
    rw [gindex_eq _ hq, gindex_eq _ hp]
    obtain ⟨depth, index⟩ := p
    -- the bit of the depth is not the last one, since the node lies below the root
    cases depth with
    | zero => exact absurd ⟨rfl, rfl⟩ hroot
    | succ d =>
      simp only [Move.descend, width_succ]
      omega

/-- Where there is a move, it leads to the node that its formula for the index decodes to. -/
theorem play_eq_decode (hp : p.Valid) {m : Move} (hdeep : p.depth < limit)
    (hm : 0 < p.depth ∨ m ≠ .defend) :
    p.play m = .ok (decode (2 * (p.gindex ||| m.bit))) ∧
      (decode (2 * (p.gindex ||| m.bit))).gindex = 2 * (p.gindex ||| m.bit) ∧
      (decode (2 * (p.gindex ||| m.bit))).depth = p.depth + 1 := by
  have hplay := play_eq p m hdeep hm
  have hcode := (gindex_play hp hplay).trans (m.descend_eq p.gindex)
  rw [decode_of_gindex (play_valid hp hplay) hcode]
  exact ⟨hplay, hcode, rfl⟩

theorem attack_eq_decode (hp : p.Valid) (hdeep : p.depth < limit) :
    p.attack = .ok (decode (2 * p.gindex)) ∧ (decode (2 * p.gindex)).gindex = 2 * p.gindex ∧
      (decode (2 * p.gindex)).depth = p.depth + 1 := by
  have hmove := play_eq_decode (m := .attack) hp hdeep (Or.inr nofun)
  have hnoBit : p.gindex ||| Move.attack.bit = p.gindex := Nat.or_zero p.gindex
  rw [hnoBit] at hmove
  exact hmove

theorem defend_eq_decode (hp : p.Valid) (hdeep : p.depth < limit) (hpos : 0 < p.depth) :
    p.defend = .ok (decode (2 * (p.gindex ||| 1))) ∧
      (decode (2 * (p.gindex ||| 1))).gindex = 2 * (p.gindex ||| 1) ∧
      (decode (2 * (p.gindex ||| 1))).depth = p.depth + 1 :=
  play_eq_decode (m := .defend) hp hdeep (Or.inl hpos)

theorem gindex_parent (hp : p.Valid) (h : p.parent = .ok q) : q.gindex = p.gindex / 2 := by
  have hq := parent_valid hp h
  obtain ⟨depth, index⟩ := p
  cases depth with
  | zero => cases h
  | succ d =>
    rw [parent_eq, if_neg (Nat.succ_ne_zero d)] at h
    cases h
    rw [gindex_eq _ hq, gindex_eq _ hp]
    change width d + index / 2 = (width (d + 1) + index) / 2
    rw [width_succ]
    omega

theorem parent_eq_decode (hp : p.Valid) (hpos : 0 < p.depth) :
    p.parent = .ok (decode (p.gindex / 2)) ∧
      (decode (p.gindex / 2)).gindex = p.gindex / 2 ∧
      (decode (p.gindex / 2)).depth = p.depth - 1 := by
  have hparent : p.parent = .ok ⟨p.depth - 1, p.index / 2⟩ := by
    rw [parent_eq, if_neg (Nat.ne_of_gt hpos)]
  have hcode := gindex_parent hp hparent
  rw [decode_of_gindex (parent_valid hp hparent) hcode]
  exact ⟨hparent, hcode, rfl⟩

end Codes

/-- The text of a refusal tells at which edge of the tree it was. -/
theorem play_refused_with (p : Position) (m : Move) (edge : Edge) :
    (∃ e, p.play m = .error (.invalidNavigation e) ∧ e.message = edge.message) ↔
      p.play m = .error (.invalidNavigation edge) := by
  constructor
  · intro h
    obtain ⟨e, hplay, htext⟩ := h
    rw [← Edge.message_inj.mp htext]
    exact hplay
  · intro h
    exact ⟨edge, h, rfl⟩

/-- A move leads from one generalized index to another by one formula: set the last bit for a
defense, and double. It is there unless the position lies at the last level or a defense has
no parent to go up to; these are the only two ways to fail, and the text tells which it was. -/
theorem play_formula (p : Position) (hp : p.Valid) (isAttack : Bool) :
    let move := Move.ofIsAttack isAttack
    ((∃ q, p.play move = .ok q) ↔ p.depth < limit ∧ (isAttack = true ∨ p ≠ root)) ∧
    (∀ q, p.play move = .ok q →
      q.gindex = 2 * (p.gindex ||| if isAttack then 0 else 1) ∧ q.depth = p.depth + 1) ∧
    (∀ why, p.play move = .error why → ∃ edge, why = .invalidNavigation edge) ∧
    ((∃ edge, p.play move = .error (.invalidNavigation edge) ∧
        edge.message = "the root has no parent") ↔ isAttack = false ∧ p = root) ∧
    ((∃ edge, p.play move = .error (.invalidNavigation edge) ∧
        edge.message = "position is already at the maximum depth") ↔ p.depth = limit) := by
  intro move
  have hdefense : p.depth = 0 ∧ move = .defend ↔ isAttack = false ∧ p = root := by
    rw [depth_eq_zero_iff hp, and_comm]
    cases isAttack <;> simp [move, Move.ofIsAttack]
  refine ⟨?_, ?_, ?_, ?_, ?_⟩
  · simp only [play_eq_ok, exists_and_left, exists_eq', and_true, hdefense]
    cases isAttack <;> simp [and_comm]
  · intro q hplay
    have hbit : move.bit = if isAttack then 0 else 1 := by
      cases isAttack <;> rfl
    refine ⟨by rw [gindex_play hp hplay, Move.descend_eq, hbit], ?_⟩
    obtain ⟨-, -, rfl⟩ := play_eq_ok.mp hplay
    rfl
  · intro why hplay
    rcases (play_eq_error hp).mp hplay with ⟨-, hwhy⟩ | ⟨-, hwhy⟩
    · exact ⟨.root, hwhy⟩
    · exact ⟨.deepest, hwhy⟩
  · refine (play_refused_with p move .root).trans ?_
    rw [play_eq_error hp, hdefense]
    simp
  · refine (play_refused_with p move .deepest).trans ?_
    rw [play_eq_error hp]
    simp

/-- The number 6 is answered by 12 and 14. A defense of the root has no parent to go up to, and
a defense at the last level fails only on its way down again. -/
theorem play_formula_six :
    (⟨2, 2⟩ : Position).Valid ∧ gindex ⟨2, 2⟩ = 6 ∧
    (∃ q, play ⟨2, 2⟩ (.ofIsAttack false) = .ok q) ∧
    (∀ q, play ⟨2, 2⟩ (.ofIsAttack false) = .ok q → q.gindex = 14 ∧ q.depth = 3) ∧
    (∀ q, play ⟨2, 2⟩ (.ofIsAttack true) = .ok q → q.gindex = 12 ∧ q.depth = 3) ∧
    root.Valid ∧
    (∃ edge, root.play (.ofIsAttack false) = .error (.invalidNavigation edge) ∧
      edge.message = "the root has no parent") ∧
    (⟨limit, 1⟩ : Position).Valid ∧
    (∃ edge, play ⟨limit, 1⟩ (.ofIsAttack false) = .error (.invalidNavigation edge) ∧
      edge.message = "position is already at the maximum depth") := by
  have hsix : (⟨2, 2⟩ : Position).Valid := by decide
  have hlast : (⟨limit, 1⟩ : Position).Valid :=
    ⟨Nat.le_refl limit, Nat.lt_of_lt_of_le (by decide : 1 < width 1) (width_le_width (by decide))⟩
  obtain ⟨hmoves, hdefense, -⟩ := play_formula ⟨2, 2⟩ hsix false
  obtain ⟨-, hattack, -⟩ := play_formula ⟨2, 2⟩ hsix true
  obtain ⟨-, -, -, hroot, -⟩ := play_formula root root_valid false
  obtain ⟨-, -, -, -, hdeepest⟩ := play_formula ⟨limit, 1⟩ hlast false
  exact ⟨hsix, rfl, hmoves.mpr ⟨by decide, Or.inr (by decide)⟩, hdefense, hattack, root_valid,
    hroot.mpr ⟨rfl, rfl⟩, hlast, hdeepest.mpr rfl⟩

end Position

end DisputeGame
