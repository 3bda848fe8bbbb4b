import DisputeGame.Proofs.Tree.Numbering

/-!
Lines of moves seen from an ancestor. A move takes an index to another one whatever
the depth is, and cutting the upper bits off commutes with it as long as one bit is
left for a defense to go up by. A line may therefore be played before or after the
look from an ancestor; from the position itself the line has to begin with an attack.
-/

namespace DisputeGame

open Depth

namespace Move

/-- The index at the next depth that the move leads to. -/
def descend : Move → Nat → Nat
  | attack, i => 2 * i
  | defend, i => 2 * (2 * (i / 2) + 1)

def descendAll (ms : List Move) (i : Nat) : Nat := ms.foldl (fun i m => m.descend i) i

theorem descendAll_cons (m : Move) (ms : List Move) (i : Nat) :
    descendAll (m :: ms) i = descendAll ms (m.descend i) := rfl

/-- A move looks at the index without its upper bits as it does at the whole index, if at
least one bit is kept. -/
theorem descend_mod (m : Move) (i d : Nat) :
    m.descend i % width (d + 2) = m.descend (i % width (d + 1)) := by
  cases m with
  | attack =>
    simp only [descend]
    rw [width_succ (d + 1), Nat.mul_mod_mul_left]
  | defend =>
    -- a defense aims at the last one of two siblings
    have hlast : ∀ k, 2 * k + 1 = (k + 1) * 2 - 1 := by
      intro k
      omega
    simp only [descend]
    rw [width_succ (d + 1), Nat.mul_mod_mul_left, width_succ d, hlast, hlast,
      Nat.mul_comm 2 (width d), last_mod_mul _ _ _ Nat.two_pos, Nat.mul_comm (width d),
      Nat.mod_mul_right_div_self]

theorem descendAll_mod (ms : List Move) (i d : Nat) :
    descendAll ms i % width (d + 1 + ms.length) = descendAll ms (i % width (d + 1)) := by
  induction ms generalizing i d with
  | nil => rfl
  | cons m rest ih =>
    have hlen : d + 1 + (m :: rest).length = d + 1 + 1 + rest.length := by
      simp only [List.length_cons]
      omega
    rw [descendAll_cons, descendAll_cons, hlen, ih, descend_mod]

end Move

namespace Position

open Move

/-- What comes of a move, at both edges of the tree and between them. -/
theorem play_outcome (p : Position) (m : Move) :
    p.play m = if p.depth = 0 ∧ m = .defend then .error (.invalidNavigation .root)
      else if p.depth < limit then .ok ⟨p.depth + 1, m.descend p.index⟩
      else .error (.invalidNavigation .deepest) := by
  cases m with
  | attack =>
    have hedge : ¬(p.depth = 0 ∧ Move.attack = .defend) := fun h => nomatch h.2
    change p.leftChild = _
    rw [leftChild_eq, if_neg hedge]
    rfl
  | defend =>
    change p.defend = _
    rw [defend_eq]
    simp only [and_true]
    rfl

theorem play_eq_ok {p q : Position} {m : Move} :
    p.play m = .ok q ↔ ¬(p.depth = 0 ∧ m = .defend) ∧ p.depth < limit ∧
      (⟨p.depth + 1, m.descend p.index⟩ : Position) = q := by
  rw [play_outcome]
  by_cases hroot : p.depth = 0 ∧ m = .defend
  · rw [if_pos hroot]
    exact ⟨nofun, fun h => absurd hroot h.1⟩
  · rw [if_neg hroot, guard_eq_ok, Except.ok.injEq]
    exact (and_iff_right hroot).symm

theorem play_eq (p : Position) (m : Move) (hdepth : p.depth < limit)
    (hm : 0 < p.depth ∨ m ≠ .defend) : p.play m = .ok ⟨p.depth + 1, m.descend p.index⟩ := by
  refine play_eq_ok.mpr ⟨?_, hdepth, rfl⟩
  intro h
  rcases hm with hpos | hne
  · exact absurd h.1 (Nat.ne_of_gt hpos)
  · exact hne h.2

theorem play_defend_root (i : Nat) :
    play ⟨0, i⟩ .defend = .error (.invalidNavigation .root) := rfl

theorem playAll_cons (p : Position) (m : Move) (ms : List Move) :
    p.playAll (m :: ms) = p.play m >>= (·.playAll ms) := rfl

theorem playAll_singleton (p : Position) (m : Move) : p.playAll [m] = p.play m :=
  bind_pure (p.play m)

theorem playAll_pair (p : Position) (m n : Move) :
    p.playAll [m, n] = (p.play m >>= (·.play n)) := by
  simp only [playAll_cons p, playAll_singleton]

/-- A line goes one level down with every move, and fails only where it would leave the tree:
below the last level, or by a defense of the root, which can only be its first move. -/
theorem playAll_eq (p : Position) (ms : List Move) (hdepth : p.depth + ms.length ≤ limit)
    (hfirst : 0 < p.depth ∨ ms.head? ≠ some .defend) :
    p.playAll ms = .ok ⟨p.depth + ms.length, descendAll ms p.index⟩ := by
  induction ms generalizing p with
  | nil => rfl
  | cons m rest ih =>
    simp only [List.length_cons] at hdepth ⊢
    have hm : 0 < p.depth ∨ m ≠ .defend := by
      simpa only [List.head?_cons, ne_eq, Option.some.injEq] using hfirst
    have hplay := play_eq p m (by omega) hm
    have hrest := ih ⟨p.depth + 1, m.descend p.index⟩
      (by change p.depth + 1 + rest.length ≤ limit; omega) (Or.inl (Nat.succ_pos _))
    rw [playAll_cons, hplay, ok_bind, hrest, descendAll_cons]
    congr 2
    change p.depth + 1 + rest.length = _
    omega

/-- Behind an attack every second move is there, if the tree goes down so far. -/
theorem exists_playAll_attack (p : Position) (m : Move) (hdepth : p.depth + 2 ≤ limit) :
    ∃ q, p.playAll [.attack, m] = .ok q :=
  ⟨_, playAll_eq p [.attack, m] hdepth (Or.inr (by simp))⟩

/-- A line that succeeds has gone one level down with every move. -/
theorem eq_of_playAll {p q : Position} {ms : List Move} (h : p.playAll ms = .ok q) :
    q = ⟨p.depth + ms.length, descendAll ms p.index⟩ := by
  induction ms generalizing p with
  | nil =>
    cases h
    rfl
  | cons m rest ih =>
    obtain ⟨next, hplay, hrest⟩ := bind_eq_ok.mp h
    obtain ⟨-, -, rfl⟩ := play_eq_ok.mp hplay
    have hlen : p.depth + 1 + rest.length = p.depth + (rest.length + 1) := by omega
    rw [ih hrest, descendAll_cons, List.length_cons, ← hlen]

theorem relativeTo_depth (p : Position) : p.relativeTo p.depth = .ok root := by
  rw [relativeTo_eq, if_pos (Nat.le_refl _)]
  simp [Nat.mod_one, root]

/-- An attack leads to the left child of the root as seen from the attacked position. -/
theorem attack_relativeTo_depth (p : Position) :
    relativeTo ⟨p.depth + 1, Move.attack.descend p.index⟩ p.depth = .ok ⟨1, 0⟩ := by
  have hcut : p.depth + 1 - p.depth = 1 := by omega
  have hwidth : width 1 = 2 := rfl
  rw [relativeTo_eq, if_pos (Nat.le_succ _), hcut, hwidth]
  simp [descend]

/-- The position after a line and after the look from an ancestor strictly above it. -/
theorem playAll_relativeTo_eq (p : Position) (a : Nat) (ms : List Move) (ha : a < p.depth)
    (hdepth : p.depth + ms.length ≤ limit) :
    ∃ result, (p.playAll ms >>= (·.relativeTo a)) = .ok result ∧
      (p.relativeTo a >>= (·.playAll ms)) = .ok result := by
  obtain ⟨d, hd⟩ : ∃ d, p.depth = a + (d + 1) := ⟨p.depth - a - 1, by omega⟩
  refine ⟨⟨d + 1 + ms.length, descendAll ms (p.index % width (d + 1))⟩, ?_, ?_⟩
  · have hle : a ≤ p.depth + ms.length := by omega
    have hcut : p.depth + ms.length - a = d + 1 + ms.length := by omega
    rw [playAll_eq p ms hdepth (Or.inl (by omega)), ok_bind, relativeTo_eq]
    simp only [hle, if_true, hcut, descendAll_mod]
  · have hcut : p.depth - a = d + 1 := by omega
    rw [relativeTo_eq, if_pos (Nat.le_of_lt ha), ok_bind, hcut]
    exact playAll_eq ⟨d + 1, _⟩ ms (by change d + 1 + ms.length ≤ limit; omega)
      (Or.inl (Nat.succ_pos d))

/-- Playing a line and looking at its end from an ancestor leads to the same position as
looking first and playing then. From the position itself, which is the root as seen from
there, a line that begins with a defense has no first move. -/
theorem playAll_relativeTo (p : Position) (a : Nat) (ms : List Move)
    (hdepth : p.depth + ms.length ≤ limit) :
    (a < p.depth →
      ∃ result, (p.playAll ms >>= (·.relativeTo a)) = .ok result ∧
        (p.relativeTo a >>= (·.playAll ms)) = .ok result) ∧
    (a = p.depth → p.relativeTo a = .ok root ∧
      ((ms = [] ∨ ∃ rest, ms = .attack :: rest) →
        ∃ result, (p.playAll ms >>= (·.relativeTo a)) = .ok result ∧
          (p.relativeTo a >>= (·.playAll ms)) = .ok result) ∧
      ∀ rest, ms = .defend :: rest →
        (p.relativeTo a >>= (·.playAll ms)) = .error (.invalidNavigation .root)) := by
  refine ⟨fun ha => playAll_relativeTo_eq p a ms ha hdepth, fun ha => ?_⟩
  subst a
  refine ⟨relativeTo_depth p, ?_, ?_⟩
  · intro hms
    rcases hms with rfl | ⟨rest, rfl⟩
    · exact ⟨root, relativeTo_depth p, by rw [relativeTo_depth]; rfl⟩
    · -- after the attack the ancestor lies strictly above
      simp only [List.length_cons] at hdepth
      have hattack := play_eq p .attack (by omega) (Or.inr nofun)
      obtain ⟨result, hleft, hright⟩ :=
        playAll_relativeTo_eq ⟨p.depth + 1, Move.attack.descend p.index⟩ p.depth rest
          (Nat.lt_succ_self _) (by change p.depth + 1 + rest.length ≤ limit; omega)
      refine ⟨result, ?_, ?_⟩
      · rw [playAll_cons, hattack, ok_bind]
        exact hleft
      · have hseen := attack_relativeTo_depth p
        rw [hseen, ok_bind] at hright
        rw [relativeTo_depth, ok_bind]
        exact hright
  · intro rest hms
    subst ms
    rw [relativeTo_depth, ok_bind, playAll_cons]
    change (play ⟨0, 0⟩ .defend >>= _) = _
    rw [play_defend_root, error_bind]

theorem playAll_relativeTo_below_five :
    (⟨3, 5⟩ : Position).depth + [Move.defend, .attack, .defend].length ≤ limit ∧
    (∃ result,
      (playAll ⟨3, 5⟩ [.defend, .attack, .defend] >>= (·.relativeTo 2)) = .ok result ∧
        (relativeTo ⟨3, 5⟩ 2 >>= (·.playAll [.defend, .attack, .defend])) = .ok result) ∧
    (relativeTo ⟨3, 5⟩ 3 >>= (·.playAll [.defend, .attack, .defend])) =
      .error (.invalidNavigation .root) := by
  have hdepth : (⟨3, 5⟩ : Position).depth + [Move.defend, .attack, .defend].length ≤ limit := by
    decide
  have habove := playAll_relativeTo ⟨3, 5⟩ 2 [.defend, .attack, .defend] hdepth
  have hhere := playAll_relativeTo ⟨3, 5⟩ 3 [.defend, .attack, .defend] hdepth
  exact ⟨hdepth, habove.1 (by decide), (hhere.2 rfl).2.2 _ rfl⟩

end Position

end DisputeGame
