import DisputeGame.Proofs.Tree.Validity
import DisputeGame.Proofs.Tree.Rerooting
import Mathlib.Data.List.Basic
import Mathlib.Data.Set.Function

/-!
Lines of moves from the root. The first move can only be an attack and leads to a left
child. From a left child both moves lead to a left child again: an attack to the one below
the left child of the same parent, a defense to the one below the right child. So a line
behind its first attack is a path of the parents, one level above the line, and lines from
the root stand for the left children as paths stand for the nodes.
-/

namespace DisputeGame

open Depth

namespace Move

/-- The child of the parent below which the move goes on. -/
def side : Move → Side
  | attack => .left
  | defend => .right

theorem side_injective : Function.Injective side := by
  intro m n h
  cases m <;> cases n
  · rfl
  · cases h
  · cases h
  · rfl

theorem side_surjective : Function.Surjective side := by
  intro s
  cases s with
  | left => exact ⟨attack, rfl⟩
  | right => exact ⟨defend, rfl⟩

end Move

namespace Position

open Move

theorem leftChild_eq_ok {p q : Position} :
    p.leftChild = .ok q ↔ p.depth < limit ∧ (⟨p.depth + 1, 2 * p.index⟩ : Position) = q := by
  rw [leftChild_eq, guard_eq_ok, Except.ok.injEq]

theorem leftChild_inj {p p' q : Position} (h : p.leftChild = .ok q)
    (h' : p'.leftChild = .ok q) : p = p' := by
  obtain ⟨depth, index⟩ := p
  obtain ⟨depth', index'⟩ := p'
  obtain ⟨-, hq⟩ := leftChild_eq_ok.mp h
  obtain ⟨-, hq'⟩ := leftChild_eq_ok.mp h'
  simp only [← hq', Position.mk.injEq] at hq ⊢
  omega

theorem parent_leftChild {p q : Position} (h : p.leftChild = .ok q) : q.parent = .ok p :=
  parent_child (s := .left) h

theorem leftChild_parent {p q : Position} (hp : p.depth ≤ limit) (heven : p.index % 2 = 0)
    (h : p.parent = .ok q) : q.leftChild = .ok p := by
  obtain ⟨depth, index⟩ := p
  cases depth with
  | zero => cases h
  | succ d =>
    rw [parent_eq, if_neg (Nat.succ_ne_zero d)] at h
    cases h
    refine leftChild_eq_ok.mpr ⟨hp, ?_⟩
    have hindex : 2 * (index / 2) = index := Nat.mul_div_cancel' (Nat.dvd_of_mod_eq_zero heven)
    simp [hindex]

/-- A move from a left child leads to the left child below one of the two siblings. -/
theorem leftChild_play (p : Position) (m : Move) :
    (p.leftChild >>= (·.play m)) = (p.child m.side >>= (·.leftChild)) := by
  cases m with
  | attack => rfl
  | defend =>
    change (p.leftChild >>= (·.defend)) = (p.rightChild >>= (·.leftChild))
    by_cases hdepth : p.depth < limit
    · have hleft := leftChild_eq_ok.mpr ⟨hdepth, rfl⟩
      rw [hleft, ok_bind]
      unfold defend
      rw [parent_leftChild hleft, ok_bind]
    · rw [leftChild_eq, rightChild_eq, if_neg hdepth, if_neg hdepth, error_bind, error_bind]

/-- So a line from a left child is the path that its moves choose for the parent. -/
theorem leftChild_playAll (p : Position) (ms : List Move) :
    (p.leftChild >>= (·.playAll ms)) = (p.walk (ms.map side) >>= (·.leftChild)) := by
  induction ms generalizing p with
  | nil => exact bind_pure p.leftChild
  | cons m rest ih =>
    calc
      (p.leftChild >>= (·.playAll (m :: rest)))
        = p.leftChild >>= (·.play m) >>= (·.playAll rest) := (bind_assoc ..).symm
      _ = p.child m.side >>= (·.leftChild) >>= (·.playAll rest) := by rw [leftChild_play]
      _ = p.child m.side >>= fun q => q.leftChild >>= (·.playAll rest) := bind_assoc ..
      _ = p.child m.side >>= fun q => q.walk (rest.map side) >>= (·.leftChild) := by
        simp only [ih]
      _ = p.walk ((m :: rest).map side) >>= (·.leftChild) := (bind_assoc ..).symm

theorem playAll_root_attack (rest : List Move) :
    root.playAll (.attack :: rest) = (root.walk (rest.map side) >>= (·.leftChild)) :=
  leftChild_playAll root rest

theorem playAll_root_defend (rest : List Move) :
    root.playAll (.defend :: rest) = .error (.invalidNavigation .root) := rfl

/-- A line of at least one move leads from the root exactly to the left child of the node at
the end of its path. -/
theorem playAll_root_eq_ok {ms : List Move} {p : Position} (hne : ms ≠ []) :
    root.playAll ms = .ok p ↔
      ∃ rest q, ms = .attack :: rest ∧ root.walk (rest.map side) = .ok q ∧
        q.leftChild = .ok p := by
  constructor
  · intro h
    match ms, hne with
    | .attack :: rest, _ =>
      rw [playAll_root_attack] at h
      obtain ⟨q, hwalk, hleft⟩ := bind_eq_ok.mp h
      exact ⟨rest, q, rfl, hwalk, hleft⟩
    | .defend :: rest, _ =>
      rw [playAll_root_defend] at h
      cases h
  · intro h
    obtain ⟨rest, q, rfl, hwalk, hleft⟩ := h
    rw [playAll_root_attack]
    exact bind_eq_ok.mpr ⟨q, hwalk, hleft⟩

theorem even_of_playAll_root {ms : List Move} {p : Position} (hne : ms ≠ [])
    (h : root.playAll ms = .ok p) : 0 < p.depth ∧ p.index % 2 = 0 := by
  obtain ⟨rest, q, -, -, hleft⟩ := (playAll_root_eq_ok hne).mp h
  obtain ⟨-, rfl⟩ := leftChild_eq_ok.mp hleft
  exact ⟨Nat.succ_pos q.depth, Nat.mul_mod_right 2 q.index⟩

theorem playAll_root_depth {ms : List Move} {p : Position} (h : root.playAll ms = .ok p) :
    p.depth = ms.length := by
  rw [eq_of_playAll h]
  exact Nat.zero_add ms.length

theorem playAll_root_inj {ms ns : List Move} {p : Position} (hm : root.playAll ms = .ok p)
    (hn : root.playAll ns = .ok p) : ms = ns := by
  have hlen : ms.length = ns.length := by
    rw [← playAll_root_depth hm, playAll_root_depth hn]
  by_cases hne : ms = []
  · subst hne
    exact (List.length_eq_zero_iff.mp hlen.symm).symm
  · have hne' : ns ≠ [] := by
      intro hnil
      subst hnil
      exact hne (List.length_eq_zero_iff.mp hlen)
    obtain ⟨rest, q, rfl, hwalk, hleft⟩ := (playAll_root_eq_ok hne).mp hm
    obtain ⟨rest', q', rfl, hwalk', hleft'⟩ := (playAll_root_eq_ok hne').mp hn
    rw [leftChild_inj hleft' hleft] at hwalk'
    have hpaths := walk_root_inj hwalk hwalk'
    rw [List.map_injective_iff.mpr side_injective hpaths]

/-- Only the last level ends a line that begins with an attack. -/
theorem playAll_root_of_attack {ms : List Move} (hhead : ms.head? = some .attack)
    (hlen : ms.length ≤ limit) :
    ∃ p : Position, root.playAll ms = .ok p ∧ p.Valid ∧ p.depth = ms.length ∧
      p.index % 2 = 0 := by
  have hfirst : ms.head? ≠ some .defend := by
    rw [hhead]
    exact nofun
  have hne : ms ≠ [] := by
    intro hnil
    subst hnil
    cases hhead
  have hroom : root.depth + ms.length ≤ limit := by
    change 0 + ms.length ≤ limit
    omega
  have hplay := playAll_eq root ms hroom (Or.inr hfirst)
  exact ⟨_, hplay, playAll_valid root_valid hplay, playAll_root_depth hplay,
    (even_of_playAll_root hne hplay).2⟩

theorem exists_playAll_root (p : Position) (hp : p.Valid) (hpos : 0 < p.depth)
    (heven : p.index % 2 = 0) : ∃ rest, root.playAll (.attack :: rest) = .ok p := by
  obtain ⟨q, hparent⟩ : ∃ q, p.parent = .ok q := by
    rw [parent_eq, if_neg (Nat.ne_of_gt hpos)]
    exact ⟨_, rfl⟩
  obtain ⟨path, hwalk⟩ := exists_walk_root q (parent_valid hp hparent)
  obtain ⟨rest, rfl⟩ := List.map_surjective_iff.mpr side_surjective path
  refine ⟨rest, ?_⟩
  rw [playAll_root_attack]
  exact bind_eq_ok.mpr ⟨q, hwalk, leftChild_parent hp.1 heven hparent⟩

/-- The lines of a length that begin with an attack lead to the left children at that depth,
each to one of its own, and no other line leads there. A line that begins with a defense
fails with its first move. -/
theorem playAll_root_bijOn (d : Nat) (hpos : 1 ≤ d) (hlimit : d ≤ limit) :
    Set.BijOn root.playAll {ms | ms.length = d ∧ ms.head? = some .attack}
      (Except.ok '' {p | p.Valid ∧ p.depth = d ∧ p.index % 2 = 0}) ∧
    (∀ p : Position, p.Valid → p.depth = d → p.index % 2 = 0 →
      ∃! ms, root.playAll ms = .ok p) ∧
    ∀ rest, root.play .defend = .error (.invalidNavigation .root) ∧
      root.playAll (.defend :: rest) = .error (.invalidNavigation .root) := by
  have hreached : ∀ p : Position, p.Valid → p.depth = d → p.index % 2 = 0 →
      ∃ rest, root.playAll (.attack :: rest) = .ok p := by
    intro p hp hdepth heven
    exact exists_playAll_root p hp (hdepth ▸ hpos) heven
  refine ⟨⟨?_, ?_, ?_⟩, ?_, fun rest => ⟨rfl, playAll_root_defend rest⟩⟩
  · intro ms hms
    obtain ⟨hlen, hhead⟩ := hms
    obtain ⟨p, hplay, hp, hdepth, heven⟩ := playAll_root_of_attack hhead (hlen ▸ hlimit)
    exact ⟨p, ⟨hp, hdepth.trans hlen, heven⟩, hplay.symm⟩
  · intro ms hms ns _ heq
    obtain ⟨p, hplay, -⟩ := playAll_root_of_attack hms.2 (hms.1 ▸ hlimit)
    exact playAll_root_inj hplay (heq ▸ hplay)
  · intro r hr
    obtain ⟨p, ⟨hp, hdepth, heven⟩, rfl⟩ := hr
    obtain ⟨rest, hplay⟩ := hreached p hp hdepth heven
    exact ⟨.attack :: rest, ⟨(playAll_root_depth hplay).symm.trans hdepth, rfl⟩, hplay⟩
  · intro p hp hdepth heven
    obtain ⟨rest, hplay⟩ := hreached p hp hdepth heven
    exact ⟨_, hplay, fun ns hns => playAll_root_inj hns hplay⟩

/-- The lines of three moves, and the one that leads to the third left child of that level. -/
theorem playAll_root_bijOn_three :
    1 ≤ 3 ∧ 3 ≤ limit ∧
    Set.BijOn root.playAll {ms | ms.length = 3 ∧ ms.head? = some .attack}
      (Except.ok '' {p | p.Valid ∧ p.depth = 3 ∧ p.index % 2 = 0}) ∧
    (⟨3, 4⟩ : Position).Valid ∧ (∃! ms, root.playAll ms = .ok ⟨3, 4⟩) ∧
    root.playAll [.attack, .defend, .attack] = .ok ⟨3, 4⟩ := by
  have hlimit : 3 ≤ limit := by decide
  have hvalid : (⟨3, 4⟩ : Position).Valid := by decide
  have h := playAll_root_bijOn 3 (by decide) hlimit
  exact ⟨by decide, hlimit, h.1, hvalid, h.2.1 _ hvalid rfl rfl, rfl⟩

end Position

end DisputeGame
