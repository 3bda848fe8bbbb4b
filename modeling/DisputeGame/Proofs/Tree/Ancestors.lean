import DisputeGame.Proofs.Tree.CodeSteps
import DisputeGame.Proofs.Tree.Expansion

/-!
Ancestors, and what they see of the nodes below them. Every node is the end of a path from each
of its ancestors, and as many steps up lead back. An ancestor sees the node at the end of the
same path from the root: the part of the path above the ancestor is dropped, which leaves the
lower bits of the index. Together the two parts are the whole generalized index, and parts
dropped one after the other are dropped at once.
-/

namespace DisputeGame

open Depth

namespace Side

theorem descendAll_mod (path : List Side) (i : Nat) :
    descendAll path i % width path.length = descendAll path 0 := by
  rw [descendAll_eq, Nat.mul_add_mod', Nat.mod_eq_of_lt (descendAll_zero_lt path)]

end Side

namespace Position

section Upwards

variable {top p : Position}

/-- As many steps up as a path is long lead back to where it began. -/
theorem iterate_parent_walk {path : List Side} (h : top.walk path = .ok p) :
    p.iterate parent path.length = .ok top := by
  -- the last step down is the first one to be undone
  induction path using List.reverseRecOn generalizing p with
  | nil =>
    cases h
    rfl
  | append_singleton path s ih =>
    rw [walk_concat] at h
    obtain ⟨q, hwalk, hchild⟩ := bind_eq_ok.mp h
    rw [List.length_append, List.length_singleton, iterate_succ, parent_child hchild, ok_bind]
    exact ih hwalk

/-- The path to a node leads through its ancestor at each depth above it. -/
theorem exists_walk_from_ancestor (hp : p.Valid) {a : Nat} (ha : a ≤ p.depth) :
    ∃ (top : Position) (path : List Side), top.Valid ∧ top.depth = a ∧
      path.length = p.depth - a ∧ top.walk path = .ok p := by
  have hwalk := walk_root_path p hp
  rw [← List.take_append_drop a p.path, walk_append] at hwalk
  obtain ⟨top, htop, hrest⟩ := bind_eq_ok.mp hwalk
  refine ⟨top, p.path.drop a, walk_valid root_valid htop, ?_, ?_, hrest⟩
  · obtain ⟨-, rfl⟩ := walk_root_eq_ok.mp htop
    rw [List.length_take, length_path]
    exact Nat.min_eq_left ha
  · rw [List.length_drop, length_path]

end Upwards

/-- Seen from where it begins, a path is the same path from the root. -/
theorem walk_relativeTo {top : Position} {path : List Side}
    (hdepth : top.depth + path.length ≤ limit) :
    (top.walk path >>= (·.relativeTo top.depth)) = root.walk path := by
  have htop : top.depth ≤ limit := by omega
  have hlen : path.length ≤ limit := by omega
  have hroot := walk_root_eq_ok.mpr ⟨hlen, rfl⟩
  rw [walk_eq top path htop, if_pos hdepth, ok_bind, relativeTo_eq, if_pos (Nat.le_add_right ..),
    hroot]
  simp only [Nat.add_sub_cancel_left, Side.descendAll_mod]

theorem relativeTo_eq_error {p : Position} {a : Nat} {why : TreeError} :
    p.relativeTo a = .error why ↔ p.depth < a ∧ why = .depthTooSmall a p.depth := by
  rw [relativeTo_eq, guard_eq_error, Nat.not_le, eq_comm (a := why)]
  simp

/-- Two looks, the second one from inside the first, are one. -/
theorem relativeTo_relativeTo {p : Position} {a b : Nat} (h : a + b ≤ p.depth) :
    (p.relativeTo a >>= (·.relativeTo b)) = p.relativeTo (a + b) := by
  have ha : a ≤ p.depth := by omega
  have hb : b ≤ p.depth - a := by omega
  have hdvd : width (p.depth - a - b) ∣ width (p.depth - a) := by
    refine ⟨width b, ?_⟩
    rw [← width_add, Nat.sub_add_cancel hb]
  rw [relativeTo_eq p a, if_pos ha, ok_bind, relativeTo_eq, if_pos hb, relativeTo_eq p (a + b),
    if_pos h, ← Nat.sub_sub]
  simp only [Nat.mod_mod_of_dvd _ hdvd]

theorem exists_relativeTo_relativeTo_iff {p : Position} {a b : Nat} :
    (∃ q, (p.relativeTo a >>= (·.relativeTo b)) = .ok q) ↔ a + b ≤ p.depth := by
  constructor
  · intro h
    obtain ⟨q, h⟩ := h
    obtain ⟨r, hfirst, hsecond⟩ := bind_eq_ok.mp h
    obtain ⟨ha, rfl⟩ := relativeTo_eq_ok.mp hfirst
    obtain ⟨hb, -⟩ := relativeTo_eq_ok.mp hsecond
    change b ≤ p.depth - a at hb
    omega
  · intro h
    rw [relativeTo_relativeTo h]
    exact ⟨_, relativeTo_eq_ok.mpr ⟨h, rfl⟩⟩

/-- A node is its ancestor at a depth and what this one sees of it, one part of the number of the
node behind the other. -/
theorem exists_ancestor_and_rest {p : Position} (hp : p.Valid) {a : Nat} (ha : a ≤ p.depth) :
    ∃ top seen : Position, p.iterate parent (p.depth - a) = .ok top ∧ top.depth = a ∧
      p.relativeTo a = .ok seen ∧
      p.gindex = top.gindex * width (p.depth - a) + seen.index := by
  obtain ⟨top, path, htop, rfl, hlen, hwalk⟩ := exists_walk_from_ancestor hp ha
  have hdepth : top.depth + path.length ≤ limit := by
    have hlimit := hp.1
    omega
  have hseen : p.relativeTo top.depth = root.walk path := by
    rw [← walk_relativeTo hdepth, hwalk, ok_bind]
  obtain ⟨seen, hlook⟩ : ∃ seen, p.relativeTo top.depth = .ok seen :=
    ⟨_, relativeTo_eq_ok.mpr ⟨ha, rfl⟩⟩
  refine ⟨top, seen, ?_, rfl, hlook, ?_⟩
  · rw [← hlen]
    exact iterate_parent_walk hwalk
  · obtain ⟨-, rfl⟩ := walk_root_eq_ok.mp (hseen.symm.trans hlook)
    rw [gindex_walk htop hwalk, Side.descendAll_eq, hlen]

/-- A look from an ancestor drops the path down to it. What is left of a node is the rest of its
path, in number the remainder of its index, whether or not the index has bits to cut off; the
generalized index is that of the ancestor followed by what is left. A second look is taken from
inside the first one, and the only way to fail is an ancestor below the node. -/
theorem relativeTo_drops_path :
    (∀ (top : Position) (path : List Side), top.Valid → top.depth + path.length ≤ limit →
      ∃ seen, (top.walk path >>= (·.relativeTo top.depth)) = .ok seen ∧
        root.walk path = .ok seen) ∧
    (∀ (p : Position) (a : Nat), p.Valid → a ≤ p.depth →
      ∃ seen top : Position, p.relativeTo a = .ok seen ∧ seen.depth = p.depth - a ∧
        seen.index = p.index % width (p.depth - a) ∧
        (bitCount p.index ≤ p.depth - a → seen.index = p.index) ∧
        p.iterate parent (p.depth - a) = .ok top ∧ top.depth = a ∧
        p.gindex = top.gindex * width (p.depth - a) + seen.index) ∧
    (∀ (p : Position) (a b : Nat),
      ((∃ q, (p.relativeTo a >>= (·.relativeTo b)) = .ok q) ↔ a + b ≤ p.depth) ∧
      (a + b ≤ p.depth → (p.relativeTo a >>= (·.relativeTo b)) = p.relativeTo (a + b))) ∧
    (∀ (p : Position) (a : Nat) (why : TreeError),
      p.relativeTo a = .error why ↔ p.depth < a ∧ why = .depthTooSmall a p.depth) := by
  refine ⟨?_, ?_, fun p a b => ⟨exists_relativeTo_relativeTo_iff, relativeTo_relativeTo⟩,
    fun p a why => relativeTo_eq_error⟩
  · intro top path _ hdepth
    have hlen : path.length ≤ limit := by omega
    have hroot := walk_root_eq_ok.mpr ⟨hlen, rfl⟩
    exact ⟨_, (walk_relativeTo hdepth).trans hroot, hroot⟩
  · intro p a hp ha
    obtain ⟨top, seen, hup, hdepth, hlook, hcode⟩ := exists_ancestor_and_rest hp ha
    obtain ⟨-, hseen⟩ := relativeTo_eq_ok.mp hlook
    refine ⟨seen, top, hlook, ?_, ?_, ?_, hup, hdepth, hcode⟩
    · rw [← hseen]
    · rw [← hseen]
    · intro hfits
      rw [← hseen]
      exact Nat.mod_eq_of_lt ((bitCount_le_iff _ _).mp hfits)

/-- Node 1011 as its ancestor 10 two levels up sees it, which is node 11 of the level below the
root. Looking down one level and then two is looking down three; five levels are too many. -/
theorem relativeTo_drops_path_eleven :
    (⟨2, 2⟩ : Position).Valid ∧ 2 + [Side.right, .right].length ≤ limit ∧
    walk ⟨2, 2⟩ [.right, .right] = .ok ⟨4, 11⟩ ∧
    (∃ seen, (walk ⟨2, 2⟩ [.right, .right] >>= (·.relativeTo 2)) = .ok seen ∧
      root.walk [.right, .right] = .ok seen) ∧
    (⟨4, 11⟩ : Position).Valid ∧
    (∃ seen top : Position, relativeTo ⟨4, 11⟩ 2 = .ok seen ∧ seen.depth = 2 ∧ seen.index = 3 ∧
      (bitCount 11 ≤ 2 → seen.index = 11) ∧
      iterate ⟨4, 11⟩ parent 2 = .ok top ∧ top.depth = 2 ∧
      gindex ⟨4, 11⟩ = top.gindex * width 2 + seen.index) ∧
    (relativeTo ⟨4, 11⟩ 1 >>= (·.relativeTo 2)) = relativeTo ⟨4, 11⟩ 3 ∧
    relativeTo ⟨4, 11⟩ 5 = .error (.depthTooSmall 5 4) := by
  obtain ⟨hpath, hlook, htwice, hfail⟩ := relativeTo_drops_path
  have htop : (⟨2, 2⟩ : Position).Valid := by decide
  have hnode : (⟨4, 11⟩ : Position).Valid := by decide
  have hdepth : 2 + [Side.right, .right].length ≤ limit := by decide
  exact ⟨htop, hdepth, rfl, hpath ⟨2, 2⟩ _ htop hdepth, hnode, hlook _ 2 hnode (by decide),
    (htwice _ 1 2).2 (by decide), (hfail _ 5 _).mpr ⟨by decide, rfl⟩⟩

end Position

end DisputeGame
