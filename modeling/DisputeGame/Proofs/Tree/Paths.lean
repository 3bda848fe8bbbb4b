import DisputeGame.Proofs.Tree.Numbering

/-!
Paths of left and right steps. A path from a node ends at the index whose bits are those of
the node followed by one bit for each step. Paths of one length end at different nodes, and
every node of the tree is the end of a path from the root, so the paths of a length are the
nodes of that depth.
-/

namespace DisputeGame

open Depth

/-- The two children of a node. -/
inductive Side
  | left
  | right
  deriving DecidableEq, Repr

namespace Side

/-- The index at the next depth of the child on that side. -/
def descend : Side → Nat → Nat
  | left, i => 2 * i
  | right, i => 2 * i + 1

def descendAll (path : List Side) (i : Nat) : Nat := path.foldl (fun i s => s.descend i) i

theorem descendAll_cons (s : Side) (path : List Side) (i : Nat) :
    descendAll (s :: path) i = descendAll path (s.descend i) := rfl

theorem descendAll_concat (path : List Side) (s : Side) (i : Nat) :
    descendAll (path ++ [s]) i = s.descend (descendAll path i) := by
  simp [descendAll, List.foldl_append]

theorem descend_lt {i w : Nat} (s : Side) (h : i < w) : s.descend i < 2 * w := by
  cases s with
  | left => exact Nat.mul_lt_mul_of_pos_left h Nat.two_pos
  | right =>
    change 2 * i + 1 < 2 * w
    omega

theorem descendAll_lt (path : List Side) {i d : Nat} (h : i < width d) :
    descendAll path i < width (d + path.length) := by
  induction path generalizing i d with
  | nil => exact h
  | cons s rest ih =>
    have hnext : s.descend i < width (d + 1) := by
      rw [width_succ]
      exact s.descend_lt h
    have hlen : d + (s :: rest).length = d + 1 + rest.length := by
      simp only [List.length_cons]
      omega
    rw [descendAll_cons, hlen]
    exact ih hnext

theorem descendAll_zero_lt (path : List Side) : descendAll path 0 < width path.length := by
  have h := descendAll_lt path (width_pos 0)
  rw [Nat.zero_add] at h
  exact h

/-- A path puts the bits of its own behind those of the node where it begins. -/
theorem descendAll_eq (path : List Side) (i : Nat) :
    descendAll path i = i * width path.length + descendAll path 0 := by
  induction path generalizing i with
  | nil => simp [descendAll]
  | cons s rest ih =>
    have hside : s.descend i = 2 * i + s.descend 0 := by
      cases s <;> simp [descend]
    rw [descendAll_cons, descendAll_cons, ih, ih (s.descend 0), hside, List.length_cons,
      width_succ, Nat.add_mul, Nat.add_assoc, Nat.mul_left_comm i, Nat.mul_assoc]

/-- The last bit tells the side, and the others tell the node. -/
theorem descend_inj {s t : Side} {i j : Nat} (h : s.descend i = t.descend j) :
    i = j ∧ s = t := by
  cases s <;> cases t <;> simp only [descend] at h
  · exact ⟨by omega, rfl⟩
  · omega
  · omega
  · exact ⟨by omega, rfl⟩

theorem descendAll_inj {path other : List Side} {i j : Nat}
    (hlen : path.length = other.length) (h : descendAll path i = descendAll other j) :
    i = j ∧ path = other := by
  induction path generalizing other i j with
  | nil =>
    cases other with
    | nil => exact ⟨h, rfl⟩
    | cons t rest => simp at hlen
  | cons s path ih =>
    cases other with
    | nil => simp at hlen
    | cons t other =>
      rw [descendAll_cons, descendAll_cons] at h
      obtain ⟨hnext, hrest⟩ := ih (Nat.succ.inj hlen) h
      obtain ⟨hi, hs⟩ := descend_inj hnext
      exact ⟨hi, by rw [hs, hrest]⟩

/-- Every index of the stretch that lies below a node ends a path from it. -/
theorem exists_descendAll (d i n : Nat) (hlow : i * width d ≤ n)
    (hhigh : n < (i + 1) * width d) : ∃ path, path.length = d ∧ descendAll path i = n := by
  induction d generalizing i with
  | zero =>
    rw [width_zero] at hlow hhigh
    refine ⟨[], rfl, ?_⟩
    change i = n
    omega
  | succ d ih =>
    -- the stretches of the two children are the halves of the one of their parent
    have hhalves : ∀ k, k * width (d + 1) = 2 * k * width d := by
      intro k
      rw [width_succ, Nat.mul_left_comm, Nat.mul_assoc]
    rw [hhalves] at hlow hhigh
    by_cases hside : n < (2 * i + 1) * width d
    · obtain ⟨path, hlen, hend⟩ := ih (2 * i) hlow hside
      exact ⟨left :: path, by simp [hlen], hend⟩
    · obtain ⟨path, hlen, hend⟩ := ih (2 * i + 1) (Nat.le_of_not_lt hside) hhigh
      exact ⟨right :: path, by simp [hlen], hend⟩

end Side

namespace Position

open Side

def child (p : Position) : Side → Except TreeError Position
  | .left => p.leftChild
  | .right => p.rightChild

/-- Follows a path downwards. -/
def walk (p : Position) : List Side → Except TreeError Position
  | [] => .ok p
  | s :: rest => do
    let next ← p.child s
    next.walk rest

/-- Takes the same step again and again. -/
def iterate (p : Position) (step : Position → Except TreeError Position) :
    Nat → Except TreeError Position
  | 0 => .ok p
  | n + 1 => do
    let next ← step p
    next.iterate step n

theorem iterate_succ (p : Position) (step : Position → Except TreeError Position) (n : Nat) :
    p.iterate step (n + 1) = step p >>= (·.iterate step n) := rfl

theorem child_eq (p : Position) (s : Side) :
    p.child s = if p.depth < limit then .ok ⟨p.depth + 1, s.descend p.index⟩
      else .error (.invalidNavigation .deepest) := by
  cases s with
  | left => exact leftChild_eq p
  | right => exact rightChild_eq p

theorem child_eq_ok {p q : Position} {s : Side} :
    p.child s = .ok q ↔
      p.depth < limit ∧ (⟨p.depth + 1, s.descend p.index⟩ : Position) = q := by
  rw [child_eq, guard_eq_ok, Except.ok.injEq]

theorem parent_child {p q : Position} {s : Side} (h : p.child s = .ok q) :
    q.parent = .ok p := by
  obtain ⟨-, rfl⟩ := child_eq_ok.mp h
  have hindex : s.descend p.index / 2 = p.index := by
    cases s <;> simp only [descend] <;> omega
  simp [parent_eq, hindex]

theorem walk_cons (p : Position) (s : Side) (path : List Side) :
    p.walk (s :: path) = p.child s >>= (·.walk path) := rfl

theorem walk_append (p : Position) (path rest : List Side) :
    p.walk (path ++ rest) = (p.walk path >>= (·.walk rest)) := by
  induction path generalizing p with
  | nil => rfl
  | cons s path ih =>
    calc
      p.walk (s :: path ++ rest) = p.child s >>= fun q => q.walk (path ++ rest) := rfl
      _ = p.child s >>= fun q => q.walk path >>= (·.walk rest) := by simp only [ih]
      _ = p.walk (s :: path) >>= (·.walk rest) := (bind_assoc ..).symm

theorem walk_concat (p : Position) (path : List Side) (s : Side) :
    p.walk (path ++ [s]) = (p.walk path >>= (·.child s)) := by
  have hlast : ∀ q : Position, q.walk [s] = q.child s := fun q => bind_pure (q.child s)
  simp only [walk_append, hlast]

/-- A path goes one level down with every step, and fails only below the last level. -/
theorem walk_eq (p : Position) (path : List Side) (hp : p.depth ≤ limit) :
    p.walk path = if p.depth + path.length ≤ limit then
        .ok ⟨p.depth + path.length, descendAll path p.index⟩
      else .error (.invalidNavigation .deepest) := by
  induction path generalizing p with
  | nil => exact (if_pos hp).symm
  | cons s rest ih =>
    have hlen : p.depth + (s :: rest).length = p.depth + 1 + rest.length := by
      simp only [List.length_cons]
      omega
    rw [walk_cons, child_eq, hlen, descendAll_cons]
    by_cases hdepth : p.depth < limit
    · rw [if_pos hdepth, ok_bind]
      exact ih ⟨p.depth + 1, s.descend p.index⟩ hdepth
    · have hdeep : ¬p.depth + 1 + rest.length ≤ limit := by omega
      rw [if_neg hdepth, if_neg hdeep, error_bind]

theorem walk_root_eq_ok {path : List Side} {p : Position} :
    root.walk path = .ok p ↔
      path.length ≤ limit ∧ (⟨path.length, descendAll path 0⟩ : Position) = p := by
  rw [walk_eq root path (Nat.zero_le limit), guard_eq_ok, Except.ok.injEq]
  simp only [root, Nat.zero_add]

theorem walk_root_inj {path other : List Side} {p : Position} (h : root.walk path = .ok p)
    (hother : root.walk other = .ok p) : path = other := by
  obtain ⟨-, hp⟩ := walk_root_eq_ok.mp h
  obtain ⟨-, hp'⟩ := walk_root_eq_ok.mp hother
  obtain ⟨hlen, hindex⟩ := Position.mk.inj (hp.trans hp'.symm)
  exact (descendAll_inj hlen hindex).2

theorem exists_walk_root (p : Position) (hp : p.Valid) : ∃ path, root.walk path = .ok p := by
  have hindex : p.index < (0 + 1) * width p.depth := by
    rw [Nat.zero_add, Nat.one_mul]
    exact hp.2
  obtain ⟨path, hlen, hend⟩ := exists_descendAll p.depth 0 p.index (by simp) hindex
  refine ⟨path, walk_root_eq_ok.mpr ⟨hlen ▸ hp.1, ?_⟩⟩
  rw [hlen, hend]

end Position

end DisputeGame
