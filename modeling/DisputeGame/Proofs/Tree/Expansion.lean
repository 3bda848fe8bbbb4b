import DisputeGame.Proofs.Tree.Validity
import Mathlib.Data.List.Induction

/-!
The path to a node as its address. A step puts one bit behind the index of the node, so the
path from the root to a node is its index in binary: one digit for each level, the highest
first. No other path leads there. A step down from the node is one more digit and the step up
takes the last one off. Paths fail only below the last level, and only the root has no parent.
-/

namespace DisputeGame

open Depth

namespace Side

def ofBit (bit : Bool) : Side := if bit then right else left

/-- A number in binary, in as many digits as asked for and the highest first. -/
def expansion (digits n : Nat) : List Side :=
  List.ofFn fun k : Fin digits => ofBit (n.testBit (digits - 1 - k))

theorem length_expansion (digits n : Nat) : (expansion digits n).length = digits :=
  List.length_ofFn

theorem getElem?_expansion {digits k : Nat} (n : Nat) (hk : k < digits) :
    (expansion digits n)[k]? = some (ofBit (n.testBit (digits - 1 - k))) := by
  simp [expansion, hk]

theorem expansion_succ (digits n : Nat) :
    expansion (digits + 1) n = expansion digits (n / 2) ++ [ofBit (n.testBit 0)] := by
  unfold expansion
  rw [List.ofFn_succ_last]
  congr 1
  · apply congrArg List.ofFn
    funext k
    have hplace : digits + 1 - 1 - k.castSucc.val = digits - 1 - k.val + 1 := by
      have hk := k.isLt
      rw [Fin.val_castSucc]
      omega
    rw [hplace, Nat.testBit_succ]
  · simp

/-- A step down writes its side behind the digits of the node. -/
theorem expansion_descend (digits i : Nat) (s : Side) :
    expansion (digits + 1) (s.descend i) = expansion digits i ++ [s] := by
  have hrest : s.descend i / 2 = i := by
    cases s <;> simp only [descend] <;> omega
  have hlast : ofBit ((s.descend i).testBit 0) = s := by
    cases s <;> simp [descend, ofBit, Nat.testBit_zero]
  rw [expansion_succ, hrest, hlast]

/-- A path from the root is the expansion of the index where it ends. -/
theorem expansion_descendAll (path : List Side) :
    expansion path.length (descendAll path 0) = path := by
  -- the digits of the last steps stand last, so the path is taken apart from its end
  induction path using List.reverseRecOn with
  | nil => rfl
  | append_singleton path s ih =>
    rw [descendAll_concat, List.length_append, List.length_singleton, expansion_descend, ih]

end Side

namespace Position

open Side

/-- The path from the root to a node. -/
def path (p : Position) : List Side := expansion p.depth p.index

theorem length_path (p : Position) : p.path.length = p.depth :=
  length_expansion p.depth p.index

theorem getElem?_path (p : Position) (k : Nat) (hk : k < p.depth) :
    p.path[k]? = some (ofBit (p.index.testBit (p.depth - 1 - k))) :=
  getElem?_expansion p.index hk

theorem walk_root_path (p : Position) (hp : p.Valid) : root.walk p.path = .ok p := by
  obtain ⟨path, hwalk⟩ := exists_walk_root p hp
  obtain ⟨-, rfl⟩ := walk_root_eq_ok.mp hwalk
  have hpath := expansion_descendAll path
  exact (congrArg root.walk hpath).trans hwalk

/-- The parent of a node below the root lies one step up its path. -/
theorem walk_dropLast {p : Position} {path : List Side} (hne : path ≠ [])
    (h : root.walk path = .ok p) :
    ∃ q, root.walk path.dropLast = .ok q ∧ p.parent = .ok q := by
  rw [← List.dropLast_concat_getLast hne, walk_concat] at h
  obtain ⟨q, hwalk, hchild⟩ := bind_eq_ok.mp h
  exact ⟨q, hwalk, parent_child hchild⟩

theorem walk_root_of_length_le {path : List Side} (hlen : path.length ≤ limit) :
    ∃ p : Position, root.walk path = .ok p ∧ p.Valid :=
  ⟨_, walk_root_eq_ok.mpr ⟨hlen, rfl⟩, hlen, descendAll_zero_lt path⟩

/-- Nodes and paths from the root stand for each other. A node is the end of exactly one path,
which is its index in binary and as long as the node is deep; every path that stays above the
last level ends at a node. The children are the ends of the paths with one more step, and the
parent is the end of the path without its last one. Below the last level and above the root
there is nothing. -/
theorem paths_address_nodes :
    (∀ p : Position, p.Valid →
      (∃! path, root.walk path = .ok p) ∧ root.walk p.path = .ok p ∧
        p.path.length = p.depth ∧
        ∀ k, k < p.depth → p.path[k]? = some (.ofBit (p.index.testBit (p.depth - 1 - k)))) ∧
    (∀ path : List Side, path.length ≤ limit →
      ∃ p : Position, root.walk path = .ok p ∧ p.Valid ∧
        root.walk (path ++ [.left]) = p.leftChild ∧
        root.walk (path ++ [.right]) = p.rightChild) ∧
    (∀ p : Position, p.Valid → p ≠ root →
      ∃ q, root.walk p.path.dropLast = .ok q ∧ p.parent = .ok q) ∧
    (∀ p q : Position, p.leftChild = .ok q ∨ p.rightChild = .ok q → q.parent = .ok p) ∧
    (∀ path : List Side, limit < path.length →
      root.walk path = .error (.invalidNavigation .deepest)) ∧
    (∀ p : Position, p.depth = limit →
      p.leftChild = .error (.invalidNavigation .deepest) ∧
        p.rightChild = .error (.invalidNavigation .deepest)) ∧
    root.parent = .error (.invalidNavigation .root) := by
  refine ⟨?_, ?_, ?_, ?_, ?_, ?_, rfl⟩
  · intro p hp
    have hwalk := walk_root_path p hp
    exact ⟨⟨p.path, hwalk, fun path h => walk_root_inj h hwalk⟩, hwalk, length_path p,
      getElem?_path p⟩
  · intro path hlen
    obtain ⟨p, hwalk, hp⟩ := walk_root_of_length_le hlen
    refine ⟨p, hwalk, hp, ?_, ?_⟩
    · rw [walk_concat, hwalk, ok_bind]
      rfl
    · rw [walk_concat, hwalk, ok_bind]
      rfl
  · intro p hp hne
    have hwalk := walk_root_path p hp
    refine walk_dropLast ?_ hwalk
    intro hnil
    rw [hnil] at hwalk
    exact hne (Except.ok.inj hwalk).symm
  · intro p q h
    rcases h with hleft | hright
    · exact parent_child (s := .left) hleft
    · exact parent_child (s := .right) hright
  · intro path hlen
    have hdeep : ¬root.depth + path.length ≤ limit := by
      change ¬0 + path.length ≤ limit
      omega
    rw [walk_eq root path (Nat.zero_le limit), if_neg hdeep]
  · intro p hp
    have hdeep : ¬p.depth < limit := by omega
    rw [leftChild_eq, rightChild_eq, if_neg hdeep, if_neg hdeep]
    exact ⟨rfl, rfl⟩

/-- The sixth node of its level is 101 in binary; its parent is 10. One step more than there
are levels leads nowhere. -/
theorem paths_address_nodes_five :
    (⟨3, 5⟩ : Position).Valid ∧ (⟨3, 5⟩ : Position) ≠ root ∧
    path ⟨3, 5⟩ = [.right, .left, .right] ∧
    (∃! path, root.walk path = .ok ⟨3, 5⟩) ∧
    (∃ q, root.walk [.right, .left] = .ok q ∧ parent ⟨3, 5⟩ = .ok q) ∧
    [Side.right, .left].length ≤ limit ∧
    (∃ p : Position, root.walk [.right, .left] = .ok p ∧ p.Valid ∧
      root.walk [.right, .left, .left] = p.leftChild ∧
      root.walk [.right, .left, .right] = p.rightChild) ∧
    rightChild ⟨2, 2⟩ = .ok ⟨3, 5⟩ ∧ parent ⟨3, 5⟩ = .ok ⟨2, 2⟩ ∧
    root.walk (List.replicate (limit + 1) .left) = .error (.invalidNavigation .deepest) ∧
    leftChild ⟨limit, 1⟩ = .error (.invalidNavigation .deepest) := by
  obtain ⟨hnode, hpath, hparent, hchild, hlong, hlast, -⟩ := paths_address_nodes
  have hvalid : (⟨3, 5⟩ : Position).Valid := by decide
  have hne : (⟨3, 5⟩ : Position) ≠ root := by decide
  have hright : rightChild ⟨2, 2⟩ = .ok ⟨3, 5⟩ := rfl
  have hdeep : limit < (List.replicate (limit + 1) Side.left).length := by
    rw [List.length_replicate]
    exact Nat.lt_succ_self limit
  exact ⟨hvalid, hne, rfl, (hnode _ hvalid).1, hparent _ hvalid hne, by decide,
    hpath _ (by decide), hright, hchild _ _ (Or.inr hright), hlong _ hdeep, (hlast _ rfl).1⟩

end Position

end DisputeGame
