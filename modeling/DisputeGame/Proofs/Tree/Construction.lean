import DisputeGame.Proofs.Tree.Validity

/-!
A position made from its two numbers, and the code that is joined from the same two. Making a
position checks the index against the width of the depth; joining sets the bit of the depth in
the index and checks nothing but the depth. On the nodes of the tree the two agree: the joined
code is the generalized index, and it is read as the node again. An index that does not fit has
its own bits at the place of the bit of the depth or above, so its code is that of another node
or of none.
-/

namespace DisputeGame.Position

open Depth

section

variable {depth index : Nat}

theorem make_eq_ok {p : Position} :
    make depth index = .ok p ↔ p.Valid ∧ (⟨depth, index⟩ : Position) = p := by
  constructor
  · intro h
    have hp := make_valid h
    rw [make_eq, guard_eq_ok, guard_eq_ok] at h
    exact ⟨hp, Except.ok.inj h.2.2⟩
  · intro h
    obtain ⟨hp, rfl⟩ := h
    exact make_of_valid hp

theorem make_eq_error {why : TreeError} :
    make depth index = .error why ↔
      (limit < depth ∧ .overflow (.depth depth) = why) ∨
      (depth ≤ limit ∧ width depth ≤ index ∧ .indexOutOfRange depth index = why) := by
  rw [make_eq, guard_eq_error, guard_eq_error, Nat.not_le, Nat.not_lt]
  simp

theorem joinGindex_eq (depth index : Nat) :
    joinGindex depth index = if depth ≤ limit then .ok (gindex ⟨depth, index⟩)
      else .error (.overflow (.depth depth)) := by
  unfold joinGindex supportedWidth ensureSupported
  by_cases hlimit : depth ≤ limit
  · simp only [hlimit, if_true, ok_bind]
    rfl
  · simp only [hlimit, if_false, error_bind]

theorem joinGindex_eq_ok {g : Nat} :
    joinGindex depth index = .ok g ↔ depth ≤ limit ∧ gindex ⟨depth, index⟩ = g := by
  rw [joinGindex_eq, guard_eq_ok, Except.ok.injEq]

theorem joinGindex_eq_error {why : TreeError} :
    joinGindex depth index = .error why ↔ limit < depth ∧ .overflow (.depth depth) = why := by
  rw [joinGindex_eq, guard_eq_error, Nat.not_le]
  simp

end

section

variable {p : Position}

/-- What is no node has a code that is read as something else or is too wide: whatever is read
from a code is a node. -/
theorem ofGindex_gindex_apart (hp : ¬p.Valid) :
    (∃ q, ofGindex p.gindex = .ok q ∧ q ≠ p) ∨
    ∃ what : Overflow, what.target = "Position" ∧ ofGindex p.gindex = .error (.overflow what) := by
  by_cases hg : p.gindex < gindexLimit
  · have hread : ofGindex p.gindex = .ok (decode p.gindex) := by
      rw [ofGindex_eq, if_pos hg]
    refine Or.inl ⟨decode p.gindex, hread, ?_⟩
    intro hsame
    apply hp
    rw [← hsame]
    exact ofGindex_valid hread
  · refine Or.inr ⟨.position (bitCount p.gindex), rfl, ?_⟩
    rw [ofGindex_eq, if_neg hg]

end

/-- Two numbers make a position exactly if the code joined from them is read as the same two
numbers, and that code is then the generalized index of the position. An unsupported depth makes
neither a position nor a code, and for the same cause; there is no other cause to refuse a code.
At a supported depth just the indices from the width on are refused, with the two numbers; they
do have a code, but it is read as another node or is too wide to be read. -/
theorem make_iff_reads_back (depth index : Nat) :
    ((∃ p, make depth index = .ok p) ↔
      ∃ g p, joinGindex depth index = .ok g ∧ ofGindex g = .ok p ∧
        p.depth = depth ∧ p.index = index) ∧
    (∀ p, make depth index = .ok p → joinGindex depth index = .ok p.gindex) ∧
    ((∃ why, joinGindex depth index = .error why) ↔ limit < depth) ∧
    (∀ why, joinGindex depth index = .error why → make depth index = .error why ∧
      ∃ what : Overflow, what.target = "Depth" ∧ why = .overflow what) ∧
    (depth ≤ limit → ∀ why, make depth index = .error why ↔
      width depth ≤ index ∧ why = .indexOutOfRange depth index) ∧
    (depth ≤ limit → width depth ≤ index → ∃ g, joinGindex depth index = .ok g ∧
      ((∃ p, ofGindex g = .ok p ∧ p ≠ ⟨depth, index⟩) ∨
        ∃ what : Overflow, what.target = "Position" ∧ ofGindex g = .error (.overflow what))) := by
  refine ⟨?_, ?_, ?_, ?_, ?_, ?_⟩
  · constructor
    · intro h
      obtain ⟨p, hmake⟩ := h
      obtain ⟨hp, rfl⟩ := make_eq_ok.mp hmake
      exact ⟨_, _, joinGindex_eq_ok.mpr ⟨hp.1, rfl⟩, ofGindex_gindex hp, rfl, rfl⟩
    · intro h
      obtain ⟨g, p, -, hread, rfl, rfl⟩ := h
      exact ⟨p, make_of_valid (ofGindex_valid hread)⟩
  · intro p hmake
    obtain ⟨hp, rfl⟩ := make_eq_ok.mp hmake
    exact joinGindex_eq_ok.mpr ⟨hp.1, rfl⟩
  · simp only [joinGindex_eq_error, exists_and_left, exists_eq', and_true]
  · intro why hwhy
    obtain ⟨hdeep, rfl⟩ := joinGindex_eq_error.mp hwhy
    exact ⟨make_eq_error.mpr (Or.inl ⟨hdeep, rfl⟩), _, rfl, rfl⟩
  · intro hlimit why
    have hshallow : ¬limit < depth := Nat.not_lt.mpr hlimit
    rw [make_eq_error, eq_comm (a := why)]
    simp only [hshallow, hlimit, false_and, true_and, false_or]
  · intro hlimit hwide
    refine ⟨_, joinGindex_eq_ok.mpr ⟨hlimit, rfl⟩, ofGindex_gindex_apart ?_⟩
    intro hvalid
    exact absurd hvalid.2 (Nat.not_lt.mpr hwide)

/-- Node 5 of depth 3 has the code 13. At depth 2 the index 5 does not fit: its own bit covers
the bit of the depth, so the code is 5, which is node 1. Past the last level nothing is made. -/
theorem make_iff_reads_back_five :
    make 3 5 = .ok ⟨3, 5⟩ ∧ joinGindex 3 5 = .ok 13 ∧
    (∃ g p, joinGindex 3 5 = .ok g ∧ ofGindex g = .ok p ∧ p.depth = 3 ∧ p.index = 5) ∧
    2 ≤ limit ∧ width 2 ≤ 5 ∧ make 2 5 = .error (.indexOutOfRange 2 5) ∧
    joinGindex 2 5 = .ok 5 ∧ ofGindex 5 = .ok ⟨2, 1⟩ ∧
    (∃ g, joinGindex 2 5 = .ok g ∧ ((∃ p, ofGindex g = .ok p ∧ p ≠ ⟨2, 5⟩) ∨
      ∃ what : Overflow, what.target = "Position" ∧ ofGindex g = .error (.overflow what))) ∧
    limit < limit + 1 ∧
    ∃ why, joinGindex (limit + 1) 0 = .error why ∧ make (limit + 1) 0 = .error why := by
  obtain ⟨hmade, hcode, -, -, -, -⟩ := make_iff_reads_back 3 5
  obtain ⟨-, -, -, -, hrefused, hother⟩ := make_iff_reads_back 2 5
  obtain ⟨-, -, hdeep, hcause, -, -⟩ := make_iff_reads_back (limit + 1) 0
  have hnode : make 3 5 = .ok ⟨3, 5⟩ := rfl
  have hlimit : 2 ≤ limit := by decide
  have hwide : width 2 ≤ 5 := by decide
  have hindex : make 2 5 = .error (.indexOutOfRange 2 5) :=
    (hrefused hlimit _).mpr ⟨hwide, rfl⟩
  obtain ⟨why, hwhy⟩ := hdeep.mpr (Nat.lt_succ_self limit)
  exact ⟨hnode, hcode _ hnode, hmade.mp ⟨_, hnode⟩, hlimit, hwide, hindex, rfl, rfl,
    hother hlimit hwide, Nat.lt_succ_self limit, why, hwhy, (hcause why hwhy).1⟩

end DisputeGame.Position
