import DisputeGame.Tree.Navigation
import DisputeGame.Tree.Subtree

/-!
Steps between positions as arithmetic on their numbers. Every step is stated as one
equation that says where it leads and, with its cause, when it fails. A step down
doubles the index, a step up halves it, and a look from an ancestor takes the
remainder by the width of the subtree.
-/

namespace DisputeGame

/-- A step that succeeds hands its result on, -/
@[simp] theorem ok_bind {ε α β : Type} (a : α) (f : α → Except ε β) :
    (Except.ok a >>= f) = f a := rfl

/-- and one that fails ends the chain. -/
@[simp] theorem error_bind {ε α β : Type} (e : ε) (f : α → Except ε β) :
    (Except.error e >>= f) = .error e := rfl

/-- A chain succeeds only through its first step. -/
theorem bind_eq_ok {ε α β : Type} {x : Except ε α} {f : α → Except ε β} {b : β} :
    (x >>= f) = .ok b ↔ ∃ a, x = .ok a ∧ f a = .ok b := by
  cases x with
  | ok a => simp
  | error e => simp

theorem foldlM_cons_eq_ok {ε α σ : Type} {step : σ → α → Except ε σ} {state last : σ} {a : α}
    {rest : List α} : (a :: rest).foldlM step state = .ok last ↔
      ∃ next, step state a = .ok next ∧ rest.foldlM step next = .ok last := by
  rw [List.foldlM_cons, bind_eq_ok]

/-- What a guard lets through has passed it. -/
theorem guard_eq_ok {ε α : Type} {c : Prop} [Decidable c] {x : Except ε α} {e : ε} {a : α} :
    (if c then x else .error e) = .ok a ↔ c ∧ x = .ok a := by
  by_cases hc : c
  · simp [hc]
  · simp [hc]

/-- It fails for what it stops or for what comes after it. -/
theorem guard_eq_error {ε α : Type} {c : Prop} [Decidable c] {x : Except ε α} {e why : ε} :
    (if c then x else .error e) = .error why ↔ (¬c ∧ e = why) ∨ (c ∧ x = .error why) := by
  by_cases hc : c
  · simp [hc]
  · simp [hc]

theorem map_eq_ok {ε α β : Type} {f : α → β} {x : Except ε α} {b : β} :
    x.map f = .ok b ↔ ∃ a, x = .ok a ∧ f a = b := by
  cases x with
  | ok a => simp [Except.map]
  | error e => simp [Except.map]

theorem mapError_eq_ok {ε ε' α : Type} {f : ε → ε'} {x : Except ε α} {a : α} :
    x.mapError f = .ok a ↔ x = .ok a := by
  constructor
  · intro h
    cases x with
    | ok b => exact congrArg Except.ok (Except.ok.inj h)
    | error e => cases h
  · intro h
    subst h
    rfl

namespace Depth

@[simp] theorem width_zero : width 0 = 1 := rfl

theorem width_succ (d : Nat) : width (d + 1) = 2 * width d := by
  unfold width
  rw [Nat.shiftLeft_succ]

theorem width_pos (d : Nat) : 0 < width d := by
  induction d with
  | zero => decide
  | succ d ih =>
    rw [width_succ]
    omega

theorem width_add (d e : Nat) : width (d + e) = width d * width e := by
  induction e with
  | zero => exact (Nat.mul_one _).symm
  | succ e ih =>
    rw [← Nat.add_assoc, width_succ, ih, width_succ]
    exact Nat.mul_left_comm 2 (width d) (width e)

theorem width_mul_width_sub {d e : Nat} (h : d ≤ e) : width d * width (e - d) = width e := by
  rw [← width_add, Nat.add_sub_cancel' h]

/-- The levels down from `a` to `c`, parted at `b`. -/
theorem width_sub_mul_width_sub {a b c : Nat} (hab : a ≤ b) (hbc : b ≤ c) :
    width (b - a) * width (c - b) = width (c - a) := by
  have hlevels : c - a - (b - a) = c - b := by omega
  rw [← hlevels, width_mul_width_sub (Nat.sub_le_sub_right hbc a)]

theorem width_le_width {d e : Nat} (h : d ≤ e) : width d ≤ width e := by
  obtain ⟨k, rfl⟩ := Nat.exists_eq_add_of_le h
  rw [width_add]
  exact Nat.le_mul_of_pos_right _ (width_pos k)

/-- The last number of a stretch is cut as the stretch is, if it is cut at the end of one. -/
theorem last_mod_mul (i w unit : Nat) (hunit : 0 < unit) :
    ((i + 1) * unit - 1) % (w * unit) = (i % w + 1) * unit - 1 := by
  have hlast : ∀ k, (k + 1) * unit - 1 = k * unit + (unit - 1) := by
    intro k
    rw [Nat.succ_mul, Nat.add_sub_assoc hunit]
  have hfits : unit - 1 < unit := Nat.sub_lt hunit Nat.one_pos
  have hquotient : (i * unit + (unit - 1)) / unit = i := by
    rw [Nat.mul_comm i, Nat.mul_add_div hunit, Nat.div_eq_of_lt hfits, Nat.add_zero]
  rw [hlast, hlast, Nat.mul_comm w, Nat.mod_mul, hquotient, Nat.mul_add_mod',
    Nat.mod_eq_of_lt hfits, Nat.add_comm, Nat.mul_comm unit]

theorem below_eq (d : Nat) :
    below d = if d < limit then .ok (d + 1) else .error (.invalidNavigation .deepest) := rfl

theorem above_eq (d : Nat) :
    above d = if d = 0 then .error (.invalidNavigation .root) else .ok (d - 1) := by
  cases d with
  | zero => rfl
  | succ d => simp [above]

end Depth

namespace Position

open Depth

/-- A number is written in as many bits as a depth exactly if it numbers a node there. -/
theorem bitCount_le_iff (n d : Nat) : bitCount n ≤ d ↔ n < width d := by
  unfold bitCount width
  rw [Nat.one_shiftLeft]
  by_cases hn : n = 0
  · subst n
    exact ⟨fun _ => Nat.two_pow_pos d, fun _ => Nat.zero_le d⟩
  · rw [if_neg hn, Nat.add_one_le_iff]
    exact Nat.log2_lt hn

/-- Bits put behind a number that makes room for them. -/
theorem shiftLeft_or (n d rest : Nat) (h : rest < width d) :
    n <<< d ||| rest = n * width d + rest := by
  unfold width at *
  rw [Nat.one_shiftLeft] at *
  rw [← Nat.shiftLeft_add_eq_or_of_lt h, Nat.shiftLeft_eq]

theorem shiftLeft_or_one (n : Nat) : n <<< 1 ||| 1 = 2 * n + 1 := by
  have hwidth : width 1 = 2 := rfl
  rw [shiftLeft_or n 1 1 (by decide), hwidth, Nat.mul_comm]

theorem leftChild_eq (p : Position) :
    p.leftChild = if p.depth < limit then .ok ⟨p.depth + 1, 2 * p.index⟩
      else .error (.invalidNavigation .deepest) := by
  unfold leftChild
  rw [below_eq, Nat.shiftLeft_eq, Nat.mul_comm]
  split <;> rfl

theorem rightChild_eq (p : Position) :
    p.rightChild = if p.depth < limit then .ok ⟨p.depth + 1, 2 * p.index + 1⟩
      else .error (.invalidNavigation .deepest) := by
  unfold rightChild
  rw [below_eq, shiftLeft_or_one]
  split <;> rfl

theorem parent_eq (p : Position) :
    p.parent = if p.depth = 0 then .error (.invalidNavigation .root)
      else .ok ⟨p.depth - 1, p.index / 2⟩ := by
  unfold parent
  rw [above_eq, Nat.shiftRight_eq_div_pow]
  split <;> rfl

/-- A defense takes the last bit of the index for set before it goes on below. -/
theorem defend_eq (p : Position) :
    p.defend = if p.depth = 0 then .error (.invalidNavigation .root)
      else if p.depth < limit then .ok ⟨p.depth + 1, 2 * (2 * (p.index / 2) + 1)⟩
      else .error (.invalidNavigation .deepest) := by
  obtain ⟨depth, index⟩ := p
  cases depth with
  | zero => rfl
  | succ d =>
    have hparent : parent ⟨d + 1, index⟩ = .ok ⟨d, index / 2⟩ := by
      simp [parent_eq]
    have hsibling := rightChild_eq ⟨d, index / 2⟩
    unfold defend
    rw [hparent, ok_bind, hsibling]
    by_cases hup : d < limit
    · simp only [hup, if_true, ok_bind, leftChild_eq, Nat.succ_ne_zero, if_false]
    · have hdown : ¬d + 1 < limit := by omega
      simp only [hup, hdown, if_false, error_bind, Nat.succ_ne_zero]

/-- A look that succeeds is noted with what is seen. Both ways to cut the index, the kept one
and the remainder, are the remainder. -/
theorem reroot_eq (p : Position) (ancestor : Nat) :
    p.reroot ancestor =
      if ancestor ≤ p.depth then
        let seen : Position := ⟨p.depth - ancestor, p.index % width (p.depth - ancestor)⟩
        ⟨.ok seen, [.rerooted p ancestor seen]⟩
      else .silent (.error (.depthTooSmall ancestor p.depth)) := by
  unfold reroot minus
  by_cases hle : ancestor ≤ p.depth
  · simp only [hle, if_true]
    by_cases hfit : bitCount p.index ≤ p.depth - ancestor
    · have hlt := (bitCount_le_iff _ _).mp hfit
      rw [if_pos hfit, Nat.mod_eq_of_lt hlt]
    · rw [if_neg hfit]
  · simp only [hle, if_false]

theorem relativeTo_eq (p : Position) (ancestor : Nat) :
    p.relativeTo ancestor =
      if ancestor ≤ p.depth then
        .ok ⟨p.depth - ancestor, p.index % width (p.depth - ancestor)⟩
      else .error (.depthTooSmall ancestor p.depth) := by
  unfold relativeTo
  rw [reroot_eq]
  split
  · rfl
  · rfl

theorem relativeTo_eq_ok {p q : Position} {ancestor : Nat} :
    p.relativeTo ancestor = .ok q ↔ ancestor ≤ p.depth ∧
      (⟨p.depth - ancestor, p.index % width (p.depth - ancestor)⟩ : Position) = q := by
  rw [relativeTo_eq, guard_eq_ok, Except.ok.injEq]

/-- The nodes of a subtree fill a stretch of every deeper level, and the rightmost one comes
right before the stretch of the next subtree. -/
theorem rightmost_eq (p : Position) (maxDepth : Nat) :
    p.rightmost maxDepth =
      if maxDepth ≤ limit then
        if p.depth ≤ maxDepth then
          .ok ⟨maxDepth, (p.index + 1) * width (maxDepth - p.depth) - 1⟩
        else .error (.depthTooSmall p.depth maxDepth)
      else .error (.overflow (.depth maxDepth)) := by
  unfold rightmost ensureSupported minus
  by_cases hlimit : maxDepth ≤ limit
  · by_cases hle : p.depth ≤ maxDepth
    · have hpos := width_pos (maxDepth - p.depth)
      simp only [hlimit, hle, if_true, ok_bind]
      change Except.ok _ = _
      rw [shiftLeft_or _ _ _ (Nat.sub_lt hpos Nat.one_pos), Nat.succ_mul,
        Nat.add_sub_assoc hpos]
    · simp only [hlimit, hle, if_true, if_false, ok_bind, error_bind]
  · simp only [hlimit, if_false, error_bind]

theorem rightmost_eq_ok {p q : Position} {maxDepth : Nat} :
    p.rightmost maxDepth = .ok q ↔ maxDepth ≤ limit ∧ p.depth ≤ maxDepth ∧
      (⟨maxDepth, (p.index + 1) * width (maxDepth - p.depth) - 1⟩ : Position) = q := by
  rw [rightmost_eq, guard_eq_ok, guard_eq_ok, Except.ok.injEq]

theorem traceIndex_eq (p : Position) (maxDepth : Nat) (hle : p.depth ≤ maxDepth)
    (hlimit : maxDepth ≤ limit) :
    p.traceIndex maxDepth = .ok ((p.index + 1) * width (maxDepth - p.depth) - 1) := by
  unfold traceIndex
  rw [rightmost_eq, if_pos hlimit, if_pos hle]
  rfl

theorem make_eq (depth index : Nat) :
    make depth index =
      if depth ≤ limit then
        if index < width depth then .ok ⟨depth, index⟩
        else .error (.indexOutOfRange depth index)
      else .error (.overflow (.depth depth)) := by
  unfold make ensureSupported
  by_cases hlimit : depth ≤ limit
  · simp only [hlimit, if_true, ok_bind, bitCount_le_iff]
  · simp only [hlimit, if_false, error_bind]

end Position

end DisputeGame
