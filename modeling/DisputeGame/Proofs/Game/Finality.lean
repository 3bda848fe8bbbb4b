import DisputeGame.Proofs.Game.Loading

/-!
Whether a refused claim may be let in later. The game only grows, so a slot that is taken stays
taken and a claim that lies too deep stays too deep. A claim for the next slot that is refused
either finds the game as it was or finds its slot taken by another. Only a claim for a slot that
is still to come is refused for now: when its turn has come, it is judged like any other.
-/

namespace DisputeGame

namespace Refusal

/-- The claim names a slot behind the next one. -/
def TooEarly : Refusal → Prop
  | unexpectedIndex expected got => expected < got
  | _ => False

instance : DecidablePred TooEarly
  | exceedsMaxDepth .. | duplicate .. | missingParent .. => inferInstanceAs (Decidable False)
  | unexpectedIndex expected got => inferInstanceAs (Decidable (expected < got))

end Refusal

namespace Game

section

variable {g : Game} {c : Claim}

/-- A run leaves the game as it was, or some slot more is taken. -/
theorem offerAll_eq_or_grows (g : Game) (calls : List Claim) :
    g.offerAll calls = g ∨ g.size < (g.offerAll calls).size := by
  apply offerAll_induction (P := fun next => next = g ∨ g.size < next.size) calls (Or.inl rfl)
  intro next c hnext _
  refine Or.inr ?_
  rw [size_append]
  rcases hnext with rfl | hgrown
  · exact Nat.lt_succ_self _
  · exact Nat.lt_succ_of_lt hgrown

/-- A refusal that does not come too early is for the depth of the claim, or its slot is at most
the next one. -/
theorem deep_or_placed_of_refusal {why : Refusal} (h : g.put c = .error why)
    (hlate : ¬why.TooEarly) :
    (g.maxDepth < c.position.depth ∧ .exceedsMaxDepth c.position.depth g.maxDepth = why) ∨
    (c.position.depth ≤ g.maxDepth ∧ c.contractIndex ≤ g.size) := by
  rcases put_outcome g c with ⟨hdeep, hput⟩ | ⟨hshallow, hslot, hput⟩ |
    ⟨hshallow, hnext, -, -⟩ | ⟨hshallow, hnext, -, -, -, -⟩ | ⟨-, hput⟩
  · exact Or.inl ⟨hdeep, Except.error.inj (hput.symm.trans h)⟩
  · cases hput.symm.trans h
    exact Or.inr ⟨hshallow, Nat.le_of_not_lt hlate⟩
  · exact Or.inr ⟨hshallow, Nat.le_of_eq hnext⟩
  · exact Or.inr ⟨hshallow, Nat.le_of_eq hnext⟩
  · cases hput.symm.trans h

/-- A claim that comes too early is not too deep. -/
theorem shallow_of_too_early {why : Refusal} (h : g.put c = .error why) (hearly : why.TooEarly) :
    c.position.depth ≤ g.maxDepth := by
  apply Nat.le_of_not_lt
  intro hdeep
  cases (put_of_deep hdeep).symm.trans h
  exact hearly

theorem exists_put_iff : (∃ next, g.put c = .ok next) ↔ g.Accepts c := by
  constructor
  · intro h
    obtain ⟨next, hput⟩ := h
    exact (accepts_of_put hput).1
  · intro h
    exact ⟨_, put_of_accepts h⟩

end

/-- A refusal is final, unless the claim came too early. In whatever game further calls lead to,
the claim is refused again, for the same reason or because its slot is taken by then. A claim that
came too early is let in at the game whose next slot is the one it names, if it does not repeat a
claim of that game and is at the root or answers one of its claims. -/
theorem refusal_final_unless_early (maxDepth : Nat) (before : List Claim) (c : Claim)
    (why : Refusal) (h : ((empty maxDepth).offerAll before).put c = .error why)
    (after : List Claim) :
    let later := ((empty maxDepth).offerAll before).offerAll after
    (¬why.TooEarly → ∃ again, later.put c = .error again ∧
      (again = why ∨ again = .unexpectedIndex later.size c.contractIndex)) ∧
    (why.TooEarly → c.contractIndex = later.size →
      ((∃ next, later.put c = .ok next) ↔
        later.isDuplicate c = false ∧ (c.isRoot = true ∨ c.parentIndex < later.size))) := by
  intro later
  have hmax : later.maxDepth = ((empty maxDepth).offerAll before).maxDepth :=
    maxDepth_offerAll _ after
  constructor
  · intro hlate
    rcases offerAll_eq_or_grows ((empty maxDepth).offerAll before) after with hsame | hgrown
    · exact ⟨why, (congrArg (put · c) hsame).trans h, Or.inl rfl⟩
    · rcases deep_or_placed_of_refusal h hlate with ⟨hdeep, rfl⟩ | ⟨hshallow, hslot⟩
      · rw [← hmax] at hdeep ⊢
        exact ⟨_, put_of_deep hdeep, Or.inl rfl⟩
      · have htaken : c.contractIndex < later.size := Nat.lt_of_le_of_lt hslot hgrown
        rw [← hmax] at hshallow
        exact ⟨_, put_of_misplaced hshallow (Nat.ne_of_lt htaken), Or.inr rfl⟩
  · intro hearly hnext
    have hshallow := shallow_of_too_early h hearly
    rw [← hmax] at hshallow
    rw [exists_put_iff]
    constructor
    · intro haccepts
      exact ⟨haccepts.fresh, haccepts.answers⟩
    · intro hfits
      exact ⟨hshallow, hnext, hfits.1, hfits.2⟩

/-- Behind the claim at the root, the same claim for the next slot is a repetition; once another
claim has that slot, it is refused for its slot. A claim for the slot after comes too early at
first, and is let in then. -/
theorem refusal_final_unless_early_second :
    let top : Claim := ⟨⟨default, ⟨0, 0⟩⟩, 0, 0⟩
    let copy : Claim := ⟨⟨default, ⟨0, 0⟩⟩, 1, 0⟩
    let left : Claim := ⟨⟨default, ⟨1, 0⟩⟩, 1, 0⟩
    let low : Claim := ⟨⟨default, ⟨3, 2⟩⟩, 2, 1⟩
    let g := (empty 3).offerAll [top]
    let later := g.offerAll [left]
    g.put copy = .error (.duplicate 1) ∧ ¬(Refusal.duplicate 1).TooEarly ∧
    (∃ again, later.put copy = .error again ∧
      (again = .duplicate 1 ∨ again = .unexpectedIndex later.size 1)) ∧
    g.put low = .error (.unexpectedIndex 1 2) ∧ (Refusal.unexpectedIndex 1 2).TooEarly ∧
    ∃ next, later.put low = .ok next := by
  intro top copy left low g later
  have hg : g.WellFormed := offerAll_empty_wellFormed 3 [top]
  have hmax : g.maxDepth = 3 := maxDepth_offerAll _ [top]
  have hclaims : g.claims.toList = [top] := claims_offerAll_of_orderly (by decide)
  have hlater : later.WellFormed := offerAll_wellFormed g [left] hg
  have hboth : later.claims.toList = [top, left] := by
    have hrun : later = (empty 3).offerAll ([top] ++ [left]) := (offerAll_append _ _ _).symm
    rw [hrun]
    exact claims_offerAll_of_orderly (by decide)
  have hcopy : g.put copy = .error (.duplicate 1) := by
    have hcode : copy.position.gindex = 1 := by decide
    rw [hg.put_eq_error_iff, hclaims, hmax, ← hcode]
    exact .repeated (Nat.zero_le 3) rfl ⟨top, List.mem_singleton_self top, rfl⟩
  have hlow : g.put low = .error (.unexpectedIndex 1 2) := by
    rw [hg.put_eq_error_iff, hclaims, hmax]
    exact .misplaced (by decide) (by decide)
  have hsize : later.size = 2 := congrArg List.length hboth
  have hfresh : later.isDuplicate low = false := by
    rw [hlater.isDuplicate_eq_false_iff, hboth]
    decide
  have hfinal := (refusal_final_unless_early 3 [top] copy _ hcopy [left]).1 id
  have hturn := (refusal_final_unless_early 3 [top] low _ hlow [left]).2 (by decide) hsize.symm
  refine ⟨hcopy, id, hfinal, hlow, by decide, hturn.mpr ⟨hfresh, Or.inr ?_⟩⟩
  change 1 < later.size
  omega

end Game

end DisputeGame
