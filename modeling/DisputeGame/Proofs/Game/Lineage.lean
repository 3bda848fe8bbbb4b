import DisputeGame.Proofs.Game.Loading

/-!
The line of claims above a claim. A claim names the slot that it answers, and the game took
it only when that slot was filled; so the way up goes from slot to earlier slot, ends, and
ends nowhere but at a claim of the root. There are no orphans and no circles, although no
step looks for them.
-/

namespace DisputeGame.Game

/-- The claim so many answers above `c`; past the end of the line there is none. -/
def climb (g : Game) : Nat → Claim → Option Claim
  | 0, c => some c
  | n + 1, c => (g.parent? c).bind (g.climb n)

theorem climb_add (g : Game) (m k : Nat) (c : Claim) :
    g.climb (m + k) c = (g.climb m c).bind (g.climb k) := by
  induction m generalizing c with
  | zero => rw [Nat.zero_add]; rfl
  | succ m ih =>
    rw [Nat.succ_add, climb, climb]
    cases g.parent? c with
    | none => rfl
    | some parent => exact ih parent

theorem climb_past_root {g : Game} {top : Claim} (h : g.parent? top = none) {k : Nat}
    (hk : 0 < k) : g.climb k top = none := by
  cases k with
  | zero => cases hk
  | succ k => rw [climb, h]; rfl

variable {g : Game}

/-- A claim of the game stands at the slot that it names. -/
theorem WellFormed.get?_contractIndex (hg : g.WellFormed) {i : Nat} {c : Claim}
    (h : g.get? i = some c) : g.get? c.contractIndex = some c := by
  rw [hg.slot i c h]
  exact h

/-- One step up from a claim of the game: it is at the root and there is none, or it leads to
a claim of the game at an earlier slot. -/
theorem WellFormed.parent?_cases (hg : g.WellFormed) {c : Claim}
    (hc : g.get? c.contractIndex = some c) :
    (c.isRoot = true ∧ g.parent? c = none) ∨
    (c.isRoot = false ∧ ∃ parent, g.parent? c = some parent ∧
      g.get? parent.contractIndex = some parent ∧
      parent.contractIndex < c.contractIndex) := by
  cases hroot : c.isRoot with
  | true => exact Or.inl ⟨rfl, if_pos hroot⟩
  | false =>
    have hearlier : c.parentIndex < c.contractIndex := hg.answers _ c hc hroot
    have hfilled : c.parentIndex < g.size := Nat.lt_trans hearlier (get?_eq_some_lt hc)
    obtain ⟨parent, hparent⟩ : ∃ parent, g.get? c.parentIndex = some parent :=
      ⟨_, Array.getElem?_eq_getElem hfilled⟩
    have hup : g.parent? c = some parent := by
      rw [parent?, if_neg (by simp [hroot])]
      exact hparent
    refine Or.inr ⟨rfl, parent, hup, hg.get?_contractIndex hparent, ?_⟩
    rw [hg.slot _ parent hparent]
    exact hearlier

/-- Every claim on the way up is one of the game, and each step costs a slot at least. -/
theorem WellFormed.climb_goes_down (hg : g.WellFormed) {n : Nat} {c e : Claim}
    (hc : g.get? c.contractIndex = some c) (h : g.climb n c = some e) :
    g.get? e.contractIndex = some e ∧ e.contractIndex + n ≤ c.contractIndex := by
  induction n generalizing c with
  | zero =>
    obtain rfl : c = e := Option.some.inj h
    exact ⟨hc, Nat.le_refl _⟩
  | succ n ih =>
    rw [climb] at h
    rcases hg.parent?_cases hc with ⟨-, hnone⟩ | ⟨-, parent, hup, hparent, hlt⟩
    · rw [hnone] at h
      cases h
    · rw [hup] at h
      obtain ⟨he, hle⟩ := ih hparent h
      exact ⟨he, by omega⟩

theorem WellFormed.exists_climb_root (hg : g.WellFormed) {c : Claim}
    (hc : g.get? c.contractIndex = some c) :
    ∃ n top, g.climb n c = some top ∧ top.isRoot = true := by
  -- by slots: the parent stands at some earlier one, not at the one before
  induction hslot : c.contractIndex using Nat.strongRecOn generalizing c with
  | ind slot ih =>
    rcases hg.parent?_cases hc with ⟨hroot, -⟩ | ⟨-, parent, hup, hparent, hlt⟩
    · exact ⟨0, c, rfl, hroot⟩
    · obtain ⟨n, top, htop, hroot⟩ := ih _ (hslot ▸ hlt) hparent rfl
      refine ⟨n + 1, top, ?_, hroot⟩
      rw [climb, hup]
      exact htop

/-- In a game that a run leaves behind, the way up from any of its claims ends after at most
as many steps as the number of its slot, and it ends at the root. It leads through claims of
the game only, to an earlier slot with every step. A claim of the game has no parent exactly
if it is at the root. -/
theorem climb_ends_at_root (maxDepth : Nat) (calls : List Claim) (i : Nat) (c : Claim) :
    let g := (empty maxDepth).offerAll calls
    g.get? i = some c →
      (∃ n top, n ≤ c.contractIndex ∧ g.climb n c = some top ∧
        top.position = Position.root ∧ ∀ m, n < m → g.climb m c = none) ∧
      (∀ m e, g.climb m c = some e → ∃ slot, g.get? slot = some e) ∧
      (∀ m k a b, m < k → g.climb m c = some a → g.climb k c = some b →
        b.contractIndex < a.contractIndex) ∧
      (g.parent? c = none ↔ c.position = Position.root) := by
  intro g hi
  have hg : g.WellFormed := offerAll_empty_wellFormed maxDepth calls
  have hc : g.get? c.contractIndex = some c := hg.get?_contractIndex hi
  refine ⟨?_, ?_, ?_, ?_⟩
  · obtain ⟨n, top, htop, hroot⟩ := hg.exists_climb_root hc
    obtain ⟨-, hle⟩ := hg.climb_goes_down hc htop
    refine ⟨n, top, by omega, htop, (Position.isRoot_iff _).mp hroot, ?_⟩
    intro m hm
    obtain ⟨k, rfl⟩ := Nat.exists_eq_add_of_lt hm
    rw [Nat.add_assoc, climb_add, htop]
    exact climb_past_root (if_pos hroot) (Nat.succ_pos k)
  · intro m e he
    exact ⟨e.contractIndex, (hg.climb_goes_down hc he).1⟩
  · intro m k a b hmk ha hb
    obtain ⟨j, rfl⟩ := Nat.exists_eq_add_of_lt hmk
    rw [Nat.add_assoc, climb_add, ha] at hb
    obtain ⟨hheld, -⟩ := hg.climb_goes_down hc ha
    obtain ⟨-, hle⟩ := hg.climb_goes_down hheld hb
    omega
  · have hroot : c.isRoot = true ↔ c.position = Position.root := Position.isRoot_iff _
    rw [← hroot]
    rcases hg.parent?_cases hc with ⟨hc', hnone⟩ | ⟨hc', parent, hup, -, -⟩
    · simp [hc', hnone]
    · simp [hc', hup]

/-- The way up from the third claim of a game, over the second one to the first. -/
theorem climb_ends_at_root_third :
    let top : Claim := ⟨⟨default, ⟨0, 0⟩⟩, 0, 0⟩
    let left : Claim := ⟨⟨default, ⟨1, 0⟩⟩, 1, 0⟩
    let low : Claim := ⟨⟨default, ⟨3, 2⟩⟩, 2, 1⟩
    let g := (empty 3).offerAll [top, left, low]
    g.get? 2 = some low ∧
    (∃ n e, n ≤ 2 ∧ g.climb n low = some e ∧ e.position = Position.root ∧
      ∀ m, n < m → g.climb m low = none) ∧
    g.climb 1 low = some left ∧ g.climb 2 low = some top ∧
    left.contractIndex < low.contractIndex ∧ top.contractIndex < left.contractIndex ∧
    (g.parent? low = none ↔ low.position = Position.root) := by
  intro top left low g
  have hclaims : g.claims.toList = [top, left, low] := claims_offerAll_of_orderly (by decide)
  have hget : ∀ i, g.get? i = [top, left, low][i]? := by
    intro i
    rw [← getElem?_claims, hclaims]
  have hfirst : g.parent? low = some left := hget 1
  have hsecond : g.parent? left = some top := hget 0
  have hone : g.climb 1 low = some left := by simp [climb, hfirst]
  have htwo : g.climb 2 low = some top := by simp [climb, hfirst, hsecond]
  obtain ⟨hends, -, hdown, hparent⟩ := climb_ends_at_root 3 [top, left, low] 2 low (hget 2)
  exact ⟨hget 2, hends, hone, htwo, hdown 0 1 low left (by decide) rfl hone,
    hdown 1 2 left top (by decide) hone htwo, hparent⟩

end DisputeGame.Game
