import DisputeGame.Proofs.Game.Loading
import DisputeGame.Proofs.Tree.Encoding

/-!
Whether a claim repeats another one. The game looks this up in its set; a search goes through
a list of claims. After every run the set holds what the claims of the game say and where,
and nothing else, so the two agree on every claim. Indices play no part in it. Among
positions of the tree the place may be told by its generalized index.
-/

namespace DisputeGame

theorem Claim.isDuplicate_iff (c : Claim) (existing : List Claim) :
    c.isDuplicate existing = true ↔ ∃ e ∈ existing, e.toClaimData = c.toClaimData := by
  simp [Claim.isDuplicate]

theorem ClaimData.eq_iff_gindex {a b : ClaimData} (ha : a.position.Valid)
    (hb : b.position.Valid) :
    a = b ↔ a.value = b.value ∧ a.position.gindex = b.position.gindex := by
  constructor
  · intro h
    rw [h]
    exact ⟨rfl, rfl⟩
  · intro h
    exact ClaimData.eq_of_fields h.1 ((Position.gindex_inj ha hb).mp h.2)

namespace Game

theorem WellFormed.isDuplicate_eq_scan {g : Game} (hg : g.WellFormed) (c : Claim) :
    g.isDuplicate c = c.isDuplicate g.claims.toList := by
  rw [Bool.eq_iff_iff, hg.isDuplicate_iff_mem, Claim.isDuplicate_iff]

/-- A repetition is refused, though an earlier guard may do it. -/
theorem put_of_isDuplicate {g : Game} {c : Claim} (hdup : g.isDuplicate c = true) :
    ∃ why, g.put c = .error why := by
  cases hput : g.put c with
  | error why => exact ⟨why, rfl⟩
  | ok next =>
    have hfresh := (accepts_of_put hput).1.fresh
    cases hfresh.symm.trans hdup

/-- A game has only claims that were offered to it. -/
theorem mem_calls_of_mem_claims {maxDepth : Nat} {calls : List Claim} {c : Claim}
    (h : c ∈ ((empty maxDepth).offerAll calls).claims.toList) : c ∈ calls := by
  rw [claims_offerAll] at h
  exact (taken_sublist _ calls).subset h

/-- After any run the set of the game and a search through its claims tell the same
repetitions. A claim counts as one by its value and its position alone: exactly if a claim
of the game has the same value at the same generalized index. -/
theorem isDuplicate_tells_repetition (maxDepth : Nat) (calls : List Claim) (c : Claim) :
    let g := (empty maxDepth).offerAll calls
    g.isDuplicate c = c.isDuplicate g.claims.toList ∧
    (∀ e : Claim, e.value = c.value → e.position = c.position →
      g.isDuplicate e = g.isDuplicate c ∧
        e.isDuplicate g.claims.toList = c.isDuplicate g.claims.toList) ∧
    ((∀ e ∈ calls, e.position.Valid) → c.position.Valid →
      (g.isDuplicate c = true ↔ ∃ e ∈ g.claims.toList,
        e.value = c.value ∧ e.position.gindex = c.position.gindex)) := by
  intro g
  have hg : g.WellFormed := offerAll_empty_wellFormed maxDepth calls
  refine ⟨hg.isDuplicate_eq_scan c, ?_, ?_⟩
  · intro e hvalue hposition
    have hdata : e.toClaimData = c.toClaimData := ClaimData.eq_of_fields hvalue hposition
    have hset : g.isDuplicate e = g.isDuplicate c := congrArg g.seen.contains hdata
    rw [← hg.isDuplicate_eq_scan, ← hg.isDuplicate_eq_scan]
    exact ⟨hset, hset⟩
  · intro hcalls hc
    rw [hg.isDuplicate_iff_mem]
    constructor
    · intro h
      obtain ⟨e, he, heq⟩ := h
      have hvalid := hcalls e (mem_calls_of_mem_claims he)
      exact ⟨e, he, (ClaimData.eq_iff_gindex hvalid hc).mp heq⟩
    · intro h
      obtain ⟨e, he, heq⟩ := h
      have hvalid := hcalls e (mem_calls_of_mem_claims he)
      exact ⟨e, he, (ClaimData.eq_iff_gindex hvalid hc).mpr heq⟩

/-- A claim under other indices than those it was let in with. -/
theorem isDuplicate_tells_repetition_renamed :
    let top : Claim := ⟨⟨default, ⟨0, 0⟩⟩, 0, 0⟩
    let left : Claim := ⟨⟨default, ⟨1, 0⟩⟩, 1, 0⟩
    let renamed : Claim := ⟨⟨default, ⟨1, 0⟩⟩, 7, 3⟩
    let g := (empty 3).offerAll [top, left]
    (∀ e ∈ [top, left], e.position.Valid) ∧ renamed.position.Valid ∧
    g.isDuplicate renamed = true ∧ renamed.isDuplicate g.claims.toList = true := by
  intro top left renamed g
  have hcalls : ∀ e ∈ [top, left], e.position.Valid := by decide
  have hvalid : renamed.position.Valid := by decide
  have hclaims : g.claims.toList = [top, left] := claims_offerAll_of_orderly (by decide)
  obtain ⟨hscan, -, hcodes⟩ := isDuplicate_tells_repetition 3 [top, left] renamed
  have hdup : g.isDuplicate renamed = true :=
    (hcodes hcalls hvalid).mpr ⟨left, by rw [hclaims]; decide, rfl, rfl⟩
  exact ⟨hcalls, hvalid, hdup, hscan.symm.trans hdup⟩

end Game

end DisputeGame
