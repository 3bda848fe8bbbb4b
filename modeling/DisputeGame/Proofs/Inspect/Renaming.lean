import DisputeGame.Proofs.Inspect.Standing
import Mathlib.Data.List.Basic

/-!
Lists under other names. The intake looks names up and never reads them otherwise, so a
list whose names are replaced one for one comes to the same game: the two runs go through
equal games, and their slots differ only in the names they are filed under. The report says
the same of either list, with the new names where it mentions the old ones.
-/

namespace DisputeGame

/-- The claim under another name and as an answer to another name. A claim at the root
answers none. -/
def Claim.rename (f : Nat → Nat) (c : Claim) : Claim where
  toClaimData := c.toClaimData
  contractIndex := f c.contractIndex
  parentIndex := if c.isRoot then c.parentIndex else f c.parentIndex

def Ruling.rename (f : Nat → Nat) (r : Ruling) : Ruling := ⟨r.claim.rename f, r.verdict⟩

/-- The line with the names it mentions replaced. A slot is no name. -/
def Inspect.Line.rename (f : Nat → Nat) : Inspect.Line → Inspect.Line
  | .repeated index => .repeated (f index)
  | .orphaned index answered => .orphaned (f index) (f answered)
  | .rejected index why => .rejected (f index) why
  | line => line

namespace Intake

variable {f : Nat → Nat} {s t : Intake}

/-- The same game, with every slot filed under the new name. -/
structure Renames (f : Nat → Nat) (s t : Intake) : Prop where
  game_eq : t.game = s.game
  slots_eq : ∀ name, t.slots[f name]? = s.slots[name]?

theorem start_renames (f : Nat → Nat) (maxDepth : Nat) :
    Renames f (start maxDepth) (start maxDepth) := by
  refine ⟨rfl, ?_⟩
  intro name
  simp [start]

/-- Both find the same parent, and the claim that is put then has lost its name. -/
theorem Renames.resolve (h : Renames f s t) (c : Claim) (slot : Nat) :
    (t.resolve? (c.rename f)).map (fun r => { r with contractIndex := slot }) =
      (s.resolve? c).map (fun r => { r with contractIndex := slot }) := by
  have hdata : (c.rename f).isRoot = c.isRoot := rfl
  unfold resolve?
  rw [hdata]
  cases hroot : c.isRoot with
  | true => simp [Claim.rename, hroot]
  | false =>
    have hparent : (c.rename f).parentIndex = f c.parentIndex := by simp [Claim.rename, hroot]
    rw [hparent, h.slots_eq]
    cases s.slots[c.parentIndex]? with
    | none => rfl
    | some parent => rfl

theorem Renames.admit (hf : Function.Injective f) (h : Renames f s t) (next : Game)
    (name slot : Nat) (log log' : List Inspect.Event) :
    Renames f ⟨next, s.slots.insert name slot, log⟩
      ⟨next, t.slots.insert (f name) slot, log'⟩ := by
  refine ⟨rfl, ?_⟩
  intro other
  simp only [Std.HashMap.getElem?_insert, beq_iff_eq, hf.eq_iff, h.slots_eq]

/-- One offer: the verdict is the same, and the states still differ in names only. -/
theorem Renames.offer (hf : Function.Injective f) (h : Renames f s t) (c : Claim) :
    (t.offer (c.rename f)).1 = (s.offer c).1 ∧
      Renames f (s.offer c).2 (t.offer (c.rename f)).2 := by
  have hgame := h.game_eq
  have hrepeats : t.game.isDuplicate (c.rename f) = s.game.isDuplicate c := by
    rw [hgame]
    rfl
  cases hdup : s.game.isDuplicate c with
  | true =>
    rw [offer_of_duplicate hdup, offer_of_duplicate (hrepeats.trans hdup)]
    exact ⟨rfl, h⟩
  | false =>
    have hfresh := hrepeats.trans hdup
    have hresolved := h.resolve c s.game.size
    cases hold : s.resolve? c with
    | none =>
      rw [hold] at hresolved
      have hnew := Option.map_eq_none_iff.mp hresolved
      rw [offer_of_unresolved hdup hold, offer_of_unresolved hfresh hnew]
      exact ⟨rfl, h⟩
    | some resolved =>
      rw [hold] at hresolved
      obtain ⟨renamed, hnew, hsame⟩ := Option.map_eq_some_iff.mp hresolved
      cases hput : s.game.put { resolved with contractIndex := s.game.size } with
      | error why =>
        have hput' : t.game.put { renamed with contractIndex := t.game.size } = .error why := by
          rw [hgame, hsame, hput]
        rw [offer_of_refusal hdup hold hput, offer_of_refusal hfresh hnew hput']
        exact ⟨rfl, h.game_eq, h.slots_eq⟩
      | ok next =>
        have hput' : t.game.put { renamed with contractIndex := t.game.size } = .ok next := by
          rw [hgame, hsame, hput]
        rw [offer_of_put hdup hold hput, offer_of_put hfresh hnew hput', hgame]
        exact ⟨rfl, h.admit hf next c.contractIndex s.game.size _ _⟩

theorem Renames.run (hf : Function.Injective f) (h : Renames f s t) (claims : List Claim) :
    (t.run (claims.map (Claim.rename f))).1 = (s.run claims).1.map (Ruling.rename f) ∧
      Renames f (s.run claims).2 (t.run (claims.map (Claim.rename f))).2 := by
  induction claims generalizing s t with
  | nil => exact ⟨rfl, h⟩
  | cons c rest ih =>
    obtain ⟨hverdict, hnext⟩ := h.offer hf c
    obtain ⟨hrulings, hlast⟩ := ih hnext
    rw [List.map_cons, run_cons, run_cons]
    refine ⟨?_, hlast⟩
    rw [List.map_cons, hrulings, hverdict]
    rfl

end Intake

namespace Inspect

open Intake

theorem not_root_of_orphan {maxDepth : Nat} {earlier : List Claim} {c : Claim}
    (h : verdictAfter maxDepth earlier c = .orphan) : c.isRoot = false := by
  rcases verdictAfter_cases maxDepth earlier c with hcase | ⟨hroot, -⟩ | ⟨-, hcase⟩ | hcase
  · cases hcase.symm.trans h
  · exact hroot
  · cases hcase.symm.trans h
  · cases hcase.symm.trans h

/-- A line that passes a claim over mentions its names, and nothing else of it is replaced. -/
theorem rulingLines_rename (f : Nat → Nat) (r : Ruling)
    (h : r.verdict = .orphan → r.claim.isRoot = false) :
    rulingLines (r.rename f) = (rulingLines r).map (Line.rename f) := by
  obtain ⟨c, verdict⟩ := r
  cases verdict with
  | duplicate => rfl
  | orphan =>
    have hroot : c.isRoot = false := h rfl
    simp [rulingLines, Ruling.rename, Line.rename, Claim.rename, hroot]
  | refused why => rfl
  | admitted slot => rfl

/-- The names of a list are names only. If they are replaced one for one, the report has the
same lines in the same order: those of the claims let in are as they were, and the others
mention the new names in place of the old ones. -/
theorem inspectClaims_rename (f : Nat → Nat) (hf : Function.Injective f) (claims : List Claim)
    (maxDepth : Nat) :
    (inspectClaims (claims.map (Claim.rename f)) maxDepth).lines =
      (inspectClaims claims maxDepth).lines.map (Line.rename f) := by
  obtain ⟨hrulings, hlast⟩ := (start_renames f maxDepth).run hf claims
  have hpassed : (((start maxDepth).run claims).1.map (Ruling.rename f)).flatMap rulingLines =
      (((start maxDepth).run claims).1.flatMap rulingLines).map (Line.rename f) := by
    rw [List.flatMap_map, List.map_flatMap]
    apply List.flatMap_congr
    intro r hr
    apply rulingLines_rename
    intro hverdict
    obtain ⟨earlier, hafter⟩ := exists_verdictAfter_of_mem_run hr
    exact not_root_of_orphan (hafter.symm.trans hverdict)
  have hslots : ∀ g : Game, g.claims.toList.map (slotLine g) =
      (g.claims.toList.map (slotLine g)).map (Line.rename f) := by
    intro g
    rw [List.map_map]
    rfl
  rw [inspectClaims_lines, inspectClaims_lines, hrulings, hlast.game_eq, hpassed,
    List.map_append, ← hslots]

/-- A list with a name used twice, a claim said twice, one without the claim it answers and
one that lies too deep, with its five lines under either names. -/
theorem inspectClaims_rename_mixed :
    let claims : List Claim := [⟨⟨default, ⟨0, 0⟩⟩, 7, 0⟩, ⟨⟨default, ⟨1, 0⟩⟩, 7, 7⟩,
      ⟨⟨default, ⟨1, 0⟩⟩, 8, 7⟩, ⟨⟨default, ⟨2, 2⟩⟩, 9, 5⟩, ⟨⟨default, ⟨4, 0⟩⟩, 5, 7⟩]
    Function.Injective (· + 3) ∧
    (inspectClaims claims 3).lines =
      [.repeated 8, .orphaned 9 5, .rejected 5 (.exceedsMaxDepth 4 3),
        .slot 0 ⟨0, 0⟩ default .root, .slot 1 ⟨1, 0⟩ default .doesNotDefend] ∧
    (inspectClaims (claims.map (Claim.rename (· + 3))) 3).lines =
      [.repeated 11, .orphaned 12 8, .rejected 8 (.exceedsMaxDepth 4 3),
        .slot 0 ⟨0, 0⟩ default .root, .slot 1 ⟨1, 0⟩ default .doesNotDefend] ∧
    (inspectClaims (claims.map (Claim.rename (· + 3))) 3).lines =
      (inspectClaims claims 3).lines.map (Line.rename (· + 3)) := by
  intro claims
  have hf : Function.Injective (· + 3) := fun a b h => Nat.add_right_cancel h
  have hrenamed := inspectClaims_rename (· + 3) hf claims 3
  have hlines : (inspectClaims claims 3).lines =
      [.repeated 8, .orphaned 9 5, .rejected 5 (.exceedsMaxDepth 4 3),
        .slot 0 ⟨0, 0⟩ default .root, .slot 1 ⟨1, 0⟩ default .doesNotDefend] := by
    rw [inspectClaims_eq_told]
    decide
  refine ⟨hf, hlines, ?_, hrenamed⟩
  rw [hrenamed, hlines]
  rfl

end Inspect

end DisputeGame
