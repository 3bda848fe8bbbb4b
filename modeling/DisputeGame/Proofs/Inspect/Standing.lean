import DisputeGame.Inspect.Run
import DisputeGame.Proofs.Game.Admission
import Mathlib.Data.List.Induction

/-!
What is reported of the claims that were let in. The report looks a claim and the one it
answers up in the game, by slots that the list never mentioned. Here the same is read off
the list: a claim stands to the last one let in before it under the name it answers, and
only the places of the two count.
-/

namespace DisputeGame

theorem Claim.testDefense_congr {c d e k : Claim} (hc : c.position = d.position)
    (he : e.position = k.position) : c.testDefense e = d.testDefense k := by
  unfold Claim.testDefense Claim.lookFrom
  rw [hc, he]

theorem Inspect.relationOf_eq (g : Game) (c : Claim) :
    relationOf g c =
      if c.isRoot then .root else if g.defendsParent c then .defends else .doesNotDefend := by
  unfold relationOf relate
  split
  · rfl
  · rfl

/-- First what is said of the claims that are passed over, then the claims of the game. -/
theorem Inspect.inspectClaims_lines (claims : List Claim) (maxDepth : Nat) :
    (inspectClaims claims maxDepth).lines =
      ((Intake.start maxDepth).run claims).1.flatMap rulingLines ++
        ((Intake.start maxDepth).run claims).2.game.claims.toList.map
          (slotLine ((Intake.start maxDepth).run claims).2.game) := rfl

namespace Intake

open Inspect

/-- How a claim stands to those let in before it. -/
def StandsAs (earlier : List Claim) (c : Claim) (relation : Relation) : Prop :=
  if c.isRoot then relation = .root
  else ∃ slot e, NamesSlot earlier c.parentIndex slot ∧ earlier[slot]? = some e ∧
    relation = if c.defends e then .defends else .doesNotDefend

variable {maxDepth : Nat} {earlier : List Claim} {s : Intake}

/-- The last of the claims under a name. -/
def lastNamed? (earlier : List Claim) (name : Nat) : Option Claim :=
  earlier.reverse.find? fun e => e.contractIndex = name

/-- How a claim stands to those let in before it, with what is noted to tell it. -/
def relateAfter (earlier : List Claim) (c : Claim) : Noted Relation :=
  if c.isRoot then .silent .root
  else (c.testParent (lastNamed? earlier c.parentIndex)).map fun defends =>
    if defends then .defends else .doesNotDefend

theorem NamesSlot.lastNamed?_eq {name slot : Nat} (h : NamesSlot earlier name slot) :
    lastNamed? earlier name = earlier[slot]? := by
  unfold lastNamed?
  induction earlier using List.reverseRecOn with
  | nil => exact absurd h.lt_length (Nat.not_lt_zero slot)
  | append_singleton before c ih =>
    rw [List.reverse_append, List.reverse_singleton, List.singleton_append]
    obtain ⟨⟨e, he, hname⟩, hmax⟩ := h
    by_cases hlast : c.contractIndex = name
    · have hle : before.length ≤ slot := hmax ⟨c, by simp, hlast⟩
      rcases getElem?_append_cases he with ⟨rfl, -⟩ | ⟨hlt, -⟩
      · simp [hlast]
      · omega
    · rcases getElem?_append_cases he with ⟨-, rfl⟩ | ⟨hlt, hold⟩
      · exact absurd hname hlast
      · have hbefore : NamesSlot before name slot := by
          refine ⟨⟨e, hold, hname⟩, ?_⟩
          intro r hr
          obtain ⟨k, hk, hkname⟩ := hr
          have hk' := (List.getElem?_eq_some_iff.mp hk).1
          exact hmax ⟨k, by rw [List.getElem?_append_left hk']; exact hk, hkname⟩
        rw [List.find?_cons_of_neg (by simpa using hlast), ih hbefore,
          List.getElem?_append_left hlt]

/-- What is told of a claim is how it stands to the one it answers. -/
theorem relateAfter_standsAs {parent : Nat} {c : Claim} (h : AnswersSlot earlier c parent) :
    StandsAs earlier c (relateAfter earlier c).value := by
  unfold StandsAs relateAfter
  unfold AnswersSlot at h
  cases hroot : c.isRoot with
  | true => rfl
  | false =>
    simp only [hroot, Bool.false_eq_true, if_false] at h ⊢
    have hlast := h.lastNamed?_eq
    obtain ⟨⟨e, he, hname⟩, hmax⟩ := h
    rw [hlast, he]
    exact ⟨parent, e, ⟨⟨e, he, hname⟩, hmax⟩, he, rfl⟩

/-- The relation that the game tells of a claim is the one that the list tells. -/
theorem Tracks.relate_eq (h : Tracks maxDepth earlier s) {slot parent : Nat} {c : Claim}
    (hanswers : AnswersSlot (earlier.take slot) c parent) :
    relate s.game { c with contractIndex := slot, parentIndex := parent } =
      relateAfter (earlier.take slot) c := by
  have hsame : ({ c with contractIndex := slot, parentIndex := parent } : Claim).isRoot =
      c.isRoot := rfl
  unfold relate relateAfter Game.testParent Game.parent?
  unfold AnswersSlot at hanswers
  rw [hsame]
  cases hroot : c.isRoot with
  | true => rfl
  | false =>
    simp only [hroot, Bool.false_eq_true, if_false] at hanswers ⊢
    obtain ⟨e, he, -⟩ := hanswers.1
    have hheld : earlier[parent]? = some e := by
      rw [List.getElem?_take] at he
      exact (Option.ite_none_right_eq_some.mp he).2
    obtain ⟨p, hget, -⟩ := h.held parent e hheld
    have hlast := hanswers.lastNamed?_eq
    rw [hget, hlast, he]
    exact congrArg _ (Claim.testDefense_congr rfl rfl)

/-- What is said of each claim of the game, for what it says and where it stands, can be said
of the claims of the list. -/
theorem Tracks.map_claims {α : Type} (h : Tracks maxDepth earlier s)
    (tell : ClaimData → Nat → Noted Relation → α) :
    s.game.claims.toList.map
        (fun c => tell c.toClaimData c.contractIndex (relate s.game c)) =
      earlier.mapIdx fun slot c => tell c.toClaimData slot (relateAfter (earlier.take slot) c) := by
  apply List.ext_getElem?
  intro slot
  rw [List.getElem?_map, Game.getElem?_claims, List.getElem?_mapIdx]
  cases hc : earlier[slot]? with
  | none =>
    have hslot := List.getElem?_eq_none_iff.mp hc
    rw [← h.size_eq] at hslot
    rw [Game.get?, Array.getElem?_eq_none hslot]
    rfl
  | some c =>
    obtain ⟨parent, hget, hanswers⟩ := h.held slot c hc
    rw [hget, Option.map_some, Option.map_some, h.relate_eq hanswers]

theorem Tracks.length_claims (h : Tracks maxDepth earlier s) :
    s.game.claims.toList.length = earlier.length := by
  rw [Array.length_toList]
  exact h.size_eq

/-- The lines of the claims let in, told by the list. -/
def slotLines (admitted : List Claim) : List Line :=
  admitted.mapIdx fun slot c =>
    .slot slot c.position c.value (relateAfter (admitted.take slot) c).value

theorem Tracks.slotLines_eq (h : Tracks maxDepth earlier s) :
    s.game.claims.toList.map (slotLine s.game) = slotLines earlier :=
  h.map_claims fun d slot relation => Line.slot slot d.position d.value relation.value

/-- The line of a claim that was let in, told by the list: its slot is its rank, and it says
how the claim stands to those let in before. -/
theorem Tracks.slotLine (h : Tracks maxDepth earlier s) {slot : Nat} {c : Claim}
    (hc : earlier[slot]? = some c) :
    ∃ relation, StandsAs (earlier.take slot) c relation ∧
      (s.game.claims.toList.map (Inspect.slotLine s.game))[slot]? =
        some (.slot slot c.position c.value relation) := by
  obtain ⟨parent, -, hanswers⟩ := h.held slot c hc
  refine ⟨_, relateAfter_standsAs hanswers, ?_⟩
  rw [h.slotLines_eq, slotLines, List.getElem?_mapIdx, hc]
  rfl

end Intake

namespace Inspect

open Intake

/-- What a ruling leaves in the log. -/
def rulingLog (r : Ruling) : List Event :=
  match r.verdict with
  | .refused why => [.rejected r.claim.contractIndex why]
  | .admitted slot => [.admitting slot r.claim.position]
  | _ => []

/-- The game notes a claim as it takes it, and the intake one that is refused. -/
theorem offer_log (s : Intake) (c : Claim) :
    (s.offer c).2.log = s.log ++ rulingLog ⟨c, (s.offer c).1⟩ := by
  have hkeep : s.log = s.log ++ [] := (List.append_nil s.log).symm
  cases hdup : s.game.isDuplicate c with
  | true =>
    rw [offer_of_duplicate hdup]
    exact hkeep
  | false =>
    cases hresolve : s.resolve? c with
    | none =>
      rw [offer_of_unresolved hdup hresolve]
      exact hkeep
    | some resolved =>
      cases hput : s.game.put { resolved with contractIndex := s.game.size } with
      | error why =>
        rw [offer_of_refusal hdup hresolve hput]
        rfl
      | ok next =>
        rw [offer_of_put hdup hresolve hput, position_of_resolve hresolve]
        rfl

/-- The log of a run goes through the rulings in order. -/
theorem run_log (s : Intake) (claims : List Claim) :
    (s.run claims).2.log = s.log ++ (s.run claims).1.flatMap rulingLog := by
  induction claims generalizing s with
  | nil => exact (List.append_nil s.log).symm
  | cons c rest ih => rw [run_cons, ih, offer_log, List.flatMap_cons, List.append_assoc]

theorem inspectClaims_log (claims : List Claim) (maxDepth : Nat) :
    (inspectClaims claims maxDepth).log =
      ((Intake.start maxDepth).run claims).1.flatMap rulingLog ++
        ((Intake.start maxDepth).run claims).2.game.claims.toList.flatMap
          (relationLog ((Intake.start maxDepth).run claims).2.game) :=
  congrArg (· ++ _) (run_log (Intake.start maxDepth) claims)

/-- The report on a list, told by the list alone. -/
def told (maxDepth : Nat) (claims : List Claim) : Report :=
  let rulings := rulingsAfter maxDepth [] claims
  let admitted := letIn rulings
  { lines := rulings.flatMap rulingLines ++ slotLines admitted
    log := rulings.flatMap rulingLog ++ (admitted.mapIdx fun slot c =>
      (relateAfter (admitted.take slot) c).notes.map Event.ofNote).flatten
    failure? := none }

/-- Of the game and of the slots nothing is left in the report. -/
theorem inspectClaims_eq_told (claims : List Claim) (maxDepth : Nat) :
    inspectClaims claims maxDepth = told maxDepth claims := by
  have hrulings := (start_tracks maxDepth).rulings_eq claims
  obtain ⟨-, -, hlast⟩ := (start_tracks maxDepth).run claims
  rw [hrulings, List.nil_append] at hlast
  have hlines : (inspectClaims claims maxDepth).lines = (told maxDepth claims).lines := by
    rw [inspectClaims_lines, hrulings, hlast.slotLines_eq]
    rfl
  have hlog : (inspectClaims claims maxDepth).log = (told maxDepth claims).log := by
    rw [inspectClaims_log, hrulings, List.flatMap_def]
    exact congrArg (_ ++ List.flatten ·)
      (hlast.map_claims fun _ _ relation => relation.notes.map Event.ofNote)
  calc inspectClaims claims maxDepth
      = ⟨(inspectClaims claims maxDepth).lines, (inspectClaims claims maxDepth).log, none⟩ := rfl
    _ = ⟨(told maxDepth claims).lines, (told maxDepth claims).log, none⟩ := by rw [hlines, hlog]
    _ = told maxDepth claims := rfl

/-- A list in which a name stands for two claims, one of which repeats the other. -/
example : (told 3 [⟨⟨default, ⟨0, 0⟩⟩, 7, 0⟩, ⟨⟨default, ⟨0, 0⟩⟩, 8, 0⟩]).lines =
    [.repeated 8, .slot 0 ⟨0, 0⟩ default .root] := by
  decide

end Inspect

end DisputeGame
