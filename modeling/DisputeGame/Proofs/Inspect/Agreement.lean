import DisputeGame.Proofs.Game.Loading
import DisputeGame.Proofs.Inspect.Standing

/-!
Lists that load, as the intake takes them. A list that the game itself takes claim by claim
names every claim after its slot, so the slot that the intake looks up for a name is that
name, and no claim is changed on its way in. The intake comes to the same game and passes
nothing over.
-/

namespace DisputeGame

namespace Intake

variable {s : Intake} {c : Claim}

/-- Every name that is known so far is the slot it stands for. -/
def NamesAreSlots (s : Intake) : Prop :=
  ∀ name, s.slots[name]? = if name < s.game.size then some name else none

theorem start_namesAreSlots (maxDepth : Nat) : (start maxDepth).NamesAreSlots := by
  intro name
  have hsize : (start maxDepth).game.size = 0 := rfl
  rw [hsize, if_neg (Nat.not_lt_zero name)]
  exact Std.HashMap.getElem?_empty

theorem NamesAreSlots.resolve (h : s.NamesAreSlots)
    (hanswers : c.isRoot = true ∨ c.parentIndex < s.game.size) : s.resolve? c = some c := by
  unfold resolve?
  cases hroot : c.isRoot with
  | true => rfl
  | false =>
    have hfilled : c.parentIndex < s.game.size := hanswers.resolve_left (by simp [hroot])
    rw [h, if_pos hfilled]
    rfl

/-- A claim that the game accepts goes in as it is, and its name is the slot it gets. -/
theorem NamesAreSlots.offer (h : s.NamesAreSlots) (hc : s.game.Accepts c) :
    (s.offer c).1 = .admitted c.contractIndex ∧ (s.offer c).2.game = s.game.append c ∧
      (s.offer c).2.NamesAreSlots := by
  have hslot : { c with contractIndex := s.game.size } = c := by rw [← hc.next]
  have hput : s.game.put { c with contractIndex := s.game.size } = .ok (s.game.append c) := by
    rw [hslot]
    exact Game.put_of_accepts hc
  rw [offer_of_put hc.fresh (h.resolve hc.answers) hput]
  refine ⟨by rw [hc.next], rfl, ?_⟩
  intro name
  rw [hc.next, Std.HashMap.getElem?_insert, h name, Game.size_append]
  by_cases hname : s.game.size = name
  · simp [hname]
  · have hlt : name < s.game.size + 1 ↔ name < s.game.size := by omega
    simp [hname, hlt]

theorem NamesAreSlots.run {claims : List Claim} {last : Game} (h : s.NamesAreSlots)
    (hload : claims.foldlM Game.put s.game = .ok last) :
    (s.run claims).1 = claims.map (fun c => ⟨c, .admitted c.contractIndex⟩) ∧
      (s.run claims).2.game = last := by
  induction claims generalizing s with
  | nil => exact ⟨rfl, Except.ok.inj hload⟩
  | cons c rest ih =>
    rw [List.foldlM_cons] at hload
    obtain ⟨next, hput, hrest⟩ := bind_eq_ok.mp hload
    obtain ⟨haccepts, rfl⟩ := Game.accepts_of_put hput
    obtain ⟨hverdict, hgame, hnames⟩ := h.offer haccepts
    rw [← hgame] at hrest
    obtain ⟨hrulings, hlast⟩ := ih hnames hrest
    rw [run_cons, hrulings, hverdict]
    exact ⟨rfl, hlast⟩

end Intake

namespace Inspect

/-- Nothing is said of a claim that was let in until the game is there. -/
theorem flatMap_rulingLines_admitted (slot : Claim → Nat) (claims : List Claim) :
    (claims.map fun c => Ruling.mk c (.admitted (slot c))).flatMap rulingLines = [] := by
  rw [List.flatMap_map]
  exact List.flatMap_eq_nil_iff.mpr fun c _ => rfl

/-- A list that loads is taken as it is. Every claim is let in, at the slot it names; the
game is the one that the list loads into, with the same claims under the same indices; and
there is a line for each claim of the list and no other, which tells the root or what the
loaded game says of the claim and the one it answers. -/
theorem inspectClaims_of_load {maxDepth : Nat} {claims : List Claim} {g : Game}
    (h : Game.ofClaims maxDepth claims = .ok g) :
    ((Intake.start maxDepth).run claims).1 =
      claims.map (fun c => ⟨c, .admitted c.contractIndex⟩) ∧
    ((Intake.start maxDepth).run claims).2.game = g ∧
    g.claims.toList = claims ∧
    (inspectClaims claims maxDepth).lines = claims.map fun c =>
      .slot c.contractIndex c.position c.value
        (if c.isRoot then .root else if g.defendsParent c then .defends else .doesNotDefend) := by
  obtain ⟨hrulings, hgame⟩ := (Intake.start_namesAreSlots maxDepth).run h
  obtain ⟨-, -, hclaims⟩ := Game.ofClaims_eq_ok h
  refine ⟨hrulings, hgame, hclaims, ?_⟩
  rw [inspectClaims_lines, hrulings, hgame, hclaims, flatMap_rulingLines_admitted,
    List.nil_append]
  exact List.map_congr_left fun c _ =>
    congrArg (Line.slot c.contractIndex c.position c.value) (relationOf_eq g c)

/-- A claim at the root with an attack on it and a defense of it. -/
theorem inspectClaims_of_load_three :
    let top : Claim := ⟨⟨default, ⟨0, 0⟩⟩, 0, 9⟩
    let left : Claim := ⟨⟨default, ⟨1, 0⟩⟩, 1, 0⟩
    let defense : Claim := ⟨⟨default, ⟨2, 2⟩⟩, 2, 0⟩
    (∃ g, Game.ofClaims 3 [top, left, defense] = .ok g) ∧
    (inspectClaims [top, left, defense] 3).lines =
      [.slot 0 ⟨0, 0⟩ default .root, .slot 1 ⟨1, 0⟩ default .doesNotDefend,
        .slot 2 ⟨2, 2⟩ default .defends] := by
  intro top left defense
  obtain ⟨g, hload⟩ : ∃ g, Game.ofClaims 3 [top, left, defense] = .ok g :=
    (Game.exists_ofClaims_iff 3 _).mpr (by decide)
  refine ⟨⟨g, hload⟩, ?_⟩
  obtain ⟨-, -, hclaims, hlines⟩ := inspectClaims_of_load hload
  have hfirst : g.get? 0 = some top := by
    rw [← Game.getElem?_claims, hclaims]
    rfl
  have hleft : g.defendsParent left = false := by
    have hup : g.parent? left = some top := hfirst
    rw [Game.defendsParent_eq, hup]
    decide
  have hdefense : g.defendsParent defense = true := by
    have hup : g.parent? defense = some top := hfirst
    rw [Game.defendsParent_eq, hup]
    decide
  rw [hlines]
  simp only [List.map_cons, List.map_nil, hleft, hdefense]
  rfl

end Inspect

end DisputeGame
