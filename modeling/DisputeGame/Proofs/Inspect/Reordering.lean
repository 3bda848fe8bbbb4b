import DisputeGame.Proofs.Inspect.Accounting
import Mathlib.Data.List.Nodup

/-!
Lists in another order. Where every name is used once, and every claim stands behind the one
it answers, the whole list is let in and the last claim of a name is the only one. The slots
differ from order to order; what a line says of a claim, without its slot, is a matter of
the claims in the list and not of their order.
-/

namespace DisputeGame

/-- What a line tells of a claim of the game, without its slot. -/
def Inspect.Line.standing? : Inspect.Line → Option (Position × ClaimValue × Inspect.Relation)
  | .slot _ p value relation => some (p, value, relation)
  | _ => none

namespace Intake

open Inspect

/-- Every claim below the root stands behind one of the name it answers. -/
def AnswersEarlier (claims : List Claim) : Prop :=
  ∀ k c, claims[k]? = some c → c.isRoot = false →
    ∃ e ∈ claims.take k, e.contractIndex = c.parentIndex

instance (claims : List Claim) : Decidable (AnswersEarlier claims) :=
  decidable_of_iff' _ forall_getElem?_iff

/-- How a claim stands to the claims of a list, wherever in it they are. -/
def relationAmong (claims : List Claim) (c : Claim) : Relation :=
  if c.isRoot then .root
  else if ∃ e ∈ claims, e.contractIndex = c.parentIndex ∧ c.defends e = true then .defends
  else .doesNotDefend

variable {maxDepth : Nat} {earlier claims : List Claim} {s : Intake}

theorem relationAmong_perm {cs ds : List Claim} (hperm : cs.Perm ds) (c : Claim) :
    relationAmong cs c = relationAmong ds c := by
  simp only [relationAmong, hperm.mem_iff]

/-- Under names that are used once the last claim of a name is the only one. -/
theorem StandsAs.eq_relationAmong (hnames : (claims.map Claim.contractIndex).Nodup) {slot : Nat}
    {c : Claim} {relation : Relation} (h : StandsAs (claims.take slot) c relation) :
    relation = relationAmong claims c := by
  unfold StandsAs at h
  unfold relationAmong
  cases hroot : c.isRoot with
  | true => simpa [hroot] using h
  | false =>
    simp only [hroot, Bool.false_eq_true, if_false] at h ⊢
    obtain ⟨parent, e, hparent, he, hrelation⟩ := h
    have hmem : e ∈ claims := List.mem_of_mem_take (List.mem_of_getElem? he)
    have hname : e.contractIndex = c.parentIndex := by
      obtain ⟨k, hk, hkname⟩ := hparent.1
      rw [hk] at he
      rw [← Option.some.inj he]
      exact hkname
    have hiff : (∃ k ∈ claims, k.contractIndex = c.parentIndex ∧ c.defends k = true) ↔
        c.defends e = true := by
      constructor
      · intro hdefends
        obtain ⟨k, hk, hkname, hkdefends⟩ := hdefends
        have hsame := List.inj_on_of_nodup_map hnames hk hmem (hkname.trans hname.symm)
        rw [← hsame]
        exact hkdefends
      · intro hdefends
        exact ⟨e, hmem, hname, hdefends⟩
    rw [hrelation]
    simp only [hiff]

/-- What is left of such a list is let in after the part before it was. -/
theorem Tracks.letIn_run (h : Tracks maxDepth earlier s) {rest : List Claim}
    (hsplit : earlier ++ rest = claims) (hdistinct : (claims.map Claim.toClaimData).Nodup)
    (hshallow : ∀ c ∈ claims, c.position.depth ≤ maxDepth) (hanswers : AnswersEarlier claims) :
    letIn (s.run rest).1 = rest := by
  induction rest generalizing earlier s with
  | nil => rfl
  | cons c rest ih =>
    have hc : claims[earlier.length]? = some c := by
      rw [← hsplit, List.getElem?_append_right (Nat.le_refl _), Nat.sub_self]
      rfl
    have htake : claims.take earlier.length = earlier := by
      rw [← hsplit]
      exact List.take_left' rfl
    have hfresh : ∀ e ∈ earlier, e.toClaimData ≠ c.toClaimData := by
      intro e he
      rw [← hsplit, List.map_append, List.nodup_append] at hdistinct
      exact hdistinct.2.2 _ (List.mem_map_of_mem he) _ List.mem_cons_self
    have hfound : c.isRoot = true ∨ ∃ e ∈ earlier, e.contractIndex = c.parentIndex := by
      cases hroot : c.isRoot with
      | true => exact Or.inl rfl
      | false => exact Or.inr (htake ▸ hanswers earlier.length c hc hroot)
    have hfits : Fits maxDepth earlier c :=
      ⟨hfresh, hfound, hshallow c (List.mem_of_getElem? hc)⟩
    obtain ⟨hverdict, hnext⟩ := h.offer c
    have hin : (s.offer c).1 = .admitted earlier.length :=
      hverdict.trans ((verdictAfter_eq_admitted_iff _ _ _ _).mpr ⟨hfits, rfl⟩)
    have hone : letIn [⟨c, (s.offer c).1⟩] = [c] := by
      rw [hin]
      rfl
    rw [hone] at hnext
    rw [run_cons, letIn_cons, hone, ih hnext (by rw [← hsplit]; simp)]
    rfl

end Intake

namespace Inspect

open Intake

/-- A list that is let in whole has a line for each of its claims, in order, and no other. -/
theorem standing_of_letIn {maxDepth : Nat} {claims : List Claim}
    (hin : letIn ((start maxDepth).run claims).1 = claims)
    (hnames : (claims.map Claim.contractIndex).Nodup) :
    (inspectClaims claims maxDepth).lines.map Line.standing? =
      claims.map fun c => some (c.position, c.value, relationAmong claims c) := by
  obtain ⟨hclaims, -, hlast⟩ := (start_tracks maxDepth).run claims
  rw [List.nil_append, hin] at hlast
  have htold : ((start maxDepth).run claims).1.flatMap rulingLines = [] := by
    have hpassed := (forall₂_passesOver_run maxDepth claims).length_eq
    have hcount := (passedOver_append_letIn_perm ((start maxDepth).run claims).1).length_eq
    rw [hclaims, hin, List.length_append] at hcount
    apply List.length_eq_zero_iff.mp
    omega
  rw [inspectClaims_lines, htold, List.nil_append]
  apply List.ext_getElem?
  intro slot
  rw [List.getElem?_map, List.getElem?_map (l := claims)]
  cases hc : claims[slot]? with
  | none =>
    have hslot := List.getElem?_eq_none_iff.mp hc
    rw [List.getElem?_eq_none (by rw [List.length_map, hlast.length_claims]; exact hslot)]
    rfl
  | some c =>
    obtain ⟨relation, hstands, hline⟩ := hlast.slotLine hc
    rw [hline, hstands.eq_relationAmong hnames]
    rfl

/-- The order of a list plays no part in what is said of its claims. Of two lists of the same
claims, under names used once, none said twice and none too deep, each with every claim
behind the one it answers, both are let in whole. Either report has one line for each claim of
its list, in the order of the list, and the line tells of the claim itself, with its relation
to the one it answers; so the claims that the two reports tell of, each with its relation, are
the same. -/
theorem inspectClaims_reorder {maxDepth : Nat} {cs ds : List Claim} (hperm : cs.Perm ds)
    (hnames : (cs.map Claim.contractIndex).Nodup) (hdistinct : (cs.map Claim.toClaimData).Nodup)
    (hshallow : ∀ c ∈ cs, c.position.depth ≤ maxDepth) (hcs : AnswersEarlier cs)
    (hds : AnswersEarlier ds) :
    letIn ((start maxDepth).run cs).1 = cs ∧ letIn ((start maxDepth).run ds).1 = ds ∧
    ((inspectClaims cs maxDepth).lines.map Line.standing? =
      cs.map fun c => some (c.position, c.value, relationAmong cs c)) ∧
    ((inspectClaims ds maxDepth).lines.map Line.standing? =
      ds.map fun c => some (c.position, c.value, relationAmong cs c)) ∧
    (∀ line ∈ (inspectClaims cs maxDepth).lines, line.standing?.isSome = true) ∧
    ((inspectClaims cs maxDepth).lines.map Line.standing?).Perm
      ((inspectClaims ds maxDepth).lines.map Line.standing?) := by
  have hnames' : (ds.map Claim.contractIndex).Nodup := (hperm.map _).nodup_iff.mp hnames
  have hdistinct' : (ds.map Claim.toClaimData).Nodup := (hperm.map _).nodup_iff.mp hdistinct
  have hshallow' : ∀ c ∈ ds, c.position.depth ≤ maxDepth := by
    intro c hc
    exact hshallow c (hperm.mem_iff.mpr hc)
  have hin := (start_tracks maxDepth).letIn_run (List.nil_append cs) hdistinct hshallow hcs
  have hin' := (start_tracks maxDepth).letIn_run (List.nil_append ds) hdistinct' hshallow' hds
  have htold := standing_of_letIn hin hnames
  have htold' : (inspectClaims ds maxDepth).lines.map Line.standing? =
      ds.map fun c => some (c.position, c.value, relationAmong cs c) := by
    rw [standing_of_letIn hin' hnames']
    simp only [relationAmong_perm hperm.symm]
  refine ⟨hin, hin', htold, htold', ?_, ?_⟩
  · intro line hline
    have hmem : line.standing? ∈ (inspectClaims cs maxDepth).lines.map Line.standing? :=
      List.mem_map_of_mem hline
    rw [htold] at hmem
    obtain ⟨c, -, hc⟩ := List.mem_map.mp hmem
    rw [← hc]
    rfl
  · rw [htold, htold']
    exact hperm.map _

/-- An attack on the root and a defense of it, with the attack first and with the defense
first. The two are told of at each other's slots. -/
theorem inspectClaims_reorder_moves :
    let top : Claim := ⟨⟨default, ⟨0, 0⟩⟩, 10, 0⟩
    let attack : Claim := ⟨⟨default, ⟨1, 0⟩⟩, 30, 10⟩
    let defense : Claim := ⟨⟨default, ⟨2, 2⟩⟩, 20, 10⟩
    let cs := [top, attack, defense]
    let ds := [top, defense, attack]
    cs.Perm ds ∧ (cs.map Claim.contractIndex).Nodup ∧ (cs.map Claim.toClaimData).Nodup ∧
    (∀ c ∈ cs, c.position.depth ≤ 3) ∧ AnswersEarlier cs ∧ AnswersEarlier ds ∧
    letIn ((start 3).run cs).1 = cs ∧ letIn ((start 3).run ds).1 = ds ∧
    (inspectClaims cs 3).lines = [.slot 0 ⟨0, 0⟩ default .root,
      .slot 1 ⟨1, 0⟩ default .doesNotDefend, .slot 2 ⟨2, 2⟩ default .defends] ∧
    (inspectClaims ds 3).lines = [.slot 0 ⟨0, 0⟩ default .root,
      .slot 1 ⟨2, 2⟩ default .defends, .slot 2 ⟨1, 0⟩ default .doesNotDefend] ∧
    (inspectClaims cs 3).lines.map Line.standing? = [some (⟨0, 0⟩, default, .root),
      some (⟨1, 0⟩, default, .doesNotDefend), some (⟨2, 2⟩, default, .defends)] ∧
    (inspectClaims ds 3).lines.map Line.standing? = [some (⟨0, 0⟩, default, .root),
      some (⟨2, 2⟩, default, .defends), some (⟨1, 0⟩, default, .doesNotDefend)] ∧
    ((inspectClaims cs 3).lines.map Line.standing?).Perm
      ((inspectClaims ds 3).lines.map Line.standing?) := by
  intro top attack defense cs ds
  have hperm : cs.Perm ds := by decide
  have hnames : (cs.map Claim.contractIndex).Nodup := by decide
  have hdistinct : (cs.map Claim.toClaimData).Nodup := by decide
  have hshallow : ∀ c ∈ cs, c.position.depth ≤ 3 := by decide
  have hcs : AnswersEarlier cs := by decide
  have hds : AnswersEarlier ds := by decide
  obtain ⟨hin, hin', htold, htold', -, hsame⟩ :=
    inspectClaims_reorder hperm hnames hdistinct hshallow hcs hds
  refine ⟨hperm, hnames, hdistinct, hshallow, hcs, hds, hin, hin', ?_, ?_,
    htold.trans (by decide), htold'.trans (by decide), hsame⟩
  · rw [inspectClaims_eq_told]
    decide
  · rw [inspectClaims_eq_told]
    decide

end Inspect

end DisputeGame
