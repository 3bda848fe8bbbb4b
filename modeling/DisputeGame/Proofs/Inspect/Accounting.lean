import DisputeGame.Proofs.Inspect.Standing
import DisputeGame.Proofs.Inspect.Wording
import DisputeGame.Proofs.Tree.Numbering
import Mathlib.Control.Monad.Basic
import Mathlib.Data.List.Forall2

/-!
What a report owes to its list. Every claim of the list has one line: if it was passed over
the line says why, in the order of the list, and if it was let in the line stands behind
those, at the slot of the claim. The intake looks for repetitions and for the claim that is
answered before it puts a claim, and gives it the next slot; so the game is left with one
reason to refuse it.
-/

namespace DisputeGame

namespace Intake

open Inspect

/-- The claims that were passed over, in order. -/
def passedOver (rulings : List Ruling) : List Claim :=
  (rulings.filter fun r => !r.letIn?.isSome).map Ruling.claim

theorem letIn_eq_map_filter (rulings : List Ruling) :
    letIn rulings = (rulings.filter fun r => r.letIn?.isSome).map Ruling.claim := by
  induction rulings with
  | nil => rfl
  | cons r rest ih =>
    obtain ⟨c, verdict⟩ := r
    rw [letIn_cons, ih]
    cases verdict with
    | admitted slot => rfl
    | duplicate => rfl
    | orphan => rfl
    | refused why => rfl

/-- Each claim is passed over or let in, and never both. -/
theorem passedOver_append_letIn_perm (rulings : List Ruling) :
    (passedOver rulings ++ letIn rulings).Perm (rulings.map Ruling.claim) := by
  rw [letIn_eq_map_filter, passedOver, ← List.map_append]
  apply List.Perm.map
  exact List.perm_append_comm.trans (List.filter_append_perm _ rulings)

theorem passedOver_sublist (rulings : List Ruling) :
    (passedOver rulings).Sublist (rulings.map Ruling.claim) := List.filter_sublist.map _

theorem letIn_sublist (rulings : List Ruling) :
    (letIn rulings).Sublist (rulings.map Ruling.claim) := by
  rw [letIn_eq_map_filter]
  exact List.filter_sublist.map _

variable {maxDepth : Nat} {earlier : List Claim} {s : Intake}

/-- A claim that the intake puts is refused for its depth or not at all. -/
theorem Tracks.put_resolved (h : Tracks maxDepth earlier s) {c resolved : Claim}
    (hfresh : s.game.isDuplicate c = false) (hresolve : s.resolve? c = some resolved) :
    let next : Claim := { resolved with contractIndex := s.game.size }
    (maxDepth < c.position.depth ∧
      s.game.put next = .error (.exceedsMaxDepth c.position.depth maxDepth)) ∨
    (c.position.depth ≤ maxDepth ∧ s.game.put next = .ok (s.game.append next)) := by
  intro next
  obtain rfl := h.maxDepth_eq
  have hanswers : c.isRoot = true ∨ ∃ e ∈ earlier, e.contractIndex = c.parentIndex := by
    apply root_or_answers_of_not_orphan
    intro horphan
    rw [h.resolve_unknown c horphan.1 horphan.2] at hresolve
    cases hresolve
  obtain ⟨parent, hparent, -, hfilled⟩ := h.resolve_known c hanswers
  obtain rfl : { c with parentIndex := parent } = resolved :=
    Option.some.inj (hparent.symm.trans hresolve)
  by_cases hdeep : s.game.maxDepth < c.position.depth
  · exact Or.inl ⟨hdeep, Game.put_of_deep hdeep⟩
  · have hshallow := Nat.le_of_not_lt hdeep
    have haccepts : s.game.Accepts next := ⟨hshallow, rfl, hfresh, hfilled⟩
    exact Or.inr ⟨hshallow, Game.put_of_accepts haccepts⟩

end Intake

namespace Inspect

open Intake Report

/-- What may be said of a claim that is passed over. -/
inductive PassesOver (maxDepth : Nat) (c : Claim) : Line → Prop
  | repeated : PassesOver maxDepth c (.repeated c.contractIndex)
  | orphaned : PassesOver maxDepth c (.orphaned c.contractIndex c.parentIndex)
  | deep (hdeep : maxDepth < c.position.depth) :
      PassesOver maxDepth c (.rejected c.contractIndex (.exceedsMaxDepth c.position.depth maxDepth))

variable {maxDepth : Nat}

/-- A claim is let in, and nothing is said of it yet, or it is passed over with one line. -/
theorem rulingLines_cases {earlier : List Claim} {r : Ruling}
    (h : r.verdict = verdictAfter maxDepth earlier r.claim) :
    (r.letIn?.isSome = true ∧ rulingLines r = []) ∨
    (r.letIn?.isSome = false ∧ ∃ line, rulingLines r = [line] ∧
      PassesOver maxDepth r.claim line) := by
  obtain ⟨c, verdict⟩ := r
  change verdict = verdictAfter maxDepth earlier c at h
  rcases verdictAfter_cases maxDepth earlier c with hcase | ⟨-, hcase⟩ | ⟨hdeep, hcase⟩ | hcase
  · obtain rfl := h.trans hcase
    exact Or.inr ⟨rfl, _, rfl, .repeated⟩
  · obtain rfl := h.trans hcase
    exact Or.inr ⟨rfl, _, rfl, .orphaned⟩
  · obtain rfl := h.trans hcase
    exact Or.inr ⟨rfl, _, rfl, .deep hdeep⟩
  · obtain rfl := h.trans hcase
    exact Or.inl ⟨rfl, rfl⟩

theorem forall₂_passesOver {rulings : List Ruling}
    (h : ∀ r ∈ rulings, ∃ earlier, r.verdict = verdictAfter maxDepth earlier r.claim) :
    List.Forall₂ (PassesOver maxDepth) (passedOver rulings) (rulings.flatMap rulingLines) := by
  induction rulings with
  | nil => exact .nil
  | cons r rest ih =>
    obtain ⟨earlier, hverdict⟩ := h r List.mem_cons_self
    have hrest := ih fun q hq => h q (List.mem_cons_of_mem r hq)
    rw [List.flatMap_cons]
    unfold passedOver at hrest ⊢
    rcases rulingLines_cases hverdict with ⟨hin, hlines⟩ | ⟨hout, line, hlines, hline⟩
    · rw [hlines, List.filter_cons_of_neg (by simp [hin])]
      exact hrest
    · rw [hlines, List.filter_cons_of_pos (by simp [hout])]
      exact .cons hline hrest

theorem forall₂_passesOver_run (maxDepth : Nat) (claims : List Claim) :
    List.Forall₂ (PassesOver maxDepth) (passedOver ((Intake.start maxDepth).run claims).1)
      (((Intake.start maxDepth).run claims).1.flatMap rulingLines) :=
  forall₂_passesOver fun _ hr => exists_verdictAfter_of_mem_run hr

/-- A run of the inspection on a file of claims comes to the report on them. -/
theorem run_claims {env : Environment} {read : String → Option String}
    {args : List String} {verbosity : Nat} {path content : String} {claims : List Claim}
    (hargs : Arguments.parse? env args = some ⟨verbosity, .claims path maxDepth⟩)
    (hdepth : maxDepth ≤ Depth.limit) (hread : read path = some content)
    (hparse : Record.parseClaims content = .ok claims) :
    run env read args = .ofReport verbosity (note [.inspecting maxDepth] ++
      (note [.loaded claims.length path] ++ inspectClaims claims maxDepth)) := by
  have hsupported : Depth.ensureSupported maxDepth = .ok maxDepth := if_pos hdepth
  simp only [run, hargs, execute, withDepth, need, hsupported, hread, inspectFile, hparse]

/-- Every claim of a list is accounted for once. Each is passed over or let in, both in the
order of the list. The report has a line for each of those passed over, in their order, and
behind them a line for each of those let in, at slots counted from zero; so there are as
many lines as claims, and each is one line of text. In whatever state a list leaves the
intake, a claim that is put may only be refused for its depth. A run on a file with these
claims prints these lines and ends well. -/
theorem inspectClaims_accounts (maxDepth : Nat) (claims : List Claim) :
    let rulings := ((Intake.start maxDepth).run claims).1
    let passed := passedOver rulings
    let admitted := letIn rulings
    let lines := (inspectClaims claims maxDepth).lines
    (passed ++ admitted).Perm claims ∧ passed.Sublist claims ∧ admitted.Sublist claims ∧
    (∃ told slots, lines = told ++ slots ∧ List.Forall₂ (PassesOver maxDepth) passed told ∧
      slots.length = admitted.length ∧
      ∀ slot c, admitted[slot]? = some c → ∃ relation, StandsAs (admitted.take slot) c relation ∧
        slots[slot]? = some (.slot slot c.position c.value relation)) ∧
    lines.length = claims.length ∧
    (∀ line ∈ lines, '\n' ∉ line.text.toList) ∧
    (∀ before c resolved why,
      let s := ((Intake.start maxDepth).run before).2
      s.game.isDuplicate c = false → s.resolve? c = some resolved →
      s.game.put { resolved with contractIndex := s.game.size } = .error why →
        why = .exceedsMaxDepth c.position.depth maxDepth) ∧
    (∀ env read args verbosity path content,
      Arguments.parse? env args = some ⟨verbosity, .claims path maxDepth⟩ →
      maxDepth ≤ Depth.limit → read path = some content →
      Record.parseClaims content = .ok claims →
        (run env read args).exitCode = 0 ∧ (run env read args).error? = none ∧
        (run env read args).output = lines.map Line.text) := by
  intro rulings passed admitted lines
  obtain ⟨hclaims, -, hlast⟩ := (start_tracks maxDepth).run claims
  have hperm : (passed ++ admitted).Perm claims :=
    (passedOver_append_letIn_perm rulings).trans (List.Perm.of_eq hclaims)
  have htold : List.Forall₂ (PassesOver maxDepth) passed (rulings.flatMap rulingLines) :=
    forall₂_passesOver_run maxDepth claims
  have hlines : lines = rulings.flatMap rulingLines ++ _ := inspectClaims_lines claims maxDepth
  have hslots := hlast.length_claims
  rw [List.nil_append] at hslots hlast
  refine ⟨hperm, ?_, ?_, ⟨_, _, hlines, htold, ?_, ?_⟩, ?_, ?_, ?_, ?_⟩
  · exact hclaims ▸ passedOver_sublist rulings
  · exact hclaims ▸ letIn_sublist rulings
  · rw [List.length_map]
    exact hslots
  · intro slot c hc
    exact hlast.slotLine hc
  · rw [hlines, ← hperm.length_eq, List.length_append, List.length_append, htold.length_eq,
      List.length_map, hslots]
  · intro line _
    exact line.unbroken_text
  · intro before c resolved why s hfresh hresolve hput
    obtain ⟨-, -, htracks⟩ := (start_tracks maxDepth).run before
    rcases htracks.put_resolved hfresh hresolve with ⟨-, hdeep⟩ | ⟨-, hok⟩
    · exact Except.error.inj (hput.symm.trans hdeep)
    · cases hput.symm.trans hok
  · intro env read args verbosity path content hargs hdepth hread hparse
    rw [run_claims hargs hdepth hread hparse]
    exact ⟨rfl, rfl, rfl⟩

-- The file is a text of two hundred letters, and each is a step of the reader.
set_option maxRecDepth 2000 in
/-- A file with a claim at the root and the same claim under another name. -/
theorem inspectClaims_accounts_repetition :
    let value := "0000000000000000000000000000000000000000000000000000000000000000"
    let content := "[\x7b\"contract_index\":7,\"position\":1,\"value\":\"" ++ value ++
      "\"\x7d,\x7b\"contract_index\":8,\"position\":1,\"value\":\"" ++ value ++ "\"\x7d]"
    let claims : List Claim := [⟨⟨default, ⟨0, 0⟩⟩, 7, 0⟩, ⟨⟨default, ⟨0, 0⟩⟩, 8, 0⟩]
    let args := ["claims", "claims.json", "-d", "3"]
    Arguments.parse? {} args = some ⟨0, .claims "claims.json" 3⟩ ∧
    Record.parseClaims content = .ok claims ∧
    (run {} (fun _ => some content) args).exitCode = 0 ∧
    (run {} (fun _ => some content) args).output =
      ["claim 8 duplicates an earlier claim, skipping",
        "slot 0 at 0/0 (gindex 1) value 0x" ++ value ++ ": root"] := by
  intro value content claims args
  have hargs : Arguments.parse? {} args = some ⟨0, .claims "claims.json" 3⟩ := by decide
  have hparse : Record.parseClaims content = .ok claims := by decide +kernel
  have hlines : (inspectClaims claims 3).lines =
      [.repeated 8, .slot 0 ⟨0, 0⟩ default .root] := by
    rw [inspectClaims_eq_told]
    decide
  obtain ⟨-, -, -, -, -, -, -, hruns⟩ := inspectClaims_accounts 3 claims
  obtain ⟨hexit, -, houtput⟩ := hruns {} (fun _ => some content) args 0 "claims.json" content
    hargs (by decide) rfl hparse
  rw [hlines] at houtput
  exact ⟨hargs, hparse, hexit, houtput.trans (by decide)⟩

end Inspect

end DisputeGame
