import DisputeGame.Proofs.Claim.Defense
import DisputeGame.Proofs.Inspect.Accounting
import DisputeGame.Proofs.Inspect.Endings
import DisputeGame.Proofs.Record.RoundTrip

/-!
What the log and the report have in common. An event is noted while the claims are taken in,
or while two of them are compared, and the lines are printed partly then and partly from the
game that is left. An admission is noted at the moment when the game takes a slot more, so the
admissions that are noted are the claims of the game; a refusal is noted together with its
line; and a claim is looked at from its parent exactly where it lies two levels below it.
-/

namespace DisputeGame

open Depth

/-- The slot of a claim that was let in, and where it lies. -/
def Ruling.placed? (r : Ruling) : Option (Nat × Position) :=
  match r.verdict with
  | .admitted slot => some (slot, r.claim.position)
  | _ => none

/-- Whether a claim of the game lies two levels below the one it answers. -/
def Game.liesTwoBelow (g : Game) (c : Claim) : Bool :=
  !c.isRoot && (g.get? c.parentIndex).any fun parent =>
    c.position.depth = parent.position.depth + 2

namespace Intake

/-- The slots of the game, each with the place of its claim. -/
def placed (s : Intake) : List (Nat × Position) :=
  s.game.claims.toList.map fun c => (c.contractIndex, c.position)

variable {s : Intake} {c : Claim}

/-- One offer: the game takes a slot more exactly if the ruling lets the claim in, and the
ruling tells the slot and the place. -/
theorem offer_placed (s : Intake) (c : Claim) :
    (s.offer c).2.placed = s.placed ++ (Ruling.placed? ⟨c, (s.offer c).1⟩).toList := by
  have hkeep : s.placed = s.placed ++ [] := (List.append_nil s.placed).symm
  by_cases hdup : s.game.isDuplicate c = true
  · rw [offer_of_duplicate hdup]
    exact hkeep
  have hfresh : s.game.isDuplicate c = false := Bool.eq_false_iff.mpr hdup
  cases hresolve : s.resolve? c with
  | none =>
    rw [offer_of_unresolved hfresh hresolve]
    exact hkeep
  | some resolved =>
    cases hput : s.game.put { resolved with contractIndex := s.game.size } with
    | error why =>
      rw [offer_of_refusal hfresh hresolve hput]
      exact hkeep
    | ok next =>
      obtain ⟨-, rfl⟩ := Game.accepts_of_put hput
      rw [offer_of_put hfresh hresolve hput]
      simp [placed, Ruling.placed?, Game.claims_append, position_of_resolve hresolve]

/-- A whole run: the slots that are taken are those that the rulings tell, in their order. -/
theorem run_placed (s : Intake) (claims : List Claim) :
    (s.run claims).2.placed = s.placed ++ (s.run claims).1.filterMap Ruling.placed? := by
  induction claims generalizing s with
  | nil => simp [run]
  | cons c rest ih =>
    rw [run_cons, ih, offer_placed, List.append_assoc]
    cases h : Ruling.placed? ⟨c, (s.offer c).1⟩ with
    | none => simp [h]
    | some place => simp [h]

end Intake

namespace Inspect

open Intake Report

/-- The slot that a line tells of, and the place of its claim. -/
def Line.slot? : Line → Option (Nat × Position)
  | slot index p _ _ => some (index, p)
  | _ => none

/-- The refusal that a line tells, and of which claim. -/
def Line.refusal? : Line → Option (Nat × Refusal)
  | rejected index why => some (index, why)
  | _ => none

section Events

theorem level_of_game (e : Event) (h : e.source = .game) : e.level = .debug := by
  cases e with
  | admitting slot p => rfl
  | inspecting maxDepth => cases h
  | noDefense p why => cases h
  | loaded count path => cases h
  | rejected index why => cases h
  | rerooted p ancestor seen => cases h

theorem level_of_position (e : Event) (h : e.source = .position) : e.level = .trace := by
  cases e with
  | rerooted p ancestor seen => rfl
  | inspecting maxDepth => cases h
  | noDefense p why => cases h
  | loaded count path => cases h
  | rejected index why => cases h
  | admitting slot p => cases h

/-- A selection of events that all show is the same before and after the others are hidden. -/
theorem filter_showsAt {verbosity : Nat} {selects : Event → Bool}
    (h : ∀ e, selects e = true → e.level.rank ≤ verbosity) (log : List Event) :
    (log.filter (Event.showsAt verbosity)).filter selects = log.filter selects := by
  rw [List.filter_filter]
  apply List.filter_congr
  intro e _
  cases hselects : selects e with
  | false => rfl
  | true =>
    have hshows : e.showsAt verbosity = true := decide_eq_true (h e hselects)
    rw [hshows]
    rfl

theorem filter_level_showsAt {verbosity : Nat} {level : Level} (h : level.rank ≤ verbosity)
    (log : List Event) :
    (log.filter (Event.showsAt verbosity)).filter (fun e => e.level = level) =
      log.filter (fun e => e.level = level) := by
  apply filter_showsAt
  intro e he
  rw [of_decide_eq_true he]
  exact h

theorem filter_source_showsAt {verbosity : Nat} {source : Source} {level : Level}
    (hlevel : ∀ e : Event, e.source = source → e.level = level) (h : level.rank ≤ verbosity)
    (log : List Event) :
    (log.filter (Event.showsAt verbosity)).filter (fun e => e.source = source) =
      log.filter (fun e => e.source = source) := by
  apply filter_showsAt
  intro e he
  rw [hlevel e (of_decide_eq_true he)]
  exact h

end Events

section Rulings

variable (r : Ruling)

theorem rulingLog_game :
    (rulingLog r).filter (fun e => e.source = .game) =
      r.placed?.toList.map fun (slot, p) => .admitting slot p := by
  obtain ⟨c, verdict⟩ := r
  cases verdict <;> rfl

theorem rulingLog_warn :
    (rulingLog r).filter (fun e => e.level = .warn) =
      ((rulingLines r).filterMap Line.refusal?).map fun (index, why) => .rejected index why := by
  obtain ⟨c, verdict⟩ := r
  cases verdict <;> rfl

theorem rulingLog_info : (rulingLog r).filter (fun e => e.level = .info) = [] := by
  obtain ⟨c, verdict⟩ := r
  cases verdict <;> rfl

theorem rulingLog_position : (rulingLog r).filter (fun e => e.source = .position) = [] := by
  obtain ⟨c, verdict⟩ := r
  cases verdict <;> rfl

theorem rulingLines_slot? : (rulingLines r).filterMap Line.slot? = [] := by
  obtain ⟨c, verdict⟩ := r
  cases verdict <;> rfl

end Rulings

section Relations

variable (g : Game)

/-- A claim is looked at from its parent once, or not at all if it lies elsewhere. -/
theorem relationLog_cases (c : Claim) :
    (g.liesTwoBelow c = true ∧
      ∃ ancestor seen, relationLog g c = [.rerooted c.position ancestor seen]) ∨
    (g.liesTwoBelow c = false ∧ relationLog g c = []) := by
  unfold relationLog relate Game.testParent Game.parent? Game.liesTwoBelow
  cases hroot : c.isRoot with
  | true => exact Or.inr ⟨rfl, rfl⟩
  | false =>
    simp only [Bool.false_eq_true, if_false, Bool.not_false, Bool.true_and]
    cases g.get? c.parentIndex with
    | none => exact Or.inr ⟨rfl, rfl⟩
    | some parent =>
      have htest : (c.testParent (some parent)).notes = (c.lookFrom parent).notes := rfl
      rw [Noted.notes_map, htest, Claim.lookFrom_eq]
      by_cases hdepth : c.position.depth = parent.position.depth + 2
      · rw [if_pos hdepth]
        exact Or.inl ⟨decide_eq_true hdepth, _, _, rfl⟩
      · rw [if_neg hdepth]
        exact Or.inr ⟨decide_eq_false hdepth, rfl⟩

theorem rerooted_of_mem_relationLog {claims : List Claim} {e : Event}
    (h : e ∈ claims.flatMap (relationLog g)) :
    ∃ p ancestor seen, e = .rerooted p ancestor seen := by
  obtain ⟨c, -, he⟩ := List.mem_flatMap.mp h
  rcases relationLog_cases g c with ⟨-, ancestor, seen, hlog⟩ | ⟨-, hlog⟩
  · rw [hlog, List.mem_singleton] at he
    exact ⟨c.position, ancestor, seen, he⟩
  · rw [hlog] at he
    cases he

/-- Nothing else is noted when claims are compared. -/
theorem filter_relationLog {selects : Event → Bool}
    (h : ∀ p ancestor seen, selects (.rerooted p ancestor seen) = false) (claims : List Claim) :
    (claims.flatMap (relationLog g)).filter selects = [] := by
  apply List.filter_eq_nil_iff.mpr
  intro e he
  obtain ⟨p, ancestor, seen, rfl⟩ := rerooted_of_mem_relationLog g he
  simp [h]

theorem relationLog_position (claims : List Claim) :
    (claims.flatMap (relationLog g)).filter (fun e => e.source = .position) =
      claims.flatMap (relationLog g) := by
  apply List.filter_eq_self.mpr
  intro e he
  obtain ⟨p, ancestor, seen, rfl⟩ := rerooted_of_mem_relationLog g he
  rfl

theorem length_flatMap_relationLog (claims : List Claim) :
    (claims.flatMap (relationLog g)).length = (claims.filter g.liesTwoBelow).length := by
  induction claims with
  | nil => rfl
  | cons c rest ih =>
    rw [List.flatMap_cons, List.length_append, ih]
    rcases relationLog_cases g c with ⟨htwo, ancestor, seen, hlog⟩ | ⟨hother, hlog⟩
    · rw [hlog, List.filter_cons_of_pos htwo, List.length_singleton, List.length_cons,
        Nat.add_comm]
    · rw [hlog, List.filter_cons_of_neg (by simp [hother]), List.length_nil, Nat.zero_add]

end Relations

section Reports

variable (claims : List Claim) (maxDepth : Nat)

/-- The slots that are printed are those of the game. -/
theorem inspectClaims_slots :
    (inspectClaims claims maxDepth).lines.filterMap Line.slot? =
      ((Intake.start maxDepth).run claims).2.placed := by
  have hpassed : ∀ rulings : List Ruling,
      (rulings.flatMap rulingLines).filterMap Line.slot? = [] := by
    intro rulings
    rw [List.filterMap_flatMap]
    exact List.flatMap_eq_nil_iff.mpr fun r _ => rulingLines_slot? r
  have hslot : ∀ g : Game,
      Line.slot? ∘ slotLine g = some ∘ fun c : Claim => (c.contractIndex, c.position) := by
    intro g
    rfl
  rw [inspectClaims_lines, List.filterMap_append, hpassed, List.nil_append, List.filterMap_map,
    hslot, List.filterMap_eq_map]
  rfl

/-- The admissions that are noted are the slots that are printed. -/
theorem inspectClaims_admissions :
    (inspectClaims claims maxDepth).log.filter (fun e => e.source = .game) =
      ((inspectClaims claims maxDepth).lines.filterMap Line.slot?).map
        fun (slot, p) => .admitting slot p := by
  have hstart : (Intake.start maxDepth).placed = [] := rfl
  rw [inspectClaims_log, inspectClaims_slots, run_placed, hstart, List.nil_append,
    List.filter_append, filter_relationLog _ fun _ _ _ => rfl, List.append_nil,
    List.filter_flatMap, List.filterMap_eq_flatMap_toList, List.map_flatMap]
  simp only [rulingLog_game]

/-- No refusal is told of a claim that was let in. -/
theorem inspectClaims_refused :
    (inspectClaims claims maxDepth).lines.filterMap Line.refusal? =
      (((Intake.start maxDepth).run claims).1.flatMap rulingLines).filterMap Line.refusal? := by
  have hslots : ∀ (g : Game) (claims : List Claim),
      (claims.map (slotLine g)).filterMap Line.refusal? = [] := by
    intro g claims
    rw [List.filterMap_map]
    exact List.filterMap_eq_nil_iff.mpr fun _ _ => rfl
  rw [inspectClaims_lines, List.filterMap_append, hslots, List.append_nil]

/-- The refusals that are noted are those that are printed. -/
theorem inspectClaims_refusals :
    (inspectClaims claims maxDepth).log.filter (fun e => e.level = .warn) =
      ((inspectClaims claims maxDepth).lines.filterMap Line.refusal?).map
        fun (index, why) => .rejected index why := by
  rw [inspectClaims_log, inspectClaims_refused, List.filter_append,
    filter_relationLog _ fun _ _ _ => rfl, List.append_nil, List.filter_flatMap,
    List.filterMap_flatMap, List.map_flatMap]
  simp only [rulingLog_warn]

theorem inspectClaims_info :
    (inspectClaims claims maxDepth).log.filter (fun e => e.level = .info) = [] := by
  rw [inspectClaims_log, List.filter_append, filter_relationLog _ fun _ _ _ => rfl,
    List.append_nil, List.filter_flatMap]
  exact List.flatMap_eq_nil_iff.mpr fun r _ => rulingLog_info r

/-- There are as many looks from a parent as claims two levels below theirs. -/
theorem length_inspectClaims_rerooted :
    let game := ((Intake.start maxDepth).run claims).2.game
    ((inspectClaims claims maxDepth).log.filter (fun e => e.source = .position)).length =
      (game.claims.toList.filter game.liesTwoBelow).length := by
  intro game
  have hintake : ∀ rulings : List Ruling,
      (rulings.flatMap rulingLog).filter (fun e => e.source = .position) = [] := by
    intro rulings
    rw [List.filter_flatMap]
    exact List.flatMap_eq_nil_iff.mpr fun r _ => rulingLog_position r
  rw [inspectClaims_log, List.filter_append, hintake, List.nil_append, relationLog_position,
    length_flatMap_relationLog]

/-- Each claim of a list is told by one line. -/
theorem length_inspectClaims_lines :
    (inspectClaims claims maxDepth).lines.length = claims.length := by
  obtain ⟨hclaims, -, hlast⟩ := (start_tracks maxDepth).run claims
  have htold := (forall₂_passesOver_run maxDepth claims).length_eq
  have hall := (passedOver_append_letIn_perm ((start maxDepth).run claims).1).length_eq
  rw [hclaims, List.length_append] at hall
  rw [inspectClaims_lines, List.length_append, List.length_map, hlast.length_claims, ← htold]
  exact hall

end Reports

section Runs

variable {env : Environment} {read : String → Option String} {args : List String}
  {verbosity maxDepth : Nat} {path : String}

/-- What comes before the report on the claims is noted and not printed. -/
theorem execute_claims {content : String} {claims : List Claim} (hdepth : maxDepth ≤ limit)
    (hread : read path = some content) (hparse : Record.parseClaims content = .ok claims) :
    (execute read (.claims path maxDepth)).lines = (inspectClaims claims maxDepth).lines ∧
    (execute read (.claims path maxDepth)).log = .inspecting maxDepth ::
      .loaded claims.length path :: (inspectClaims claims maxDepth).log ∧
    (execute read (.claims path maxDepth)).failure? = none := by
  rw [execute, withDepth_of_supported _ hdepth, hread, inspectFile, hparse]
  exact ⟨rfl, rfl, rfl⟩

/-- A run on a file ends well exactly if it has read a list of claims. -/
theorem exitCode_claims_eq_zero_iff
    (hargs : Arguments.parse? env args = some ⟨verbosity, .claims path maxDepth⟩) :
    (run env read args).exitCode = 0 ↔ maxDepth ≤ limit ∧
      ∃ content claims, read path = some content ∧ Record.parseClaims content = .ok claims := by
  constructor
  · intro hsuccess
    have hnone : ∀ why, ¬Fails read (.claims path maxDepth) why := by
      intro why hfails
      have hcode := (exitCode_eq_one_iff verbosity).mpr ⟨why, hfails⟩
      rw [run_of_parse hargs] at hsuccess
      cases hsuccess.symm.trans hcode
    have hdepth : maxDepth ≤ limit :=
      Nat.le_of_not_lt fun hdeep => hnone _ (.claimsUnsupported hdeep)
    refine ⟨hdepth, ?_⟩
    cases hread : read path with
    | none => exact absurd (.unreadable hdepth hread) (hnone _)
    | some content =>
      cases hparse : Record.parseClaims content with
      | error why => exact absurd (.unparsable hdepth hread hparse) (hnone _)
      | ok claims => exact ⟨content, claims, rfl, hparse⟩
  · intro h
    obtain ⟨hdepth, content, claims, hread, hparse⟩ := h
    obtain ⟨-, -, hcomplete⟩ := execute_claims hdepth hread hparse
    rw [run_of_parse hargs]
    exact (ofReport_of_complete hcomplete verbosity).1

/-- Whatever a run on a file of claims tells if it ends well, its log and its output tell the
same. At the level of admissions those that are noted are the slots that are printed, with the
places of their claims and in their order; the refusals that are noted are those that are
printed, and no other warning is; the number of claims that is noted is the number of lines
that are printed; and a claim is noted to be looked at from its parent as often as one of the
game lies two levels below the claim it answers. -/
theorem run_logs_what_it_reports
    (hargs : Arguments.parse? env args = some ⟨verbosity, .claims path maxDepth⟩)
    (hsuccess : (run env read args).exitCode = 0) :
    ∃ content claims, read path = some content ∧ Record.parseClaims content = .ok claims ∧
      let outcome := run env read args
      let report := execute read (.claims path maxDepth)
      let shown := report.log.filter (Event.showsAt verbosity)
      let game := ((Intake.start maxDepth).run claims).2.game
      outcome.output = report.lines.map Line.text ∧
      outcome.log = shown.map Event.display ∧
      (3 ≤ verbosity → shown.filter (fun e => e.source = .game) =
        (report.lines.filterMap Line.slot?).map fun (slot, p) => .admitting slot p) ∧
      (1 ≤ verbosity → shown.filter (fun e => e.level = .warn) =
        (report.lines.filterMap Line.refusal?).map fun (index, why) => .rejected index why) ∧
      (2 ≤ verbosity → shown.filter (fun e => e.level = .info) =
        [.loaded outcome.output.length path]) ∧
      (4 ≤ verbosity → (shown.filter (fun e => e.source = .position)).length =
        (game.claims.toList.filter game.liesTwoBelow).length) := by
  obtain ⟨hdepth, content, claims, hread, hparse⟩ :=
    (exitCode_claims_eq_zero_iff hargs).mp hsuccess
  refine ⟨content, claims, hread, hparse, ?_⟩
  intro outcome report shown game
  have houtcome : outcome = .ofReport verbosity report := run_of_parse hargs read
  obtain ⟨hlines, hlog, -⟩ := execute_claims hdepth hread hparse
  have houtput : outcome.output = report.lines.map Line.text := by
    rw [houtcome]
    rfl
  refine ⟨houtput, ?_, ?_, ?_, ?_, ?_⟩
  · rw [houtcome]
    rfl
  · intro hdebug
    rw [filter_source_showsAt level_of_game hdebug, hlog, hlines, ← inspectClaims_admissions]
    rfl
  · intro hwarn
    have hrank : Level.warn.rank ≤ verbosity := hwarn
    rw [filter_level_showsAt hrank, hlog, hlines, ← inspectClaims_refusals]
    rfl
  · intro hinfo
    have hrank : Level.info.rank ≤ verbosity := hinfo
    have hcount : outcome.output.length = claims.length := by
      rw [houtput, List.length_map, hlines, length_inspectClaims_lines]
    rw [filter_level_showsAt hrank, hlog, hcount]
    change Event.loaded claims.length path :: _ = _
    rw [inspectClaims_info]
  · intro htrace
    rw [filter_source_showsAt level_of_position htrace, hlog]
    exact length_inspectClaims_rerooted claims maxDepth

/-- A file with a claim at the root and one two levels below it, and with three that are passed
over: one lies too deep, one repeats the first and one answers none of them. What is printed
and what is noted stands here as the run shows it. -/
theorem run_logs_what_it_reports_five :
    let top : Claim := ⟨⟨default, ⟨0, 0⟩⟩, 7, 0⟩
    let below : Claim := ⟨⟨default, ⟨2, 2⟩⟩, 8, 7⟩
    let deep : Claim := ⟨⟨default, ⟨4, 0⟩⟩, 9, 7⟩
    let again : Claim := ⟨⟨default, ⟨0, 0⟩⟩, 10, 0⟩
    let lone : Claim := ⟨⟨default, ⟨1, 0⟩⟩, 11, 99⟩
    let claims := [top, below, deep, again, lone]
    let value := "0x0000000000000000000000000000000000000000000000000000000000000000"
    let read : String → Option String := fun _ => some (Record.writeClaims claims)
    let args := ["-vvvv", "claims", "claims.json", "-d", "3"]
    let shown := (execute read (.claims "claims.json" 3)).log.filter (Event.showsAt 4)
    Arguments.parse? {} args = some ⟨4, .claims "claims.json" 3⟩ ∧
    (run {} read args).exitCode = 0 ∧
    (run {} read args).output =
      ["claim 9 rejected: claim depth 4 exceeds the max game depth 3",
        "claim 10 duplicates an earlier claim, skipping",
        "claim 11 rejected: parent claim 99 was not admitted",
        "slot 0 at 0/0 (gindex 1) value " ++ value ++ ": root",
        "slot 1 at 2/2 (gindex 6) value " ++ value ++ ": defends parent"] ∧
    (run {} read args).log =
      ["DEBUG fault-inspect: Inspecting a game of max depth 3",
        "INFO fault-inspect: Loaded 5 claims from claims.json",
        "DEBUG fault-game: Admitting claim 0 at 0/0 (gindex 1)",
        "DEBUG fault-game: Admitting claim 1 at 2/2 (gindex 6)",
        "WARN fault-inspect: Rejected claim 9: claim depth 4 exceeds the max game depth 3",
        "TRACE fault-position: Re-rooted 2/2 (gindex 6) at ancestor depth 0: " ++
          "depth 2, index 2"] ∧
    shown.filter (fun e => e.source = .game) = [.admitting 0 ⟨0, 0⟩, .admitting 1 ⟨2, 2⟩] ∧
    shown.filter (fun e => e.level = .warn) = [.rejected 9 (.exceedsMaxDepth 4 3)] ∧
    shown.filter (fun e => e.level = .info) = [.loaded 5 "claims.json"] ∧
    (shown.filter (fun e => e.source = .position)).length = 1 := by
  intro top below deep again lone claims value read args shown
  have hargs : Arguments.parse? {} args = some ⟨4, .claims "claims.json" 3⟩ := by decide
  have hclaims : ∀ c ∈ claims, c.Recordable := by
    intro c hc
    simp only [claims, List.mem_cons, List.not_mem_nil, or_false] at hc
    rcases hc with rfl | rfl | rfl | rfl | rfl
    · exact ⟨by decide, by decide, by decide⟩
    · exact ⟨by decide, by decide, by decide⟩
    · exact ⟨by decide, by decide, by decide⟩
    · exact ⟨by decide, by decide, by decide⟩
    · exact ⟨by decide, by decide, by decide⟩
  have hparse : Record.parseClaims (Record.writeClaims claims) = .ok claims :=
    (Record.reads_claims hclaims).readAll_eq
  have hread : read "claims.json" = some (Record.writeClaims claims) := rfl
  have hexit : (run {} read args).exitCode = 0 :=
    (exitCode_claims_eq_zero_iff hargs).mpr ⟨by decide, _, _, hread, hparse⟩
  obtain ⟨hlines, hlog, -⟩ := execute_claims (by decide : 3 ≤ limit) hread hparse
  rw [inspectClaims_eq_told] at hlines hlog
  obtain ⟨-, -, -, -, houtput, hlogged, hgame, hwarn, hinfo, -⟩ :=
    run_logs_what_it_reports hargs hexit
  have hcount : (run {} read args).output.length = 5 := by
    rw [houtput, List.length_map, hlines]
    decide
  rw [hlines] at houtput hgame hwarn
  rw [hcount] at hinfo
  refine ⟨hargs, hexit, houtput.trans (by decide), ?_, (hgame (by decide)).trans (by decide),
    (hwarn (by decide)).trans (by decide), hinfo (by decide), ?_⟩
  · rw [hlogged, hlog]
    decide
  · rw [show shown = _ from congrArg (List.filter _) hlog]
    decide

end Runs

end Inspect

end DisputeGame
