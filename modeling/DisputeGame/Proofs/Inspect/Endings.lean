import DisputeGame.Inspect.Run
import DisputeGame.Proofs.Tree.TraceIndex

/-!
How a run ends. What may fail is checked before the first line is printed: the depth of the
game, then the place of the position or the text of the file. After that neither a move nor
the trace index can fail, and no claim of a list can make the run fail. So a run that fails
prints nothing but its error, and the reasons of a failure can be told from the command and
the file alone.
-/

namespace DisputeGame.Inspect

open Depth Report

/-- The reasons for which a command fails, at most one of them at a time. -/
inductive Fails (read : String → Option String) : Command → Failure → Prop
  | positionUnsupported {p : Position} {maxDepth : Depth} (hdeep : limit < maxDepth) :
      Fails read (.position p maxDepth) (.tree (.overflow (.depth maxDepth)))
  | belowMaxDepth {p : Position} {maxDepth : Depth} (hsupported : maxDepth ≤ limit)
      (hbelow : maxDepth < p.depth) :
      Fails read (.position p maxDepth) (.belowMaxDepth p maxDepth)
  | ancestorTooDeep {p : Position} {ancestor : Depth} (hdeep : p.depth < ancestor) :
      Fails read (.relative p ancestor) (.tree (.depthTooSmall ancestor p.depth))
  | claimsUnsupported {path : String} {maxDepth : Depth} (hdeep : limit < maxDepth) :
      Fails read (.claims path maxDepth) (.tree (.overflow (.depth maxDepth)))
  | unreadable {path : String} {maxDepth : Depth} (hsupported : maxDepth ≤ limit)
      (hread : read path = none) : Fails read (.claims path maxDepth) (.unreadable path)
  | unparsable {path content : String} {maxDepth : Depth} {why : Record.Mismatch}
      (hsupported : maxDepth ≤ limit) (hread : read path = some content)
      (hparse : Record.parseClaims content = .error why) :
      Fails read (.claims path maxDepth) (.unparsable path)

section Reports

/-- A report that goes on fails where its first part fails, or else where the next one does. -/
theorem failure?_append (r next : Report) :
    (r ++ next).failure? = r.failure?.or next.failure? := by
  change (r.andThen next).failure? = _
  unfold Report.andThen
  cases h : r.failure? with
  | none => rfl
  | some why => exact h

theorem failure?_describeDefense (p : Position) : (describeDefense p).failure? = none := by
  unfold describeDefense
  split <;> rfl

theorem failure?_describeParent (p : Position) : (describeParent p).failure? = none := by
  unfold describeParent
  split <;> rfl

variable {p : Position} {maxDepth : Nat}

/-- Above the deepest level an attack is always possible. -/
theorem exists_attack (hp : p.depth < limit) : ∃ q, p.attack = .ok q :=
  ⟨_, Position.leftChild_eq_ok.mpr ⟨hp, rfl⟩⟩

theorem failure?_describeMoves (hp : p.depth < limit) :
    (describeMoves p).failure? = none := by
  obtain ⟨q, hattack⟩ := exists_attack hp
  unfold describeMoves
  rw [failure?_append, hattack, failure?_describeDefense]
  rfl

/-- Once a position is known to lie in the game, all of its description is printed. -/
theorem failure?_describePosition (hp : p.depth ≤ maxDepth) (hsupported : maxDepth ≤ limit) :
    (describePosition p maxDepth).failure? = none := by
  obtain ⟨index, htrace⟩ := Position.exists_traceIndex hp hsupported
  have hmoves : (if p.depth < maxDepth then describeMoves p else nothing).failure? = none := by
    split
    · next hdepth => exact failure?_describeMoves (Nat.lt_of_lt_of_le hdepth hsupported)
    · rfl
  unfold describePosition
  rw [if_neg (Nat.not_lt_of_le hp), failure?_append, failure?_append, failure?_append, htrace,
    hmoves, failure?_describeParent]
  rfl

theorem withDepth_of_supported (next : Nat → Report) (h : maxDepth ≤ limit) :
    withDepth maxDepth next = note [.inspecting maxDepth] ++ next maxDepth := by
  unfold withDepth ensureSupported
  rw [if_pos h]
  rfl

theorem withDepth_of_unsupported (next : Nat → Report) (h : limit < maxDepth) :
    withDepth maxDepth next = fail (.tree (.overflow (.depth maxDepth))) := by
  unfold withDepth ensureSupported
  rw [if_neg (Nat.not_le_of_lt h)]
  rfl

end Reports

section Commands

variable {read : String → Option String} {c : Command} {why : Failure}

/-- A command with a reason to fail prints nothing and fails for it. -/
theorem Fails.execute_eq (h : Fails read c why) :
    (execute read c).lines = [] ∧ (execute read c).failure? = some why := by
  cases h with
  | positionUnsupported hdeep =>
    rw [execute, withDepth_of_unsupported _ hdeep]
    exact ⟨rfl, rfl⟩
  | belowMaxDepth hsupported hbelow =>
    rw [execute, withDepth_of_supported _ hsupported, describePosition, if_pos hbelow]
    exact ⟨rfl, rfl⟩
  | ancestorTooDeep hdeep =>
    rw [execute, describeRelative, Position.reroot_eq, if_neg (Nat.not_le_of_lt hdeep)]
    exact ⟨rfl, rfl⟩
  | claimsUnsupported hdeep =>
    rw [execute, withDepth_of_unsupported _ hdeep]
    exact ⟨rfl, rfl⟩
  | unreadable hsupported hread =>
    rw [execute, withDepth_of_supported _ hsupported, hread]
    exact ⟨rfl, rfl⟩
  | unparsable hsupported hread hparse =>
    rw [execute, withDepth_of_supported _ hsupported, hread, inspectFile, hparse]
    exact ⟨rfl, rfl⟩

/-- A command without one goes through to its end. -/
theorem fails_or_complete (read : String → Option String) (c : Command) :
    (∃ why, Fails read c why) ∨ (execute read c).failure? = none := by
  cases c with
  | position p maxDepth =>
    rcases Nat.lt_or_ge limit maxDepth with hdeep | hsupported
    · exact Or.inl ⟨_, .positionUnsupported hdeep⟩
    rcases Nat.lt_or_ge maxDepth p.depth with hbelow | hp
    · exact Or.inl ⟨_, .belowMaxDepth hsupported hbelow⟩
    · right
      rw [execute, withDepth_of_supported _ hsupported, failure?_append,
        failure?_describePosition hp hsupported]
      rfl
  | relative p ancestor =>
    rcases Nat.lt_or_ge p.depth ancestor with hdeep | ha
    · exact Or.inl ⟨_, .ancestorTooDeep hdeep⟩
    · right
      rw [execute, describeRelative, Position.reroot_eq, if_pos ha]
      rfl
  | claims path maxDepth =>
    rcases Nat.lt_or_ge limit maxDepth with hdeep | hsupported
    · exact Or.inl ⟨_, .claimsUnsupported hdeep⟩
    cases hread : read path with
    | none => exact Or.inl ⟨_, .unreadable hsupported hread⟩
    | some content =>
      cases hparse : Record.parseClaims content with
      | error why => exact Or.inl ⟨_, .unparsable hsupported hread hparse⟩
      | ok claims =>
        right
        rw [execute, withDepth_of_supported _ hsupported, hread, inspectFile, hparse]
        rfl

theorem failure?_execute_iff : (execute read c).failure? = some why ↔ Fails read c why := by
  constructor
  · intro h
    rcases fails_or_complete read c with ⟨why', hfails⟩ | hnone
    · have hsame := h.symm.trans hfails.execute_eq.2
      exact Option.some.inj hsame ▸ hfails
    · cases hnone.symm.trans h
  · exact fun h => h.execute_eq.2

theorem Fails.unique {why' : Failure} (h : Fails read c why) (h' : Fails read c why') :
    why = why' :=
  Option.some.inj (h.execute_eq.2.symm.trans h'.execute_eq.2)

/-- A command depends on the files only by the one that it looks into. -/
theorem execute_congr {read' : String → Option String}
    (h : ∀ path, c.file? = some path → read' path = read path) :
    execute read' c = execute read c := by
  cases c with
  | position p maxDepth => rfl
  | relative p ancestor => rfl
  | claims path maxDepth =>
    rcases Nat.lt_or_ge limit maxDepth with hdeep | hsupported
    · rw [execute, execute, withDepth_of_unsupported _ hdeep, withDepth_of_unsupported _ hdeep]
    · have hfile : (Command.claims path maxDepth).file? = some path :=
        if_pos (decide_eq_true hsupported)
      rw [execute, execute, h path hfile]

end Commands

section Outcomes

variable {read : String → Option String} {c : Command} {why : Failure}

/-- A failed command leaves its error and nothing on the output, however much it notes. -/
theorem Fails.ofReport_eq (h : Fails read c why) (verbosity : Nat) :
    (Outcome.ofReport verbosity (execute read c)).exitCode = 1 ∧
    (Outcome.ofReport verbosity (execute read c)).output = [] ∧
    (Outcome.ofReport verbosity (execute read c)).error? = some s!"Error: {why.message}" := by
  obtain ⟨hlines, hfailure⟩ := h.execute_eq
  simp [Outcome.ofReport, hlines, hfailure]

theorem ofReport_of_complete (h : (execute read c).failure? = none) (verbosity : Nat) :
    (Outcome.ofReport verbosity (execute read c)).exitCode = 0 ∧
    (Outcome.ofReport verbosity (execute read c)).error? = none := by
  simp [Outcome.ofReport, h]

/-- The code of a run tells whether there was a reason to fail. -/
theorem exitCode_eq_one_iff (verbosity : Nat) :
    (Outcome.ofReport verbosity (execute read c)).exitCode = 1 ↔ ∃ why, Fails read c why := by
  simp only [← failure?_execute_iff]
  unfold Outcome.ofReport
  cases (execute read c).failure? with
  | none => simp
  | some why => simp

theorem run_of_parse {env : Environment} {args : List String} {a : Arguments}
    (h : Arguments.parse? env args = some a) (read : String → Option String) :
    run env read args = .ofReport a.verbosity (execute read a.command) := by
  unfold run
  rw [h]

/-- How a run ends whose usage is right. It succeeds without an error, or it fails and prints
its error only, and it fails exactly if there is a reason in the command or in the file. An
unsupported depth is the first of the reasons, before which no file is asked for, and no other
file plays a part. Within the depth of the game the trace index and the attack of a position
are always there, and a list of claims that has been read never makes a run fail. -/
theorem run_ending {env : Environment} {args : List String} {a : Arguments}
    (h : Arguments.parse? env args = some a) (read : String → Option String) :
    let outcome := run env read args
    (outcome.exitCode = 0 ∧ outcome.error? = none ∨
      outcome.exitCode = 1 ∧ outcome.output = []) ∧
    (outcome.exitCode = 1 ↔ ∃ why, Fails read a.command why) ∧
    (∀ why, Fails read a.command why → outcome.error? = some s!"Error: {why.message}" ∧
      ∀ why', Fails read a.command why' → why' = why) ∧
    (∀ verbosity, (Outcome.ofReport verbosity (execute read a.command)).exitCode =
        outcome.exitCode ∧
      (Outcome.ofReport verbosity (execute read a.command)).output = outcome.output) ∧
    (∀ read', (∀ path, requestedPath? env args = some path → read' path = read path) →
      run env read' args = outcome) ∧
    (∀ (p : Position) maxDepth, maxDepth ≤ limit → p.depth ≤ maxDepth →
      (∃ index, p.traceIndex maxDepth = .ok index) ∧
      (p.depth < maxDepth → ∃ q, p.attack = .ok q)) ∧
    (∀ path maxDepth, a.command = .claims path maxDepth →
      (limit < maxDepth → requestedPath? env args = none) ∧
      (maxDepth ≤ limit → requestedPath? env args = some path ∧
        ∀ content claims, read path = some content →
          Record.parseClaims content = .ok claims → outcome.exitCode = 0)) := by
  intro outcome
  have houtcome : outcome = .ofReport a.verbosity (execute read a.command) :=
    run_of_parse h read
  have hfile : requestedPath? env args = a.command.file? := by
    rw [requestedPath?, h, Option.bind_some]
  rw [houtcome, hfile]
  refine ⟨?_, exitCode_eq_one_iff a.verbosity, ?_, ?_, ?_, ?_, ?_⟩
  · rcases fails_or_complete read a.command with ⟨why, hfails⟩ | hnone
    · obtain ⟨hcode, houtput, -⟩ := hfails.ofReport_eq a.verbosity
      exact Or.inr ⟨hcode, houtput⟩
    · exact Or.inl (ofReport_of_complete hnone a.verbosity)
  · intro why hfails
    exact ⟨(hfails.ofReport_eq a.verbosity).2.2, fun why' hfails' => hfails'.unique hfails⟩
  · exact fun verbosity => ⟨rfl, rfl⟩
  · intro read' hread
    rw [run_of_parse h read', execute_congr hread]
  · intro p maxDepth hsupported hp
    exact ⟨Position.exists_traceIndex hp hsupported,
      fun hdepth => exists_attack (Nat.lt_of_lt_of_le hdepth hsupported)⟩
  · intro path maxDepth hcommand
    rw [hcommand]
    refine ⟨fun hdeep => if_neg (by simpa [isSupported] using hdeep), ?_⟩
    intro hsupported
    refine ⟨if_pos (decide_eq_true hsupported), ?_⟩
    intro content claims hread hparse
    have hnone : (execute read (.claims path maxDepth)).failure? = none := by
      rw [execute, withDepth_of_supported _ hsupported, hread, inspectFile, hparse]
      rfl
    exact (ofReport_of_complete hnone a.verbosity).1

/-- A position below the deepest level of the game, whose depth the environment gives. -/
theorem run_ending_below :
    let env : Environment := { depth? := some "1", verbosity? := some "2" }
    Arguments.parse? env ["position", "5"] = some ⟨2, .position ⟨2, 1⟩ 1⟩ ∧
    (run env (fun _ => none) ["position", "5"]).exitCode = 1 ∧
    (run env (fun _ => none) ["position", "5"]).error? =
      some "Error: position 2/1 (gindex 5) is below the max game depth 1" := by
  intro env
  have hparse : Arguments.parse? env ["position", "5"] = some ⟨2, .position ⟨2, 1⟩ 1⟩ := by
    decide
  have hfails : Fails (fun _ => none) (.position ⟨2, 1⟩ 1) (.belowMaxDepth ⟨2, 1⟩ 1) :=
    .belowMaxDepth (by decide) (by decide)
  obtain ⟨-, hcode, herror, -⟩ := run_ending hparse fun _ => none
  exact ⟨hparse, hcode.mpr ⟨_, hfails⟩, (herror _ hfails).1⟩

end Outcomes

end DisputeGame.Inspect
