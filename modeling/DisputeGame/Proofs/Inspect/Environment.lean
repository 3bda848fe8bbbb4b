import DisputeGame.Inspect.Run

/-!
What the environment has a say in. Its variables stand in for what is not given and are not
looked at otherwise: a depth on the command line outranks the depth of the environment, and one
flag is enough to outrank what it asks for. A depth in the environment does what the option with
the same text would do.
-/

namespace DisputeGame.Inspect

namespace Arguments

variable {env : Environment} {args : List String} {a : Arguments}

section Outranked

theorem gameDepth?_of_none {o : Operands} {depth : Depth} (h : gameDepth? o none = some depth)
    (fallback? : Option String) : gameDepth? o fallback? = some depth := by
  unfold gameDepth? at h ⊢
  split at h
  · exact h
  · cases h
  · cases h

theorem readCommand?_of_none {name : String} {o : Operands} {command : Command}
    (h : readCommand? none name o = some command) (fallback? : Option String) :
    readCommand? fallback? name o = some command := by
  unfold readCommand? at h ⊢
  split at h
  · simp only [Option.pure_def, Option.bind_eq_bind, Option.bind_eq_some_iff] at h ⊢
    obtain ⟨node, hnode, depth, hdepth, hcommand⟩ := h
    exact ⟨node, hnode, depth, gameDepth?_of_none hdepth fallback?, hcommand⟩
  · exact h
  · split at h
    · cases h
    · next hpath =>
      rw [if_neg hpath]
      simp only [Option.pure_def, Option.bind_eq_bind, Option.bind_eq_some_iff] at h ⊢
      obtain ⟨depth, hdepth, hcommand⟩ := h
      exact ⟨depth, gameDepth?_of_none hdepth fallback?, hcommand⟩
  · cases h

/-- What is read without an environment is read in the same way in every one. -/
theorem given?_of_none (h : given? none args = some a) (fallback? : Option String) :
    given? fallback? args = some a := by
  induction args generalizing a with
  | nil => cases h
  | cons text rest ih =>
    rw [given?] at h ⊢
    cases hflag : flagCount? text with
    | some n =>
      simp only [hflag, Option.map_eq_some_iff] at h ⊢
      obtain ⟨b, hrest, hb⟩ := h
      exact ⟨b, ih hrest, hb⟩
    | none =>
      simp only [hflag, Option.pure_def, Option.bind_eq_bind, Option.bind_eq_some_iff] at h ⊢
      obtain ⟨operands, hoperands, command, hcommand, ha⟩ := h
      exact ⟨operands, hoperands, command, readCommand?_of_none hcommand fallback?, ha⟩

theorem parse?_of_flags (h : given? env.depth? args = some a) (hflags : a.verbosity ≠ 0) :
    parse? env args = some a := by
  unfold parse?
  rw [h]
  exact if_neg hflags

/-- Without a flag the environment is asked, and what it says has to be a number. -/
theorem parse?_of_no_flags {command : Command}
    (h : given? env.depth? args = some ⟨0, command⟩) :
    parse? env args = env.askedFor?.map fun asked => ⟨asked, command⟩ := by
  unfold parse?
  rw [h]
  cases env.askedFor? with
  | none => rfl
  | some asked => rfl

end Outranked

section StandsIn

variable {name operand text : String} {rest : List String}

theorem sortOperands?_positional (h : isOption text = false) :
    sortOperands? (text :: rest) = (sortOperands? rest).map (·.addPositional text) := by
  have hend : text ≠ "--" := by
    rintro rfl
    cases h
  cases rest with
  | nil => simp [sortOperands?, h]
  | cons next rest => simp [sortOperands?, h]

theorem sortOperands?_depth (text : String) (rest : List String) :
    sortOperands? ("-d" :: text :: rest) =
      if isOption text then none else (sortOperands? rest).map (·.addDepth text) := by
  have hoption : isOption "-d" = true := by decide
  have hdepth : depthOption? "-d" = some none := by decide
  simp [sortOperands?, hoption, hdepth]

/-- An option is no depth. -/
theorem readDepth?_of_option (h : isOption text = true) : readDepth? text = none := by
  unfold isOption at h
  split at h
  · next c tail htext =>
    have hdash : Char.isDigit '-' = false := by decide
    simp [readDepth?, Text.Numeral.readCount?, htext, Text.Numeral.dropPlus, hdash]
  · cases h

/-- The depth of the environment is read as the one behind the option is, and a command that
takes no depth takes neither. -/
theorem readCommand?_depth (fallback? : Option String) :
    readCommand? (some text) name ⟨[operand], []⟩ =
      readCommand? fallback? name ⟨[operand], [text]⟩ := by
  unfold readCommand?
  split <;> simp_all [gameDepth?]

theorem readCommand?_of_option (h : isOption text = true) :
    readCommand? (some text) name ⟨[operand], []⟩ = none := by
  unfold readCommand?
  split <;> simp_all [gameDepth?, readDepth?_of_option h]

theorem given?_depth {flags : List String} (hflags : ∀ flag ∈ flags, (flagCount? flag).isSome)
    (hname : flagCount? name = none) (hoperand : isOption operand = false) (text : String)
    (fallback? : Option String) :
    given? (some text) (flags ++ [name, operand]) =
      given? fallback? (flags ++ [name, operand, "-d", text]) := by
  induction flags with
  | nil =>
    have hnil : sortOperands? [] = some ⟨[], []⟩ := rfl
    simp only [List.nil_append, given?, hname, sortOperands?_positional hoperand,
      sortOperands?_depth, hnil]
    cases hoption : isOption text with
    | true => simp [Operands.addPositional, readCommand?_of_option hoption]
    | false => simp [Operands.addPositional, Operands.addDepth, readCommand?_depth fallback?]
  | cons flag flags ih =>
    obtain ⟨n, hn⟩ := Option.isSome_iff_exists.mp (hflags flag List.mem_cons_self)
    have hrest := ih fun flag hflag => hflags flag (List.mem_cons_of_mem _ hflag)
    simp only [List.cons_append, given?, hn, hrest]

end StandsIn

/-- What the environment has a say in. Arguments with a flag that are complete by themselves are
read the same in every environment; without a flag it says how much output there is, and nothing
else. The depth in it does what the option with the same text would do behind the operand. -/
theorem parse?_in_environment (env : Environment) (args : List String) :
    (∀ a, parse? {} args = some a → a.verbosity ≠ 0 → parse? env args = some a) ∧
    (∀ command, parse? {} args = some ⟨0, command⟩ →
      parse? env args = env.askedFor?.map fun asked => ⟨asked, command⟩) ∧
    (∀ flags name operand text, args = flags ++ [name, operand] →
      (∀ flag ∈ flags, (flagCount? flag).isSome) → flagCount? name = none →
      isOption operand = false → env.depth? = some text →
        parse? env args = parse? env (args ++ ["-d", text])) := by
  have hgiven : ∀ {a : Arguments}, parse? {} args = some a → given? none args = some a := by
    intro a h
    obtain ⟨b, hb, h⟩ := Option.bind_eq_some_iff.mp h
    obtain ⟨v, command⟩ := b
    cases v with
    | zero => exact hb.trans h
    | succ v => exact hb.trans h
  refine ⟨?_, ?_, ?_⟩
  · intro a h hflags
    exact parse?_of_flags (given?_of_none (hgiven h) env.depth?) hflags
  · intro command h
    exact parse?_of_no_flags (given?_of_none (hgiven h) env.depth?)
  · intro flags name operand text hargs hflags hname hoperand htext
    have hsame := given?_depth hflags hname hoperand text (some text)
    unfold parse?
    rw [hargs, htext, List.append_assoc, hsame]
    rfl

example : parse? { depth? := some "3", verbosity? := some "4" } ["position", "5"] =
    some ⟨4, .position ⟨2, 1⟩ 3⟩ := by decide

example : parse? { depth? := some "3", verbosity? := some "4" } ["-v", "position", "5", "-d", "9"] =
    some ⟨1, .position ⟨2, 1⟩ 9⟩ := by decide

example : parse? { verbosity? := some "256" } ["relative", "5", "1"] = none := by decide

end Arguments

end DisputeGame.Inspect
