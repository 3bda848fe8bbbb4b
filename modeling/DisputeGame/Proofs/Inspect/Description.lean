import DisputeGame.Proofs.Inspect.Endings
import DisputeGame.Proofs.Inspect.Environment
import DisputeGame.Proofs.Tree.CodeSteps
import DisputeGame.Proofs.Tree.Spelling

/-!
What is told of a position. Four steps of the tree stand behind a description, and a failure
of each is treated in another way: two of them would end the run, one is noted, and one is
dropped. Within the depth of the game the depth of the position settles them all. The trace
index and the attack are there, and the defense and the parent are there exactly below the
root, so no line is missing for any other reason. The nodes on the lines are told by what the
steps do to the generalized index.
-/

namespace DisputeGame

open Depth

namespace Inspect

open Position Report Text.Numeral

section Usage

/-- The digits of a number are no option. -/
theorem isOption_decimal (n : Nat) : isOption (String.ofList (decimal n)) = false := by
  obtain ⟨d, rest, hdigits, hdigit⟩ := exists_decimal_cons n
  have hdash : d ≠ '-' := by
    rintro rfl
    simp at hdigit
  unfold isOption
  rw [String.toList_ofList, hdigits]
  split
  · next hsame => exact absurd (List.cons.inj hsame).1 hdash
  · rfl

/-- An index and a depth in decimal are read as the position and the depth of the game. -/
theorem parse?_position {g maxDepth : Nat} {p : Position} (hg : ofGindex g = .ok p)
    (hdepth : maxDepth < wordLimit) (env : Environment) :
    Arguments.parse? env
        ["position", String.ofList (decimal g), "-d", String.ofList (decimal maxDepth)] =
      env.askedFor?.map fun verbosity => ⟨verbosity, .position p maxDepth⟩ := by
  have hnode : readNode? (String.ofList (decimal g)) = some p := by
    rw [readNode?, parse_of_spells (trims_decimal g) (showsGindex_decimal g).spells, hg]
    rfl
  have hmax : readDepth? (String.ofList (decimal maxDepth)) = some maxDepth := by
    rw [readDepth?, String.toList_ofList, readCount?_decimal hdepth]
  have hflags : flagCount? "position" = none := by decide
  have hoperands : sortOperands?
      [String.ofList (decimal g), "-d", String.ofList (decimal maxDepth)] =
      some ⟨[String.ofList (decimal g)], [String.ofList (decimal maxDepth)]⟩ := by
    rw [Arguments.sortOperands?_positional (isOption_decimal g), Arguments.sortOperands?_depth,
      isOption_decimal maxDepth]
    rfl
  apply Arguments.parse?_of_no_flags
  simp only [Arguments.given?, hflags, hoperands]
  simp [readCommand?, hnode, gameDepth?, hmax]

end Usage

section Parts

variable {p : Position} {maxDepth : Nat}

theorem describeMoves_eq (hp : p.Valid) (hdeep : p.depth < limit) :
    describeMoves p = print [.attack (decode (2 * p.gindex))] ++ describeDefense p := by
  unfold describeMoves
  rw [(attack_eq_decode hp hdeep).1]
  rfl

theorem describeDefense_of_below (hp : p.Valid) (hdeep : p.depth < limit) (hpos : 0 < p.depth) :
    describeDefense p = print [.defense (decode (2 * (p.gindex ||| 1)))] := by
  unfold describeDefense
  rw [(defend_eq_decode hp hdeep hpos).1]

theorem describeDefense_root :
    describeDefense root = note [.noDefense root (.invalidNavigation .root)] := rfl

theorem describeParent_eq (hp : p.Valid) :
    describeParent p = print (if 0 < p.depth then [.parent (decode (p.gindex / 2))] else []) := by
  unfold describeParent
  by_cases hpos : 0 < p.depth
  · rw [if_pos hpos, (parent_eq_decode hp hpos).1]
  · rw [if_neg hpos, parent_eq, if_pos (Nat.eq_zero_of_not_pos hpos)]
    rfl

/-- The whole of a description, where the depth of the position decides each of its parts. -/
theorem describePosition_eq (hp : p.Valid) (hle : p.depth ≤ maxDepth) (hlimit : maxDepth ≤ limit) :
    describePosition p maxDepth =
      { lines :=
          [Line.position p, Line.traceIndex ((p.index + 1) * width (maxDepth - p.depth) - 1)] ++
          (if p.depth < maxDepth then [Line.attack (decode (2 * p.gindex))] else []) ++
          (if 0 < p.depth ∧ p.depth < maxDepth then [Line.defense (decode (2 * (p.gindex ||| 1)))]
            else []) ++
          (if 0 < p.depth then [Line.parent (decode (p.gindex / 2))] else [])
        log :=
          if p = root ∧ 0 < maxDepth then [Event.noDefense root (.invalidNavigation .root)] else []
        failure? := none } := by
  unfold describePosition
  rw [if_neg (Nat.not_lt_of_le hle), traceIndex_eq p maxDepth hle hlimit, describeParent_eq hp]
  by_cases hdeep : p.depth < maxDepth
  · have hroom := Nat.lt_of_lt_of_le hdeep hlimit
    rw [if_pos hdeep, describeMoves_eq hp hroom]
    by_cases hpos : 0 < p.depth
    · have hbelow : p ≠ root := mt (depth_eq_zero_iff hp).mpr (Nat.ne_of_gt hpos)
      rw [describeDefense_of_below hp hroom hpos]
      simp only [hdeep, hpos, hbelow, and_self, false_and, if_true, if_false]
      rfl
    · obtain rfl := (depth_eq_zero_iff hp).mp (Nat.eq_zero_of_not_pos hpos)
      have hgame : 0 < maxDepth := hdeep
      rw [describeDefense_root]
      simp only [hdeep, hpos, hgame, and_self, false_and, if_true, if_false]
      rfl
  · have hlog : ¬(p = root ∧ 0 < maxDepth) := by
      rintro ⟨rfl, hgame⟩
      exact hdeep hgame
    rw [if_neg hdeep]
    simp only [hdeep, hlog, and_false, if_false]
    rfl

end Parts

/-- The node that a line of a description names. -/
def Line.node? : Line → Option Position
  | position p | attack p | defense p | parent p => some p
  | _ => none

/-- What a run tells of the position of an index in a game that is deep enough for it, with
the index of the root in the place of zero. The lines are the position and its trace index,
then an attack above the last level of the game, a defense if the position is not the root
either, and a parent if it is not the root. The indices on them are twice the index, twice the
index with its last bit set, and half of it; no node lies below the game. Apart from the depth
of the game the only thing noted is that the root has no defense. -/
theorem run_describes_position {g maxDepth : Nat} {p : Position} (hg : ofGindex g = .ok p)
    (hle : p.depth ≤ maxDepth) (hlimit : maxDepth ≤ limit) :
    let code := max g 1
    let lines : List Line :=
      [Line.position p, Line.traceIndex ((p.index + 1) * width (maxDepth - p.depth) - 1)] ++
      (if p.depth < maxDepth then [Line.attack (decode (2 * code))] else []) ++
      (if 0 < p.depth ∧ p.depth < maxDepth then [Line.defense (decode (2 * (code ||| 1)))]
        else []) ++
      (if 0 < p.depth then [Line.parent (decode (code / 2))] else [])
    let events : List Event := [Event.inspecting maxDepth] ++
      (if p = root ∧ 0 < maxDepth then [Event.noDefense root (.invalidNavigation .root)] else [])
    (∀ env, Arguments.parse? env
        ["position", String.ofList (decimal g), "-d", String.ofList (decimal maxDepth)] =
      env.askedFor?.map fun verbosity => ⟨verbosity, .position p maxDepth⟩) ∧
    (∀ env read args verbosity,
      Arguments.parse? env args = some ⟨verbosity, .position p maxDepth⟩ →
        (run env read args).exitCode = 0 ∧ (run env read args).error? = none ∧
        (run env read args).output = lines.map Line.text ∧
        (run env read args).log =
          (events.filter (Event.showsAt verbosity)).map Event.display) ∧
    p.gindex = code ∧
    (∀ q, Line.attack q ∈ lines → q.gindex = 2 * code) ∧
    (∀ q, Line.defense q ∈ lines → q.gindex = 2 * (code ||| 1)) ∧
    (∀ q, Line.parent q ∈ lines → q.gindex = code / 2) ∧
    (∀ line ∈ lines, ∀ q, line.node? = some q → q.depth ≤ maxDepth) := by
  intro code lines events
  have hp := ofGindex_valid hg
  have hcode : p.gindex = code := by
    rw [ofGindex_eq] at hg
    obtain ⟨hlt, hdecode⟩ := guard_eq_ok.mp hg
    rw [← Except.ok.inj hdecode, gindex_decode_eq_max hlt]
  have hword : maxDepth < wordLimit := Nat.lt_of_le_of_lt hlimit (by decide)
  have hattack : p.depth < maxDepth →
      (decode (2 * code)).gindex = 2 * code ∧ (decode (2 * code)).depth = p.depth + 1 := by
    intro hdeep
    rw [← hcode]
    exact (attack_eq_decode hp (Nat.lt_of_lt_of_le hdeep hlimit)).2
  have hdefense : 0 < p.depth → p.depth < maxDepth →
      (decode (2 * (code ||| 1))).gindex = 2 * (code ||| 1) ∧
        (decode (2 * (code ||| 1))).depth = p.depth + 1 := by
    intro hpos hdeep
    rw [← hcode]
    exact (defend_eq_decode hp (Nat.lt_of_lt_of_le hdeep hlimit) hpos).2
  have hparent : 0 < p.depth →
      (decode (code / 2)).gindex = code / 2 ∧ (decode (code / 2)).depth = p.depth - 1 := by
    intro hpos
    rw [← hcode]
    exact (parent_eq_decode hp hpos).2
  refine ⟨parse?_position hg hword, ?_, hcode, ?_, ?_, ?_, ?_⟩
  · intro env read args verbosity hargs
    rw [run_of_parse hargs, execute, withDepth_of_supported _ hlimit,
      describePosition_eq hp hle hlimit, hcode]
    exact ⟨rfl, rfl, rfl, rfl⟩
  · intro q hq
    obtain ⟨hdeep, rfl⟩ : p.depth < maxDepth ∧ q = decode (2 * code) := by simpa [lines] using hq
    exact (hattack hdeep).1
  · intro q hq
    obtain ⟨⟨hpos, hdeep⟩, rfl⟩ : (0 < p.depth ∧ p.depth < maxDepth) ∧
        q = decode (2 * (code ||| 1)) := by
      simpa [lines] using hq
    exact (hdefense hpos hdeep).1
  · intro q hq
    obtain ⟨hpos, rfl⟩ : 0 < p.depth ∧ q = decode (code / 2) := by simpa [lines] using hq
    exact (hparent hpos).1
  · intro line hline q hq
    have hcases : line = .position p ∨
        line = .traceIndex ((p.index + 1) * width (maxDepth - p.depth) - 1) ∨
        p.depth < maxDepth ∧ line = .attack (decode (2 * code)) ∨
        (0 < p.depth ∧ p.depth < maxDepth) ∧ line = .defense (decode (2 * (code ||| 1))) ∨
        0 < p.depth ∧ line = .parent (decode (code / 2)) := by
      simpa [lines] using hline
    rcases hcases with rfl | rfl | ⟨hdeep, rfl⟩ | ⟨⟨hpos, hdeep⟩, rfl⟩ | ⟨hpos, rfl⟩
    · cases hq
      exact hle
    · cases hq
    · cases hq
      rw [(hattack hdeep).2]
      exact hdeep
    · cases hq
      rw [(hdefense hpos hdeep).2]
      exact hdeep
    · cases hq
      rw [(hparent hpos).2]
      omega

/-- The number 12 in a game of one more level, and zero with all that is noted of it. -/
theorem run_describes_position_twelve :
    ofGindex 12 = .ok ⟨3, 4⟩ ∧ 3 ≤ 4 ∧ 4 ≤ limit ∧
    (run {} (fun _ => none) ["position", "12", "-d", "4"]).output =
      ["position:    3/4 (gindex 12)", "trace index: 9", "attack:      4/8 (gindex 24)",
        "defend:      4/10 (gindex 26)", "parent:      2/2 (gindex 6)"] ∧
    ofGindex 0 = .ok root ∧
    (run {} (fun _ => none) ["-vvv", "position", "0", "-d", "4"]).log =
      ["DEBUG fault-inspect: Inspecting a game of max depth 4",
        "DEBUG fault-inspect: No defense against 0/0 (gindex 1): " ++
          "invalid navigation: the root has no parent"] := by
  have hlimit : 4 ≤ limit := by decide
  have hargs : Arguments.parse? {} ["position", "12", "-d", "4"] =
      some ⟨0, .position ⟨3, 4⟩ 4⟩ := by
    decide
  have hroot : Arguments.parse? {} ["-vvv", "position", "0", "-d", "4"] =
      some ⟨3, .position root 4⟩ := by
    decide
  obtain ⟨-, htwelve, -⟩ := run_describes_position (g := 12) (p := ⟨3, 4⟩) rfl (by decide) hlimit
  obtain ⟨-, hzero, -⟩ := run_describes_position (g := 0) (p := root) rfl (by decide) hlimit
  refine ⟨rfl, by decide, hlimit, ?_, rfl, ?_⟩
  · obtain ⟨-, -, houtput, -⟩ := htwelve {} (fun _ => none) _ 0 hargs
    rw [houtput]
    decide
  · obtain ⟨-, -, -, hlog⟩ := hzero {} (fun _ => none) _ 3 hroot
    rw [hlog]
    decide

end Inspect

end DisputeGame
