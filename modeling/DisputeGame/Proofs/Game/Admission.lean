import DisputeGame.Game.Intake
import DisputeGame.Proofs.Game.Runs
import Mathlib.Order.Bounds.Defs
import Std.Data.HashMap.Lemmas

/-!
Which claims of a list the intake lets in, and how they stand in the game. The intake
looks claims up in a set and names up in a map; here both are read off the claims that
were let in before. A claim is let in exactly if none of these says the same at the same
place, the one it answers is among them unless it lies at the root, and the game is deep
enough for it.
-/

namespace DisputeGame

/-- The claim of a ruling that let it in. -/
def Ruling.letIn? (r : Ruling) : Option Claim :=
  match r.verdict with
  | .admitted _ => some r.claim
  | _ => none

namespace Intake

/-- The claims that were let in, in order and as the list gave them. -/
def letIn (rulings : List Ruling) : List Claim := rulings.filterMap Ruling.letIn?

/-- What lets a claim in after the claims `earlier` were. -/
structure Fits (maxDepth : Nat) (earlier : List Claim) (c : Claim) : Prop where
  fresh : ∀ e ∈ earlier, e.toClaimData ≠ c.toClaimData
  answers : c.isRoot = true ∨ ∃ e ∈ earlier, e.contractIndex = c.parentIndex
  shallow : c.position.depth ≤ maxDepth

/-- A name stands for the slot of the last claim that goes by it. -/
def NamesSlot (earlier : List Claim) (name slot : Nat) : Prop :=
  IsGreatest {r | ∃ e, earlier[r]? = some e ∧ e.contractIndex = name} slot

/-- The parent that a claim is given after the claims `earlier` were let in. -/
def AnswersSlot (earlier : List Claim) (c : Claim) (parent : Nat) : Prop :=
  if c.isRoot then parent = c.parentIndex else NamesSlot earlier c.parentIndex parent

/-- The verdict on a claim after the claims `earlier` were let in. -/
def verdictAfter (maxDepth : Nat) (earlier : List Claim) (c : Claim) : Verdict :=
  if ∃ e ∈ earlier, e.toClaimData = c.toClaimData then .duplicate
  else if c.isRoot = false ∧ ∀ e ∈ earlier, e.contractIndex ≠ c.parentIndex then .orphan
  else if maxDepth < c.position.depth then
    .refused (.exceedsMaxDepth c.position.depth maxDepth)
  else .admitted earlier.length

/-- The game and the slots are those of the claims `earlier`. -/
structure Tracks (maxDepth : Nat) (earlier : List Claim) (s : Intake) : Prop where
  maxDepth_eq : s.game.maxDepth = maxDepth
  size_eq : s.game.size = earlier.length
  seen : ∀ c, s.game.isDuplicate c = true ↔ ∃ e ∈ earlier, e.toClaimData = c.toClaimData
  held : ∀ rank c, earlier[rank]? = some c → ∃ parent,
    s.game.get? rank = some { c with contractIndex := rank, parentIndex := parent } ∧
      AnswersSlot (earlier.take rank) c parent
  named : ∀ name slot, s.slots[name]? = some slot → NamesSlot earlier name slot
  unnamed : ∀ name, s.slots[name]? = none → ∀ e ∈ earlier, e.contractIndex ≠ name

variable {maxDepth : Nat} {earlier : List Claim} {s : Intake}

theorem letIn_cons (r : Ruling) (rulings : List Ruling) :
    letIn (r :: rulings) = letIn [r] ++ letIn rulings := by
  cases h : r.letIn? <;> simp [letIn, h]

theorem root_or_answers_of_not_orphan {c : Claim}
    (h : ¬(c.isRoot = false ∧ ∀ e ∈ earlier, e.contractIndex ≠ c.parentIndex)) :
    c.isRoot = true ∨ ∃ e ∈ earlier, e.contractIndex = c.parentIndex := by
  cases hroot : c.isRoot with
  | true => exact Or.inl rfl
  | false =>
    refine Or.inr (Decidable.byContradiction fun hnone => h ⟨hroot, ?_⟩)
    exact fun e he heq => hnone ⟨e, he, heq⟩

theorem verdictAfter_eq_admitted_iff (maxDepth : Nat) (earlier : List Claim) (c : Claim)
    (slot : Nat) :
    verdictAfter maxDepth earlier c = .admitted slot ↔
      Fits maxDepth earlier c ∧ slot = earlier.length := by
  unfold verdictAfter
  by_cases hseen : ∃ e ∈ earlier, e.toClaimData = c.toClaimData
  · obtain ⟨e, he, heq⟩ := hseen
    rw [if_pos ⟨e, he, heq⟩]
    exact ⟨nofun, fun h => absurd heq (h.1.fresh e he)⟩
  rw [if_neg hseen]
  by_cases horphan : c.isRoot = false ∧ ∀ e ∈ earlier, e.contractIndex ≠ c.parentIndex
  · rw [if_pos horphan]
    refine ⟨nofun, fun h => ?_⟩
    rcases h.1.answers with hroot | ⟨e, he, heq⟩
    · simp [horphan.1] at hroot
    · exact absurd heq (horphan.2 e he)
  rw [if_neg horphan]
  by_cases hdeep : maxDepth < c.position.depth
  · rw [if_pos hdeep]
    exact ⟨nofun, fun h => absurd h.1.shallow (Nat.not_le.mpr hdeep)⟩
  rw [if_neg hdeep, Verdict.admitted.injEq]
  refine ⟨fun h => ⟨⟨?_, ?_, Nat.le_of_not_lt hdeep⟩, h.symm⟩, fun h => h.2.symm⟩
  · exact fun e he heq => hseen ⟨e, he, heq⟩
  · exact root_or_answers_of_not_orphan horphan

/-- The four verdicts, each with what it tells of the claim. -/
theorem verdictAfter_cases (maxDepth : Nat) (earlier : List Claim) (c : Claim) :
    verdictAfter maxDepth earlier c = .duplicate ∨
    (c.isRoot = false ∧ verdictAfter maxDepth earlier c = .orphan) ∨
    (maxDepth < c.position.depth ∧ verdictAfter maxDepth earlier c =
      .refused (.exceedsMaxDepth c.position.depth maxDepth)) ∨
    verdictAfter maxDepth earlier c = .admitted earlier.length := by
  unfold verdictAfter
  by_cases hseen : ∃ e ∈ earlier, e.toClaimData = c.toClaimData
  · exact Or.inl (if_pos hseen)
  rw [if_neg hseen]
  by_cases horphan : c.isRoot = false ∧ ∀ e ∈ earlier, e.contractIndex ≠ c.parentIndex
  · exact Or.inr (Or.inl ⟨horphan.1, if_pos horphan⟩)
  rw [if_neg horphan]
  by_cases hdeep : maxDepth < c.position.depth
  · exact Or.inr (Or.inr (Or.inl ⟨hdeep, if_pos hdeep⟩))
  · exact Or.inr (Or.inr (Or.inr (if_neg hdeep)))

theorem NamesSlot.lt_length {name slot : Nat} (h : NamesSlot earlier name slot) :
    slot < earlier.length := by
  obtain ⟨⟨e, he, -⟩, -⟩ := h
  exact (List.getElem?_eq_some_iff.mp he).1

theorem namesSlot_append_self (earlier : List Claim) (c : Claim) :
    NamesSlot (earlier ++ [c]) c.contractIndex earlier.length := by
  refine ⟨⟨c, by simp, rfl⟩, ?_⟩
  intro r hr
  obtain ⟨e, he, -⟩ := hr
  rcases getElem?_append_cases he with ⟨rfl, -⟩ | ⟨hlt, -⟩
  · exact Nat.le_refl _
  · exact Nat.le_of_lt hlt

theorem NamesSlot.append {name slot : Nat} (h : NamesSlot earlier name slot) (c : Claim)
    (hname : c.contractIndex ≠ name) : NamesSlot (earlier ++ [c]) name slot := by
  have hslot := h.lt_length
  obtain ⟨⟨e, he, heq⟩, hmax⟩ := h
  refine ⟨⟨e, by rw [List.getElem?_append_left hslot]; exact he, heq⟩, ?_⟩
  intro r hr
  obtain ⟨f, hf, hfeq⟩ := hr
  rcases getElem?_append_cases hf with ⟨-, rfl⟩ | ⟨-, hold⟩
  · exact absurd hfeq hname
  · exact hmax ⟨f, hold, hfeq⟩

theorem start_tracks (maxDepth : Nat) : Tracks maxDepth [] (start maxDepth) := by
  refine ⟨rfl, rfl, ?_, ?_, ?_, ?_⟩
  · intro c
    simp [start]
  · intro rank c h
    simp at h
  · intro name slot h
    simp [start] at h
  · intro name _ e he
    simp at he

/-- A name that is known stands for the slot of a claim let in before. -/
theorem Tracks.resolve_known (h : Tracks maxDepth earlier s) (c : Claim)
    (hc : c.isRoot = true ∨ ∃ e ∈ earlier, e.contractIndex = c.parentIndex) :
    ∃ parent, s.resolve? c = some { c with parentIndex := parent } ∧
      AnswersSlot earlier c parent ∧ (c.isRoot = true ∨ parent < s.game.size) := by
  unfold resolve? AnswersSlot
  cases hroot : c.isRoot with
  | true => exact ⟨c.parentIndex, rfl, rfl, Or.inl rfl⟩
  | false =>
    obtain ⟨e, he, heq⟩ := hc.resolve_left (by simp [hroot])
    cases hslot : s.slots[c.parentIndex]? with
    | none => exact absurd heq (h.unnamed _ hslot e he)
    | some slot =>
      have hnames := h.named _ slot hslot
      exact ⟨slot, rfl, hnames, Or.inr (by rw [h.size_eq]; exact hnames.lt_length)⟩

theorem Tracks.resolve_unknown (h : Tracks maxDepth earlier s) (c : Claim)
    (hroot : c.isRoot = false) (hc : ∀ e ∈ earlier, e.contractIndex ≠ c.parentIndex) :
    s.resolve? c = none := by
  unfold resolve?
  rw [hroot]
  cases hslot : s.slots[c.parentIndex]? with
  | none => rfl
  | some slot =>
    obtain ⟨⟨e, he, heq⟩, -⟩ := h.named _ slot hslot
    exact absurd heq (hc e (List.mem_of_getElem? he))

theorem position_of_resolve {c resolved : Claim} (h : s.resolve? c = some resolved) :
    resolved.position = c.position := by
  unfold resolve? at h
  cases hroot : c.isRoot with
  | true =>
    simp only [hroot, if_true, Option.some.injEq] at h
    rw [h]
  | false =>
    simp only [hroot, Bool.false_eq_true, if_false, Option.map_eq_some_iff] at h
    obtain ⟨slot, -, rfl⟩ := h
    rfl

/-- What was noted plays no part in it. -/
theorem Tracks.withLog (h : Tracks maxDepth earlier s) (log : List Inspect.Event) :
    Tracks maxDepth earlier { s with log } :=
  ⟨h.maxDepth_eq, h.size_eq, h.seen, h.held, h.named, h.unnamed⟩

/-- The game and the slots after a claim was let in are those of one more claim. -/
theorem Tracks.admit (h : Tracks maxDepth earlier s) {c : Claim} {parent : Nat}
    (hanswers : AnswersSlot earlier c parent) (log : List Inspect.Event) :
    Tracks maxDepth (earlier ++ [c])
      ⟨s.game.append { c with contractIndex := s.game.size, parentIndex := parent },
        s.slots.insert c.contractIndex s.game.size, log⟩ := by
  have hsize := h.size_eq
  refine ⟨h.maxDepth_eq, ?_, ?_, ?_, ?_, ?_⟩
  · simp [hsize]
  · intro e
    rw [Game.isDuplicate_append, h.seen]
    simp only [List.mem_append, List.mem_singleton]
    constructor
    · intro hdup
      rcases hdup with heq | ⟨f, hf, heq⟩
      · exact ⟨c, Or.inr rfl, heq⟩
      · exact ⟨f, Or.inl hf, heq⟩
    · intro hdup
      obtain ⟨f, hf | rfl, heq⟩ := hdup
      · exact Or.inr ⟨f, hf, heq⟩
      · exact Or.inl heq
  · intro rank e he
    rcases getElem?_append_cases he with ⟨rfl, rfl⟩ | ⟨hrank, hold⟩
    · refine ⟨parent, ?_, ?_⟩
      · rw [Game.get?_append, ← hsize, if_pos rfl]
      · rw [List.take_left' rfl]
        exact hanswers
    · obtain ⟨p, hget, hp⟩ := h.held rank e hold
      refine ⟨p, Game.get?_append_of_some _ hget, ?_⟩
      rw [List.take_append_of_le_length (Nat.le_of_lt hrank)]
      exact hp
  · intro name slot hslot
    rw [Std.HashMap.getElem?_insert] at hslot
    by_cases hname : c.contractIndex = name
    · subst name
      have hlast : earlier.length = slot := by simpa [hsize] using hslot
      subst slot
      exact namesSlot_append_self earlier c
    · rw [if_neg (by simpa using hname)] at hslot
      exact (h.named name slot hslot).append c hname
  · intro name hslot e he
    rw [Std.HashMap.getElem?_insert] at hslot
    by_cases hname : c.contractIndex = name
    · simp [hname] at hslot
    · rw [if_neg (by simpa using hname)] at hslot
      rcases List.mem_append.mp he with hold | hnew
      · exact h.unnamed name hslot e hold
      · rw [List.mem_singleton.mp hnew]
        exact hname

theorem offer_of_duplicate {c : Claim} (hdup : s.game.isDuplicate c = true) :
    s.offer c = (.duplicate, s) := if_pos hdup

theorem offer_of_unresolved {c : Claim} (hfresh : s.game.isDuplicate c = false)
    (hresolve : s.resolve? c = none) : s.offer c = (.orphan, s) := by
  unfold Intake.offer
  rw [if_neg (by simp [hfresh]), hresolve]

theorem offer_of_refusal {c resolved : Claim} {why : Refusal}
    (hfresh : s.game.isDuplicate c = false) (hresolve : s.resolve? c = some resolved)
    (hput : s.game.put { resolved with contractIndex := s.game.size } = .error why) :
    s.offer c =
      (.refused why, { s with log := s.log ++ [.rejected c.contractIndex why] }) := by
  unfold Intake.offer
  rw [if_neg (by simp [hfresh]), hresolve]
  simp [Game.call_of_put_error hput]

theorem offer_of_put {c resolved : Claim} {next : Game}
    (hfresh : s.game.isDuplicate c = false) (hresolve : s.resolve? c = some resolved)
    (hput : s.game.put { resolved with contractIndex := s.game.size } = .ok next) :
    s.offer c = (.admitted s.game.size, ⟨next, s.slots.insert c.contractIndex s.game.size,
      s.log ++ [.admitting s.game.size resolved.position]⟩) := by
  unfold Intake.offer
  rw [if_neg (by simp [hfresh]), hresolve]
  simp [Game.call_of_put hput, Inspect.Event.ofNote]

/-- One offer: the verdict is read off the claims let in before, and the game grows by the
claim if it is let in. -/
theorem Tracks.offer (h : Tracks maxDepth earlier s) (c : Claim) :
    (s.offer c).1 = verdictAfter maxDepth earlier c ∧
      Tracks maxDepth (earlier ++ letIn [⟨c, (s.offer c).1⟩]) (s.offer c).2 := by
  obtain rfl := h.maxDepth_eq
  have hkeep : Tracks s.game.maxDepth (earlier ++ []) s := by
    rw [List.append_nil]
    exact h
  unfold verdictAfter
  by_cases hseen : ∃ e ∈ earlier, e.toClaimData = c.toClaimData
  · rw [if_pos hseen, offer_of_duplicate ((h.seen c).mpr hseen)]
    exact ⟨rfl, hkeep⟩
  have hfresh : s.game.isDuplicate c = false :=
    Bool.eq_false_iff.mpr fun hdup => hseen ((h.seen c).mp hdup)
  rw [if_neg hseen]
  by_cases horphan : c.isRoot = false ∧ ∀ e ∈ earlier, e.contractIndex ≠ c.parentIndex
  · have hresolve := h.resolve_unknown c horphan.1 horphan.2
    rw [if_pos horphan, offer_of_unresolved hfresh hresolve]
    exact ⟨rfl, hkeep⟩
  rw [if_neg horphan]
  obtain ⟨parent, hresolve, hanswers, hparent⟩ :=
    h.resolve_known c (root_or_answers_of_not_orphan horphan)
  by_cases hdeep : s.game.maxDepth < c.position.depth
  · rw [if_pos hdeep, offer_of_refusal hfresh hresolve (Game.put_of_deep hdeep)]
    exact ⟨rfl, hkeep.withLog _⟩
  · have haccepts : s.game.Accepts
        { c with contractIndex := s.game.size, parentIndex := parent } :=
      ⟨Nat.le_of_not_lt hdeep, rfl, hfresh, hparent⟩
    have hput := Game.put_of_accepts haccepts
    rw [if_neg hdeep, offer_of_put hfresh hresolve hput, h.size_eq]
    exact ⟨rfl, h.size_eq ▸ h.admit hanswers _⟩

theorem run_cons (s : Intake) (c : Claim) (rest : List Claim) :
    s.run (c :: rest) =
      (⟨c, (s.offer c).1⟩ :: ((s.offer c).2.run rest).1, ((s.offer c).2.run rest).2) := rfl

/-- The rulings of a run go through the list in order, and each verdict is read off the
claims let in before it. -/
theorem Tracks.run (h : Tracks maxDepth earlier s) (entries : List Claim) :
    (s.run entries).1.map Ruling.claim = entries ∧
    (∀ k r, (s.run entries).1[k]? = some r →
      r.verdict = verdictAfter maxDepth (earlier ++ letIn ((s.run entries).1.take k)) r.claim) ∧
    Tracks maxDepth (earlier ++ letIn (s.run entries).1) (s.run entries).2 := by
  induction entries generalizing earlier s with
  | nil =>
    refine ⟨rfl, ?_, ?_⟩
    · intro k r hr
      simp [Intake.run] at hr
    · change Tracks maxDepth (earlier ++ []) s
      rw [List.append_nil]
      exact h
  | cons c rest ih =>
    obtain ⟨hverdict, htracks⟩ := h.offer c
    obtain ⟨hclaims, hrest, hlast⟩ := ih htracks
    rw [run_cons]
    refine ⟨?_, ?_, ?_⟩
    · rw [List.map_cons, hclaims]
    · intro k r hr
      cases k with
      | zero =>
        obtain rfl : ⟨c, (s.offer c).1⟩ = r := by simpa using hr
        simpa [letIn] using hverdict
      | succ k =>
        rw [List.take_succ_cons, letIn_cons, ← List.append_assoc]
        exact hrest k r (by simpa using hr)
    · rw [letIn_cons, ← List.append_assoc]
      exact hlast

/-- The rulings on a list after the claims `earlier` were let in. -/
def rulingsAfter (maxDepth : Nat) : List Claim → List Claim → List Ruling
  | _, [] => []
  | earlier, c :: rest =>
    let r : Ruling := ⟨c, verdictAfter maxDepth earlier c⟩
    r :: rulingsAfter maxDepth (earlier ++ letIn [r]) rest

theorem Tracks.rulings_eq (h : Tracks maxDepth earlier s) (entries : List Claim) :
    (s.run entries).1 = rulingsAfter maxDepth earlier entries := by
  induction entries generalizing earlier s with
  | nil => rfl
  | cons c rest ih =>
    obtain ⟨hverdict, htracks⟩ := h.offer c
    rw [hverdict] at htracks
    rw [run_cons, rulingsAfter, hverdict, ih htracks]

theorem exists_verdictAfter_of_mem_run {maxDepth : Nat} {claims : List Claim} {r : Ruling}
    (h : r ∈ ((start maxDepth).run claims).1) :
    ∃ earlier, r.verdict = verdictAfter maxDepth earlier r.claim := by
  obtain ⟨k, hk⟩ := List.mem_iff_getElem?.mp h
  obtain ⟨-, hverdicts, -⟩ := (start_tracks maxDepth).run claims
  exact ⟨_, hverdicts k r hk⟩

/-- What the intake makes of a list, told by the list alone. The rulings follow the list. A
claim is let in exactly if it differs in value or position from all those let in before it,
lies at the root or answers the name of one of them, and is not too deep. The game holds
those let in, in their order: each at its rank, unchanged but for its own index, which is
the rank, and for the index of its parent, which is the rank of the last claim let in
before it under the name it answers. -/
theorem run_start_lets_in (maxDepth : Nat) (entries : List Claim) :
    let rulings := ((start maxDepth).run entries).1
    let game := ((start maxDepth).run entries).2.game
    rulings.map Ruling.claim = entries ∧
    (∀ k c, entries[k]? = some c →
      ((∃ slot, rulings[k]? = some ⟨c, .admitted slot⟩) ↔
        (∀ e ∈ letIn (rulings.take k), e.toClaimData ≠ c.toClaimData) ∧
        (c.isRoot = true ∨ ∃ e ∈ letIn (rulings.take k), e.contractIndex = c.parentIndex) ∧
        c.position.depth ≤ maxDepth)) ∧
    (∀ k c slot, rulings[k]? = some ⟨c, .admitted slot⟩ →
      slot = (letIn (rulings.take k)).length) ∧
    game.size = (letIn rulings).length ∧
    (∀ rank c, (letIn rulings)[rank]? = some c → ∃ parent,
      game.get? rank = some { c with contractIndex := rank, parentIndex := parent } ∧
      if c.isRoot then parent = c.parentIndex
      else NamesSlot ((letIn rulings).take rank) c.parentIndex parent) := by
  intro rulings game
  obtain ⟨hclaims, hverdicts, hlast⟩ := (start_tracks maxDepth).run entries
  simp only [List.nil_append] at hverdicts hlast
  refine ⟨hclaims, ?_, ?_, hlast.size_eq, hlast.held⟩
  · intro k c hk
    obtain ⟨r, hr, rfl⟩ : ∃ r, rulings[k]? = some r ∧ r.claim = c := by
      rw [← hclaims, List.getElem?_map, Option.map_eq_some_iff] at hk
      exact hk
    have hadmitted := verdictAfter_eq_admitted_iff maxDepth (letIn (rulings.take k)) r.claim
    constructor
    · intro h
      obtain ⟨slot, hslot⟩ := h
      have hverdict := hverdicts k _ hslot
      have hfits := ((hadmitted slot).mp hverdict.symm).1
      exact ⟨hfits.fresh, hfits.answers, hfits.shallow⟩
    · intro h
      obtain ⟨hfresh, hanswers, hshallow⟩ := h
      have hverdict := (hverdicts k r hr).trans
        ((hadmitted _).mpr ⟨⟨hfresh, hanswers, hshallow⟩, rfl⟩)
      refine ⟨(letIn (rulings.take k)).length, ?_⟩
      rw [hr, ← hverdict]
  · intro k c slot hk
    have hverdict := hverdicts k _ hk
    exact ((verdictAfter_eq_admitted_iff _ _ c slot).mp hverdict.symm).2

end Intake

end DisputeGame
