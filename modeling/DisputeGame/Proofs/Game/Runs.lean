import DisputeGame.Game.Basic
import Std.Data.HashSet.Lemmas

/-!
Games as runs leave them. A run offers claims one after the other, each to the game that the
call before has left. The four guards of the game are one condition on a claim; behind them
the claim is appended, and each of the four refusals is shown to leave the game as it was.
Every invariant is shown for the append and carried over a run by one induction. The set of
what was said agrees with the claims in every such game.
-/

namespace DisputeGame

theorem Position.isRoot_iff (p : Position) : p.isRoot = true ↔ p = root := by
  obtain ⟨depth, index⟩ := p
  simp [isRoot, root]

theorem ClaimData.eq_of_fields {a b : ClaimData} (hvalue : a.value = b.value)
    (hposition : a.position = b.position) : a = b := by
  cases a
  cases b
  cases hvalue
  cases hposition
  rfl

/-- An entry of a list with one more at its end is the new one or one of before. -/
theorem getElem?_append_cases {α : Type} {l : List α} {a b : α} {i : Nat}
    (h : (l ++ [a])[i]? = some b) :
    (i = l.length ∧ b = a) ∨ (i < l.length ∧ l[i]? = some b) := by
  by_cases hi : i < l.length
  · rw [List.getElem?_append_left hi] at h
    exact Or.inr ⟨hi, h⟩
  · have hlast := (List.getElem?_eq_some_iff.mp h).1
    simp only [List.length_append, List.length_singleton] at hlast
    have hlen : i = l.length := by omega
    subst i
    exact Or.inl ⟨rfl, by simpa using h.symm⟩

/-- What is asked of every entry of a list is asked of finitely many. -/
theorem forall_getElem?_iff {α : Type} {l : List α} {P : Nat → α → Prop} :
    (∀ i a, l[i]? = some a → P i a) ↔ ∀ i : Fin l.length, P i (l.get i) := by
  constructor
  · intro h i
    exact h i (l.get i) (List.getElem?_eq_getElem i.isLt)
  · intro h i a ha
    obtain ⟨hi, rfl⟩ := List.getElem?_eq_some_iff.mp ha
    exact h ⟨i, hi⟩

namespace Game

/-- What the game asks of a claim before it takes it in. -/
structure Accepts (g : Game) (c : Claim) : Prop where
  shallow : c.position.depth ≤ g.maxDepth
  next : c.contractIndex = g.size
  fresh : g.isDuplicate c = false
  answers : c.isRoot = true ∨ c.parentIndex < g.size

/-- A call in one equation. The guards stand in front of all that is done to the game. -/
theorem call_eq (g : Game) (c : Claim) : g.call c =
    if g.maxDepth < c.position.depth then
      (.error (.exceedsMaxDepth c.position.depth g.maxDepth), .silent g)
    else if c.contractIndex ≠ g.size then
      (.error (.unexpectedIndex g.size c.contractIndex), .silent g)
    else if g.isDuplicate c then (.error (.duplicate c.position.gindex), .silent g)
    else if !c.isRoot && g.size ≤ c.parentIndex then
      (.error (.missingParent c.parentIndex), .silent g)
    else (.ok (), ⟨g.append c, [.admitting c.contractIndex c.position]⟩) := by
  change (if g.maxDepth < c.position.depth then _
    else if c.contractIndex ≠ g.size then _
    else if g.isDuplicate c then _
    else if !c.isRoot && g.size ≤ c.parentIndex then _
    else _ : ExceptT Refusal (StateM (Noted Game)) Unit).run.run _ = _
  split
  · rfl
  split
  · rfl
  split
  · rfl
  split
  · rfl
  · rfl

theorem call_of_accepts {g : Game} {c : Claim} (h : g.Accepts c) :
    g.call c = (.ok (), ⟨g.append c, [.admitting c.contractIndex c.position]⟩) := by
  have hdeep : ¬g.maxDepth < c.position.depth := Nat.not_lt.mpr h.shallow
  have hparent : ¬(!c.isRoot && decide (g.size ≤ c.parentIndex)) = true := by
    rcases h.answers with hroot | hlt
    · simp [hroot]
    · simp [hlt]
  rw [call_eq, if_neg hdeep, if_neg (not_not_intro h.next), if_neg (by simp [h.fresh]),
    if_neg hparent]

theorem call_of_deep {g : Game} {c : Claim} (h : g.maxDepth < c.position.depth) :
    g.call c = (.error (.exceedsMaxDepth c.position.depth g.maxDepth), .silent g) := by
  rw [call_eq, if_pos h]

theorem call_of_misplaced {g : Game} {c : Claim} (hshallow : c.position.depth ≤ g.maxDepth)
    (hslot : c.contractIndex ≠ g.size) :
    g.call c = (.error (.unexpectedIndex g.size c.contractIndex), .silent g) := by
  rw [call_eq, if_neg (Nat.not_lt.mpr hshallow), if_pos hslot]

theorem call_of_repeated {g : Game} {c : Claim} (hshallow : c.position.depth ≤ g.maxDepth)
    (hnext : c.contractIndex = g.size) (hdup : g.isDuplicate c = true) :
    g.call c = (.error (.duplicate c.position.gindex), .silent g) := by
  rw [call_eq, if_neg (Nat.not_lt.mpr hshallow), if_neg (not_not_intro hnext), if_pos hdup]

theorem call_of_orphaned {g : Game} {c : Claim} (hshallow : c.position.depth ≤ g.maxDepth)
    (hnext : c.contractIndex = g.size) (hfresh : g.isDuplicate c = false)
    (hroot : c.isRoot = false) (hparent : g.size ≤ c.parentIndex) :
    g.call c = (.error (.missingParent c.parentIndex), .silent g) := by
  rw [call_eq, if_neg (Nat.not_lt.mpr hshallow), if_neg (not_not_intro hnext),
    if_neg (by simp [hfresh]), if_pos (by simp [hroot, hparent])]

/-- All that can come of a claim: one of the four refusals, each behind the guards before it
and with the game as it was, or the claim is appended. -/
theorem call_outcome (g : Game) (c : Claim) :
    (g.maxDepth < c.position.depth ∧
      g.call c = (.error (.exceedsMaxDepth c.position.depth g.maxDepth), .silent g)) ∨
    (c.position.depth ≤ g.maxDepth ∧ c.contractIndex ≠ g.size ∧
      g.call c = (.error (.unexpectedIndex g.size c.contractIndex), .silent g)) ∨
    (c.position.depth ≤ g.maxDepth ∧ c.contractIndex = g.size ∧ g.isDuplicate c = true ∧
      g.call c = (.error (.duplicate c.position.gindex), .silent g)) ∨
    (c.position.depth ≤ g.maxDepth ∧ c.contractIndex = g.size ∧ g.isDuplicate c = false ∧
      c.isRoot = false ∧ g.size ≤ c.parentIndex ∧
      g.call c = (.error (.missingParent c.parentIndex), .silent g)) ∨
    (g.Accepts c ∧
      g.call c = (.ok (), ⟨g.append c, [.admitting c.contractIndex c.position]⟩)) := by
  by_cases hdeep : g.maxDepth < c.position.depth
  · exact Or.inl ⟨hdeep, call_of_deep hdeep⟩
  have hshallow : c.position.depth ≤ g.maxDepth := Nat.le_of_not_lt hdeep
  refine Or.inr ?_
  by_cases hnext : c.contractIndex = g.size
  · refine Or.inr ?_
    cases hdup : g.isDuplicate c with
    | true => exact Or.inl ⟨hshallow, hnext, rfl, call_of_repeated hshallow hnext hdup⟩
    | false =>
      refine Or.inr ?_
      by_cases hanswers : c.isRoot = true ∨ c.parentIndex < g.size
      · have haccepts : g.Accepts c := ⟨hshallow, hnext, hdup, hanswers⟩
        exact Or.inr ⟨haccepts, call_of_accepts haccepts⟩
      · have hroot : c.isRoot = false := by
          apply Bool.eq_false_iff.mpr
          intro hroot
          exact hanswers (Or.inl hroot)
        have hparent : g.size ≤ c.parentIndex := by
          apply Nat.le_of_not_lt
          intro hlt
          exact hanswers (Or.inr hlt)
        exact Or.inl ⟨hshallow, hnext, rfl, hroot, hparent,
          call_of_orphaned hshallow hnext hdup hroot hparent⟩
  · exact Or.inl ⟨hshallow, hnext, call_of_misplaced hshallow hnext⟩

/-- Each of the four refusals leaves the game as it was, its claims and the set of what they
say, and notes nothing. -/
theorem call_of_refusal {g : Game} {c : Claim} {why : Refusal} (h : (g.call c).1 = .error why) :
    (g.call c).2 = .silent g := by
  rcases call_outcome g c with ⟨-, hcall⟩ | ⟨-, -, hcall⟩ | ⟨-, -, -, hcall⟩ |
    ⟨-, -, -, -, -, hcall⟩ | ⟨-, hcall⟩
  · rw [hcall]
  · rw [hcall]
  · rw [hcall]
  · rw [hcall]
  · rw [hcall] at h
    cases h

theorem accepts_of_call {g : Game} {c : Claim} (h : (g.call c).1 = .ok ()) : g.Accepts c := by
  rcases call_outcome g c with ⟨-, hcall⟩ | ⟨-, -, hcall⟩ | ⟨-, -, -, hcall⟩ |
    ⟨-, -, -, -, -, hcall⟩ | ⟨haccepts, -⟩
  · rw [hcall] at h
    cases h
  · rw [hcall] at h
    cases h
  · rw [hcall] at h
    cases h
  · rw [hcall] at h
    cases h
  · exact haccepts

theorem call_of_not_accepts {g : Game} {c : Claim} (h : ¬g.Accepts c) :
    ∃ why, g.call c = (.error why, .silent g) := by
  cases hanswer : (g.call c).1 with
  | ok u => exact absurd (accepts_of_call hanswer) h
  | error why => exact ⟨why, Prod.ext hanswer (call_of_refusal hanswer)⟩

theorem put_of_call {g : Game} {c : Claim} {answer : Except Refusal Unit} {left : Noted Game}
    (h : g.call c = (answer, left)) : g.put c = answer.map fun _ => left.value := by
  unfold put
  rw [h]

theorem put_of_accepts {g : Game} {c : Claim} (h : g.Accepts c) : g.put c = .ok (g.append c) :=
  put_of_call (call_of_accepts h)

theorem put_of_deep {g : Game} {c : Claim} (h : g.maxDepth < c.position.depth) :
    g.put c = .error (.exceedsMaxDepth c.position.depth g.maxDepth) := put_of_call (call_of_deep h)

theorem put_of_misplaced {g : Game} {c : Claim} (hshallow : c.position.depth ≤ g.maxDepth)
    (hslot : c.contractIndex ≠ g.size) :
    g.put c = .error (.unexpectedIndex g.size c.contractIndex) :=
  put_of_call (call_of_misplaced hshallow hslot)

theorem put_of_repeated {g : Game} {c : Claim} (hshallow : c.position.depth ≤ g.maxDepth)
    (hnext : c.contractIndex = g.size) (hdup : g.isDuplicate c = true) :
    g.put c = .error (.duplicate c.position.gindex) :=
  put_of_call (call_of_repeated hshallow hnext hdup)

theorem put_of_orphaned {g : Game} {c : Claim} (hshallow : c.position.depth ≤ g.maxDepth)
    (hnext : c.contractIndex = g.size) (hfresh : g.isDuplicate c = false)
    (hroot : c.isRoot = false) (hparent : g.size ≤ c.parentIndex) :
    g.put c = .error (.missingParent c.parentIndex) :=
  put_of_call (call_of_orphaned hshallow hnext hfresh hroot hparent)

theorem put_outcome (g : Game) (c : Claim) :
    (g.maxDepth < c.position.depth ∧
      g.put c = .error (.exceedsMaxDepth c.position.depth g.maxDepth)) ∨
    (c.position.depth ≤ g.maxDepth ∧ c.contractIndex ≠ g.size ∧
      g.put c = .error (.unexpectedIndex g.size c.contractIndex)) ∨
    (c.position.depth ≤ g.maxDepth ∧ c.contractIndex = g.size ∧ g.isDuplicate c = true ∧
      g.put c = .error (.duplicate c.position.gindex)) ∨
    (c.position.depth ≤ g.maxDepth ∧ c.contractIndex = g.size ∧ g.isDuplicate c = false ∧
      c.isRoot = false ∧ g.size ≤ c.parentIndex ∧
      g.put c = .error (.missingParent c.parentIndex)) ∨
    (g.Accepts c ∧ g.put c = .ok (g.append c)) := by
  rcases call_outcome g c with ⟨hdeep, hcall⟩ | ⟨hshallow, hslot, hcall⟩ |
    ⟨hshallow, hnext, hdup, hcall⟩ | ⟨hshallow, hnext, hfresh, hroot, hparent, hcall⟩ |
    ⟨haccepts, hcall⟩
  · exact Or.inl ⟨hdeep, put_of_call hcall⟩
  · exact Or.inr (Or.inl ⟨hshallow, hslot, put_of_call hcall⟩)
  · exact Or.inr (Or.inr (Or.inl ⟨hshallow, hnext, hdup, put_of_call hcall⟩))
  · exact Or.inr (Or.inr (Or.inr (Or.inl
      ⟨hshallow, hnext, hfresh, hroot, hparent, put_of_call hcall⟩)))
  · exact Or.inr (Or.inr (Or.inr (Or.inr ⟨haccepts, put_of_call hcall⟩)))

theorem put_of_not_accepts {g : Game} {c : Claim} (h : ¬g.Accepts c) :
    ∃ why, g.put c = .error why := by
  obtain ⟨why, hcall⟩ := call_of_not_accepts h
  exact ⟨why, put_of_call hcall⟩

theorem accepts_of_put {g next : Game} {c : Claim} (h : g.put c = .ok next) :
    g.Accepts c ∧ next = g.append c := by
  by_cases haccepts : g.Accepts c
  · exact ⟨haccepts, Except.ok.inj (h.symm.trans (put_of_accepts haccepts))⟩
  · obtain ⟨why, hput⟩ := put_of_not_accepts haccepts
    cases hput.symm.trans h

/-- A call whose claim is put leaves the game with the claim in it and notes the admission. -/
theorem call_of_put {g next : Game} {c : Claim} (h : g.put c = .ok next) :
    g.call c = (.ok (), ⟨next, [.admitting c.contractIndex c.position]⟩) := by
  obtain ⟨haccepts, rfl⟩ := accepts_of_put h
  exact call_of_accepts haccepts

theorem call_of_put_error {g : Game} {c : Claim} {why : Refusal} (h : g.put c = .error why) :
    g.call c = (.error why, .silent g) := by
  have hrefused : ¬g.Accepts c := by
    intro haccepts
    cases (put_of_accepts haccepts).symm.trans h
  obtain ⟨why', hcall⟩ := call_of_not_accepts hrefused
  cases (put_of_call hcall).symm.trans h
  exact hcall

/-- The game that a call leaves behind, whatever its answer. -/
def offer (g : Game) (c : Claim) : Game := (g.call c).2.value

/-- The game after a list of claims was offered in order. -/
def offerAll (g : Game) (cs : List Claim) : Game := cs.foldl offer g

theorem offer_cases (g : Game) (c : Claim) :
    (g.Accepts c ∧ g.offer c = g.append c) ∨ (¬g.Accepts c ∧ g.offer c = g) := by
  unfold offer
  by_cases h : g.Accepts c
  · rw [call_of_accepts h]
    exact Or.inl ⟨h, rfl⟩
  · obtain ⟨why, hcall⟩ := call_of_not_accepts h
    rw [hcall]
    exact Or.inr ⟨h, rfl⟩

theorem offer_of_accepts {g : Game} {c : Claim} (h : g.Accepts c) : g.offer c = g.append c := by
  rcases offer_cases g c with ⟨-, hoffer⟩ | ⟨hrefused, -⟩
  · exact hoffer
  · exact absurd h hrefused

theorem offerAll_append (g : Game) (before after : List Claim) :
    g.offerAll (before ++ after) = (g.offerAll before).offerAll after := List.foldl_append

/-- What an append behind the guards preserves holds after every run. -/
theorem offerAll_induction {P : Game → Prop} {g : Game} (cs : List Claim) (hstart : P g)
    (happend : ∀ g c, P g → g.Accepts c → P (g.append c)) : P (g.offerAll cs) := by
  induction cs generalizing g with
  | nil => exact hstart
  | cons c rest ih =>
    apply ih
    rcases offer_cases g c with ⟨haccepts, hoffer⟩ | ⟨-, hoffer⟩
    · rw [hoffer]
      exact happend g c hstart haccepts
    · rw [hoffer]
      exact hstart

@[simp] theorem get?_empty (maxDepth i : Nat) : (empty maxDepth).get? i = none :=
  Array.getElem?_empty

@[simp] theorem isDuplicate_empty (maxDepth : Nat) (c : Claim) :
    (empty maxDepth).isDuplicate c = false := Std.HashSet.contains_empty

@[simp] theorem size_append (g : Game) (c : Claim) : (g.append c).size = g.size + 1 :=
  Array.size_push ..

theorem get?_append (g : Game) (c : Claim) (i : Nat) :
    (g.append c).get? i = if i = g.size then some c else g.get? i :=
  Array.getElem?_push

theorem get?_eq_some_lt {g : Game} {i : Nat} {c : Claim} (h : g.get? i = some c) : i < g.size :=
  (Array.getElem?_eq_some_iff.mp h).1

/-- A claim of the game after an append is the new one or one of before, at its slot. -/
theorem get?_append_cases {g : Game} {c e : Claim} {i : Nat} (h : (g.append c).get? i = some e) :
    (i = g.size ∧ e = c) ∨ (i < g.size ∧ g.get? i = some e) := by
  rw [get?_append] at h
  by_cases hi : i = g.size
  · rw [if_pos hi] at h
    exact Or.inl ⟨hi, (Option.some.inj h).symm⟩
  · rw [if_neg hi] at h
    exact Or.inr ⟨get?_eq_some_lt h, h⟩

theorem get?_append_of_some {g : Game} {e : Claim} {i : Nat} (c : Claim)
    (h : g.get? i = some e) : (g.append c).get? i = some e := by
  have hi := get?_eq_some_lt h
  rw [get?_append, if_neg (Nat.ne_of_lt hi)]
  exact h

@[simp] theorem claims_append (g : Game) (c : Claim) :
    (g.append c).claims.toList = g.claims.toList ++ [c] := Array.toList_push

theorem getElem?_claims (g : Game) (i : Nat) : g.claims.toList[i]? = g.get? i :=
  Array.getElem?_toList

theorem mem_claims_iff (g : Game) (c : Claim) : c ∈ g.claims.toList ↔ ∃ i, g.get? i = some c := by
  simp only [List.mem_iff_getElem?, getElem?_claims]

theorem isDuplicate_append (g : Game) (c e : Claim) :
    (g.append c).isDuplicate e = true ↔ c.toClaimData = e.toClaimData ∨ g.isDuplicate e = true := by
  have hseen : (g.append c).seen = g.seen.insert c.toClaimData := rfl
  unfold isDuplicate
  rw [hseen, Std.HashSet.contains_insert, Bool.or_eq_true, beq_iff_eq]

theorem isDuplicate_append_elsewhere {g : Game} {c e : Claim} (hne : c.position ≠ e.position)
    (h : g.isDuplicate e = false) : (g.append c).isDuplicate e = false := by
  cases hdup : (g.append c).isDuplicate e with
  | false => rfl
  | true =>
    rcases (isDuplicate_append g c e).mp hdup with heq | hold
    · exact absurd (congrArg ClaimData.position heq) hne
    · rw [h] at hold
      cases hold

/-- What holds of every game that a run leaves behind. -/
structure WellFormed (g : Game) : Prop where
  slot : ∀ i c, g.get? i = some c → c.contractIndex = i
  shallow : ∀ i c, g.get? i = some c → c.position.depth ≤ g.maxDepth
  answers : ∀ i c, g.get? i = some c → c.isRoot = false → c.parentIndex < i
  distinct : ∀ i j c e, g.get? i = some c → g.get? j = some e →
    c.toClaimData = e.toClaimData → i = j
  seen : ∀ c, g.isDuplicate c = true ↔ ∃ i e, g.get? i = some e ∧ e.toClaimData = c.toClaimData

theorem empty_wellFormed (maxDepth : Nat) : (empty maxDepth).WellFormed := by
  have hnone : ∀ i c, (empty maxDepth).get? i ≠ some c := by
    intro i c
    simp
  refine ⟨?_, ?_, ?_, ?_, ?_⟩
  · exact fun i c h => absurd h (hnone i c)
  · exact fun i c h => absurd h (hnone i c)
  · exact fun i c h => absurd h (hnone i c)
  · exact fun i j c e h => absurd h (hnone i c)
  · intro c
    simp

theorem append_wellFormed (g : Game) (c : Claim) (hg : g.WellFormed) (hc : g.Accepts c) :
    (g.append c).WellFormed := by
  have hnew : ∀ i e, g.get? i = some e → e.toClaimData ≠ c.toClaimData := by
    intro i e he heq
    have hdup := (hg.seen c).mpr ⟨i, e, he, heq⟩
    rw [hc.fresh] at hdup
    cases hdup
  constructor
  · intro i e h
    rcases get?_append_cases h with ⟨rfl, rfl⟩ | ⟨-, hold⟩
    · exact hc.next
    · exact hg.slot i e hold
  · intro i e h
    rcases get?_append_cases h with ⟨-, rfl⟩ | ⟨-, hold⟩
    · exact hc.shallow
    · exact hg.shallow i e hold
  · intro i e h hroot
    rcases get?_append_cases h with ⟨rfl, rfl⟩ | ⟨-, hold⟩
    · exact hc.answers.resolve_left (by simp [hroot])
    · exact hg.answers i e hold hroot
  · intro i j e f he hf heq
    rcases get?_append_cases he with ⟨hi, rfl⟩ | ⟨-, hold⟩
    · rcases get?_append_cases hf with ⟨hj, -⟩ | ⟨-, hold'⟩
      · rw [hi, hj]
      · exact absurd heq.symm (hnew j f hold')
    · rcases get?_append_cases hf with ⟨-, rfl⟩ | ⟨-, hold'⟩
      · exact absurd heq (hnew i e hold)
      · exact hg.distinct i j e f hold hold' heq
  · intro e
    rw [isDuplicate_append, hg.seen]
    constructor
    · intro h
      rcases h with heq | ⟨i, f, hf, heq⟩
      · exact ⟨g.size, c, by rw [get?_append, if_pos rfl], heq⟩
      · exact ⟨i, f, get?_append_of_some c hf, heq⟩
    · intro h
      obtain ⟨i, f, hf, heq⟩ := h
      rcases get?_append_cases hf with ⟨-, rfl⟩ | ⟨-, hold⟩
      · exact Or.inl heq
      · exact Or.inr ⟨i, f, hold, heq⟩

theorem offerAll_wellFormed (g : Game) (cs : List Claim) (hg : g.WellFormed) :
    (g.offerAll cs).WellFormed :=
  offerAll_induction cs hg append_wellFormed

theorem offerAll_empty_wellFormed (maxDepth : Nat) (cs : List Claim) :
    ((empty maxDepth).offerAll cs).WellFormed :=
  offerAll_wellFormed _ cs (empty_wellFormed maxDepth)

theorem maxDepth_offerAll (g : Game) (cs : List Claim) : (g.offerAll cs).maxDepth = g.maxDepth :=
  offerAll_induction (P := fun next => next.maxDepth = g.maxDepth) cs rfl
    (fun _ _ h _ => h)

/-- The set and the list tell the same repetitions. -/
theorem WellFormed.isDuplicate_iff_mem {g : Game} (hg : g.WellFormed) (c : Claim) :
    g.isDuplicate c = true ↔ ∃ e ∈ g.claims.toList, e.toClaimData = c.toClaimData := by
  rw [hg.seen]
  constructor
  · intro h
    obtain ⟨i, e, he, heq⟩ := h
    exact ⟨e, (mem_claims_iff g e).mpr ⟨i, he⟩, heq⟩
  · intro h
    obtain ⟨e, he, heq⟩ := h
    obtain ⟨i, hi⟩ := (mem_claims_iff g e).mp he
    exact ⟨i, e, hi, heq⟩

/-- Only the root can stand at the first slot: nothing is there for it to answer. -/
theorem WellFormed.first_is_root {g : Game} (hg : g.WellFormed) {c : Claim}
    (h : g.get? 0 = some c) : c.position = Position.root := by
  apply (Position.isRoot_iff _).mp
  change c.isRoot = true
  cases hroot : c.isRoot with
  | true => rfl
  | false => exact absurd (hg.answers 0 c h hroot) (Nat.not_lt_zero _)

/-- Whatever is offered to an empty game, and however often it refuses, its claims stand at
the slots they name, lie within the depth of the game, never say the same at the same place
twice and answer earlier ones; the first of them lies at the root. -/
theorem offerAll_empty_orderly (maxDepth : Nat) (cs : List Claim) :
    let g := (empty maxDepth).offerAll cs
    (∀ i c, g.get? i = some c → c.contractIndex = i) ∧
    (∀ i c, g.get? i = some c → c.position.depth ≤ maxDepth) ∧
    (∀ i j c e, g.get? i = some c → g.get? j = some e → i ≠ j →
      ¬(c.value = e.value ∧ c.position = e.position)) ∧
    (∀ i c, g.get? i = some c → c.isRoot = false → c.parentIndex < c.contractIndex) ∧
    (∀ c, g.get? 0 = some c → c.position = Position.root) := by
  intro g
  have hg : g.WellFormed := offerAll_wellFormed _ cs (empty_wellFormed maxDepth)
  have hmax : g.maxDepth = maxDepth := maxDepth_offerAll _ cs
  refine ⟨hg.slot, ?_, ?_, ?_, fun c h => hg.first_is_root h⟩
  · intro i c h
    rw [← hmax]
    exact hg.shallow i c h
  · intro i j c e hc he hne heq
    have hdata := ClaimData.eq_of_fields heq.1 heq.2
    exact hne (hg.distinct i j c e hc he hdata)
  · intro i c h hroot
    rw [hg.slot i c h]
    exact hg.answers i c h hroot

end Game

end DisputeGame
