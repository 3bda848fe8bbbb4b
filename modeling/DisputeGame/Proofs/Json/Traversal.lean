import DisputeGame.Proofs.Json.Containers

/-!
Two readings of one text. A reading that takes the members of an object one by one and a reading
that keeps them all go through the same text in the same way. So the first one succeeds exactly
if the second one does and the members, in the order of the text, can be taken one after the
other. The same holds of the elements of an array.
-/

namespace DisputeGame.Json

section Members

/-- A member at the front of a text, and what follows it. -/
def HoldsMember (read : List Char → Except Fault (Json × List Char)) (s : List Char)
    (member : String × Json) (after : List Char) : Prop :=
  ∃ tail behind, skipSpace s = '"' :: tail ∧ readText .keep tail = .ok (member.1, behind) ∧
    (readColon behind >>= read) = .ok (member.2, after)

/-- Elements, at least one, with commas between them, up to the bracket that closes them. -/
inductive HoldsList {α : Type} (holds : List Char → α → List Char → Prop) (close : Char) :
    List Char → List α → List Char → Prop
  | last {s after rest : List Char} {a : α} (ha : holds s a after)
      (hclose : skipSpace after = close :: rest) : HoldsList holds close s [a] rest
  | cons {s after more rest : List Char} {a : α} {as : List α} (ha : holds s a after)
      (hcomma : skipSpace after = ',' :: more) (hmore : HoldsList holds close more as rest) :
      HoldsList holds close s (a :: as) rest

/-- Members, at least one, up to the closing brace. -/
abbrev HoldsMembers (read : List Char → Except Fault (Json × List Char)) :=
  HoldsList (HoldsMember read) '\x7d'

/-- A step reads a value and takes it with its key. -/
def StepsBy {E σ : Type} (read : List Char → Except Fault (Json × List Char))
    (step : σ → String → List Char → Except E (σ × List Char))
    (take : σ → String × Json → Except E σ) : Prop :=
  ∀ state key s next rest, step state key s = .ok (next, rest) ↔
    ∃ value, (readColon s >>= read) = .ok (value, rest) ∧ take state (key, value) = .ok next

variable {E σ : Type} [OfFault E] {read : List Char → Except Fault (Json × List Char)}
  {step : σ → String → List Char → Except E (σ × List Char)}
  {take : σ → String × Json → Except E σ} {s rest : List Char} {state last : σ}
  {members : List (String × Json)}

/-- One round of the loop: a member is taken, and a comma or the brace follows. -/
theorem readMembersFrom_succ_eq_ok_iff {fuel : Nat} :
    readMembersFrom .keep step (fuel + 1) state s = .ok (last, rest) ↔
      ∃ tail key behind next after, skipSpace s = '"' :: tail ∧
        readText .keep tail = .ok (key, behind) ∧ step state key behind = .ok (next, after) ∧
        ((skipSpace after = '\x7d' :: rest ∧ next = last) ∨
          ∃ more, skipSpace after = ',' :: more ∧
            readMembersFrom .keep step fuel next more = .ok (last, rest)) := by
  rw [readMembersFrom]
  constructor
  · intro h
    split at h
    · next tail hopen =>
      obtain ⟨⟨key, behind⟩, hkey, h⟩ := bind_eq_ok.mp h
      obtain ⟨⟨next, after⟩, hstep, h⟩ := bind_eq_ok.mp h
      refine ⟨tail, key, behind, next, after, hopen, lift_eq_ok.mp hkey, hstep, ?_⟩
      dsimp only at h
      split at h
      · next more hcomma => exact Or.inr ⟨more, hcomma, h⟩
      · next after' hclose =>
        cases h
        exact Or.inl ⟨hclose, rfl⟩
      · exact absurd h stopAt_ne_ok
    · exact absurd h stopAt_ne_ok
  · intro h
    obtain ⟨tail, key, behind, next, after, hopen, hkey, hstep, hafter⟩ := h
    rw [hopen]
    change (lift (readText .keep tail) >>= _) = _
    rw [hkey]
    change (step state key behind >>= _) = _
    rw [hstep, ok_bind]
    rcases hafter with ⟨hclose, rfl⟩ | ⟨more, hcomma, hmore⟩
    · simp only [hclose]
      rfl
    · simp only [hcomma]
      exact hmore

/-- The loop succeeds if the text holds members and they can be taken in order. -/
theorem readMembersFrom_eq_ok_iff (hstep : StepsBy read step take) {fuel : Nat} :
    readMembersFrom .keep step fuel state s = .ok (last, rest) ↔
      ∃ members, members.length ≤ fuel ∧ HoldsMembers read s members rest ∧
        members.foldlM take state = .ok last := by
  induction fuel generalizing state s with
  | zero =>
    constructor
    · intro h
      exact absurd h stopAt_ne_ok
    · intro h
      obtain ⟨members, hlength, hmembers, -⟩ := h
      cases hmembers <;> simp at hlength
  | succ fuel ih =>
    rw [readMembersFrom_succ_eq_ok_iff]
    constructor
    · intro h
      obtain ⟨tail, key, behind, next, after, hopen, hkey, htake, hafter⟩ := h
      obtain ⟨value, hvalue, htake⟩ := (hstep ..).mp htake
      have hmember : HoldsMember read s (key, value) after :=
        ⟨tail, behind, hopen, hkey, hvalue⟩
      rcases hafter with ⟨hclose, rfl⟩ | ⟨more, hcomma, hmore⟩
      · refine ⟨[(key, value)], by simp, .last hmember hclose, ?_⟩
        exact foldlM_cons_eq_ok.mpr ⟨next, htake, rfl⟩
      · obtain ⟨members, hlength, hmembers, hfold⟩ := ih.mp hmore
        refine ⟨(key, value) :: members, Nat.succ_le_succ hlength,
          .cons hmember hcomma hmembers, ?_⟩
        exact foldlM_cons_eq_ok.mpr ⟨next, htake, hfold⟩
    · intro h
      obtain ⟨members, hlength, hmembers, hfold⟩ := h
      cases hmembers with
      | @last _ after _ member hmember hclose =>
        obtain ⟨tail, behind, hopen, hkey, hvalue⟩ := hmember
        obtain ⟨next, htake, hlast⟩ := foldlM_cons_eq_ok.mp hfold
        exact ⟨tail, member.1, behind, next, after, hopen, hkey,
          (hstep ..).mpr ⟨member.2, hvalue, htake⟩, Or.inl ⟨hclose, Except.ok.inj hlast⟩⟩
      | @cons _ after more _ member members hmember hcomma hmore =>
        obtain ⟨tail, behind, hopen, hkey, hvalue⟩ := hmember
        obtain ⟨next, htake, hrest⟩ := foldlM_cons_eq_ok.mp hfold
        have hloop := ih.mpr ⟨members, Nat.le_of_succ_le_succ hlength, hmore, hrest⟩
        exact ⟨tail, member.1, behind, next, after, hopen, hkey,
          (hstep ..).mpr ⟨member.2, hvalue, htake⟩, Or.inr ⟨more, hcomma, hloop⟩⟩

/-- Keeping a member is taking it to the end of those before. -/
def keepMember (members : List (String × Json)) (member : String × Json) :
    Except Fault (List (String × Json)) := .ok (members ++ [member])

theorem stepsBy_appendMember : StepsBy read (appendMember read) keepMember := by
  intro members key s next rest
  unfold appendMember keepMember
  constructor
  · intro h
    obtain ⟨behind, hcolon, h⟩ := bind_eq_ok.mp h
    obtain ⟨⟨value, after⟩, hvalue, h⟩ := bind_eq_ok.mp h
    cases h
    exact ⟨value, bind_eq_ok.mpr ⟨behind, hcolon, hvalue⟩, rfl⟩
  · intro h
    obtain ⟨value, hread, h⟩ := h
    obtain ⟨behind, hcolon, hvalue⟩ := bind_eq_ok.mp hread
    cases h
    rw [hcolon, ok_bind, hvalue]
    rfl

theorem foldlM_keepMember (before : List (String × Json)) :
    members.foldlM keepMember before = .ok (before ++ members) := by
  induction members generalizing before with
  | nil => rw [List.append_nil]; rfl
  | cons member rest ih =>
    refine foldlM_cons_eq_ok.mpr ⟨before ++ [member], rfl, ?_⟩
    rw [ih, List.append_assoc, List.singleton_append]

theorem readMembersFrom_appendMember_eq_ok_iff {fuel : Nat} :
    readMembersFrom .keep (appendMember read) fuel [] s = .ok (members, rest) ↔
      members.length ≤ fuel ∧ HoldsMembers read s members rest := by
  rw [readMembersFrom_eq_ok_iff stepsBy_appendMember]
  simp only [foldlM_keepMember, List.nil_append, Except.ok.injEq]
  constructor
  · intro h
    obtain ⟨kept, hlength, hmembers, rfl⟩ := h
    exact ⟨hlength, hmembers⟩
  · intro h
    exact ⟨members, h.1, h.2, rfl⟩

/-- An object is taken member by member exactly if it can be kept and its members can be taken
in their order. -/
theorem readMembers_eq_ok_iff (hstep : StepsBy read step take) :
    readMembers .keep step state s = .ok (last, rest) ↔
      ∃ members, readMembers .keep (appendMember read) [] s = .ok (members, rest) ∧
        members.foldlM take state = .ok last := by
  unfold readMembers
  split
  · next tail hempty =>
    simp only [Except.ok.injEq, Prod.mk.injEq]
    constructor
    · intro h
      obtain ⟨rfl, rfl⟩ := h
      exact ⟨[], ⟨rfl, rfl⟩, rfl⟩
    · intro h
      obtain ⟨members, ⟨rfl, hrest⟩, hfold⟩ := h
      exact ⟨Except.ok.inj hfold, hrest⟩
  · simp only [readMembersFrom_eq_ok_iff hstep, readMembersFrom_appendMember_eq_ok_iff,
      and_assoc]

/-- The values of an object that has been kept were read from somewhere. -/
theorem exists_read_of_readMembers
    (h : readMembers .keep (appendMember read) [] s = .ok (members, rest)) :
    ∀ member ∈ members, ∃ t after, read t = .ok (member.2, after) := by
  have hholds : ∀ {s members rest}, HoldsMembers read s members rest →
      ∀ member ∈ members, ∃ t after, read t = .ok (member.2, after) := by
    intro s members rest hmembers
    induction hmembers with
    | last hmember _ =>
      intro member hmem
      obtain rfl := List.mem_singleton.mp hmem
      obtain ⟨_, _, -, -, hvalue⟩ := hmember
      obtain ⟨t, -, hread⟩ := bind_eq_ok.mp hvalue
      exact ⟨t, _, hread⟩
    | cons hmember _ _ ih =>
      intro member hmem
      rcases List.mem_cons.mp hmem with rfl | hmem
      · obtain ⟨_, _, -, -, hvalue⟩ := hmember
        obtain ⟨t, -, hread⟩ := bind_eq_ok.mp hvalue
        exact ⟨t, _, hread⟩
      · exact ih member hmem
  unfold readMembers at h
  split at h
  · cases h
    intro member hmem
    cases hmem
  · exact hholds (readMembersFrom_appendMember_eq_ok_iff.mp h).2

end Members

section Elements

variable {E α β : Type} [OfFault E] {read : List Char → Except E (α × List Char)}
  {keep : List Char → Except Fault (β × List Char)} {P : β → α → Prop} {s rest : List Char}

/-- One round of the loop: an element is read, and a comma or the bracket follows. -/
theorem readItemsFrom_succ_eq_ok_iff {fuel : Nat} {items : List α} :
    readItemsFrom read (fuel + 1) s = .ok (items, rest) ↔
      ∃ item after, read s = .ok (item, after) ∧
        ((skipSpace after = ']' :: rest ∧ items = [item]) ∨
          ∃ more others, skipSpace after = ',' :: more ∧
            readItemsFrom read fuel more = .ok (others, rest) ∧ items = item :: others) := by
  rw [readItemsFrom, bind_eq_ok]
  constructor
  · intro h
    obtain ⟨⟨item, after⟩, hitem, h⟩ := h
    refine ⟨item, after, hitem, ?_⟩
    dsimp only at h
    split at h
    · next more hcomma =>
      obtain ⟨⟨others, rest'⟩, hothers, h⟩ := bind_eq_ok.mp h
      cases h
      exact Or.inr ⟨more, others, hcomma, hothers, rfl⟩
    · next after' hclose =>
      cases h
      exact Or.inl ⟨hclose, rfl⟩
    · exact absurd h stopAt_ne_ok
  · intro h
    obtain ⟨item, after, hitem, hafter⟩ := h
    refine ⟨(item, after), hitem, ?_⟩
    rcases hafter with ⟨hclose, rfl⟩ | ⟨more, others, hcomma, hothers, rfl⟩
    · simp only [hclose]
      rfl
    · simp only [hcomma]
      rw [hothers]
      rfl

/-- The loop over elements finds as many of them as it has rounds for. -/
theorem readItemsFrom_eq_ok_iff_holds {fuel : Nat} {items : List α} :
    readItemsFrom read fuel s = .ok (items, rest) ↔
      items.length ≤ fuel ∧
        HoldsList (fun s a rest => read s = .ok (a, rest)) ']' s items rest := by
  induction fuel generalizing s items with
  | zero =>
    constructor
    · intro h
      exact absurd h stopAt_ne_ok
    · intro h
      obtain ⟨hlength, hitems⟩ := h
      cases hitems <;> simp at hlength
  | succ fuel ih =>
    rw [readItemsFrom_succ_eq_ok_iff]
    constructor
    · intro h
      obtain ⟨item, after, hitem, hafter⟩ := h
      rcases hafter with ⟨hclose, rfl⟩ | ⟨more, others, hcomma, hothers, rfl⟩
      · exact ⟨by simp, .last hitem hclose⟩
      · obtain ⟨hlength, hmore⟩ := ih.mp hothers
        exact ⟨Nat.succ_le_succ hlength, .cons hitem hcomma hmore⟩
    · intro h
      obtain ⟨hlength, hitems⟩ := h
      cases hitems with
      | last hitem hclose => exact ⟨_, _, hitem, Or.inl ⟨hclose, rfl⟩⟩
      | cons hitem hcomma hmore =>
        have hothers := ih.mpr ⟨Nat.le_of_succ_le_succ hlength, hmore⟩
        exact ⟨_, _, hitem, Or.inr ⟨_, _, hcomma, hothers, rfl⟩⟩

theorem readItemsFrom_eq_ok_iff {fuel : Nat} {items : List α}
    (hread : ∀ s a rest, read s = .ok (a, rest) ↔ ∃ b, keep s = .ok (b, rest) ∧ P b a) :
    readItemsFrom read fuel s = .ok (items, rest) ↔
      ∃ kept, readItemsFrom keep fuel s = .ok (kept, rest) ∧ List.Forall₂ P kept items := by
  induction fuel generalizing s items with
  | zero =>
    constructor
    · intro h
      exact absurd h stopAt_ne_ok
    · intro h
      obtain ⟨kept, h, -⟩ := h
      exact absurd h stopAt_ne_ok
  | succ fuel ih =>
    simp only [readItemsFrom_succ_eq_ok_iff]
    constructor
    · intro h
      obtain ⟨item, after, hitem, hafter⟩ := h
      obtain ⟨value, hvalue, htold⟩ := (hread ..).mp hitem
      rcases hafter with ⟨hclose, rfl⟩ | ⟨more, others, hcomma, hothers, rfl⟩
      · exact ⟨[value], ⟨value, after, hvalue, Or.inl ⟨hclose, rfl⟩⟩, .cons htold .nil⟩
      · obtain ⟨kept, hkept, hall⟩ := ih.mp hothers
        exact ⟨value :: kept, ⟨value, after, hvalue, Or.inr ⟨more, kept, hcomma, hkept, rfl⟩⟩,
          .cons htold hall⟩
    · intro h
      obtain ⟨kept, ⟨value, after, hvalue, hafter⟩, hall⟩ := h
      rcases hafter with ⟨hclose, rfl⟩ | ⟨more, others, hcomma, hothers, rfl⟩
      · cases hall with
        | cons htold hnil =>
          cases hnil
          exact ⟨_, after, (hread ..).mpr ⟨value, hvalue, htold⟩, Or.inl ⟨hclose, rfl⟩⟩
      · cases hall with
        | cons htold hrest =>
          have hloop := ih.mpr ⟨others, hothers, hrest⟩
          exact ⟨_, after, (hread ..).mpr ⟨value, hvalue, htold⟩,
            Or.inr ⟨more, _, hcomma, hloop, rfl⟩⟩

/-- An array is read element by element exactly if it can be kept and every element can be
read on its own. -/
theorem readItems_eq_ok_iff {items : List α}
    (hread : ∀ s a rest, read s = .ok (a, rest) ↔ ∃ b, keep s = .ok (b, rest) ∧ P b a) :
    readItems read s = .ok (items, rest) ↔
      ∃ kept, readItems keep s = .ok (kept, rest) ∧ List.Forall₂ P kept items := by
  unfold readItems
  split
  · next tail hempty =>
    simp only [Except.ok.injEq, Prod.mk.injEq]
    constructor
    · intro h
      obtain ⟨rfl, rfl⟩ := h
      exact ⟨[], ⟨rfl, rfl⟩, .nil⟩
    · intro h
      obtain ⟨kept, ⟨rfl, hrest⟩, hall⟩ := h
      cases hall
      exact ⟨rfl, hrest⟩
  · exact readItemsFrom_eq_ok_iff hread

end Elements

section Counts

variable {s rest : List Char}

theorem NumberLiteral.scalar_word {l : NumberLiteral} {n : Nat} (h : l.scalar = .int n) :
    n < Text.Numeral.wordLimit := by
  unfold NumberLiteral.scalar at h
  dsimp only at h
  split at h
  · cases h
  split at h
  · -- a sign in front of the digits leaves no count
    split at h
    · next hword =>
      have hneg : -(Json.valueOf l.whole : Int) = n := Scalar.int.inj h
      simp only [Bool.and_eq_true, decide_eq_true_eq] at hword
      have hpos : 0 < Json.valueOf l.whole := hword.1
      omega
    · cases h
  · split at h
    · next hlt =>
      have heq : (Json.valueOf l.whole : Int) = n := Scalar.int.inj h
      omega
    · cases h

theorem readNumber_word {n : Nat} (h : readNumber s = .ok (.int n, rest)) :
    n < Text.Numeral.wordLimit := by
  obtain ⟨⟨literal, after⟩, -, h⟩ := bind_eq_ok.mp h
  dsimp only at h
  split at h
  · cases h
  · exact NumberLiteral.scalar_word (congrArg Prod.fst (Except.ok.inj h))

theorem readScalar_word {n : Nat} (h : readScalar .keep s = .ok (.int n, rest)) :
    n < Text.Numeral.wordLimit := by
  unfold readScalar at h
  split at h
  · obtain ⟨_, -, h⟩ := map_eq_ok.mp h
    cases h
  · obtain ⟨_, -, h⟩ := map_eq_ok.mp h
    cases h
  · obtain ⟨_, -, h⟩ := map_eq_ok.mp h
    cases h
  · obtain ⟨_, -, h⟩ := map_eq_ok.mp h
    cases h
  · exact readNumber_word (guard_eq_ok.mp h).2
  · cases h

/-- A count that has been read fits in a word. -/
theorem readShape_word {n : Nat} (h : readShape .keep s = .ok (.scalar (.int n), rest)) :
    n < Text.Numeral.wordLimit := by
  unfold readShape at h
  split at h
  · cases h
  · cases h
  · obtain ⟨⟨v, after⟩, hscalar, h⟩ := map_eq_ok.mp h
    cases h
    exact readScalar_word hscalar

end Counts

end DisputeGame.Json
