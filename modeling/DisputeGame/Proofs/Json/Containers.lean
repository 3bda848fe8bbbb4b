import DisputeGame.Proofs.Json.Scalars
import DisputeGame.Proofs.Tree.Numbering
import DisputeGame.Record.Writer

/-!
Values that are read as they were written, from scalars up to whole texts. A body is read as
a value if every text that starts with it is, unless a number at its end would go on. Bodies
that are read one by one are read as the elements of an array, and members whose keys need
no escape take an object through the steps that they ask for one by one.
-/

namespace DisputeGame.Json

open Record Text

section Bodies

variable {E α : Type} [OfFault E]

/-- A text that starts with the body is read as the value up to the end of the body. The
body itself starts with no space, and it does not close an array. -/
structure Reads (read : List Char → Except E (α × List Char)) (body : List Char)
    (a : α) : Prop where
  starts : ∃ c, body.head? = some c ∧ isSpace c = false ∧ c ≠ ']'
  read_eq : ∀ rest, EndsNumber rest → read (body ++ rest) = .ok (a, rest)

theorem skipSpace_cons {c : Char} (hc : isSpace c = false) (rest : List Char) :
    skipSpace (c :: rest) = c :: rest :=
  List.dropWhile_cons_of_neg (by simp [hc])

/-- Behind the value there is nothing but space. -/
theorem readAll_eq_ok_iff {read : List Char → Except E (α × List Char)} {text : String}
    {a : α} : readAll read text = .ok a ↔
      ∃ rest, read text.toList = .ok (a, rest) ∧ skipSpace rest = [] := by
  unfold readAll
  rw [bind_eq_ok]
  constructor
  · rintro ⟨⟨b, rest⟩, hread, hrest⟩
    dsimp only at hrest
    split at hrest
    · next hempty =>
      cases hrest
      exact ⟨rest, hread, hempty⟩
    · cases hrest
  · rintro ⟨rest, hread, hrest⟩
    refine ⟨(a, rest), hread, ?_⟩
    simp only [hrest]
    rfl

theorem Reads.readAll_eq {read : List Char → Except E (α × List Char)} {body : List Char}
    {a : α} (h : Reads read body a) : readAll read (String.ofList body) = .ok a := by
  have hread := h.read_eq [] endsNumber_nil
  rw [List.append_nil, ← String.toList_ofList (l := body)] at hread
  exact readAll_eq_ok_iff.mpr ⟨[], hread, rfl⟩

end Bodies

section Shapes

theorem reads_text {body : List Char} (hbody : ∀ c ∈ body, IsBare c) :
    Reads (readShape .keep) (encodeText body) (.scalar (.text (String.ofList body))) := by
  refine ⟨⟨'"', rfl, by decide, by decide⟩, ?_⟩
  intro rest _
  have htext : encodeText body ++ rest = '"' :: (body ++ '"' :: rest) := by
    simp [encodeText]
  unfold readShape
  rw [htext, skipSpace_cons (by decide)]
  change ((readText .keep (body ++ '"' :: rest)).map _).map _ = _
  rw [readText_bare hbody]
  rfl

/-- A digit opens a number and nothing else. -/
theorem readShape_digit {d : Char} (hd : d.isDigit = true) (rest : List Char) :
    isSpace d = false ∧ d ≠ ']' ∧ readShape .keep (d :: rest) =
      (readNumber (d :: rest)).map fun (v, rest) => (.scalar v, rest) := by
  have hne : ∀ c : Char, c.isDigit = false → d ≠ c := by
    rintro c hc rfl
    exact absurd (hc.symm.trans hd) (by decide)
  have hspace : isSpace d = false := by
    simp [isSpace, hne ' ' (by decide), hne '\n' (by decide), hne '\t' (by decide),
      hne '\r' (by decide)]
  refine ⟨hspace, hne ']' (by decide), ?_⟩
  unfold readShape
  rw [skipSpace_cons hspace]
  simp [readScalar, hd, hne '[' (by decide), hne '\x7b' (by decide), hne 'n' (by decide),
    hne 't' (by decide), hne 'f' (by decide), hne '"' (by decide)]

theorem reads_decimal {n : Nat} (hn : n < Numeral.wordLimit) :
    Reads (readShape .keep) (Numeral.decimal n) (.scalar (.int n)) := by
  obtain ⟨d, digits, hdecimal, hd⟩ := Numeral.exists_decimal_cons n
  obtain ⟨hspace, hbracket, -⟩ := readShape_digit hd digits
  refine ⟨⟨d, by rw [hdecimal]; rfl, hspace, hbracket⟩, ?_⟩
  intro rest hrest
  have hnumber := readNumber_decimal hn hrest
  rw [hdecimal, List.cons_append] at hnumber ⊢
  rw [(readShape_digit hd _).2.2, hnumber]
  rfl

/-- A scalar is a value whose shape says all of it. -/
theorem Reads.value {body : List Char} {v : Scalar}
    (h : Reads (readShape .keep) body (.scalar v)) (room : Nat) :
    Reads (readValue .keep room) body (.scalar v) := by
  refine ⟨h.starts, ?_⟩
  intro rest hrest
  unfold readValue
  rw [h.read_eq rest hrest]
  rfl

/-- A value is read by its shape. A scalar is over with it, and a container takes one level of
the room for what is in it. -/
theorem readValue_eq_ok_iff {room : Nat} {s rest : List Char} {value : Json} :
    readValue .keep room s = .ok (value, rest) ↔
      (∃ v, readShape .keep s = .ok (.scalar v, rest) ∧ value = .scalar v) ∨
      (∃ below body items, room = below + 1 ∧ readShape .keep s = .ok (.array, body) ∧
        readItems (readValue .keep below) body = .ok (items, rest) ∧ value = .array items) ∨
      ∃ below body members, room = below + 1 ∧ readShape .keep s = .ok (.object, body) ∧
        readMembers .keep (appendMember (readValue .keep below)) [] body = .ok (members, rest) ∧
        value = .object members := by
  unfold readValue
  rw [bind_eq_ok]
  constructor
  · intro h
    obtain ⟨⟨shape, body⟩, hshape, h⟩ := h
    cases shape with
    | scalar v =>
      cases h
      exact Or.inl ⟨v, hshape, rfl⟩
    | array =>
      cases room with
      | zero => cases h
      | succ below =>
        obtain ⟨⟨items, after⟩, hitems, h⟩ := bind_eq_ok.mp h
        cases h
        exact Or.inr (Or.inl ⟨below, body, items, rfl, hshape, hitems, rfl⟩)
    | object =>
      cases room with
      | zero => cases h
      | succ below =>
        obtain ⟨⟨members, after⟩, hmembers, h⟩ := bind_eq_ok.mp h
        cases h
        exact Or.inr (Or.inr ⟨below, body, members, rfl, hshape, hmembers, rfl⟩)
  · intro h
    rcases h with ⟨v, hshape, rfl⟩ | ⟨below, body, items, rfl, hshape, hitems, rfl⟩ |
      ⟨below, body, members, rfl, hshape, hmembers, rfl⟩
    · exact ⟨_, hshape, rfl⟩
    · exact ⟨_, hshape, bind_eq_ok.mpr ⟨_, hitems, rfl⟩⟩
    · exact ⟨_, hshape, bind_eq_ok.mpr ⟨_, hmembers, rfl⟩⟩

theorem readValue_eq_scalar_iff {room : Nat} {s rest : List Char} {v : Scalar} :
    readValue .keep room s = .ok (.scalar v, rest) ↔
      readShape .keep s = .ok (.scalar v, rest) := by
  simp [readValue_eq_ok_iff]

theorem readValue_eq_array_iff {room : Nat} {s rest : List Char} {items : List Json} :
    readValue .keep (room + 1) s = .ok (.array items, rest) ↔
      ∃ body, readShape .keep s = .ok (.array, body) ∧
        readItems (readValue .keep room) body = .ok (items, rest) := by
  simp [readValue_eq_ok_iff]

theorem readValue_eq_object_iff {room : Nat} {s rest : List Char}
    {members : List (String × Json)} :
    readValue .keep (room + 1) s = .ok (.object members, rest) ↔
      ∃ body, readShape .keep s = .ok (.object, body) ∧
        readMembers .keep (appendMember (readValue .keep room)) [] body =
          .ok (members, rest) := by
  simp [readValue_eq_ok_iff]

theorem parse_eq_scalar_iff {text : String} {v : Scalar} :
    parse text = .ok (.scalar v) ↔
      ∃ rest, readShape .keep text.toList = .ok (.scalar v, rest) ∧ skipSpace rest = [] := by
  unfold parse
  rw [readAll_eq_ok_iff]
  simp only [readValue_eq_scalar_iff]

end Shapes

section Arrays

variable {E α : Type} [OfFault E] {read : List Char → Except E (α × List Char)}

theorem readItemsFrom_intercalate {bodies : List (List Char)} {values : List α} {fuel : Nat}
    (h : List.Forall₂ (Reads read) bodies values) (hsome : bodies ≠ [])
    (hfuel : bodies.length ≤ fuel) (rest : List Char) :
    readItemsFrom read fuel ([','].intercalate bodies ++ ']' :: rest) = .ok (values, rest) := by
  induction h generalizing fuel with
  | nil => exact absurd rfl hsome
  | @cons body value bodies values hbody hbodies ih =>
    obtain ⟨fuel, rfl⟩ : ∃ m, fuel = m + 1 := ⟨fuel - 1, by simp at hfuel; omega⟩
    -- behind the last body stands the bracket, behind every other one a comma
    cases hbodies with
    | nil =>
      have hread := hbody.read_eq (']' :: rest) (endsNumber_cons rest (by decide))
      rw [List.intercalate_singleton, readItemsFrom, hread]
      rfl
    | @cons next _ nexts _ hnext hnexts =>
      have hrest := ih (by simp) (Nat.le_of_succ_le_succ hfuel)
      have hread := hbody.read_eq (',' :: ([','].intercalate (next :: nexts) ++ ']' :: rest))
        (endsNumber_cons _ (by decide))
      have htext : [','].intercalate (body :: next :: nexts) ++ ']' :: rest =
          body ++ ',' :: ([','].intercalate (next :: nexts) ++ ']' :: rest) := by
        rw [List.intercalate_cons_cons]
        simp
      rw [htext, readItemsFrom, hread]
      change (readItemsFrom read fuel _ >>= _) = _
      rw [hrest]
      rfl

/-- Every body but the last is followed by a comma, so there is fuel for all of them. -/
theorem length_le_intercalate (bodies : List (List Char)) (rest : List Char) :
    bodies.length ≤ ([','].intercalate bodies ++ rest).length + 1 := by
  induction bodies with
  | nil => exact Nat.zero_le _
  | cons body bodies ih =>
    cases bodies with
    | nil => simp
    | cons next nexts =>
      rw [List.intercalate_cons_cons]
      simp only [List.length_append, List.length_cons, List.length_nil] at ih ⊢
      omega

theorem head?_intercalate {body : List Char} {c : Char} (hc : body.head? = some c)
    (bodies : List (List Char)) : ([','].intercalate (body :: bodies)).head? = some c := by
  cases bodies with
  | nil => rw [List.intercalate_singleton, hc]
  | cons next nexts =>
    rw [List.intercalate_cons_cons, List.append_assoc, List.head?_append, hc]
    rfl

/-- An array of bodies is read element by element. -/
theorem readItems_intercalate {bodies : List (List Char)} {values : List α}
    (h : List.Forall₂ (Reads read) bodies values) (rest : List Char) :
    readItems read ([','].intercalate bodies ++ ']' :: rest) = .ok (values, rest) := by
  cases h with
  | nil => rfl
  | @cons body value bodies values hbody hbodies =>
    have hfuel := length_le_intercalate (body :: bodies) (']' :: rest)
    have hitems := readItemsFrom_intercalate (.cons hbody hbodies) (by simp) hfuel rest
    obtain ⟨c, hstart, hspace, hclose⟩ := hbody.starts
    obtain ⟨tail, htail⟩ := List.head?_eq_some_iff.mp (head?_intercalate hstart bodies)
    rw [htail, List.cons_append] at hitems ⊢
    unfold readItems
    rw [skipSpace_cons hspace]
    split
    · next heq => exact absurd (List.cons.inj heq).1 hclose
    · exact hitems

end Arrays

section Objects

variable {E σ : Type} [OfFault E] (purpose : Purpose)
  {step : σ → String → List Char → Except E (σ × List Char)}

/-- Behind the colon of its key a member is taken, up to the end of its body. -/
def Takes (step : σ → String → List Char → Except E (σ × List Char)) (state : σ)
    (key : String) (body : List Char) (next : σ) : Prop :=
  ∀ rest, EndsNumber rest → step state key (':' :: body ++ rest) = .ok (next, rest)

/-- The members take an object from one state to another, each by the step for its key. -/
inductive Steps (step : σ → String → List Char → Except E (σ × List Char)) :
    σ → List (List Char) → σ → Prop
  | nil (state : σ) : Steps step state [] state
  | cons {state next last : σ} {key : String} {body : List Char} {members : List (List Char)}
      (hkey : ∀ c ∈ key.toList, IsBare c) (hstep : Takes step state key body next)
      (hmembers : Steps step next members last) :
      Steps step state (encodeMember key body :: members) last

theorem readMembersFrom_member {state next : σ} {key : String} {body rest : List Char}
    (fuel : Nat) (hkey : ∀ c ∈ key.toList, IsBare c)
    (hstep : step state key (':' :: body ++ rest) = .ok (next, rest)) :
    readMembersFrom purpose step (fuel + 1) state (encodeMember key body ++ rest) =
      match skipSpace rest with
      | ',' :: rest => readMembersFrom purpose step fuel next rest
      | '\x7d' :: rest => .ok (next, rest)
      | rest => stopAt rest := by
  have hmember : encodeMember key body ++ rest =
      '"' :: (key.toList ++ '"' :: (':' :: body ++ rest)) := by
    simp [encodeMember, encodeText]
  rw [hmember, readMembersFrom, skipSpace_cons (by decide)]
  change (lift (readText purpose (key.toList ++ '"' :: (':' :: body ++ rest))) >>= _) = _
  rw [readText_bare hkey, String.ofList_toList]
  change (step state key (':' :: body ++ rest) >>= _) = _
  rw [hstep]
  rfl

theorem readMembersFrom_intercalate {state last : σ} {members : List (List Char)} {fuel : Nat}
    (h : Steps step state members last) (hsome : members ≠ [])
    (hfuel : members.length ≤ fuel) (rest : List Char) :
    readMembersFrom purpose step fuel state ([','].intercalate members ++ '\x7d' :: rest) =
      .ok (last, rest) := by
  induction h generalizing fuel with
  | nil => exact absurd rfl hsome
  | @cons state next last key body members hkey hstep hmembers ih =>
    obtain ⟨fuel, rfl⟩ : ∃ m, fuel = m + 1 := ⟨fuel - 1, by simp at hfuel; omega⟩
    -- behind the last member stands the brace, behind every other one a comma
    cases members with
    | nil =>
      cases hmembers
      have hlast := hstep ('\x7d' :: rest) (endsNumber_cons rest (by decide))
      rw [List.intercalate_singleton, readMembersFrom_member purpose fuel hkey hlast]
      rfl
    | cons member members =>
      have hnext := hstep (',' :: ([','].intercalate (member :: members) ++ '\x7d' :: rest))
        (endsNumber_cons _ (by decide))
      have hrest := ih (by simp) (Nat.le_of_succ_le_succ hfuel)
      have htext : [','].intercalate (encodeMember key body :: member :: members) ++
          '\x7d' :: rest = encodeMember key body ++
            ',' :: ([','].intercalate (member :: members) ++ '\x7d' :: rest) := by
        rw [List.intercalate_cons_cons]
        simp
      rw [htext, readMembersFrom_member purpose fuel hkey hnext]
      exact hrest

/-- An object of members is read step by step. -/
theorem readMembers_intercalate {state last : σ} {members : List (List Char)}
    (h : Steps step state members last) (rest : List Char) :
    readMembers purpose step state ([','].intercalate members ++ '\x7d' :: rest) =
      .ok (last, rest) := by
  cases h with
  | nil => rfl
  | @cons _ next _ key body members hkey hstep hmembers =>
    have hfuel := length_le_intercalate (encodeMember key body :: members) ('\x7d' :: rest)
    have hall := readMembersFrom_intercalate purpose (.cons hkey hstep hmembers) (by simp)
      hfuel rest
    have hstart : (encodeMember key body).head? = some '"' := rfl
    obtain ⟨tail, htail⟩ := List.head?_eq_some_iff.mp (head?_intercalate hstart members)
    rw [htail, List.cons_append] at hall ⊢
    exact hall

end Objects

end DisputeGame.Json
