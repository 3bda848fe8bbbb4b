import DisputeGame.Proofs.Json.Traversal

/-!
Which texts are JSON. A value is a scalar or a container around elements with commas between
them, containers nest so deep as there is room, and space may stand between any two parts. The
reading of a whole text takes exactly the texts of this form, and comes to the value that they
spell: what is read was spelled, and what is spelled is read, whatever follows it, unless a
number goes on.
-/

namespace DisputeGame.Json

section Spaces

/-- Space and nothing else. -/
def AllSpace (s : List Char) : Prop := ∀ c ∈ s, isSpace c = true

variable {before s rest : List Char} {c : Char}

theorem allSpace_nil : AllSpace [] := by
  intro c hc
  cases hc

theorem AllSpace.append (hbefore : AllSpace before) (hs : AllSpace s) : AllSpace (before ++ s) := by
  intro c hc
  rcases List.mem_append.mp hc with hc | hc
  · exact hbefore c hc
  · exact hs c hc

theorem skipSpace_append (hbefore : AllSpace before) (s : List Char) :
    skipSpace (before ++ s) = skipSpace s :=
  List.dropWhile_append_of_pos hbefore

theorem exists_skipSpace (s : List Char) : ∃ before, s = before ++ skipSpace s ∧ AllSpace before :=
  ⟨s.takeWhile isSpace, List.takeWhile_append_dropWhile.symm,
    List.all_eq_true.mp List.all_takeWhile⟩

theorem skipSpace_eq_cons_iff (hc : isSpace c = false) :
    skipSpace s = c :: rest ↔ ∃ before, s = before ++ c :: rest ∧ AllSpace before := by
  constructor
  · intro h
    obtain ⟨before, hs, hbefore⟩ := exists_skipSpace s
    rw [h] at hs
    exact ⟨before, hs, hbefore⟩
  · intro h
    obtain ⟨before, rfl, hbefore⟩ := h
    rw [skipSpace_append hbefore, skipSpace_cons hc]

theorem skipSpace_eq_nil_iff : skipSpace s = [] ↔ AllSpace s := by
  constructor
  · intro h
    obtain ⟨before, hs, hbefore⟩ := exists_skipSpace s
    rw [h, List.append_nil] at hs
    rw [hs]
    exact hbefore
  · intro h
    have hskip := skipSpace_append h []
    rwa [List.append_nil] at hskip

/-- No space goes on with a number. -/
theorem AllSpace.endsNumber (hs : AllSpace s) (hrest : EndsNumber rest) :
    EndsNumber (s ++ rest) := by
  cases s with
  | nil => exact hrest
  | cons c tail =>
    apply endsNumber_cons
    have hc := hs c List.mem_cons_self
    simp only [isSpace, Bool.or_eq_true, decide_eq_true_eq] at hc
    rcases hc with ((rfl | rfl) | rfl) | rfl
    · decide
    · decide
    · decide
    · decide

end Spaces

section Scalars

/-- A scalar as it may be spelled. A number that leaves the range of doubles is none. -/
inductive ScalarText : List Char → Scalar → Prop
  | null : ScalarText ['n', 'u', 'l', 'l'] .null
  | yes : ScalarText ['t', 'r', 'u', 'e'] (.bool true)
  | no : ScalarText ['f', 'a', 'l', 's', 'e'] (.bool false)
  | text {body u : List Char} (hbody : BodyText body u) :
      ScalarText ('"' :: (body ++ ['"'])) (.text (String.ofList u))
  | number {t : List Char} {l : NumberLiteral} (ht : LiteralText t l)
      (hrange : l.isOutOfRange = false) : ScalarText t l.scalar

variable {s t rest : List Char} {v : Scalar}

theorem readWord_eq_ok_iff {word : List Char} : readWord word s = .ok rest ↔ s = word ++ rest := by
  induction word generalizing s with
  | nil => simp [readWord]
  | cons c word ih =>
    cases s with
    | nil => simp [readWord]
    | cons d tail =>
      rw [readWord, guard_eq_ok, ih, List.cons_append, List.cons.injEq]
      exact and_congr_left fun _ => eq_comm

theorem readNumber_eq_ok_iff :
    readNumber s = .ok (v, rest) ↔
      ∃ l, readLiteral s = .ok (l, rest) ∧ l.isOutOfRange = false ∧ v = l.scalar := by
  unfold readNumber
  rw [bind_eq_ok]
  constructor
  · intro h
    obtain ⟨⟨l, after⟩, hread, h⟩ := h
    dsimp only at h
    cases hrange : l.isOutOfRange with
    | true => rw [hrange] at h; cases h
    | false =>
      rw [hrange] at h
      cases h
      exact ⟨l, hread, hrange, rfl⟩
  · intro h
    obtain ⟨l, hread, hrange, rfl⟩ := h
    refine ⟨(l, rest), hread, ?_⟩
    simp only [hrange]
    rfl

/-- What is read of a scalar was spelled there. -/
theorem scalarText_of_readScalar (h : readScalar .keep s = .ok (v, rest)) :
    ∃ t, s = t ++ rest ∧ ScalarText t v := by
  unfold readScalar at h
  split at h
  · obtain ⟨after, hword, h⟩ := map_eq_ok.mp h
    cases h
    exact ⟨_, congrArg (List.cons 'n') (readWord_eq_ok_iff.mp hword), .null⟩
  · obtain ⟨after, hword, h⟩ := map_eq_ok.mp h
    cases h
    exact ⟨_, congrArg (List.cons 't') (readWord_eq_ok_iff.mp hword), .yes⟩
  · obtain ⟨after, hword, h⟩ := map_eq_ok.mp h
    cases h
    exact ⟨_, congrArg (List.cons 'f') (readWord_eq_ok_iff.mp hword), .no⟩
  · obtain ⟨⟨key, after⟩, htext, h⟩ := map_eq_ok.mp h
    cases h
    obtain ⟨body, u, rfl, hbody, rfl⟩ := readText_eq_ok_iff.mp htext
    exact ⟨'"' :: (body ++ ['"']), by simp, .text hbody⟩
  · obtain ⟨l, hread, hrange, rfl⟩ := readNumber_eq_ok_iff.mp (guard_eq_ok.mp h).2
    obtain ⟨t, ht, hl⟩ := literalText_of_readLiteral hread
    exact ⟨t, ht, .number hl hrange⟩
  · cases h

/-- A scalar starts with a character that opens no container and closes none. -/
theorem ScalarText.starts (ht : ScalarText t v) :
    ∃ c tail, t = c :: tail ∧ isSpace c = false ∧ c ≠ ']' ∧ c ≠ '\x7d' ∧ c ≠ '[' ∧
      c ≠ '\x7b' := by
  cases ht with
  | null => exact ⟨'n', _, rfl, by decide⟩
  | yes => exact ⟨'t', _, rfl, by decide⟩
  | no => exact ⟨'f', _, rfl, by decide⟩
  | text _ => exact ⟨'"', _, rfl, by decide⟩
  | number ht _ =>
    obtain ⟨c, tail, rfl, hc⟩ := ht.starts
    refine ⟨c, tail, rfl, ?_⟩
    rcases hc with rfl | hdigit
    · decide
    · have hne : ∀ d : Char, d.isDigit = false → c ≠ d := by
        rintro d hd rfl
        exact absurd (hd.symm.trans hdigit) (by decide)
      obtain ⟨hspace, hclose, -⟩ := readShape_digit hdigit []
      exact ⟨hspace, hclose, hne '\x7d' rfl, hne '[' rfl, hne '\x7b' rfl⟩

theorem ScalarText.readScalar_eq (ht : ScalarText t v) (hrest : EndsNumber rest) :
    readScalar .keep (t ++ rest) = .ok (v, rest) := by
  cases ht with
  | null => rfl
  | yes => rfl
  | no => rfl
  | @text body u hbody =>
    have htext : readText .keep (body ++ '"' :: rest) = .ok (String.ofList u, rest) :=
      readText_eq_ok_iff.mpr ⟨body, u, rfl, hbody, rfl⟩
    have hquote : '"' :: (body ++ ['"']) ++ rest = '"' :: (body ++ '"' :: rest) := by simp
    rw [hquote, readScalar, htext]
    rfl
  | @number t l ht hrange =>
    have hread := readNumber_eq_ok_iff.mpr ⟨l, ht.readLiteral_eq hrest, hrange, rfl⟩
    obtain ⟨c, tail, rfl, hc⟩ := ht.starts
    have hother : ∀ d : Char, d.isDigit = false → d ≠ '-' → c ≠ d := by
      rintro d hd hminus rfl
      rcases hc with hc | hc
      · exact hminus hc
      · exact absurd (hd.symm.trans hc) (by decide)
    rw [List.cons_append] at hread ⊢
    unfold readScalar
    split
    · next h => exact absurd (List.cons.inj h).1 (hother 'n' rfl (by decide))
    · next h => exact absurd (List.cons.inj h).1 (hother 't' rfl (by decide))
    · next h => exact absurd (List.cons.inj h).1 (hother 'f' rfl (by decide))
    · next h => exact absurd (List.cons.inj h).1 (hother '"' rfl (by decide))
    · next h =>
      rw [← (List.cons.inj h).1, if_pos (by simpa using hc)]
      exact hread
    · next h => cases h

end Scalars

section Lists

variable {α : Type}

/-- A text with space on both sides. -/
def Spaced (P : List Char → α → Prop) (s : List Char) (a : α) : Prop :=
  ∃ before t behind, s = before ++ (t ++ behind) ∧ AllSpace before ∧ AllSpace behind ∧ P t a

/-- Elements, at least one, with commas between them. -/
inductive ListText (P : List Char → α → Prop) : List Char → List α → Prop
  | last {s : List Char} {a : α} (hs : Spaced P s a) : ListText P s [a]
  | cons {s more : List Char} {a : α} {as : List α} (hs : Spaced P s a)
      (hmore : ListText P more as) : ListText P (s ++ ',' :: more) (a :: as)

/-- What stands between the brackets of a container. -/
inductive InnerText (P : List Char → α → Prop) : List Char → List α → Prop
  | empty {s : List Char} (hs : AllSpace s) : InnerText P s []
  | filled {s : List Char} {as : List α} (hs : ListText P s as) : InnerText P s as

/-- What a reading finds at the front of a text is spelled there, behind some space, and it
finds whatever is spelled unless a number goes on behind it. -/
structure Follows (holds : List Char → α → List Char → Prop) (P : List Char → α → Prop) :
    Prop where
  starts : ∀ {t a}, P t a → ∃ c tail, t = c :: tail ∧ isSpace c = false ∧ c ≠ ']' ∧ c ≠ '\x7d'
  spelled : ∀ {s a rest}, holds s a rest →
    ∃ before t, s = before ++ (t ++ rest) ∧ AllSpace before ∧ P t a
  holds : ∀ {before t a rest}, AllSpace before → P t a → EndsNumber rest →
    holds (before ++ (t ++ rest)) a rest

variable {holds : List Char → α → List Char → Prop} {P : List Char → α → Prop}
  {s inner rest : List Char} {as : List α} {close : Char}

/-- A bracket that closes a list. -/
def Closes (close : Char) : Prop := close = ']' ∨ close = '\x7d'

theorem Closes.endsNumber (hclose : Closes close) (rest : List Char) :
    isSpace close = false ∧ EndsNumber (close :: rest) := by
  rcases hclose with rfl | rfl
  · exact ⟨by decide, endsNumber_cons rest (by decide)⟩
  · exact ⟨by decide, endsNumber_cons rest (by decide)⟩

theorem ListText.length_le (h : ListText P inner as) : as.length ≤ inner.length + 1 := by
  induction h with
  | last hs => exact Nat.succ_le_succ (Nat.zero_le _)
  | cons hs hmore ih =>
    rw [List.length_cons, List.length_append, List.length_cons]
    omega

/-- Space in front of a list belongs to its first element. -/
theorem ListText.space_append {before : List Char} (hbefore : AllSpace before)
    (h : ListText P inner as) : ListText P (before ++ inner) as := by
  have hspaced : ∀ {s a}, Spaced P s a → Spaced P (before ++ s) a := by
    intro s a hs
    obtain ⟨space, t, behind, rfl, hspace, hbehind, ht⟩ := hs
    exact ⟨before ++ space, t, behind, (List.append_assoc ..).symm, hbefore.append hspace,
      hbehind, ht⟩
  cases h with
  | last hs => exact .last (hspaced hs)
  | cons hs hmore =>
    rw [← List.append_assoc]
    exact .cons (hspaced hs) hmore

/-- Behind the space in front of a list its first element opens, and no bracket closes. -/
theorem Follows.skipSpace_eq (h : Follows holds P) (hinner : ListText P inner as)
    (rest : List Char) : ∃ c tail, skipSpace (inner ++ rest) = c :: tail ++ rest ∧ c ≠ ']' ∧
      c ≠ '\x7d' ∧ ListText P (c :: tail) as := by
  have hfirst : ∀ {s a} (more : List Char), Spaced P s a → ∃ c tail, skipSpace (s ++ more) =
      c :: tail ++ more ∧ c ≠ ']' ∧ c ≠ '\x7d' ∧ Spaced P (c :: tail) a := by
    intro s a more hs
    obtain ⟨before, t, behind, rfl, hbefore, hbehind, ht⟩ := hs
    obtain ⟨c, tail, rfl, hspace, hbracket, hbrace⟩ := h.starts ht
    refine ⟨c, tail ++ behind, ?_, hbracket, hbrace, [], c :: tail, behind, rfl, allSpace_nil,
      hbehind, ht⟩
    rw [List.append_assoc, skipSpace_append hbefore]
    exact skipSpace_cons hspace _
  cases hinner with
  | last hs =>
    obtain ⟨c, tail, hskip, hbracket, hbrace, hs⟩ := hfirst rest hs
    exact ⟨c, tail, hskip, hbracket, hbrace, .last hs⟩
  | @cons s more a as hs hmore =>
    obtain ⟨c, tail, hskip, hbracket, hbrace, hs⟩ := hfirst (',' :: more ++ rest) hs
    refine ⟨c, tail ++ ',' :: more, ?_, hbracket, hbrace, .cons hs hmore⟩
    rw [List.append_assoc, hskip]
    simp

/-- A list is found exactly where one is spelled. -/
theorem Follows.list_iff (h : Follows holds P) (hclose : Closes close) :
    HoldsList holds close s as rest ↔
      ∃ inner, s = inner ++ close :: rest ∧ ListText P inner as := by
  have hcomma : ∀ more, isSpace ',' = false ∧ EndsNumber (',' :: more) :=
    fun more => ⟨rfl, endsNumber_cons more (by decide)⟩
  constructor
  · intro hlist
    induction hlist with
    | last ha hend =>
      obtain ⟨before, t, rfl, hbefore, ht⟩ := h.spelled ha
      obtain ⟨behind, rfl, hbehind⟩ :=
        (skipSpace_eq_cons_iff (hclose.endsNumber []).1).mp hend
      exact ⟨before ++ (t ++ behind), by simp,
        .last ⟨before, t, behind, rfl, hbefore, hbehind, ht⟩⟩
    | cons ha hnext hmore ih =>
      obtain ⟨before, t, rfl, hbefore, ht⟩ := h.spelled ha
      obtain ⟨behind, rfl, hbehind⟩ := (skipSpace_eq_cons_iff rfl).mp hnext
      obtain ⟨inner, rfl, hinner⟩ := ih
      exact ⟨before ++ (t ++ behind) ++ ',' :: inner, by simp,
        .cons ⟨before, t, behind, rfl, hbefore, hbehind, ht⟩ hinner⟩
  · intro hspelled
    obtain ⟨inner, rfl, hinner⟩ := hspelled
    -- what stands behind an element is space, and then a comma or the bracket
    have hfound : ∀ {s a} (end' : Char) (more : List Char),
        isSpace end' = false ∧ EndsNumber (end' :: more) → Spaced P s a →
        ∃ after, holds (s ++ end' :: more) a after ∧ skipSpace after = end' :: more := by
      intro s a end' more hend hs
      obtain ⟨before, t, behind, rfl, hbefore, hbehind, ht⟩ := hs
      refine ⟨behind ++ end' :: more, ?_, ?_⟩
      · have hheld := h.holds hbefore ht (hbehind.endsNumber hend.2)
        simpa using hheld
      · rw [skipSpace_append hbehind, skipSpace_cons hend.1]
    induction hinner with
    | last hs =>
      obtain ⟨after, ha, hend⟩ := hfound close rest (hclose.endsNumber rest) hs
      exact .last ha hend
    | @cons s more a as hs hmore ih =>
      obtain ⟨after, ha, hnext⟩ := hfound ',' (more ++ close :: rest) (hcomma _) hs
      rw [List.append_assoc, List.cons_append]
      exact .cons ha hnext ih

/-- What stands between two brackets is either nothing but space or a list. -/
theorem Follows.inner_iff (h : Follows holds P) (hclose : Closes close) :
    (skipSpace s = close :: rest ∧ as = []) ∨ ((skipSpace s).head? ≠ some close ∧
        as.length ≤ (skipSpace s).length + 1 ∧ HoldsList holds close (skipSpace s) as rest) ↔
      ∃ inner, s = inner ++ close :: rest ∧ InnerText P inner as := by
  have hspace := (hclose.endsNumber rest).1
  constructor
  · intro hfound
    rcases hfound with ⟨hskip, rfl⟩ | ⟨-, -, hlist⟩
    · obtain ⟨before, rfl, hbefore⟩ := (skipSpace_eq_cons_iff hspace).mp hskip
      exact ⟨before, rfl, .empty hbefore⟩
    · obtain ⟨inner, hskip, hinner⟩ := (h.list_iff hclose).mp hlist
      obtain ⟨before, hs, hbefore⟩ := exists_skipSpace s
      refine ⟨before ++ inner, ?_, .filled (hinner.space_append hbefore)⟩
      rw [hs, hskip, List.append_assoc]
  · intro hspelled
    obtain ⟨inner, rfl, hinner⟩ := hspelled
    cases hinner with
    | empty hs => exact Or.inl ⟨by rw [skipSpace_append hs, skipSpace_cons hspace], rfl⟩
    | filled hs =>
      obtain ⟨c, tail, hskip, hbracket, hbrace, hlist⟩ := h.skipSpace_eq hs (close :: rest)
      have hc : c ≠ close := by
        rcases hclose with rfl | rfl
        · exact hbracket
        · exact hbrace
      rw [hskip]
      refine Or.inr ⟨by simpa using hc, ?_, (h.list_iff hclose).mpr ⟨_, rfl, hlist⟩⟩
      have hlength := hlist.length_le
      rw [List.length_append]
      omega

end Lists

section Values

/-- A member of an object: its key between quotes, and its value behind a colon. -/
inductive MemberText (P : List Char → Json → Prop) : List Char → String × Json → Prop
  | of {body u space before t : List Char} {v : Json} (hbody : BodyText body u)
      (hspace : AllSpace space) (hbefore : AllSpace before) (ht : P t v) :
      MemberText P ('"' :: (body ++ '"' :: (space ++ ':' :: (before ++ t))))
        (String.ofList u, v)

/-- A value as it may be spelled, with containers nested no deeper than so many levels. -/
def Spells : Nat → List Char → Json → Prop
  | _, t, .scalar v => ScalarText t v
  | room + 1, t, .array items =>
    ∃ inner, t = '[' :: (inner ++ [']']) ∧ InnerText (Spells room) inner items
  | room + 1, t, .object members =>
    ∃ inner, t = '\x7b' :: (inner ++ ['\x7d']) ∧ InnerText (MemberText (Spells room)) inner members
  | 0, _, _ => False

variable {read : List Char → Except Fault (Json × List Char)} {P : List Char → Json → Prop}
  {s rest : List Char}

theorem readColon_eq_ok_iff :
    readColon s = .ok rest ↔ ∃ space, s = space ++ ':' :: rest ∧ AllSpace space := by
  rw [← skipSpace_eq_cons_iff rfl]
  unfold readColon
  constructor
  · intro h
    split at h
    · next hcolon =>
      cases h
      exact hcolon
    · exact absurd h stopAt_ne_ok
  · intro h
    simp only [h]

theorem Follows.member (h : Follows (fun s v rest => read s = .ok (v, rest)) P) :
    Follows (HoldsMember read) (MemberText P) := by
  constructor
  · intro t member ht
    cases ht
    exact ⟨'"', _, rfl, by decide, by decide, by decide⟩
  · intro s member rest hmember
    obtain ⟨key, v⟩ := member
    obtain ⟨tail, behind, hopen, hkey, hvalue⟩ := hmember
    obtain ⟨before, rfl, hbefore⟩ := (skipSpace_eq_cons_iff rfl).mp hopen
    obtain ⟨body, u, rfl, hbody, rfl⟩ := readText_eq_ok_iff.mp hkey
    obtain ⟨after, hcolon, hread⟩ := bind_eq_ok.mp hvalue
    obtain ⟨space, rfl, hspace⟩ := readColon_eq_ok_iff.mp hcolon
    obtain ⟨inner, t, rfl, hinner, ht⟩ := h.spelled hread
    exact ⟨before, _, by simp, hbefore, .of hbody hspace hinner ht⟩
  · intro before t member rest hbefore ht hrest
    cases ht with
    | @of body u space inner t v hbody hspace hinner ht =>
      have hread := h.holds hinner ht hrest
      have hcolon : readColon (space ++ ':' :: (inner ++ (t ++ rest))) =
          .ok (inner ++ (t ++ rest)) := readColon_eq_ok_iff.mpr ⟨space, rfl, hspace⟩
      refine ⟨body ++ '"' :: (space ++ ':' :: (inner ++ (t ++ rest))), _, ?_,
        readText_eq_ok_iff.mpr ⟨body, u, rfl, hbody, rfl⟩, bind_eq_ok.mpr ⟨_, hcolon, hread⟩⟩
      rw [skipSpace_append hbefore, List.cons_append, skipSpace_cons (by decide)]
      simp

theorem head?_ne_some {c : Char} (h : ∀ tail, s ≠ c :: tail) : s.head? ≠ some c := by
  intro hhead
  obtain ⟨tail, htail⟩ := List.head?_eq_some_iff.mp hhead
  exact h tail htail

theorem readItems_eq_ok_iff_spelled (h : Follows (fun s v rest => read s = .ok (v, rest)) P)
    {items : List Json} : readItems read s = .ok (items, rest) ↔
      ∃ inner, s = inner ++ ']' :: rest ∧ InnerText P inner items := by
  rw [← h.inner_iff (Or.inl rfl), ← readItemsFrom_eq_ok_iff_holds]
  unfold readItems
  split
  · next tail hskip => simp [hskip, eq_comm, and_comm]
  · next hopen =>
    have hhead := head?_ne_some hopen
    have hskip : skipSpace s ≠ ']' :: rest := hopen rest
    simp [hhead, hskip]

theorem readMembers_eq_ok_iff_spelled (h : Follows (fun s v rest => read s = .ok (v, rest)) P)
    {members : List (String × Json)} :
    readMembers .keep (appendMember read) [] s = .ok (members, rest) ↔
      ∃ inner, s = inner ++ '\x7d' :: rest ∧ InnerText (MemberText P) inner members := by
  rw [← h.member.inner_iff (Or.inr rfl), ← readMembersFrom_appendMember_eq_ok_iff]
  unfold readMembers
  split
  · next tail hskip => simp [hskip, eq_comm, and_comm]
  · next hopen =>
    have hhead := head?_ne_some hopen
    have hskip : skipSpace s ≠ '\x7d' :: rest := hopen rest
    simp [hhead, hskip]

theorem readShape_eq_ok_iff {shape : Shape} :
    readShape .keep s = .ok (shape, rest) ↔
      (skipSpace s = '[' :: rest ∧ shape = .array) ∨
      (skipSpace s = '\x7b' :: rest ∧ shape = .object) ∨
      ((skipSpace s).head? ≠ some '[' ∧ (skipSpace s).head? ≠ some '\x7b' ∧
        ∃ v, readScalar .keep (skipSpace s) = .ok (v, rest) ∧ shape = .scalar v) := by
  unfold readShape
  split
  · next tail hskip => simp [hskip, eq_comm, and_comm]
  · next tail hskip => simp [hskip, eq_comm, and_comm]
  · next hbracket hbrace =>
    have harray := head?_ne_some hbracket
    have hobject := head?_ne_some hbrace
    rw [map_eq_ok]
    constructor
    · intro h
      obtain ⟨⟨v, after⟩, hread, h⟩ := h
      cases h
      exact Or.inr (Or.inr ⟨harray, hobject, v, hread, rfl⟩)
    · intro h
      rcases h with ⟨hskip, -⟩ | ⟨hskip, -⟩ | ⟨-, -, v, hread, rfl⟩
      · exact absurd hskip (hbracket rest)
      · exact absurd hskip (hbrace rest)
      · exact ⟨(v, rest), hread, rfl⟩

theorem readShape_eq_array_iff :
    readShape .keep s = .ok (.array, rest) ↔
      ∃ before, s = before ++ '[' :: rest ∧ AllSpace before := by
  rw [← skipSpace_eq_cons_iff rfl, readShape_eq_ok_iff]
  simp

theorem readShape_eq_object_iff :
    readShape .keep s = .ok (.object, rest) ↔
      ∃ before, s = before ++ '\x7b' :: rest ∧ AllSpace before := by
  rw [← skipSpace_eq_cons_iff rfl, readShape_eq_ok_iff]
  simp

theorem follows_readScalar :
    Follows (fun s v rest => readShape .keep s = .ok (.scalar v, rest)) ScalarText := by
  constructor
  · intro t v ht
    obtain ⟨c, tail, ht, hspace, hbracket, hbrace, -⟩ := ht.starts
    exact ⟨c, tail, ht, hspace, hbracket, hbrace⟩
  · intro s v rest hread
    obtain ⟨before, hs, hbefore⟩ := exists_skipSpace s
    rcases readShape_eq_ok_iff.mp hread with ⟨-, h⟩ | ⟨-, h⟩ | ⟨-, -, w, hscalar, h⟩
    · cases h
    · cases h
    · cases h
      obtain ⟨t, ht, hspells⟩ := scalarText_of_readScalar hscalar
      rw [ht] at hs
      exact ⟨before, t, hs, hbefore, hspells⟩
  · intro before t v rest hbefore ht hrest
    have hread := ht.readScalar_eq hrest
    obtain ⟨c, tail, rfl, hspace, -, -, harray, hobject⟩ := ht.starts
    have hskip : skipSpace (before ++ (c :: tail ++ rest)) = c :: tail ++ rest := by
      rw [skipSpace_append hbefore]
      exact skipSpace_cons hspace _
    refine readShape_eq_ok_iff.mpr (Or.inr (Or.inr ?_))
    rw [hskip]
    exact ⟨by simpa using harray, by simpa using hobject, v, hread, rfl⟩

theorem spells_iff {room : Nat} {t : List Char} {v : Json} : Spells room t v ↔
    (∃ w, ScalarText t w ∧ v = .scalar w) ∨
    (∃ below inner items, room = below + 1 ∧ t = '[' :: (inner ++ [']']) ∧
      InnerText (Spells below) inner items ∧ v = .array items) ∨
    ∃ below inner members, room = below + 1 ∧ t = '\x7b' :: (inner ++ ['\x7d']) ∧
      InnerText (MemberText (Spells below)) inner members ∧ v = .object members := by
  cases v with
  | scalar w => simp [Spells]
  | array items =>
    cases room with
    | zero => simp [Spells]
    | succ below => simp [Spells]
  | object members =>
    cases room with
    | zero => simp [Spells]
    | succ below => simp [Spells]

/-- A value is read as it is spelled if what is in it is. -/
theorem follows_readValue_of {room : Nat}
    (h : ∀ below, room = below + 1 →
      Follows (fun s v rest => readValue .keep below s = .ok (v, rest)) (Spells below)) :
    Follows (fun s v rest => readValue .keep room s = .ok (v, rest)) (Spells room) := by
  constructor
  · intro t v ht
    rcases spells_iff.mp ht with ⟨w, hw, -⟩ | ⟨_, _, _, -, rfl, -, -⟩ | ⟨_, _, _, -, rfl, -, -⟩
    · exact follows_readScalar.starts hw
    · exact ⟨'[', _, rfl, by decide, by decide, by decide⟩
    · exact ⟨'\x7b', _, rfl, by decide, by decide, by decide⟩
  · intro s v rest hread
    rcases readValue_eq_ok_iff.mp hread with ⟨w, hshape, rfl⟩ |
      ⟨below, body, items, hroom, hshape, hitems, rfl⟩ |
      ⟨below, body, members, hroom, hshape, hmembers, rfl⟩
    · obtain ⟨before, t, hs, hbefore, ht⟩ := follows_readScalar.spelled hshape
      exact ⟨before, t, hs, hbefore, spells_iff.mpr (Or.inl ⟨w, ht, rfl⟩)⟩
    · obtain ⟨before, rfl, hbefore⟩ := readShape_eq_array_iff.mp hshape
      obtain ⟨inner, rfl, hinner⟩ := (readItems_eq_ok_iff_spelled (h below hroom)).mp hitems
      exact ⟨before, '[' :: (inner ++ [']']), by simp, hbefore,
        spells_iff.mpr (Or.inr (Or.inl ⟨below, inner, items, hroom, rfl, hinner, rfl⟩))⟩
    · obtain ⟨before, rfl, hbefore⟩ := readShape_eq_object_iff.mp hshape
      obtain ⟨inner, rfl, hinner⟩ := (readMembers_eq_ok_iff_spelled (h below hroom)).mp hmembers
      exact ⟨before, '\x7b' :: (inner ++ ['\x7d']), by simp, hbefore,
        spells_iff.mpr (Or.inr (Or.inr ⟨below, inner, members, hroom, rfl, hinner, rfl⟩))⟩
  · intro before t v rest hbefore ht hrest
    rcases spells_iff.mp ht with ⟨w, hw, rfl⟩ | ⟨below, inner, items, hroom, rfl, hinner, rfl⟩ |
      ⟨below, inner, members, hroom, rfl, hinner, rfl⟩
    · exact readValue_eq_ok_iff.mpr
        (Or.inl ⟨w, follows_readScalar.holds hbefore hw hrest, rfl⟩)
    · have hitems : readItems (readValue .keep below) (inner ++ ']' :: rest) = .ok (items, rest) :=
        (readItems_eq_ok_iff_spelled (h below hroom)).mpr ⟨inner, rfl, hinner⟩
      have htext : before ++ ('[' :: (inner ++ [']']) ++ rest) =
          before ++ '[' :: (inner ++ ']' :: rest) := by simp
      rw [htext]
      exact readValue_eq_ok_iff.mpr (Or.inr (Or.inl ⟨below, _, items, hroom,
        readShape_eq_array_iff.mpr ⟨before, rfl, hbefore⟩, hitems, rfl⟩))
    · have hmembers : readMembers .keep (appendMember (readValue .keep below)) []
          (inner ++ '\x7d' :: rest) = .ok (members, rest) :=
        (readMembers_eq_ok_iff_spelled (h below hroom)).mpr ⟨inner, rfl, hinner⟩
      have htext : before ++ ('\x7b' :: (inner ++ ['\x7d']) ++ rest) =
          before ++ '\x7b' :: (inner ++ '\x7d' :: rest) := by simp
      rw [htext]
      exact readValue_eq_ok_iff.mpr (Or.inr (Or.inr ⟨below, _, members, hroom,
        readShape_eq_object_iff.mpr ⟨before, rfl, hbefore⟩, hmembers, rfl⟩))

/-- Values are read as they are spelled, down to the last level that there is room for. -/
theorem follows_readValue (room : Nat) :
    Follows (fun s v rest => readValue .keep room s = .ok (v, rest)) (Spells room) := by
  induction room with
  | zero => exact follows_readValue_of nofun
  | succ room ih =>
    apply follows_readValue_of
    intro below hbelow
    rw [← Nat.succ.inj hbelow]
    exact ih

/-- The texts that are JSON, and what they are. -/
theorem parse_iff_spelled {text : String} {v : Json} :
    parse text = .ok v ↔ Spaced (Spells maxNesting) text.toList v := by
  have h := follows_readValue maxNesting
  unfold parse
  rw [readAll_eq_ok_iff]
  constructor
  · intro hread
    obtain ⟨rest, hread, hrest⟩ := hread
    obtain ⟨before, t, htext, hbefore, ht⟩ := h.spelled hread
    exact ⟨before, t, rest, htext, hbefore, skipSpace_eq_nil_iff.mp hrest, ht⟩
  · intro hspelled
    obtain ⟨before, t, behind, htext, hbefore, hbehind, ht⟩ := hspelled
    have hends : EndsNumber behind := by
      have hempty := hbehind.endsNumber endsNumber_nil
      rwa [List.append_nil] at hempty
    rw [htext]
    exact ⟨behind, h.holds hbefore ht hends, skipSpace_eq_nil_iff.mpr hbehind⟩

instance (text : String) (v : Json) : Decidable (Spaced (Spells maxNesting) text.toList v) :=
  decidable_of_iff (parse text = .ok v) parse_iff_spelled

/-- A text spells one value at most. -/
theorem Spaced.unique {s : List Char} {v w : Json} (hv : Spaced (Spells maxNesting) s v)
    (hw : Spaced (Spells maxNesting) s w) : v = w := by
  rw [← String.toList_ofList (l := s), ← parse_iff_spelled] at hv hw
  exact Except.ok.inj (hv.symm.trans hw)

/-- Surrogates only count in pairs, and a sign makes a float of zero. -/
example : ["\"\\ud83d\\ude00\"", "\"\\ud83d\"", "\"\\ude00\"", " -0 ", "01", "1e400"].map parse =
    [.ok (.scalar (.text "😀")), .error .malformed, .error .malformed,
      .ok (.scalar .float), .error .malformed, .error .malformed] := by
  decide +kernel

end Values

end DisputeGame.Json
