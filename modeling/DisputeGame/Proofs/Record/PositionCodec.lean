import DisputeGame.Proofs.Record.RoundTrip

/-!
Positions in records. An integer and a string may both denote a generalized index, a string in
two bases and with blanks around the numeral. The reading takes every denoted index that is
not too wide, and nothing else; the writing has one form for each position, the index in
decimal between quotes. So reading and writing again brings all forms of an index to this one,
and zero, which is no index, to the form of one.
-/

namespace DisputeGame

open Depth Json Text

namespace Record

section Denoting

/-- A scalar denotes a generalized index: an integer itself, and a string the number that is
spelled between its blanks. -/
inductive Denotes : Scalar → Nat → Prop
  | int (g : Nat) : Denotes (.int (.ofNat g)) g
  | text {s : String} {t : List Char} {g : Nat} (ht : Blank.Trims s.toList t)
      (hg : Position.SpellsGindex t g) : Denotes (.text s) g

/-- A text denotes a generalized index if it is JSON for a scalar that does. -/
def DenotesGindex (text : String) (g : Nat) : Prop :=
  ∃ v, Json.parse text = .ok (.scalar v) ∧ Denotes v g

variable {v : Scalar} {text : String} {g : Nat} {p : Position}

theorem Denotes.unique {h : Nat} (hg : Denotes v g) (hh : Denotes v h) : g = h := by
  cases hg with
  | int =>
    cases hh
    rfl
  | text ht hg =>
    cases hh with
    | text ht' hh =>
      cases ht.unique ht'
      exact hg.unique hh

theorem DenotesGindex.unique {h : Nat} (hg : DenotesGindex text g)
    (hh : DenotesGindex text h) : g = h := by
  obtain ⟨v, hv, hg⟩ := hg
  obtain ⟨w, hw, hh⟩ := hh
  cases hv.symm.trans hw
  exact hg.unique hh

/-- A scalar is taken exactly if it denotes an index of the tree. -/
theorem positionOf_eq_ok_iff : positionOf (.scalar v) = .ok p ↔
    ∃ g, Denotes v g ∧ g < Position.gindexLimit ∧ p = Position.decode g := by
  -- the refused scalars are those that denote nothing
  have hnone : ∀ {why : Mismatch}, (¬∃ g, Denotes v g) →
      ((.error why : Except Mismatch Position) = .ok p ↔
        ∃ g, Denotes v g ∧ g < Position.gindexLimit ∧ p = Position.decode g) := by
    intro why hdenotes
    constructor
    · intro h
      cases h
    · rintro ⟨g, hg, -⟩
      exact absurd ⟨g, hg⟩ hdenotes
  cases v with
  | null => exact hnone (by rintro ⟨_, ⟨⟩⟩)
  | bool b => exact hnone (by rintro ⟨_, ⟨⟩⟩)
  | float => exact hnone (by rintro ⟨_, ⟨⟩⟩)
  | int n =>
    cases n with
    | negSucc n => exact hnone (by rintro ⟨_, ⟨⟩⟩)
    | ofNat n =>
      rw [positionOf, mapError_eq_ok, Position.ofGindex_eq, guard_eq_ok]
      constructor
      · rintro ⟨hlt, hp⟩
        exact ⟨n, .int n, hlt, (Except.ok.inj hp).symm⟩
      · rintro ⟨g, hg, hlt, rfl⟩
        cases hg
        exact ⟨hlt, rfl⟩
  | text s =>
    rw [positionOf, mapError_eq_ok, Position.parse_eq_ok_iff (Blank.trims_trim s.toList)]
    constructor
    · rintro ⟨g, hg, hlt, hp⟩
      exact ⟨g, .text (Blank.trims_trim s.toList) hg, hlt, hp⟩
    · rintro ⟨g, hg, hlt, hp⟩
      cases hg with
      | text ht hg => exact ⟨g, ht.unique (Blank.trims_trim s.toList) ▸ hg, hlt, hp⟩

theorem readPart_eq_ok_iff {α : Type} {part : Shape → Except Mismatch α} {a : α}
    {s rest : List Char} : readPart part s = .ok (a, rest) ↔
      ∃ shape, readShape .keep s = .ok (shape, rest) ∧ part shape = .ok a := by
  unfold readPart
  cases hread : readShape .keep s with
  | error fault => simp [lift]
  | ok result =>
    obtain ⟨shape, behind⟩ := result
    simp only [lift, ok_bind, bind_eq_ok]
    constructor
    · rintro ⟨b, hpart, hb⟩
      cases hb
      exact ⟨shape, rfl, hpart⟩
    · rintro ⟨shape', hshape, hpart⟩
      cases hshape
      exact ⟨a, hpart, rfl⟩

/-- A position is read from a text exactly if it is made from the scalar that the text is. -/
theorem parsePosition_eq_ok_iff_positionOf : parsePosition text = .ok p ↔
    ∃ v, Json.parse text = .ok (.scalar v) ∧ positionOf (.scalar v) = .ok p := by
  unfold parsePosition
  simp only [readAll_eq_ok_iff, readPart_eq_ok_iff, parse_eq_scalar_iff]
  constructor
  · rintro ⟨rest, ⟨shape, hshape, hpart⟩, hrest⟩
    cases shape with
    | scalar v => exact ⟨v, ⟨rest, hshape, hrest⟩, hpart⟩
    | array => cases hpart
    | object => cases hpart
  · rintro ⟨v, ⟨rest, hshape, hrest⟩, hpart⟩
    exact ⟨rest, ⟨.scalar v, hshape, hpart⟩, hrest⟩

/-- The reading takes exactly the texts that denote an index of the tree. -/
theorem parsePosition_eq_ok_iff : parsePosition text = .ok p ↔
    ∃ g, DenotesGindex text g ∧ g < Position.gindexLimit ∧ p = Position.decode g := by
  simp only [parsePosition_eq_ok_iff_positionOf, positionOf_eq_ok_iff, DenotesGindex]
  constructor
  · rintro ⟨v, hv, g, hg, hlt, hp⟩
    exact ⟨g, ⟨v, hv, hg⟩, hlt, hp⟩
  · rintro ⟨g, ⟨v, hv, hg⟩, hlt, hp⟩
    exact ⟨v, hv, g, hg, hlt, hp⟩

/-- An accepted text denotes one index, which the position is decoded from. -/
theorem DenotesGindex.position (hg : DenotesGindex text g) (h : parsePosition text = .ok p) :
    g < Position.gindexLimit ∧ p = Position.decode g := by
  obtain ⟨g', hg', hlt, hp⟩ := parsePosition_eq_ok_iff.mp h
  rw [hg.unique hg']
  exact ⟨hlt, hp⟩

end Denoting

section Canonical

variable {g : Nat} {p : Position}

/-- The one form in which an index is written. -/
def canonicalText (g : Nat) : String := String.ofList (encodeText (Numeral.decimal (max g 1)))

theorem parsePosition_writePosition (hp : p.Valid) :
    parsePosition (writePosition p) = .ok p :=
  (reads_part positionOf (reads_position p) (positionOf_positionShape hp)).readAll_eq

theorem writePosition_decode (hg : g < Position.gindexLimit) :
    writePosition (Position.decode g) = canonicalText g := by
  unfold writePosition encodePosition canonicalText
  rw [Position.gindex_decode_eq_max hg]

theorem canonicalText_inj {h : Nat} :
    canonicalText g = canonicalText h ↔ max g 1 = max h 1 := by
  unfold canonicalText encodeText
  rw [String.ofList_inj]
  simp [Numeral.decimal_inj]

/-- Blanks, zeros, letters of either case and, in a string, escapes of JSON do not count. -/
theorem read_of_shows (hp : p.Valid) {before text behind : List Char}
    (hshows : Position.ShowsGindex p.gindex text) (hbefore : Blank.AllBlank before)
    (hbehind : Blank.AllBlank behind) {s : String} (hs : s.toList = before ++ text ++ behind) :
    Position.parse s = .ok p ∧
      ∀ T, Json.parse T = .ok (.scalar (.text s)) → parsePosition T = .ok p := by
  have hparse := Position.parse_of_shows hp hshows hbefore hbehind hs
  refine ⟨hparse, ?_⟩
  intro T hT
  refine parsePosition_eq_ok_iff_positionOf.mpr ⟨.text s, hT, ?_⟩
  rw [positionOf, hparse]
  rfl

theorem rewrite_of_denotes {T : String} (hg : DenotesGindex T g)
    (h : parsePosition T = .ok p) : p.Valid ∧ writePosition p = canonicalText g ∧
      (parsePosition (writePosition p)).map writePosition = .ok (writePosition p) := by
  obtain ⟨hlt, rfl⟩ := hg.position h
  have hvalid := Position.decode_valid hlt
  refine ⟨hvalid, writePosition_decode hlt, ?_⟩
  rw [parsePosition_writePosition hvalid]
  rfl

/-- A word denotes the same index as an integer and as a string of its digits. -/
theorem parsePosition_word {n : Nat} (hn : n < Numeral.wordLimit) {T : String}
    (hT : Json.parse T = .ok (.scalar (.int n)) ∨
      Json.parse T = .ok (.scalar (.text (String.ofList (Numeral.decimal n))))) :
    parsePosition T = .ok (Position.decode n) := by
  have hlt : n < Position.gindexLimit :=
    Nat.lt_of_lt_of_le hn (width_le_width (by decide : 64 ≤ limit + 1))
  refine parsePosition_eq_ok_iff.mpr ⟨n, ?_, hlt, rfl⟩
  rcases hT with hint | htext
  · exact ⟨_, hint, .int n⟩
  · exact ⟨_, htext, .text (Position.trims_decimal n) (Position.showsGindex_decimal n).spells⟩

theorem parse_decimal {n : Nat} (hn : n < Numeral.wordLimit) :
    Json.parse (String.ofList (Numeral.decimal n)) = .ok (.scalar (.int n)) :=
  ((reads_decimal hn).value maxNesting).readAll_eq

theorem parse_encodeText_decimal (n : Nat) :
    Json.parse (String.ofList (encodeText (Numeral.decimal n))) =
      .ok (.scalar (.text (String.ofList (Numeral.decimal n)))) :=
  ((reads_text fun _ => isBare_of_mem_decimal).value maxNesting).readAll_eq

/-- Positions have one form in writing and many in reading. A position is read from the text
written for it, and from every text that shows its index between blanks, also in a string of
JSON. What is accepted denotes an index, and written again it is this index in decimal, without
a zero in front and with one in the place of zero; reading and writing it once more changes
nothing. A number of one word is read alike from its digits and from the string of them. Two
accepted texts are written alike exactly if their indices agree, zero and one being the same. -/
theorem position_canonical :
    (∀ p : Position, p.Valid → parsePosition (writePosition p) = .ok p ∧
      ∀ (before text behind : List Char) (s : String), Position.ShowsGindex p.gindex text →
        Blank.AllBlank before → Blank.AllBlank behind → s.toList = before ++ text ++ behind →
        Position.parse s = .ok p ∧
          ∀ T, Json.parse T = .ok (.scalar (.text s)) → parsePosition T = .ok p) ∧
    (∀ T p, parsePosition T = .ok p ↔
      ∃ g, DenotesGindex T g ∧ g < Position.gindexLimit ∧ p = Position.decode g) ∧
    (∀ T g p, DenotesGindex T g → parsePosition T = .ok p →
      p.Valid ∧ writePosition p = canonicalText g ∧
      (Numeral.decimal (max g 1)).head? ≠ some '0' ∧
      (parsePosition (writePosition p)).map writePosition = .ok (writePosition p)) ∧
    (∀ n, n < Numeral.wordLimit →
      parsePosition (String.ofList (Numeral.decimal n)) = .ok (Position.decode n) ∧
      parsePosition (String.ofList (encodeText (Numeral.decimal n))) = .ok (Position.decode n) ∧
      ∀ T, Json.parse T = .ok (.scalar (.int n)) ∨
          Json.parse T = .ok (.scalar (.text (String.ofList (Numeral.decimal n)))) →
        parsePosition T = .ok (Position.decode n)) ∧
    (∀ T U g h p q, DenotesGindex T g → DenotesGindex U h → parsePosition T = .ok p →
      parsePosition U = .ok q → (writePosition p = writePosition q ↔ max g 1 = max h 1)) := by
  refine ⟨?_, fun _ _ => parsePosition_eq_ok_iff, ?_, ?_, ?_⟩
  · intro p hp
    refine ⟨parsePosition_writePosition hp, ?_⟩
    intro before text behind s hshows hbefore hbehind hs
    exact read_of_shows hp hshows hbefore hbehind hs
  · intro T g p hg hread
    obtain ⟨hvalid, hwrite, hfixed⟩ := rewrite_of_denotes hg hread
    have hlead := Numeral.head?_decimal_ne_zero (Nat.le_max_right g 1)
    exact ⟨hvalid, hwrite, hlead, hfixed⟩
  · intro n hn
    have hall : ∀ T, _ → parsePosition T = .ok (Position.decode n) :=
      fun T hT => parsePosition_word hn hT
    exact ⟨hall _ (Or.inl (parse_decimal hn)), hall _ (Or.inr (parse_encodeText_decimal n)), hall⟩
  · intro T U g h p q hg hh hT hU
    obtain ⟨-, hp, -⟩ := rewrite_of_denotes hg hT
    obtain ⟨-, hq, -⟩ := rewrite_of_denotes hh hU
    rw [hp, hq, canonicalText_inj]

/-- Forms of the index 5 and the one that is written, and zero, which is written as one. -/
theorem position_canonical_five :
    let p : Position := ⟨2, 1⟩
    p.Valid ∧ Position.ShowsGindex p.gindex "0X05".toList ∧
    Position.parse " 0X05" = .ok p ∧ parsePosition "\" 0X05\"" = .ok p ∧
    DenotesGindex "\"+0_5\"" 5 ∧ parsePosition "\"+0_5\"" = .ok p ∧ writePosition p = "\"5\"" ∧
    5 < Numeral.wordLimit ∧ parsePosition "5" = .ok p ∧ parsePosition "\"5\"" = .ok p ∧
    DenotesGindex "0" 0 ∧ parsePosition "0" = .ok Position.root ∧
    writePosition Position.root = "\"1\"" ∧
    ¬writePosition p = writePosition Position.root := by
  intro p
  have hp : p.Valid := ⟨by decide, by decide⟩
  have hshows : Position.ShowsGindex p.gindex "0X05".toList :=
    .hex (Or.inr rfl) ⟨1, ['5'], rfl, by decide⟩
  have hspace : Blank.AllBlank [' '] := by
    intro c hc
    rw [List.mem_singleton.mp hc]
    decide
  have hsigned : DenotesGindex "\"+0_5\"" 5 := by
    have hspells : Position.SpellsGindex (Blank.trim "+0_5".toList) 5 :=
      Position.readGindex?_eq_some_iff.mp (by decide)
    exact ⟨.text "+0_5", by decide +kernel, .text (Blank.trims_trim _) hspells⟩
  have hzero : DenotesGindex "0" 0 := ⟨.int 0, by decide +kernel, .int 0⟩
  obtain ⟨hread, htakes, hwrite, hword, hsame⟩ := position_canonical
  obtain ⟨hparse, hquoted⟩ :=
    (hread p hp).2 [' '] _ [] " 0X05" hshows hspace (Blank.allBlank_nil) rfl
  have hplus : parsePosition "\"+0_5\"" = .ok p :=
    (htakes _ p).mpr ⟨5, hsigned, by decide, by decide⟩
  have hroot : parsePosition "0" = .ok Position.root :=
    (htakes _ _).mpr ⟨0, hzero, by decide, by decide⟩
  obtain ⟨-, hfive, -⟩ := hwrite _ 5 p hsigned hplus
  obtain ⟨-, hone, -⟩ := hwrite _ 0 _ hzero hroot
  obtain ⟨hdigits, hstring, -⟩ := hword 5 (by decide)
  refine ⟨hp, hshows, hparse, hquoted _ (by decide +kernel), hsigned, hplus,
    hfive.trans (by decide), by decide, hdigits, hstring, hzero, hroot,
    hone.trans (by decide), ?_⟩
  rw [hsame _ _ 5 0 p _ hsigned hzero hplus hroot]
  decide

end Canonical

end Record

end DisputeGame
