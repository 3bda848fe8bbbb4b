import DisputeGame.Proofs.Text.Blank
import DisputeGame.Proofs.Text.Numeral
import DisputeGame.Proofs.Tree.Encoding
import DisputeGame.Tree.Spelling

/-!
Positions in writing. A text spells a generalized index as a numeral, in base sixteen if a
marker leads it and in base ten if none does, with blanks allowed around it. Reading follows
this grammar and nothing else decides: a text that spells a number is taken for that index,
and any other is refused with what is left of it between the blanks. The digits of an index
are read as its position, in whatever of these ways they are written.
-/

namespace DisputeGame.Position

open Depth Text

/-- A text spells a generalized index, by its marker in base sixteen or in base ten. -/
inductive SpellsGindex : List Char → Nat → Prop
  | hex {mark : Char} {body : List Char} {g : Nat} (hmark : mark = 'x' ∨ mark = 'X')
      (hbody : Numeral.Spells 16 body g) : SpellsGindex ('0' :: mark :: body) g
  | decimal {text : List Char} {g : Nat}
      (hmark : ∀ mark body, text = '0' :: mark :: body → mark ≠ 'x' ∧ mark ≠ 'X')
      (htext : Numeral.Spells 10 text g) : SpellsGindex text g

theorem readGindex?_eq_some_iff {text : List Char} {g : Nat} :
    readGindex? text = some g ↔ SpellsGindex text g := by
  fun_cases readGindex? text with
  | case1 body =>
    rw [Numeral.read?_eq_some_iff (by decide)]
    constructor
    · exact .hex (Or.inl rfl)
    · intro h
      cases h with
      | hex _ hbody => exact hbody
      | decimal hmark _ => exact absurd rfl (hmark _ _ rfl).1
  | case2 body =>
    rw [Numeral.read?_eq_some_iff (by decide)]
    constructor
    · exact .hex (Or.inr rfl)
    · intro h
      cases h with
      | hex _ hbody => exact hbody
      | decimal hmark _ => exact absurd rfl (hmark _ _ rfl).2
  | case3 _ hsmall hcapital =>
    rw [Numeral.read?_eq_some_iff (by decide)]
    constructor
    · apply SpellsGindex.decimal
      intro mark body htext
      refine ⟨?_, ?_⟩
      · rintro rfl
        exact hsmall body htext
      · rintro rfl
        exact hcapital body htext
    · intro h
      cases h with
      | hex hmark _ =>
        rcases hmark with rfl | rfl
        · exact absurd rfl (hsmall _)
        · exact absurd rfl (hcapital _)
      | decimal _ htext => exact htext

theorem SpellsGindex.unique {text : List Char} {g h : Nat} (hg : SpellsGindex text g)
    (hh : SpellsGindex text h) : g = h := by
  rw [← readGindex?_eq_some_iff] at hg hh
  exact Option.some.inj (hg.symm.trans hh)

section Parse

variable {s : String} {t : List Char} {g : Nat}

theorem parse_of_spells (ht : Blank.Trims s.toList t) (hg : SpellsGindex t g) :
    parse s = ofGindex g := by
  have hread : readGindex? t = some g := readGindex?_eq_some_iff.mpr hg
  unfold parse
  simp only [ht.trim_eq, hread]

theorem parse_of_not_spells (ht : Blank.Trims s.toList t) (hnone : ¬∃ g, SpellsGindex t g) :
    parse s = .error (.invalidGindex (String.ofList t)) := by
  have hread : readGindex? t = none := by
    apply Option.eq_none_iff_forall_ne_some.mpr
    intro g hg
    exact hnone ⟨g, readGindex?_eq_some_iff.mp hg⟩
  unfold parse
  simp only [ht.trim_eq, hread]

/-- The three ways in which a reading ends. -/
theorem parse_outcome (ht : Blank.Trims s.toList t) :
    (∃ g, SpellsGindex t g ∧ g < gindexLimit ∧ parse s = .ok (decode g)) ∨
    (∃ g, SpellsGindex t g ∧ gindexLimit ≤ g ∧
      parse s = .error (.overflow (.position (bitCount g)))) ∨
    ((¬∃ g, SpellsGindex t g) ∧ parse s = .error (.invalidGindex (String.ofList t))) := by
  by_cases hspells : ∃ g, SpellsGindex t g
  · obtain ⟨g, hg⟩ := hspells
    have hparse := parse_of_spells ht hg
    rw [ofGindex_eq] at hparse
    by_cases hlt : g < gindexLimit
    · exact Or.inl ⟨g, hg, hlt, by rw [hparse, if_pos hlt]⟩
    · exact Or.inr (Or.inl ⟨g, hg, Nat.le_of_not_lt hlt, by rw [hparse, if_neg hlt]⟩)
  · exact Or.inr (Or.inr ⟨hspells, parse_of_not_spells ht hspells⟩)

theorem parse_eq_ok_iff (ht : Blank.Trims s.toList t) {p : Position} :
    parse s = .ok p ↔ ∃ g, SpellsGindex t g ∧ g < gindexLimit ∧ p = decode g := by
  constructor
  · intro h
    rcases parse_outcome ht with ⟨g, hg, hlt, hparse⟩ | ⟨g, -, -, hparse⟩ | ⟨-, hparse⟩
    · exact ⟨g, hg, hlt, Except.ok.inj (h.symm.trans hparse)⟩
    · cases h.symm.trans hparse
    · cases h.symm.trans hparse
  · rintro ⟨g, hg, hlt, rfl⟩
    rw [parse_of_spells ht hg, ofGindex_eq, if_pos hlt]

theorem parse_eq_overflow_iff (ht : Blank.Trims s.toList t) {bits : Nat} :
    parse s = .error (.overflow (.position bits)) ↔
      ∃ g, SpellsGindex t g ∧ gindexLimit ≤ g ∧ bits = bitCount g := by
  constructor
  · intro h
    rcases parse_outcome ht with ⟨g, -, -, hparse⟩ | ⟨g, hg, hle, hparse⟩ | ⟨-, hparse⟩
    · cases h.symm.trans hparse
    · cases h.symm.trans hparse
      exact ⟨g, hg, hle, rfl⟩
    · cases h.symm.trans hparse
  · rintro ⟨g, hg, hle, rfl⟩
    rw [parse_of_spells ht hg, ofGindex_eq, if_neg (Nat.not_lt_of_le hle)]

theorem parse_eq_invalid_iff (ht : Blank.Trims s.toList t) {text : String} :
    parse s = .error (.invalidGindex text) ↔
      text = String.ofList t ∧ ¬∃ g, SpellsGindex t g := by
  constructor
  · intro h
    rcases parse_outcome ht with ⟨g, -, -, hparse⟩ | ⟨g, -, -, hparse⟩ | ⟨hnone, hparse⟩
    · cases h.symm.trans hparse
    · cases h.symm.trans hparse
    · cases h.symm.trans hparse
      exact ⟨rfl, hnone⟩
  · rintro ⟨rfl, hnone⟩
    exact parse_of_not_spells ht hnone

end Parse

/-- The count of bits of a number, by the depths whose width it stays below. -/
theorem eq_bitCount_iff {bits n : Nat} : bits = bitCount n ↔ ∀ d, bits ≤ d ↔ n < width d := by
  simp only [← bitCount_le_iff]
  constructor
  · rintro rfl d
    exact Iff.rfl
  · intro h
    exact Nat.le_antisymm ((h _).mpr (Nat.le_refl _)) ((h _).mp (Nat.le_refl _))

/-- Reading a text follows the grammar of generalized indices. A text has one part without
the blanks around it. If that part spells a number it spells only one, and the text is read
as the position with this index: the root for zero, and for an index that is too wide an
overflow by the number of its bits, the least depth whose width is above it. If it spells
none, the text is refused with exactly this part. -/
theorem parse_follows_grammar (s : String) :
    ∃ t, Blank.Trims s.toList t ∧ (∀ t', Blank.Trims s.toList t' → t' = t) ∧
      (∀ g h, SpellsGindex t g → SpellsGindex t h → g = h) ∧
      (∀ g, SpellsGindex t g → parse s = ofGindex g) ∧
      (SpellsGindex t 0 → parse s = .ok root) ∧
      (∀ p, parse s = .ok p ↔ ∃ g, SpellsGindex t g ∧ g < gindexLimit ∧ p = decode g) ∧
      (∀ bits, parse s = .error (.overflow (.position bits)) ↔
        ∃ g, SpellsGindex t g ∧ gindexLimit ≤ g ∧ ∀ d, bits ≤ d ↔ g < width d) ∧
      (∀ text, parse s = .error (.invalidGindex text) ↔
        text = String.ofList t ∧ ¬∃ g, SpellsGindex t g) := by
  have ht := Blank.trims_trim s.toList
  have hzero : 0 < gindexLimit := width_pos (limit + 1)
  refine ⟨Blank.trim s.toList, ht, fun t' h => h.unique ht, fun _ _ => SpellsGindex.unique,
    fun g => parse_of_spells ht, ?_, fun p => parse_eq_ok_iff ht, ?_,
    fun text => parse_eq_invalid_iff ht⟩
  · intro hg
    rw [parse_of_spells ht hg, ofGindex_eq, if_pos hzero, decode_zero]
  · intro bits
    rw [parse_eq_overflow_iff ht]
    simp only [eq_bitCount_iff]

/-- A sign stands behind the marker and not before it, and a doubled one stays; behind the
marker there has to be a digit, and zeros in front of others do not count. -/
example : ["+0x5", "0x+5", "0x", "0x_1", "++1", " 000_5\n"].map (fun s => (parse s).toOption) =
    [none, some ⟨2, 1⟩, none, none, none, some ⟨2, 1⟩] := by
  decide

/-- The ways to write a generalized index down: its digits in base ten, or behind a marker
those in base sixteen. -/
inductive ShowsGindex (g : Nat) : List Char → Prop
  | decimal {text : List Char} (htext : Numeral.Shows 10 g text) : ShowsGindex g text
  | hex {mark : Char} {body : List Char} (hmark : mark = 'x' ∨ mark = 'X')
      (hbody : Numeral.Shows 16 g body) : ShowsGindex g ('0' :: mark :: body)

theorem not_isBlank_of_digit? {base : Nat} (hbase : base ≤ 16) {c : Char}
    (hc : (Numeral.digit? base c).isSome) : Blank.isBlank c = false := by
  have hdigits : ∀ d, d < 16 → Blank.isBlank (Nat.digitChar d) = false ∧
      Blank.isBlank (Nat.digitChar d).toUpper = false := by
    decide
  obtain ⟨d, hd⟩ := Option.isSome_iff_exists.mp hc
  obtain ⟨hlt, rfl | rfl⟩ := (Numeral.digit?_eq_some_iff hbase).mp hd
  · exact (hdigits d (by omega)).1
  · exact (hdigits d (by omega)).2

section Shown

variable {g : Nat} {text : List Char}

theorem ShowsGindex.spells (h : ShowsGindex g text) : SpellsGindex text g := by
  cases h with
  | decimal htext =>
    refine .decimal ?_ ((Numeral.read?_eq_some_iff (by decide)).mp
      (htext.read? (by decide) (by decide)))
    rintro mark body rfl
    have hdigit : (Numeral.digit? 10 mark).isSome :=
      htext.digit (by decide) (by decide) (by simp)
    constructor
    · rintro rfl
      exact absurd hdigit (by decide)
    · rintro rfl
      exact absurd hdigit (by decide)
  | hex hmark hbody =>
    exact .hex hmark ((Numeral.read?_eq_some_iff (by decide)).mp
      (hbody.read? (by decide) (by decide)))

theorem ShowsGindex.isTrim (h : ShowsGindex g text) : Blank.IsTrim text := by
  have hends : ∀ {base : Nat} {body : List Char}, 1 < base → base ≤ 16 →
      Numeral.Shows base g body → ∀ c ∈ body, Blank.isBlank c = false := by
    intro base body hbase h16 hbody c hc
    exact not_isBlank_of_digit? h16 (hbody.digit hbase h16 hc)
  cases h with
  | decimal htext =>
    have hall := hends (by decide) (by decide) htext
    exact ⟨fun c hc => hall c (List.mem_of_head? hc), fun c hc => hall c (List.mem_of_getLast? hc)⟩
  | @hex mark body hmark hbody =>
    have hall := hends (by decide) (by decide) hbody
    refine ⟨?_, ?_⟩
    · intro c hc
      cases hc
      decide
    · intro c hc
      obtain ⟨d, rest, rfl⟩ := List.exists_cons_of_ne_nil hbody.ne_nil
      rw [List.getLast?_cons_cons, List.getLast?_cons_cons] at hc
      exact hall c (List.mem_of_getLast? hc)

theorem showsGindex_decimal (g : Nat) : ShowsGindex g (Numeral.decimal g) :=
  .decimal (Numeral.shows_toDigits (by decide) (by decide) g)

/-- A position is read from every text that shows its index between blanks. -/
theorem parse_of_shows {p : Position} (hp : p.Valid) (h : ShowsGindex p.gindex text)
    {before behind : List Char} (hbefore : Blank.AllBlank before)
    (hbehind : Blank.AllBlank behind) {s : String} (hs : s.toList = before ++ text ++ behind) :
    parse s = .ok p := by
  have ht : Blank.Trims s.toList text := ⟨before, behind, hs, hbefore, hbehind, h.isTrim⟩
  rw [parse_of_spells ht h.spells, ofGindex_gindex hp]

/-- The decimal digits of an index stand between no blanks. -/
theorem trims_decimal (g : Nat) :
    Blank.Trims (String.ofList (Numeral.decimal g)).toList (Numeral.decimal g) :=
  ⟨[], [], by simp, Blank.allBlank_nil, Blank.allBlank_nil, (showsGindex_decimal g).isTrim⟩

end Shown

end DisputeGame.Position
