import DisputeGame.Json.Reader
import DisputeGame.Proofs.Text.Blank
import DisputeGame.Proofs.Tree.Numbering

/-!
How the scalars of JSON are spelled. A string goes character by character, and a character
stands for itself or is spelled by an escape; one outside the basic plane takes two units, and
neither of them means anything without the other. A number is spelled by a sign, digits, a
fraction and an exponent, most of which may be missing. A reader takes as much of a number as
there is, so of what follows one only the first character counts.
-/

namespace DisputeGame.Json

open Text

section Strings

/-- Characters that stand for themselves between quotes. -/
def IsBare (c : Char) : Prop := c ≠ '"' ∧ c ≠ '\\' ∧ 0x20 ≤ c.toNat

instance (c : Char) : Decidable (IsBare c) := inferInstanceAs (Decidable (_ ∧ _))

/-- One character of a string as it may be spelled. -/
inductive CharText : List Char → Char → Prop
  | bare {c : Char} (hc : IsBare c) : CharText [c] c
  | letter {mark c : Char} (hmark : unescape? mark = some c) : CharText ['\\', mark] c
  | unit {a b c d : Char} {unit : Nat} (hunit : unit? a b c d = some unit)
      (hleading : isLeading unit = false) (htrailing : isTrailing unit = false) :
      CharText ['\\', 'u', a, b, c, d] (Char.ofNat unit)
  | pair {a b c d a' b' c' d' : Char} {leading trailing : Nat}
      (hleading : unit? a b c d = some leading) (hleads : isLeading leading = true)
      (htrailing : unit? a' b' c' d' = some trailing) (htrails : isTrailing trailing = true) :
      CharText ['\\', 'u', a, b, c, d, '\\', 'u', a', b', c', d']
        (joinSurrogates leading trailing)

/-- What stands between the quotes of a string. -/
inductive BodyText : List Char → List Char → Prop
  | nil : BodyText [] []
  | cons {t s u : List Char} {c : Char} (hc : CharText t c) (hs : BodyText s u) :
      BodyText (t ++ s) (c :: u)

/-- What stands behind a leading surrogate that waits for its partner, or behind none. -/
def Continues : Option Nat → List Char → List Char → Prop
  | none, t, u => BodyText t u
  | some leading, t, u => ∃ a b c d trailing s v, t = ['\\', 'u', a, b, c, d] ++ s ∧
      unit? a b c d = some trailing ∧ isTrailing trailing = true ∧ BodyText s v ∧
      u = joinSurrogates leading trailing :: v

variable {t s u v rest : List Char} {c : Char}

/-- A character is read, and the string goes on behind it. -/
theorem CharText.bodyText (hc : CharText t c)
    (hread : (readTextFrom .keep none s).map (fun (v, rest) => (c :: v, rest)) = .ok (u, rest))
    (ih : ∀ {v rest}, readTextFrom .keep none s = .ok (v, rest) →
      ∃ body, s = body ++ '"' :: rest ∧ BodyText body v) :
    ∃ body, t ++ s = body ++ '"' :: rest ∧ BodyText body u := by
  obtain ⟨⟨v, after⟩, hs, hu⟩ := map_eq_ok.mp hread
  obtain ⟨body, rfl, hbody⟩ := ih hs
  cases hu
  exact ⟨t ++ body, (List.append_assoc ..).symm, .cons hc hbody⟩

/-- What is read of a string was spelled there, up to its closing quote. -/
theorem continues_of_readTextFrom {waiting : Option Nat}
    (h : readTextFrom .keep waiting s = .ok (u, rest)) :
    ∃ body, s = body ++ '"' :: rest ∧ Continues waiting body u := by
  -- the cases that are not named end in a fault
  fun_induction readTextFrom Purpose.keep waiting s generalizing u rest with
  | case3 waiting rest hnone =>
    cases h
    cases waiting with
    | none => exact ⟨[], rfl, .nil⟩
    | some leading => exact absurd rfl hnone
  | case7 a b c d tail unit _ hunit hleads ih =>
    obtain ⟨body, rfl, a', b', c', d', trailing, s, v, rfl, htrailing, htrails, hs, rfl⟩ := ih h
    refine ⟨['\\', 'u', a, b, c, d, '\\', 'u', a', b', c', d'] ++ s, rfl, ?_⟩
    exact .cons (.pair hunit hleads htrailing htrails) hs
  | case9 a b c d tail unit _ hunit hleads htrails ih =>
    exact (CharText.unit hunit (Bool.eq_false_iff.mpr hleads)
      (Bool.eq_false_iff.mpr htrails)).bodyText h ih
  | case10 a b c d tail trailing leading _ htrailing htrails ih =>
    obtain ⟨⟨v, after⟩, hs, hu⟩ := map_eq_ok.mp h
    obtain ⟨body, rfl, hbody⟩ := ih hs
    cases hu
    exact ⟨['\\', 'u', a, b, c, d] ++ body, rfl, a, b, c, d, trailing, body, v, rfl, htrailing,
      htrails, hbody, rfl⟩
  | case13 mark tail _ _ c hmark ih => exact (CharText.letter hmark).bodyText h ih
  | case16 waiting c tail hquote hlast _ _ hescape hplain ih =>
    simp only [Bool.or_eq_true, decide_eq_true_eq, not_or] at hplain
    obtain ⟨hnone, hprintable⟩ := hplain
    have hbackslash : c ≠ '\\' := by
      rintro rfl
      cases tail with
      | nil => exact hlast rfl rfl
      | cons d tail => exact hescape d tail rfl rfl
    cases waiting with
    | none => exact (CharText.bare ⟨hquote, hbackslash, Nat.le_of_not_lt hprintable⟩).bodyText h ih
    | some leading => exact absurd rfl hnone
  | case6 _ _ _ _ _ _ _ hskip => cases hskip
  | _ => cases h

/-- One character is read as it was spelled. -/
theorem CharText.readTextFrom_eq (hc : CharText t c) (s : List Char) :
    readTextFrom .keep none (t ++ s) =
      (readTextFrom .keep none s).map fun (v, rest) => (c :: v, rest) := by
  cases hc with
  | bare hbare =>
    obtain ⟨hquote, hescape, hprintable⟩ := hbare
    have hcontrol : ¬c.toNat < 0x20 := Nat.not_lt_of_le hprintable
    rw [List.singleton_append, readTextFrom]
    · simp [hcontrol]
    all_goals simp [hquote, hescape]
  | @letter mark c hmark =>
    have hunit : mark ≠ 'u' := by
      rintro rfl
      cases hmark
    simp [readTextFrom, hunit, hmark]
  | unit hunit hleading htrailing => simp [readTextFrom, hunit, hleading, htrailing]
  | pair hleading hleads htrailing htrails =>
    simp [readTextFrom, hleading, hleads, htrailing, htrails]

theorem BodyText.readTextFrom_eq (h : BodyText t u) (rest : List Char) :
    readTextFrom .keep none (t ++ '"' :: rest) = .ok (u, rest) := by
  induction h with
  | nil => rfl
  | cons hc _ ih =>
    rw [List.append_assoc, hc.readTextFrom_eq, ih]
    rfl

/-- A string is read exactly as it is spelled. -/
theorem readText_eq_ok_iff {key : String} :
    readText .keep s = .ok (key, rest) ↔
      ∃ body u, s = body ++ '"' :: rest ∧ BodyText body u ∧ key = String.ofList u := by
  unfold readText
  constructor
  · intro h
    obtain ⟨⟨u, after⟩, hs, hkey⟩ := map_eq_ok.mp h
    obtain ⟨body, rfl, hbody⟩ := continues_of_readTextFrom hs
    cases hkey
    exact ⟨body, u, rfl, hbody, rfl⟩
  · intro h
    obtain ⟨body, u, rfl, hbody, rfl⟩ := h
    rw [hbody.readTextFrom_eq]
    rfl

end Strings

section Numbers

/-- What follows does not go on with a number. -/
def EndsNumber (rest : List Char) : Prop :=
  ∀ c, rest.head? = some c → c.isDigit = false ∧ c ≠ '.' ∧ c ≠ 'e' ∧ c ≠ 'E'

/-- Behind a value stands nothing, or a character that goes on with no number. -/
theorem endsNumber_cons {c : Char} (rest : List Char)
    (hc : c.isDigit = false ∧ c ≠ '.' ∧ c ≠ 'e' ∧ c ≠ 'E') : EndsNumber (c :: rest) := by
  intro d hd
  rwa [← Option.some.inj hd]

theorem endsNumber_nil : EndsNumber [] := by
  intro c hc
  cases hc

theorem readDigits_run {digits rest : List Char} (hdigits : ∀ c ∈ digits, c.isDigit = true)
    (hsome : digits ≠ []) (hstop : ∀ c, rest.head? = some c → c.isDigit = false) :
    readDigits (digits ++ rest) = .ok (digits, rest) := by
  unfold readDigits
  rw [takeWhile_run hdigits hstop, dropWhile_run hdigits hstop]
  cases digits with
  | nil => exact absurd rfl hsome
  | cons d tail => rfl

/-- Only a leading zero may keep a number from being read on. -/
theorem readWhole_eq_readDigits {s : List Char}
    (h : ∀ c tail, s = '0' :: c :: tail → c.isDigit = false) : readWhole s = readDigits s := by
  unfold readWhole
  split
  · rw [if_neg (by simp [h _ _ rfl])]
  · rfl

theorem readExponent_end {rest : List Char} (hrest : EndsNumber rest) :
    readExponent rest = .ok (none, rest) := by
  cases rest with
  | nil => rfl
  | cons c tail =>
    obtain ⟨-, -, hsmall, hcapital⟩ := hrest c rfl
    simp [readExponent, hsmall, hcapital]

/-- Digits, at least one. -/
def DigitsText (s : List Char) : Prop := s ≠ [] ∧ ∀ c ∈ s, c.isDigit = true

/-- The digits before the point. A zero in front of them stands alone. -/
def WholeText (s : List Char) : Prop := DigitsText s ∧ (s.head? = some '0' → s = ['0'])

inductive FractionText : List Char → Option (List Char) → Prop
  | absent : FractionText [] none
  | present {digits : List Char} (hdigits : DigitsText digits) :
      FractionText ('.' :: digits) (some digits)

inductive ExponentText : List Char → Option Int → Prop
  | absent : ExponentText [] none
  | plain {mark : Char} {digits : List Char} (hmark : mark = 'e' ∨ mark = 'E')
      (hdigits : DigitsText digits) : ExponentText (mark :: digits) (some (valueOf digits))
  | plus {mark : Char} {digits : List Char} (hmark : mark = 'e' ∨ mark = 'E')
      (hdigits : DigitsText digits) : ExponentText (mark :: '+' :: digits) (some (valueOf digits))
  | minus {mark : Char} {digits : List Char} (hmark : mark = 'e' ∨ mark = 'E')
      (hdigits : DigitsText digits) :
      ExponentText (mark :: '-' :: digits) (some (-valueOf digits))

/-- A number with the parts that it is spelled by. -/
inductive LiteralText : List Char → NumberLiteral → Prop
  | unsigned {whole fraction exponent : List Char} {f : Option (List Char)} {e : Option Int}
      (hwhole : WholeText whole) (hfraction : FractionText fraction f)
      (hexponent : ExponentText exponent e) :
      LiteralText (whole ++ (fraction ++ exponent)) ⟨false, whole, f, e⟩
  | signed {whole fraction exponent : List Char} {f : Option (List Char)} {e : Option Int}
      (hwhole : WholeText whole) (hfraction : FractionText fraction f)
      (hexponent : ExponentText exponent e) :
      LiteralText ('-' :: (whole ++ (fraction ++ exponent))) ⟨true, whole, f, e⟩

variable {s rest : List Char}

/-- What follows does not go on with digits. -/
def EndsDigits (rest : List Char) : Prop := ∀ c, rest.head? = some c → c.isDigit = false

theorem readDigits_eq_ok_iff {digits : List Char} :
    readDigits s = .ok (digits, rest) ↔
      s = digits ++ rest ∧ DigitsText digits ∧ EndsDigits rest := by
  constructor
  · intro h
    have hsplit : s = s.takeWhile Char.isDigit ++ s.dropWhile Char.isDigit :=
      List.takeWhile_append_dropWhile.symm
    have hall : ∀ c ∈ s.takeWhile Char.isDigit, c.isDigit = true :=
      List.all_eq_true.mp List.all_takeWhile
    unfold readDigits at h
    split at h
    · exact absurd h stopAt_ne_ok
    · next hsome =>
      obtain ⟨rfl, rfl⟩ := Prod.mk.inj (Except.ok.inj h)
      exact ⟨hsplit, ⟨hsome, hall⟩, fun c hc => head?_dropWhile_eq hc⟩
  · intro h
    obtain ⟨rfl, ⟨hsome, hall⟩, hrest⟩ := h
    exact readDigits_run hall hsome hrest

theorem readWhole_eq_ok_iff {whole : List Char} :
    readWhole s = .ok (whole, rest) ↔
      s = whole ++ rest ∧ WholeText whole ∧ EndsDigits rest := by
  constructor
  · intro h
    have hlone : ∀ c tail, s = '0' :: c :: tail → c.isDigit = false := by
      rintro c tail rfl
      unfold readWhole at h
      cases hc : c.isDigit with
      | false => rfl
      | true =>
        simp only [hc, if_true] at h
        exact absurd h stopAt_ne_ok
    rw [readWhole_eq_readDigits hlone] at h
    obtain ⟨rfl, ⟨hsome, hall⟩, hrest⟩ := readDigits_eq_ok_iff.mp h
    refine ⟨rfl, ⟨⟨hsome, hall⟩, ?_⟩, hrest⟩
    intro hzero
    cases whole with
    | nil => exact absurd rfl hsome
    | cons d more =>
      obtain rfl : d = '0' := Option.some.inj hzero
      cases more with
      | nil => rfl
      | cons c tail =>
        have hdigit := hall c (List.mem_cons_of_mem _ List.mem_cons_self)
        rw [hlone c (tail ++ rest) rfl] at hdigit
        cases hdigit
  · intro h
    obtain ⟨rfl, ⟨hdigits, hlone⟩, hrest⟩ := h
    rw [readWhole_eq_readDigits]
    · exact readDigits_eq_ok_iff.mpr ⟨rfl, hdigits, hrest⟩
    · intro c tail h
      obtain ⟨hsome, -⟩ := hdigits
      match whole, hsome with
      | d :: more, _ =>
        have hd : d = '0' := (List.cons.inj h).1
        have hmore : more = [] := (List.cons.inj (hlone (congrArg some hd))).2
        rw [hmore] at h
        have hbehind : rest = c :: tail := (List.cons.inj h).2
        exact hrest c (congrArg List.head? hbehind)

theorem fractionText_of_readFraction {f : Option (List Char)}
    (h : readFraction s = .ok (f, rest)) : ∃ t, s = t ++ rest ∧ FractionText t f := by
  unfold readFraction at h
  split at h
  · next tail =>
    obtain ⟨⟨digits, after⟩, hread, hf⟩ := bind_eq_ok.mp h
    obtain ⟨rfl, hdigits, -⟩ := readDigits_eq_ok_iff.mp hread
    cases hf
    exact ⟨'.' :: digits, rfl, .present hdigits⟩
  · cases h
    exact ⟨[], rfl, .absent⟩

theorem FractionText.readFraction_eq {t : List Char} {f : Option (List Char)}
    (ht : FractionText t f) (hrest : EndsDigits rest) (hpoint : rest.head? ≠ some '.') :
    readFraction (t ++ rest) = .ok (f, rest) := by
  cases ht with
  | absent =>
    cases rest with
    | nil => rfl
    | cons c tail =>
      have hc : c ≠ '.' := fun hc => hpoint (congrArg some hc)
      simp [readFraction, hc]
  | present hdigits =>
    have hread := readDigits_eq_ok_iff.mpr ⟨rfl, hdigits, hrest⟩
    rw [List.cons_append, readFraction, hread]
    rfl

theorem FractionText.endsDigits {t : List Char} {f : Option (List Char)}
    (ht : FractionText t f) (hrest : EndsDigits rest) : EndsDigits (t ++ rest) := by
  cases ht with
  | absent => exact hrest
  | present hdigits =>
    intro c hc
    rw [← Option.some.inj hc]
    rfl

theorem exponentText_of_readExponent {e : Option Int}
    (h : readExponent s = .ok (e, rest)) : ∃ t, s = t ++ rest ∧ ExponentText t e := by
  revert h
  fun_cases readExponent s with
  | case1 =>
    intro h
    cases h
    exact ⟨[], rfl, .absent⟩
  | case2 mark hmark tail =>
    intro h
    obtain ⟨⟨digits, after⟩, hread, he⟩ := bind_eq_ok.mp h
    obtain ⟨rfl, hdigits, -⟩ := readDigits_eq_ok_iff.mp hread
    cases he
    exact ⟨mark :: '-' :: digits, rfl, .minus (by simpa using hmark) hdigits⟩
  | case3 mark hmark tail =>
    intro h
    obtain ⟨⟨digits, after⟩, hread, he⟩ := bind_eq_ok.mp h
    obtain ⟨rfl, hdigits, -⟩ := readDigits_eq_ok_iff.mp hread
    cases he
    exact ⟨mark :: '+' :: digits, rfl, .plus (by simpa using hmark) hdigits⟩
  | case4 mark tail hmark =>
    intro h
    obtain ⟨⟨digits, after⟩, hread, he⟩ := bind_eq_ok.mp h
    obtain ⟨rfl, hdigits, -⟩ := readDigits_eq_ok_iff.mp hread
    cases he
    exact ⟨mark :: digits, rfl, .plain (by simpa using hmark) hdigits⟩
  | case5 =>
    intro h
    cases h
    exact ⟨[], rfl, .absent⟩

theorem ExponentText.readExponent_eq {t : List Char} {e : Option Int} (ht : ExponentText t e)
    (hrest : EndsNumber rest) : readExponent (t ++ rest) = .ok (e, rest) := by
  have hstop : EndsDigits rest := fun c hc => (hrest c hc).1
  cases ht with
  | absent => exact readExponent_end hrest
  | @plain mark digits hmark hdigits =>
    have hread := readDigits_eq_ok_iff.mpr ⟨rfl, hdigits, hstop⟩
    obtain ⟨hsome, hall⟩ := hdigits
    have hsign : ∀ sign : Char, sign.isDigit = false → ∀ tail, digits ++ rest ≠ sign :: tail := by
      intro sign hsign tail h
      match digits, hsome with
      | d :: more, _ =>
        have hd := hall d List.mem_cons_self
        rw [(List.cons.inj h).1, hsign] at hd
        cases hd
    rw [List.cons_append, readExponent, if_pos (by simpa using hmark)]
    · rw [hread]
      rfl
    · exact fun tail h => hsign '-' rfl tail h
    · exact fun tail h => hsign '+' rfl tail h
  | plus hmark hdigits =>
    have hread := readDigits_eq_ok_iff.mpr ⟨rfl, hdigits, hstop⟩
    rw [List.cons_append, List.cons_append, readExponent, if_pos (by simpa using hmark)]
    dsimp only
    rw [hread]
    rfl
  | minus hmark hdigits =>
    have hread := readDigits_eq_ok_iff.mpr ⟨rfl, hdigits, hstop⟩
    rw [List.cons_append, List.cons_append, readExponent, if_pos (by simpa using hmark)]
    dsimp only
    rw [hread]
    rfl

/-- An exponent goes on with neither digits nor a point, and what follows the number does not
either. -/
theorem ExponentText.ends {t : List Char} {e : Option Int} (ht : ExponentText t e)
    (hrest : EndsNumber rest) :
    EndsDigits (t ++ rest) ∧ (t ++ rest).head? ≠ some '.' := by
  have hends : ∀ {mark : Char} {tail : List Char}, mark = 'e' ∨ mark = 'E' →
      EndsDigits (mark :: tail) ∧ (mark :: tail).head? ≠ some '.' := by
    intro mark tail hmark
    refine ⟨?_, ?_⟩
    · intro c hc
      rw [← Option.some.inj hc]
      rcases hmark with rfl | rfl
      · rfl
      · rfl
    · intro hc
      rcases hmark with rfl | rfl
      · cases hc
      · cases hc
  cases ht with
  | absent => exact ⟨fun c hc => (hrest c hc).1, fun hc => (hrest '.' hc).2.1 rfl⟩
  | plain hmark _ => exact hends hmark
  | plus hmark _ => exact hends hmark
  | minus hmark _ => exact hends hmark

theorem literalText_of_readUnsigned {negative : Bool} {l : NumberLiteral}
    (h : readUnsigned negative s = .ok (l, rest)) :
    ∃ whole fraction exponent f e, s = whole ++ (fraction ++ exponent) ++ rest ∧
      WholeText whole ∧ FractionText fraction f ∧ ExponentText exponent e ∧
      l = ⟨negative, whole, f, e⟩ := by
  obtain ⟨⟨whole, s'⟩, hreadWhole, h'⟩ := bind_eq_ok.mp h
  obtain ⟨⟨f, s''⟩, hreadFraction, h''⟩ := bind_eq_ok.mp h'
  obtain ⟨⟨e, after⟩, hreadExponent, hl⟩ := bind_eq_ok.mp h''
  obtain ⟨hs, hwhole, -⟩ := readWhole_eq_ok_iff.mp hreadWhole
  obtain ⟨fraction, hs', hfraction⟩ := fractionText_of_readFraction hreadFraction
  obtain ⟨exponent, hs'', hexponent⟩ := exponentText_of_readExponent hreadExponent
  subst hs hs' hs''
  cases hl
  exact ⟨whole, fraction, exponent, f, e, by simp, hwhole, hfraction, hexponent, rfl⟩

theorem readUnsigned_eq {whole fraction exponent : List Char} {f : Option (List Char)}
    {e : Option Int} (hwhole : WholeText whole) (hfraction : FractionText fraction f)
    (hexponent : ExponentText exponent e) (hrest : EndsNumber rest) (negative : Bool) :
    readUnsigned negative (whole ++ (fraction ++ exponent) ++ rest) =
      .ok (⟨negative, whole, f, e⟩, rest) := by
  obtain ⟨hdigits, hpoint⟩ := hexponent.ends hrest
  have hread := readWhole_eq_ok_iff.mpr ⟨rfl, hwhole, hfraction.endsDigits hdigits⟩
  unfold readUnsigned
  rw [List.append_assoc, List.append_assoc, hread]
  change (readFraction (fraction ++ (exponent ++ rest)) >>= _) = _
  rw [hfraction.readFraction_eq hdigits hpoint]
  change (readExponent (exponent ++ rest) >>= _) = _
  rw [hexponent.readExponent_eq hrest]
  rfl

theorem literalText_of_readLiteral {l : NumberLiteral} (h : readLiteral s = .ok (l, rest)) :
    ∃ t, s = t ++ rest ∧ LiteralText t l := by
  unfold readLiteral at h
  split at h
  · obtain ⟨whole, fraction, exponent, f, e, rfl, hwhole, hfraction, hexponent, rfl⟩ :=
      literalText_of_readUnsigned h
    exact ⟨_, rfl, .signed hwhole hfraction hexponent⟩
  · obtain ⟨whole, fraction, exponent, f, e, rfl, hwhole, hfraction, hexponent, rfl⟩ :=
      literalText_of_readUnsigned h
    exact ⟨_, rfl, .unsigned hwhole hfraction hexponent⟩

/-- A number starts with its sign or a digit. -/
theorem LiteralText.starts {t : List Char} {l : NumberLiteral} (ht : LiteralText t l) :
    ∃ c tail, t = c :: tail ∧ (c = '-' ∨ c.isDigit = true) := by
  cases ht with
  | @unsigned whole fraction exponent f e hwhole _ _ =>
    obtain ⟨⟨hsome, hall⟩, -⟩ := hwhole
    match whole, hsome with
    | d :: more, _ => exact ⟨d, _, rfl, Or.inr (hall d List.mem_cons_self)⟩
  | signed _ _ _ => exact ⟨'-', _, rfl, Or.inl rfl⟩

/-- A number is read whole if what follows it does not go on with it. -/
theorem LiteralText.readLiteral_eq {t : List Char} {l : NumberLiteral} (ht : LiteralText t l)
    (hrest : EndsNumber rest) : readLiteral (t ++ rest) = .ok (l, rest) := by
  cases ht with
  | @unsigned whole fraction exponent f e hwhole hfraction hexponent =>
    have hread := readUnsigned_eq hwhole hfraction hexponent hrest false
    obtain ⟨⟨hsome, hall⟩, -⟩ := hwhole
    match whole, hsome with
    | d :: more, _ =>
      unfold readLiteral
      split
      · next h =>
        have hd := hall d List.mem_cons_self
        rw [(List.cons.inj h).1] at hd
        cases hd
      · exact hread
  | signed hwhole hfraction hexponent =>
    exact readUnsigned_eq hwhole hfraction hexponent hrest true

end Numbers

end DisputeGame.Json
