import DisputeGame.Text.Numeral
import Mathlib.Data.Nat.Digits.Defs

/-!
Numerals as a grammar. A numeral is a text of digits with underscores behind the first of
them and at most one plus sign in front, and it stands for the value of its digits. The
reading accepts the numerals of its base and nothing else. A number that has been written
down is read again, in whichever case its letters stand and with zeros before it.
-/

namespace DisputeGame.Text.Numeral

/-- A character is the digit of a value; letters have two cases. -/
def IsDigit (base : Nat) (c : Char) (d : Nat) : Prop :=
  d < base ∧ (c = Nat.digitChar d ∨ c = (Nat.digitChar d).toUpper)

/-- One plus sign is taken off a text, unless another one follows it. -/
def Unsigned (body unsigned : List Char) : Prop :=
  (body = '+' :: unsigned ∧ unsigned.head? ≠ some '+') ∨
    (body = unsigned ∧ ∀ rest, body = '+' :: rest → rest.head? = some '+')

/-- A text spells a number in a base: there is something behind the sign, no underscore
leads it, and without its underscores it is a list of digits with the number as value. -/
def Spells (base : Nat) (body : List Char) (n : Nat) : Prop :=
  ∃ unsigned digits, Unsigned body unsigned ∧ unsigned ≠ [] ∧ unsigned.head? ≠ some '_' ∧
    List.Forall₂ (IsDigit base) (unsigned.filter (· ≠ '_')) digits ∧
    Nat.ofDigits base digits.reverse = n

/-- The places of the sixteen digits among the characters, in both cases. -/
theorem toNat_digitChar : ∀ d, d < 16 →
    (Nat.digitChar d).toNat = (if d < 10 then d + 48 else d + 87) ∧
      (Nat.digitChar d).toUpper.toNat = (if d < 10 then d + 48 else d + 55) := by
  decide

theorem digit?_eq_some_iff {base : Nat} (hbase : base ≤ 16) {c : Char} {d : Nat} :
    digit? base c = some d ↔ IsDigit base c d := by
  have hle : ∀ a b : Char, a ≤ b ↔ a.toNat ≤ b.toNat := fun _ _ => Iff.rfl
  unfold digit? IsDigit
  simp only [Option.filter_eq_some_iff, decide_eq_true_eq, hle]
  rw [and_comm]
  apply and_congr_right
  intro hd
  obtain ⟨hlower, hupper⟩ := toNat_digitChar d (by omega)
  rw [← Char.toNat_inj, ← Char.toNat_inj, hlower, hupper]
  simp only [Char.reduceToNat]
  -- the three ranges of digits, and everything else
  split
  · simp only [Option.some.injEq]
    split <;> omega
  · split
    · simp only [Option.some.injEq]
      split <;> omega
    · split
      · simp only [Option.some.injEq]
        split <;> omega
      · simp only [reduceCtorEq, false_iff]
        split <;> omega

theorem digit?_digitChar {base d : Nat} (hbase : base ≤ 16) (hd : d < base) :
    digit? base (Nat.digitChar d) = some d :=
  (digit?_eq_some_iff hbase).mpr ⟨hd, Or.inl rfl⟩

theorem unsigned_iff {body unsigned : List Char} :
    Unsigned body unsigned ↔ dropPlus body = unsigned := by
  unfold Unsigned
  fun_cases dropPlus body with
  | case1 rest =>
    constructor
    · rintro (⟨h, hhead⟩ | ⟨h, -⟩)
      · obtain rfl := (List.cons.inj h).2
        exact absurd rfl hhead
      · exact h
    · intro h
      refine Or.inr ⟨h, ?_⟩
      intro r hr
      rw [← (List.cons.inj hr).2]
      rfl
  | case2 rest hrest =>
    have hhead : rest.head? ≠ some '+' := by
      intro h
      obtain ⟨tail, rfl⟩ := List.head?_eq_some_iff.mp h
      exact hrest tail rfl
    constructor
    · rintro (⟨h, -⟩ | ⟨-, h⟩)
      · exact (List.cons.inj h).2
      · exact absurd (h rest rfl) hhead
    · intro h
      subst h
      exact Or.inl ⟨rfl, hhead⟩
  | case3 _ _ hplus =>
    constructor
    · rintro (⟨h, -⟩ | ⟨h, -⟩)
      · exact absurd h (hplus unsigned)
      · exact h
    · intro h
      exact Or.inr ⟨h, fun rest hr => absurd hr (hplus rest)⟩

/-- Digits that are read behind a number extend it, whatever underscores stand between. -/
theorem readFrom?_eq_some_iff {base : Nat} (hbase : base ≤ 16) {v n : Nat} {s : List Char} :
    readFrom? base v s = some n ↔ ∃ digits,
      List.Forall₂ (IsDigit base) (s.filter (· ≠ '_')) digits ∧
        digits.foldl (fun value d => value * base + d) v = n := by
  induction s generalizing v with
  | nil =>
    constructor
    · intro h
      exact ⟨[], .nil, Option.some.inj h⟩
    · rintro ⟨_, hdigits, hvalue⟩
      cases hdigits
      exact congrArg some hvalue
  | cons c rest ih =>
    by_cases hgap : c = '_'
    · subst hgap
      rw [readFrom?, if_pos rfl, ih, List.filter_cons_of_neg (by decide)]
    · rw [readFrom?, if_neg hgap, List.filter_cons_of_pos (by simpa using hgap)]
      simp only [Option.bind_eq_some_iff, digit?_eq_some_iff hbase, ih]
      constructor
      · rintro ⟨d, hd, digits, hdigits, hvalue⟩
        exact ⟨d :: digits, .cons hd hdigits, hvalue⟩
      · rintro ⟨_, hdigits, hvalue⟩
        cases hdigits with
        | cons hd hrest => exact ⟨_, hd, _, hrest, hvalue⟩

theorem foldl_eq_ofDigits (base : Nat) (digits : List Nat) :
    digits.foldl (fun value d => value * base + d) 0 = Nat.ofDigits base digits.reverse := by
  rw [Nat.ofDigits_eq_foldr, List.foldr_reverse]
  simp only [Nat.cast_id, Nat.add_comm, Nat.mul_comm]

/-- The reading accepts the numerals and gives their values. -/
theorem read?_eq_some_iff {base : Nat} (hbase : base ≤ 16) {body : List Char} {n : Nat} :
    read? base body = some n ↔ Spells base body n := by
  unfold Spells
  simp only [unsigned_iff, exists_and_left, exists_eq_left']
  fun_cases read? base body with
  | case1 hempty => simp [hempty]
  | case2 rest hgap => simp [hgap]
  | case3 hsome hfirst =>
    have hhead : (dropPlus body).head? ≠ some '_' := by
      intro h
      obtain ⟨rest, hrest⟩ := List.head?_eq_some_iff.mp h
      exact hfirst rest hrest
    rw [readFrom?_eq_some_iff hbase]
    simp only [foldl_eq_ofDigits]
    constructor
    · rintro ⟨digits, hdigits, hvalue⟩
      exact ⟨hsome, hhead, digits, hdigits, hvalue⟩
    · rintro ⟨-, -, digits, hdigits, hvalue⟩
      exact ⟨digits, hdigits, hvalue⟩

section Written

variable {base : Nat}

theorem readFrom?_append (v : Nat) (s t : List Char) :
    readFrom? base v (s ++ t) = (readFrom? base v s).bind fun w => readFrom? base w t := by
  induction s generalizing v with
  | nil => rfl
  | cons c rest ih =>
    rw [List.cons_append, readFrom?, readFrom?]
    by_cases hgap : c = '_'
    · rw [if_pos hgap, if_pos hgap, ih]
    · rw [if_neg hgap, if_neg hgap, Option.bind_assoc]
      simp only [ih]

theorem readFrom?_digitChar (hbase : base ≤ 16) {d : Nat} (hd : d < base) (v : Nat) :
    readFrom? base v [Nat.digitChar d] = some (v * base + d) := by
  have hgap : Nat.digitChar d ≠ '_' := Nat.digitChar_ne '_' (by decide)
  rw [readFrom?, if_neg hgap, digit?_digitChar hbase hd]
  rfl

theorem readFrom?_zeros (hbase : 0 < base) (h16 : base ≤ 16) (zeros : Nat) (s : List Char) :
    readFrom? base 0 (List.replicate zeros '0' ++ s) = readFrom? base 0 s := by
  have hzero := readFrom?_digitChar h16 hbase 0
  induction zeros with
  | zero => rfl
  | succ zeros ih =>
    rw [List.replicate_succ, ← List.singleton_append, List.append_assoc, readFrom?_append]
    change (readFrom? base 0 [Nat.digitChar 0]).bind _ = _
    rw [hzero, Option.bind_some, Nat.zero_mul, Nat.zero_add, ih]

/-- The digits of a number are read as that number. -/
theorem readFrom?_toDigits (hbase : 1 < base) (h16 : base ≤ 16) (n : Nat) :
    readFrom? base 0 (Nat.toDigits base n) = some n := by
  induction n using Nat.strong_induction_on with
  | h n ih =>
    rw [Nat.toDigits_eq_if hbase]
    by_cases hn : n < base
    · rw [if_pos hn, readFrom?_digitChar h16 hn, Nat.zero_mul, Nat.zero_add]
    · have hless : n / base < n := Nat.div_lt_self (by omega) hbase
      have hlast : n % base < base := Nat.mod_lt n (by omega)
      rw [if_neg hn, readFrom?_append, ih _ hless, Option.bind_some,
        readFrom?_digitChar h16 hlast, Nat.div_add_mod']

end Written

section Letters

theorem toNat_toLower (c : Char) :
    c.toLower.toNat = if 65 ≤ c.toNat ∧ c.toNat ≤ 90 then c.toNat + 32 else c.toNat := by
  have hcapital : (c.val ≥ 'A'.val ∧ c.val ≤ 'Z'.val) ↔ 65 ≤ c.toNat ∧ c.toNat ≤ 90 := Iff.rfl
  unfold Char.toLower
  by_cases h : c.val ≥ 'A'.val ∧ c.val ≤ 'Z'.val
  · have hc := hcapital.mp h
    rw [dif_pos h, if_pos hc]
    change (c.val + ('a'.val - 'A'.val)).toNat = c.toNat + 32
    rw [UInt32.toNat_add]
    change (c.toNat + 32) % _ = _
    omega
  · rw [dif_neg h, if_neg (mt hcapital.mpr h)]

/-- A letter is lowered within the first block of characters, and all others stay. -/
theorem toLower_cases (c : Char) : c.toLower = c ∨
    (65 ≤ c.toNat ∧ c.toNat ≤ 90 ∧ c.toLower.toNat = c.toNat + 32) := by
  have hlower := toNat_toLower c
  by_cases h : 65 ≤ c.toNat ∧ c.toNat ≤ 90
  · rw [if_pos h] at hlower
    exact Or.inr ⟨h.1, h.2, hlower⟩
  · rw [if_neg h] at hlower
    exact Or.inl (Char.toNat_inj.mp hlower)

theorem toLower_eq_underscore_iff (c : Char) : c.toLower = '_' ↔ c = '_' := by
  rw [← Char.toNat_inj, ← Char.toNat_inj, toNat_toLower]
  simp only [Char.reduceToNat]
  split <;> omega

theorem digit?_toLower (base : Nat) (c : Char) : digit? base c.toLower = digit? base c := by
  have hle : ∀ a b : Char, a ≤ b ↔ a.toNat ≤ b.toNat := fun _ _ => Iff.rfl
  unfold digit?
  simp only [hle, toNat_toLower, Char.reduceToNat]
  by_cases h : 65 ≤ c.toNat ∧ c.toNat ≤ 90
  · -- a capital moves from the last range of digits to the middle one
    have hmoved : (97 ≤ c.toNat + 32 ∧ c.toNat + 32 ≤ 102) ↔ 65 ≤ c.toNat ∧ c.toNat ≤ 70 := by
      omega
    have hvalue : c.toNat + 32 - 97 = c.toNat - 65 := by omega
    have hfigure : ¬(48 ≤ c.toNat + 32 ∧ c.toNat + 32 ≤ 57) := by omega
    have hfigure' : ¬(48 ≤ c.toNat ∧ c.toNat ≤ 57) := by omega
    have hsmall : ¬(97 ≤ c.toNat ∧ c.toNat ≤ 102) := by omega
    have hcapital : ¬(65 ≤ c.toNat + 32 ∧ c.toNat + 32 ≤ 70) := by omega
    simp only [if_pos h, hmoved, hvalue, hfigure, hfigure', hsmall, hcapital, if_false]
  · simp only [if_neg h]

/-- The case of the letters makes no difference. -/
theorem readFrom?_map_toLower (base v : Nat) (s : List Char) :
    readFrom? base v (s.map Char.toLower) = readFrom? base v s := by
  induction s generalizing v with
  | nil => rfl
  | cons c rest ih =>
    rw [List.map_cons, readFrom?, readFrom?, digit?_toLower]
    simp only [toLower_eq_underscore_iff, ih]

end Letters

/-- A numeral that begins with a digit is read without a look for a sign or a gap. -/
theorem read?_eq_readFrom? {base : Nat} {c : Char} {rest : List Char}
    (hc : (digit? base c).isSome) : read? base (c :: rest) = readFrom? base 0 (c :: rest) := by
  have hplus : c ≠ '+' := by
    rintro rfl
    simp [digit?] at hc
  have hgap : c ≠ '_' := by
    rintro rfl
    simp [digit?] at hc
  have hkept : dropPlus (c :: rest) = c :: rest := by
    simp [dropPlus, hplus]
  simp [read?, hkept, hgap]

/-- A text that shows a number in a base: its digits, with the letters in either case, and
zeros before them. -/
def Shows (base n : Nat) (text : List Char) : Prop :=
  ∃ zeros body, text = List.replicate zeros '0' ++ body ∧
    body.map Char.toLower = Nat.toDigits base n

theorem exists_digitChar_of_mem_toDigits {base : Nat} (hbase : 1 < base) {n : Nat} {c : Char}
    (hc : c ∈ Nat.toDigits base n) : ∃ d, d < base ∧ c = Nat.digitChar d := by
  induction n using Nat.strong_induction_on with
  | h n ih =>
    rw [Nat.toDigits_eq_if hbase] at hc
    by_cases hn : n < base
    · rw [if_pos hn, List.mem_singleton] at hc
      exact ⟨n, hn, hc⟩
    · rw [if_neg hn, List.mem_append, List.mem_singleton] at hc
      rcases hc with hc | hc
      · exact ih _ (Nat.div_lt_self (by omega) hbase) hc
      · exact ⟨n % base, Nat.mod_lt n (by omega), hc⟩

section Shows

variable {base n : Nat} {text : List Char}

theorem shows_toDigits (hbase : 1 < base) (h16 : base ≤ 16) (n : Nat) :
    Shows base n (Nat.toDigits base n) := by
  have hlower : ∀ d, d < 16 → (Nat.digitChar d).toLower = Nat.digitChar d := by decide
  refine ⟨0, Nat.toDigits base n, rfl, ?_⟩
  conv => rhs; rw [← List.map_id (Nat.toDigits base n)]
  apply List.map_congr_left
  intro c hc
  obtain ⟨d, hd, rfl⟩ := exists_digitChar_of_mem_toDigits hbase hc
  exact hlower d (Nat.lt_of_lt_of_le hd h16)

theorem Shows.ne_nil (h : Shows base n text) : text ≠ [] := by
  obtain ⟨zeros, body, rfl, hbody⟩ := h
  intro hnil
  obtain ⟨-, rfl⟩ := List.append_eq_nil_iff.mp hnil
  exact Nat.toDigits_ne_nil hbody.symm

theorem Shows.digit (h : Shows base n text) (hbase : 1 < base) (h16 : base ≤ 16) {c : Char}
    (hc : c ∈ text) : (digit? base c).isSome := by
  obtain ⟨zeros, body, rfl, hbody⟩ := h
  rcases List.mem_append.mp hc with hzero | hc
  · rw [List.eq_of_mem_replicate hzero]
    have hdigit := digit?_digitChar h16 (Nat.lt_trans Nat.zero_lt_one hbase)
    exact Option.isSome_of_eq_some hdigit
  · have hlower : c.toLower ∈ Nat.toDigits base n := hbody ▸ List.mem_map_of_mem hc
    obtain ⟨d, hd, heq⟩ := exists_digitChar_of_mem_toDigits hbase hlower
    rw [← digit?_toLower, heq, digit?_digitChar h16 hd]
    rfl

/-- A number is read from every text that shows it. -/
theorem Shows.read? (h : Shows base n text) (hbase : 1 < base) (h16 : base ≤ 16) :
    read? base text = some n := by
  have hvalue : readFrom? base 0 text = some n := by
    obtain ⟨zeros, body, rfl, hbody⟩ := h
    rw [readFrom?_zeros (by omega) h16, ← readFrom?_map_toLower, hbody,
      readFrom?_toDigits hbase h16]
  cases text with
  | nil => exact absurd rfl h.ne_nil
  | cons c rest => rw [read?_eq_readFrom? (h.digit hbase h16 List.mem_cons_self), hvalue]

end Shows

section Decimal

variable {n : Nat}

theorem decimal_ne_nil (n : Nat) : decimal n ≠ [] := Nat.toDigits_ne_nil

theorem isDigit_of_mem_decimal {c : Char} (hc : c ∈ decimal n) : c.isDigit = true :=
  Nat.isDigit_of_mem_toDigits (by decide) (by decide) hc

theorem exists_decimal_cons (n : Nat) :
    ∃ d rest, decimal n = d :: rest ∧ d.isDigit = true := by
  obtain ⟨d, rest, h⟩ := List.exists_cons_of_ne_nil (decimal_ne_nil n)
  exact ⟨d, rest, h, isDigit_of_mem_decimal (h ▸ List.mem_cons_self)⟩

theorem dropPlus_decimal (n : Nat) : dropPlus (decimal n) = decimal n := by
  obtain ⟨d, rest, hdigits, hdigit⟩ := exists_decimal_cons n
  have hplus : d ≠ '+' := by
    rintro rfl
    simp at hdigit
  simp [hdigits, dropPlus, hplus]

/-- A count that is small enough is read from its digits. -/
theorem readCount?_decimal (hn : n < wordLimit) : readCount? (decimal n) = some n := by
  have hall : (decimal n).all Char.isDigit = true :=
    List.all_eq_true.mpr fun _ => isDigit_of_mem_decimal
  have hvalue : readFrom? 10 0 (decimal n) = some n :=
    readFrom?_toDigits (by decide) (by decide) n
  obtain ⟨d, rest, hdigits, -⟩ := exists_decimal_cons n
  unfold readCount?
  rw [dropPlus_decimal]
  rw [hdigits] at hall hvalue ⊢
  simp only [hall, if_true, hvalue, Option.filter_some, decide_eq_true hn]

/-- A number above zero is written without a zero in front. -/
theorem head?_decimal_ne_zero (hn : 0 < n) : (decimal n).head? ≠ some '0' := by
  unfold decimal
  induction n using Nat.strong_induction_on with
  | h n ih =>
    rw [Nat.toDigits_eq_if (by decide)]
    by_cases hsmall : n < 10
    · simp [hsmall, Nat.ne_of_gt hn]
    · obtain ⟨d, rest, hdigits⟩ :=
        List.exists_cons_of_ne_nil (Nat.toDigits_ne_nil (n := n / 10) (b := 10))
      have hrest := ih (n / 10) (by omega) (by omega)
      rw [hdigits] at hrest
      rw [if_neg hsmall, hdigits]
      exact hrest

theorem decimal_inj {m n : Nat} : decimal m = decimal n ↔ m = n := by
  constructor
  · intro h
    have hvalue := congrArg (fun digits => Nat.ofDigitChars 10 digits 0) h
    simpa [decimal] using hvalue
  · intro h
    rw [h]

end Decimal

end DisputeGame.Text.Numeral
