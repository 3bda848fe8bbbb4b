import DisputeGame.Proofs.Json.Spelling
import DisputeGame.Proofs.Text.Numeral

/-!
Scalars that are read as they were written. A string of characters that need no escape and
a count below the limit of a word are read from the front of a text, and what follows them
is left as it was. A count has to know what follows it, for more digits would make it
another one, and a point or an exponent would make it no count.
-/

namespace DisputeGame.Json

open Text

section Strings

theorem readTextFrom_bare {purpose : Purpose} {body : List Char} (hbody : ∀ c ∈ body, IsBare c)
    (rest : List Char) : readTextFrom purpose none (body ++ '"' :: rest) = .ok (body, rest) := by
  induction body with
  | nil => rfl
  | cons c tail ih =>
    obtain ⟨hquote, hescape, hprintable⟩ := hbody c List.mem_cons_self
    have hcontrol : ¬c.toNat < 0x20 := Nat.not_lt_of_le hprintable
    have hrest := ih fun d hd => hbody d (List.mem_cons_of_mem c hd)
    rw [List.cons_append, readTextFrom, hrest]
    · simp [hcontrol, Except.map]
    all_goals simp [hquote, hescape]

theorem readText_bare {purpose : Purpose} {body : List Char} (hbody : ∀ c ∈ body, IsBare c)
    (rest : List Char) :
    readText purpose (body ++ '"' :: rest) = .ok (String.ofList body, rest) := by
  unfold readText
  rw [readTextFrom_bare hbody]
  rfl

end Strings

section Counts

variable {n : Nat} {rest : List Char}

theorem wholeText_decimal (n : Nat) : WholeText (Numeral.decimal n) := by
  refine ⟨⟨Numeral.decimal_ne_nil n, fun _ => Numeral.isDigit_of_mem_decimal⟩, ?_⟩
  intro hzero
  rcases Nat.eq_zero_or_pos n with rfl | hn
  · rfl
  · exact absurd hzero (Numeral.head?_decimal_ne_zero hn)

theorem readLiteral_decimal (n : Nat) (hrest : EndsNumber rest) :
    readLiteral (Numeral.decimal n ++ rest) =
      .ok (⟨false, Numeral.decimal n, none, none⟩, rest) := by
  have hdecimal : LiteralText (Numeral.decimal n) ⟨false, Numeral.decimal n, none, none⟩ := by
    have hliteral := LiteralText.unsigned (wholeText_decimal n) .absent .absent
    rwa [List.append_nil, List.append_nil] at hliteral
  exact hdecimal.readLiteral_eq hrest

theorem valueOf_decimal (n : Nat) : valueOf (Numeral.decimal n) = n :=
  Nat.ofDigitChars_ten_toDigits

/-- All digits of a number below the limit of a word are gathered. -/
theorem gather_eq {digits : List Char} {v : Nat}
    (h : Nat.ofDigitChars 10 digits v < Numeral.wordLimit) :
    gather v digits = (Nat.ofDigitChars 10 digits v, []) := by
  induction digits generalizing v with
  | nil => rfl
  | cons c rest ih =>
    have hnext : v * 10 + valueOf [c] = 10 * v + (c.toNat - '0'.toNat) := by
      simp [valueOf, Nat.ofDigitChars_cons, Nat.mul_comm]
    rw [Nat.ofDigitChars_cons, ← hnext] at h ⊢
    have hgrows : v * 10 + valueOf [c] ≤ Nat.ofDigitChars 10 rest (v * 10 + valueOf [c]) := by
      rw [Nat.ofDigitChars_eq_ofDigitChars_zero]
      exact Nat.le_add_right_of_le (Nat.le_mul_of_pos_left _ (Nat.pow_pos (by decide)))
    rw [gather, if_pos (Nat.lt_of_le_of_lt hgrows h)]
    exact ih h

theorem roundSignificand_le (n : Nat) :
    roundSignificand n ≤ n + 1 <<< (n.log2 + 1 - 53) := by
  have hdiv := Nat.div_mul_le_self n (1 <<< (n.log2 + 1 - 53))
  unfold roundSignificand
  dsimp only
  split
  · exact Nat.le_add_right_of_le hdiv
  · rw [Nat.add_mul, Nat.one_mul]
    exact Nat.add_le_add_right hdiv _

/-- Rounding adds less than a word to a word, which is far from the bound of doubles. -/
theorem roundSignificand_lt (hn : n < Numeral.wordLimit) :
    roundSignificand n < infinityBound := by
  have hlog : n.log2 < 64 := by
    rcases Nat.eq_zero_or_pos n with rfl | hpos
    · decide
    · exact (Nat.log2_lt (Nat.ne_of_gt hpos)).mpr hn
  have hunit : 1 <<< (n.log2 + 1 - 53) ≤ Numeral.wordLimit := by
    unfold Numeral.wordLimit
    rw [Nat.one_shiftLeft, Nat.one_shiftLeft]
    exact Nat.pow_le_pow_right (by decide) (by omega)
  calc roundSignificand n ≤ n + 1 <<< (n.log2 + 1 - 53) := roundSignificand_le n
    _ ≤ Numeral.wordLimit + Numeral.wordLimit := Nat.add_le_add (Nat.le_of_lt hn) hunit
    _ < infinityBound := by decide

theorem isOutOfRange_decimal (hn : n < Numeral.wordLimit) :
    NumberLiteral.isOutOfRange ⟨false, Numeral.decimal n, none, none⟩ = false := by
  have hvalue : Nat.ofDigitChars 10 (Numeral.decimal n) 0 = n := valueOf_decimal n
  have hgather : gather 0 (Numeral.decimal n) = (n, []) := by
    rw [gather_eq (hvalue.symm ▸ hn), hvalue]
  have hone : roundSignificand 1 = 1 := by decide
  unfold NumberLiteral.isOutOfRange
  simp only [Option.getD_none, hgather, gather]
  simp [isInfinite, maxPower, hone, roundSignificand_lt hn]

theorem scalar_decimal (hn : n < Numeral.wordLimit) :
    NumberLiteral.scalar ⟨false, Numeral.decimal n, none, none⟩ = .int n := by
  simp [NumberLiteral.scalar, NumberLiteral.isInteger, valueOf_decimal, hn]

theorem readNumber_decimal (hn : n < Numeral.wordLimit) (hrest : EndsNumber rest) :
    readNumber (Numeral.decimal n ++ rest) = .ok (.int n, rest) := by
  unfold readNumber
  rw [readLiteral_decimal n hrest]
  change (if _ then _ else _) = _
  rw [isOutOfRange_decimal hn, scalar_decimal hn]
  rfl

end Counts

end DisputeGame.Json
