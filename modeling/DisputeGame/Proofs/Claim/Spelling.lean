import DisputeGame.Claim.Value
import DisputeGame.Proofs.Text.Numeral
import DisputeGame.Proofs.Tree.Numbering
import Mathlib.Data.List.Forall2

/-!
Claim values as a grammar. Behind its marker a text has room for sixty-four hexadecimal digits.
It may set gaps in the place of some of them, and the value is made of the digits that are left,
two for a byte, with zeros at its end where digits are missing. The reading accepts the texts of
this form and nothing else. Neither the marker nor the case of a letter says anything about the
value.
-/

namespace DisputeGame.ClaimValue

open Text

/-- The marker is taken off the front of a text that has one. -/
def Unmarked (text body : List Char) : Prop :=
  text = '0' :: 'x' :: body ∨ (text = body ∧ ∀ rest, text ≠ '0' :: 'x' :: rest)

/-- A byte by its two digits; it is zero where one of them is missing. -/
def byteAt (digits : List Nat) (i : Nat) : Nat :=
  match digits[2 * i]?, digits[2 * i + 1]? with
  | some high, some low => 16 * high + low
  | _, _ => 0

/-- A text without a marker spells a value: it takes sixty-four bytes and has nothing but
hexadecimal digits and gaps in it, and its digits are those of the bytes of the value. -/
def SpellsBody (body : List Char) (v : ClaimValue) : Prop :=
  Utf8.byteLength body = 64 ∧ ∃ digits,
    List.Forall₂ (Numeral.IsDigit 16) (body.filter fun c => !isGap c) digits ∧
    ∀ i (hi : i < 32), v.bytes[i].toNat = byteAt digits i

def Spells (text : List Char) (v : ClaimValue) : Prop :=
  ∃ body, Unmarked text body ∧ SpellsBody body v

theorem digit?_of_isGap {c : Char} (hc : isGap c = true) : Numeral.digit? 16 c = none := by
  unfold isGap at hc
  simp only [Bool.or_eq_true, decide_eq_true_eq] at hc
  rcases hc with ((rfl | rfl) | rfl) | rfl <;> rfl

theorem digitsFrom_eq_ok_iff {offset : Nat} {s : List Char} {digits : List Nat} :
    digitsFrom offset s = .ok digits ↔
      List.Forall₂ (Numeral.IsDigit 16) (s.filter fun c => !isGap c) digits := by
  induction s generalizing offset digits with
  | nil =>
    constructor
    · intro h
      cases h
      exact .nil
    · intro h
      cases h
      rfl
  | cons c rest ih =>
    by_cases hgap : isGap c = true
    · simp only [digitsFrom, digit?_of_isGap hgap, hgap, if_true, ih, Bool.not_true,
        List.filter_cons_of_neg, Bool.false_eq_true, not_false_eq_true]
    · rw [List.filter_cons_of_pos (by simpa using hgap)]
      constructor
      · intro h
        cases hdigit : Numeral.digit? 16 c with
        | none => simp [digitsFrom, hdigit, hgap] at h
        | some d =>
          simp only [digitsFrom, hdigit] at h
          obtain ⟨ds, hds, rfl⟩ := map_eq_ok.mp h
          exact .cons ((Numeral.digit?_eq_some_iff (Nat.le_refl 16)).mp hdigit) (ih.mp hds)
      · intro h
        cases h with
        | cons hd hrest =>
          have hdigit := (Numeral.digit?_eq_some_iff (Nat.le_refl 16)).mpr hd
          simp only [digitsFrom, hdigit, ih.mpr hrest]
          rfl

theorem lt_of_isDigits {base : Nat} {s : List Char} {digits : List Nat}
    (h : List.Forall₂ (Numeral.IsDigit base) s digits) : ∀ d ∈ digits, d < base := by
  induction h with
  | nil => simp
  | cons hc _ ih =>
    intro d hd
    rcases List.mem_cons.mp hd with rfl | hd
    · exact hc.1
    · exact ih d hd

theorem byteAt_succ (high low : Nat) (rest : List Nat) (i : Nat) :
    byteAt (high :: low :: rest) (i + 1) = byteAt rest i := by
  have hhigh : 2 * (i + 1) = 2 * i + 1 + 1 := by omega
  unfold byteAt
  rw [hhigh]
  rfl

theorem toNat_getD_pairDigits {digits : List Nat} (hdigits : ∀ d ∈ digits, d < 16) (i : Nat) :
    ((pairDigits digits).getD i 0).toNat = byteAt digits i := by
  fun_induction pairDigits digits generalizing i with
  | case1 high low rest ih =>
    cases i with
    | zero =>
      have hhigh := hdigits high (by simp)
      have hlow := hdigits low (by simp)
      change (UInt8.ofNat (16 * high + low)).toNat = 16 * high + low
      rw [UInt8.toNat_ofNat', Nat.mod_eq_of_lt (by omega)]
    | succ i =>
      rw [byteAt_succ]
      exact ih (fun d hd => hdigits d (by simp [hd])) i
  | case2 digits hshort =>
    -- fewer than two digits are left, which make no byte
    have hlength : digits.length ≤ 1 := by
      match digits with
      | [] => exact Nat.zero_le 1
      | [_] => exact Nat.le_refl 1
      | high :: low :: rest => exact absurd rfl (hshort high low rest)
    have hmissing : digits[2 * i + 1]? = none := List.getElem?_eq_none (by omega)
    simp [byteAt, hmissing]

theorem eq_ofBytes_iff {v : ClaimValue} {bytes : List UInt8} :
    v = ofBytes bytes ↔ ∀ i (hi : i < 32), v.bytes[i] = bytes.getD i 0 := by
  obtain ⟨vec⟩ := v
  rw [ofBytes, ClaimValue.mk.injEq, Vector.ext_iff]
  simp

theorem readFrom_eq_ok_iff {offset : Nat} {body : List Char} {v : ClaimValue} :
    readFrom offset body = .ok v ↔ SpellsBody body v := by
  unfold readFrom SpellsBody
  rw [guard_eq_ok, map_eq_ok]
  simp only [digitsFrom_eq_ok_iff]
  apply and_congr_right
  intro _
  apply exists_congr
  intro digits
  apply and_congr_right
  intro hdigits
  rw [eq_comm, eq_ofBytes_iff]
  simp only [← toNat_getD_pairDigits (lt_of_isDigits hdigits), UInt8.toNat_inj]

theorem read_eq_readFrom {text body : List Char} (h : Unmarked text body) :
    ∃ offset, read text = readFrom offset body := by
  rcases h with rfl | ⟨rfl, hmark⟩
  · exact ⟨2, rfl⟩
  · refine ⟨0, ?_⟩
    unfold read
    split
    · next rest => exact absurd rfl (hmark rest)
    · rfl

theorem exists_unmarked (text : List Char) : ∃ body, Unmarked text body := by
  by_cases h : ∃ rest, text = '0' :: 'x' :: rest
  · obtain ⟨rest, hrest⟩ := h
    exact ⟨rest, Or.inl hrest⟩
  · exact ⟨text, Or.inr ⟨rfl, fun rest hrest => h ⟨rest, hrest⟩⟩⟩

/-- The reading accepts the texts that spell a value and gives that value. -/
theorem read_eq_ok_iff {text : List Char} {v : ClaimValue} :
    read text = .ok v ↔ Spells text v := by
  constructor
  · intro h
    obtain ⟨body, hbody⟩ := exists_unmarked text
    obtain ⟨offset, hread⟩ := read_eq_readFrom hbody
    rw [hread] at h
    exact ⟨body, hbody, readFrom_eq_ok_iff.mp h⟩
  · intro h
    obtain ⟨body, hbody, hspells⟩ := h
    obtain ⟨offset, hread⟩ := read_eq_readFrom hbody
    rw [hread]
    exact readFrom_eq_ok_iff.mpr hspells

theorem Spells.unique {text : List Char} {v w : ClaimValue} (hv : Spells text v)
    (hw : Spells text w) : v = w := by
  rw [← read_eq_ok_iff] at hv hw
  exact Except.ok.inj (hv.symm.trans hw)

/-- A text has one part behind its marker. -/
theorem spells_iff {text body : List Char} (hbody : Unmarked text body) (v : ClaimValue) :
    Spells text v ↔ SpellsBody body v := by
  obtain ⟨offset, hread⟩ := read_eq_readFrom hbody
  rw [← read_eq_ok_iff, hread, readFrom_eq_ok_iff]

section Case

theorem utf8Size_toLower (c : Char) : c.toLower.utf8Size = c.utf8Size := by
  rcases Numeral.toLower_cases c with hsame | ⟨hlow, hhigh, hlower⟩
  · rw [hsame]
  · have hsmall : ∀ d : Char, d.toNat ≤ 127 → d.utf8Size = 1 :=
      fun d hd => Char.utf8Size_eq_one_iff.mpr hd
    rw [hsmall c (by omega), hsmall c.toLower (by omega)]

theorem byteLength_map_toLower (s : List Char) :
    Utf8.byteLength (s.map Char.toLower) = Utf8.byteLength s := by
  induction s with
  | nil => rfl
  | cons c rest ih => rw [List.map_cons, Utf8.byteLength, Utf8.byteLength, utf8Size_toLower, ih]

theorem isGap_toLower (c : Char) : isGap c.toLower = isGap c := by
  rcases Numeral.toLower_cases c with hsame | ⟨hlow, hhigh, hlower⟩
  · rw [hsame]
  · -- no gap stands where the letters do
    have hletter : ∀ d : Char, 65 ≤ d.toNat → isGap d = false := by
      intro d hd
      apply Bool.eq_false_iff.mpr
      intro hgap
      unfold isGap at hgap
      simp only [Bool.or_eq_true, decide_eq_true_eq] at hgap
      rcases hgap with ((rfl | rfl) | rfl) | rfl <;> exact absurd hd (by decide)
    rw [hletter c hlow, hletter c.toLower (by omega)]

theorem isDigit_toLower {c : Char} {d : Nat} :
    Numeral.IsDigit 16 c.toLower d ↔ Numeral.IsDigit 16 c d := by
  rw [← Numeral.digit?_eq_some_iff (Nat.le_refl 16), Numeral.digit?_toLower,
    Numeral.digit?_eq_some_iff (Nat.le_refl 16)]

theorem spellsBody_map_toLower {body : List Char} {v : ClaimValue} :
    SpellsBody (body.map Char.toLower) v ↔ SpellsBody body v := by
  have hgaps : (fun c => !isGap c) ∘ Char.toLower = fun c => !isGap c := by
    funext c
    exact congrArg Bool.not (isGap_toLower c)
  unfold SpellsBody
  simp only [byteLength_map_toLower, List.filter_map, hgaps, List.forall₂_map_left_iff,
    isDigit_toLower]

/-- Texts that differ in the marker and in the case of their letters spell the same value. -/
theorem spells_iff_of_fold {text other body rest : List Char} {v : ClaimValue}
    (hbody : Unmarked text body) (hrest : Unmarked other rest)
    (hfold : body.map Char.toLower = rest.map Char.toLower) :
    Spells text v ↔ Spells other v := by
  rw [spells_iff hbody, spells_iff hrest, ← spellsBody_map_toLower, hfold,
    spellsBody_map_toLower]

end Case

end DisputeGame.ClaimValue
