import DisputeGame.Claim.Value
import DisputeGame.Proofs.Text.Numeral

/-!
Claim values in writing. The two digits of a byte are read as its upper and its lower half,
so the bytes of a value come back in their order from the digits that were written for it.
-/

namespace DisputeGame.ClaimValue

open Text

/-- A byte is written as two hexadecimal digits. -/
theorem exists_encodeByte (b : UInt8) :
    ∃ high low, high < 16 ∧ low < 16 ∧ 16 * high + low = b.toNat ∧
      encodeByte b = [Nat.digitChar high, Nat.digitChar low] := by
  have hb := b.toNat_lt
  exact ⟨b.toNat / 16, b.toNat % 16, by omega, by omega, by omega, rfl⟩

theorem byteLength_flatMap_encodeByte (bytes : List UInt8) :
    Utf8.byteLength (bytes.flatMap encodeByte) = 2 * bytes.length := by
  have hsize : ∀ d, d < 16 → (Nat.digitChar d).utf8Size = 1 := by decide
  induction bytes with
  | nil => rfl
  | cons b rest ih =>
    obtain ⟨high, low, hhigh, hlow, -, hb⟩ := exists_encodeByte b
    rw [List.flatMap_cons, hb]
    simp only [List.cons_append, List.nil_append, Utf8.byteLength, hsize high hhigh,
      hsize low hlow, ih, List.length_cons]
    omega

/-- The digits that were written for bytes are the halves of these bytes. -/
theorem digitsFrom_flatMap_encodeByte (bytes : List UInt8) (offset : Nat) :
    ∃ digits, digitsFrom offset (bytes.flatMap encodeByte) = .ok digits ∧
      pairDigits digits = bytes := by
  induction bytes generalizing offset with
  | nil => exact ⟨[], rfl, rfl⟩
  | cons b rest ih =>
    obtain ⟨high, low, hhigh, hlow, hvalue, hb⟩ := exists_encodeByte b
    obtain ⟨digits, hdigits, hpairs⟩ := ih (offset + 1 + 1)
    refine ⟨high :: low :: digits, ?_, ?_⟩
    · rw [List.flatMap_cons, hb]
      simp only [List.cons_append, List.nil_append, digitsFrom,
        Numeral.digit?_digitChar (Nat.le_refl 16) hhigh,
        Numeral.digit?_digitChar (Nat.le_refl 16) hlow, hdigits]
      rfl
    · rw [pairDigits, hvalue, hpairs, UInt8.ofNat_toNat]

theorem ofBytes_toList (v : ClaimValue) : ofBytes v.bytes.toList = v := by
  have hbytes : (Vector.ofFn fun i : Fin 32 => v.bytes.toList.getD i 0) = v.bytes := by
    apply Vector.ext
    intro i hi
    simp
  exact congrArg ClaimValue.mk hbytes

/-- A value is read from what was written for it. -/
theorem read_encode (v : ClaimValue) : read v.encode = .ok v := by
  have hlength : Utf8.byteLength (v.bytes.toList.flatMap encodeByte) = 64 := by
    rw [byteLength_flatMap_encodeByte, Vector.length_toList]
  obtain ⟨digits, hdigits, hpairs⟩ := digitsFrom_flatMap_encodeByte v.bytes.toList 2
  change readFrom 2 (v.bytes.toList.flatMap encodeByte) = _
  unfold readFrom
  rw [if_pos hlength, hdigits, Except.map, hpairs, ofBytes_toList]

end DisputeGame.ClaimValue
