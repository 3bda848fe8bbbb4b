import DisputeGame.Proofs.Tree.Validity

/-!
Generalized indices in words. One word compares the number with its limit and the other one
counts bytes, and both come to the same: a number goes in exactly if it is below the limit, and
then none of it is lost. The index of a node fills the stretch between two powers of two that
its depth names, so in the end the depth alone decides.
-/

namespace DisputeGame

open Depth

namespace Word

theorem limit_eq (w : Word) : w.limit = width w.bits := rfl

theorem length_lowBytes (count n : Nat) : (lowBytes count n).length = count := by
  induction count with
  | zero => rfl
  | succ count ih => rw [lowBytes, List.length_cons, ih]

theorem shiftRight_eq_div_width (n d : Nat) : n >>> d = n / width d := by
  unfold width
  rw [Nat.shiftRight_eq_div_pow, Nat.one_shiftLeft]

/-- The last bytes of a number, put behind another number, are its remainder. -/
theorem foldl_lowBytes (count n m : Nat) :
    (lowBytes count n).foldl (fun n b => n * 256 + b.toNat) m =
      m * width (8 * count) + n % width (8 * count) := by
  induction count generalizing m with
  | zero => simp [lowBytes, Nat.mod_one]
  | succ count ih =>
    have hwidth : width (8 * (count + 1)) = width (8 * count) * 256 :=
      width_add (8 * count) 8
    have hbyte : (UInt8.ofNat (n >>> (8 * count))).toNat = n / width (8 * count) % 256 := by
      rw [UInt8.toNat_ofNat', shiftRight_eq_div_width]
    rw [lowBytes, List.foldl_cons, ih, hbyte, hwidth, Nat.mod_mul, Nat.add_mul,
      Nat.mul_assoc m, Nat.mul_comm 256, Nat.add_assoc, Nat.add_comm (n % width (8 * count)),
      Nat.mul_comm (n / width (8 * count) % 256)]

theorem ofBytes_bytes (n : Nat) : ofBytes (bytes n) = n := by
  have hbits : n.log2 ≤ 8 * (n.log2 / 8) + 7 := by omega
  have hfits : n < width (8 * (n.log2 / 8 + 1)) := (Position.topBit_le_iff n _).mp hbits
  unfold ofBytes bytes
  rw [foldl_lowBytes, Nat.zero_mul, Nat.zero_add, Nat.mod_eq_of_lt hfits]

/-- So many bytes are enough for a number exactly if their bits are. -/
theorem length_bytes_le_iff {n count : Nat} (hcount : 0 < count) :
    (bytes n).length ≤ count ↔ n < width (8 * count) := by
  have hlast : 8 * count - 1 + 1 = 8 * count := by omega
  have htop := Position.topBit_le_iff n (8 * count - 1)
  rw [hlast] at htop
  unfold bytes
  rw [length_lowBytes, ← htop]
  unfold Position.topBit
  omega

/-- The comparison and the count of bytes are the same test, and what passes it is kept whole. -/
theorem narrow?_eq (w : Word) (n : Nat) :
    w.narrow? n = if n < w.limit then some (BitVec.ofNat w.bits n) else none := by
  cases w with
  | uint128 => rfl
  | uint256 =>
    have hroom : (bytes n).length ≤ byteRoom ↔ n < limit uint256 :=
      length_bytes_le_iff (by decide)
    change (if byteRoom < (bytes n).length then none
      else some (BitVec.ofNat (bits uint256) (ofBytes (bytes n)))) = _
    rw [ofBytes_bytes]
    by_cases hn : n < limit uint256
    · rw [if_neg (Nat.not_lt.mpr (hroom.mpr hn)), if_pos hn]
    · rw [if_pos (Nat.not_le.mp (mt hroom.mp hn)), if_neg hn]

end Word

namespace Position

section Narrow

variable {p : Position} {w : Word}

theorem toWord_eq (p : Position) (w : Word) :
    p.toWord w = if p.gindex < w.limit then .ok (BitVec.ofNat w.bits p.gindex)
      else .error (.overflow (.word p.gindex w)) := by
  unfold toWord
  rw [Word.narrow?_eq]
  by_cases hfits : p.gindex < w.limit
  · rw [if_pos hfits, if_pos hfits]
  · rw [if_neg hfits, if_neg hfits]

/-- The indices of the nodes of one depth all fit in a word or none of them does. -/
theorem gindex_lt_wordLimit_iff (hp : p.Valid) : p.gindex < w.limit ↔ p.depth < w.bits := by
  obtain ⟨hlow, hhigh⟩ := gindex_bounds p hp
  rw [Word.limit_eq]
  constructor
  · intro h
    apply Nat.lt_of_not_le
    intro hdeep
    have hwide := width_le_width hdeep
    omega
  · intro h
    exact Nat.lt_of_lt_of_le hhigh (width_le_width h)

theorem toWord_eq_ok (hp : p.Valid) {g : BitVec w.bits} :
    p.toWord w = .ok g ↔ p.depth < w.bits ∧ g.toNat = p.gindex := by
  rw [toWord_eq, guard_eq_ok, Except.ok.injEq, ← gindex_lt_wordLimit_iff hp]
  apply and_congr_right
  intro hfits
  have hkept : (BitVec.ofNat w.bits p.gindex).toNat = p.gindex := by
    have hpow : p.gindex < 2 ^ w.bits := by
      rw [← Nat.one_shiftLeft]
      exact hfits
    rw [BitVec.toNat_ofNat, Nat.mod_eq_of_lt hpow]
  rw [← BitVec.toNat_inj, hkept, eq_comm]

theorem exists_toWord_iff (hp : p.Valid) : (∃ g, p.toWord w = .ok g) ↔ p.depth < w.bits := by
  rw [← gindex_lt_wordLimit_iff hp]
  simp only [toWord_eq, guard_eq_ok, exists_and_left, Except.ok.injEq, exists_eq', and_true]

theorem toWord_of_deep (hp : p.Valid) (hdeep : w.bits ≤ p.depth) :
    p.toWord w = .error (.overflow (.word p.gindex w)) := by
  have hwide : ¬p.gindex < w.limit := mt (gindex_lt_wordLimit_iff hp).mp (Nat.not_lt.mpr hdeep)
  rw [toWord_eq, if_neg hwide]

theorem ofGindex_toNat (g : BitVec 128) : ofGindex g.toNat = .ok (ofWord g) := by
  rw [ofGindex_eq, if_pos (toNat_lt_gindexLimit g)]
  rfl

end Narrow

/-- A position goes into a word exactly if its depth is below the number of bits, at most 127 for
the small word and at most 255 for the large one. It then keeps its index whole; otherwise the
refusal shows the index in decimal and names the word. The other way every small word is an
index, read without a look at its width as it is read with one. Back and forth it stays the same
but for zero, which comes back as one, and a position comes back as it was. -/
theorem toWord_narrows_by_depth :
    (∀ p : Position, p.Valid →
      ((∃ g, p.toWord .uint128 = .ok g) ↔ p.depth ≤ 127) ∧
      ((∃ g, p.toWord .uint256 = .ok g) ↔ p.depth ≤ 255) ∧
      (∀ w g, p.toWord w = .ok g → g.toNat = p.gindex) ∧
      (127 < p.depth → ∃ what : Overflow, p.toWord .uint128 = .error (.overflow what) ∧
        what.value = toString p.gindex ∧ what.target = "u128") ∧
      (255 < p.depth → ∃ what : Overflow, p.toWord .uint256 = .error (.overflow what) ∧
        what.value = toString p.gindex ∧ what.target = "U256")) ∧
    (∀ g : BitVec 128, ofGindex g.toNat = .ok (ofWord g) ∧
      ∃ h, (ofWord g).toWord .uint128 = .ok h ∧ h.toNat = max g.toNat 1) ∧
    (∀ (p : Position) (g : BitVec 128), p.Valid → p.toWord .uint128 = .ok g → ofWord g = p) := by
  refine ⟨?_, ?_, ?_⟩
  · intro p hp
    refine ⟨?_, ?_, ?_, ?_, ?_⟩
    · exact (exists_toWord_iff hp).trans Nat.lt_succ_iff
    · exact (exists_toWord_iff hp).trans Nat.lt_succ_iff
    · intro w g h
      exact ((toWord_eq_ok hp).mp h).2
    · intro hdeep
      exact ⟨_, toWord_of_deep hp hdeep, rfl, rfl⟩
    · intro hdeep
      exact ⟨_, toWord_of_deep hp hdeep, rfl, rfl⟩
  · intro g
    have hvalid := ofWord_valid g
    have hcode : (ofWord g).gindex = max g.toNat 1 :=
      gindex_decode_eq_max (toNat_lt_gindexLimit g)
    have hfits : (ofWord g).gindex < Word.limit .uint128 := by
      rw [hcode]
      exact Nat.max_lt.mpr ⟨g.isLt, by decide⟩
    obtain ⟨h, hh⟩ := (exists_toWord_iff hvalid).mpr ((gindex_lt_wordLimit_iff hvalid).mp hfits)
    exact ⟨ofGindex_toNat g, h, hh, ((toWord_eq_ok hvalid).mp hh).2.trans hcode⟩
  · intro p g hp h
    have hcode : g.toNat = p.gindex := ((toWord_eq_ok hp).mp h).2
    unfold ofWord
    rw [hcode, decode_gindex p hp]

/-- The last node of depth 127 has the largest number that the small word holds. The first node of
the next depth is one too many for it, as is the first one of depth 256 for the large word. -/
theorem toWord_narrows_by_depth_last :
    (⟨127, width 127 - 1⟩ : Position).Valid ∧
    toWord .uint128 ⟨127, width 127 - 1⟩ = .ok (BitVec.ofNat 128 (width 128 - 1)) ∧
    (∀ g, toWord .uint256 ⟨127, width 127 - 1⟩ = .ok g → g.toNat = width 128 - 1) ∧
    ofWord (BitVec.ofNat 128 (width 128 - 1)) = ⟨127, width 127 - 1⟩ ∧
    (⟨128, 0⟩ : Position).Valid ∧ 127 < 128 ∧
    (∃ what : Overflow, toWord .uint128 ⟨128, 0⟩ = .error (.overflow what) ∧
      what.value = toString (width 128) ∧ what.target = "u128") ∧
    (∃ g, toWord .uint256 ⟨128, 0⟩ = .ok g) ∧
    (⟨256, 0⟩ : Position).Valid ∧ 255 < 256 ∧
    (∃ what : Overflow, toWord .uint256 ⟨256, 0⟩ = .error (.overflow what) ∧
      what.value = toString (width 256) ∧ what.target = "U256") := by
  obtain ⟨hdepth, -, hback⟩ := toWord_narrows_by_depth
  have hlast : (⟨127, width 127 - 1⟩ : Position).Valid := by decide
  have hnext : (⟨128, 0⟩ : Position).Valid := by decide
  have hdeep : (⟨256, 0⟩ : Position).Valid := by decide
  have hword : toWord .uint128 ⟨127, width 127 - 1⟩ = .ok (BitVec.ofNat 128 (width 128 - 1)) := rfl
  obtain ⟨-, -, hkept, -, -⟩ := hdepth _ hlast
  obtain ⟨-, hlarge, -, hsmall, -⟩ := hdepth _ hnext
  obtain ⟨-, -, -, -, htoo⟩ := hdepth _ hdeep
  exact ⟨hlast, hword, hkept .uint256, hback _ _ hlast hword, hnext, by decide,
    hsmall (by decide), hlarge.mpr (by decide), hdeep, by decide, htoo (by decide)⟩

end Position

end DisputeGame
