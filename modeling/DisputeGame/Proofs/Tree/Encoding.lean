import DisputeGame.Proofs.Tree.Numbering

/-!
The generalized index as the code of a position. The bit of the depth stands above every
index of that depth, so the codes of one depth fill the stretch from its width up to the
width of the next one: the highest bit tells the depth and what is left tells the index.
Codes are the numbers from one up to the width below the last level, in the order of the
levels and within a level from the left.
-/

namespace DisputeGame.Position

open Depth

/-- The first number that is no code: one bit wider than any node of the last level. -/
def gindexLimit : Nat := width (limit + 1)

theorem topBit_eq_iff {g d : Nat} (hg : 0 < g) :
    topBit g = d ↔ width d ≤ g ∧ g < width (d + 1) := by
  unfold topBit width
  rw [Nat.one_shiftLeft, Nat.one_shiftLeft]
  exact Nat.log2_eq_iff (Nat.ne_of_gt hg)

theorem topBit_le_iff (g d : Nat) : topBit g ≤ d ↔ g < width (d + 1) := by
  rw [← bitCount_le_iff]
  unfold topBit bitCount
  by_cases hg : g = 0
  · simp [hg]
  · rw [if_neg hg]
    exact Nat.add_le_add_iff_right.symm

theorem gindex_eq (p : Position) (hp : p.Valid) : p.gindex = width p.depth + p.index := by
  have h := shiftLeft_or 1 p.depth p.index hp.2
  rw [Nat.one_mul] at h
  exact h

theorem gindex_bounds (p : Position) (hp : p.Valid) :
    width p.depth ≤ p.gindex ∧ p.gindex < width (p.depth + 1) := by
  have hindex := hp.2
  rw [gindex_eq p hp, width_succ]
  exact ⟨by omega, by omega⟩

theorem gindex_pos (p : Position) (hp : p.Valid) : 0 < p.gindex :=
  Nat.lt_of_lt_of_le (width_pos p.depth) (gindex_bounds p hp).1

theorem gindex_lt_limit (p : Position) (hp : p.Valid) : p.gindex < gindexLimit :=
  Nat.lt_of_lt_of_le (gindex_bounds p hp).2 (width_le_width (Nat.succ_le_succ hp.1))

/-- Every number but zero is the width of its depth and an index below it. -/
theorem decode_bounds {g : Nat} (hg : 0 < g) :
    width (decode g).depth + (decode g).index = g ∧
      (decode g).index < width (decode g).depth := by
  obtain ⟨hlow, hhigh⟩ := (topBit_eq_iff hg).mp rfl
  rw [width_succ] at hhigh
  change width (topBit g) + (g - width (topBit g)) = g ∧
    g - width (topBit g) < width (topBit g)
  exact ⟨by omega, by omega⟩

theorem decode_zero : decode 0 = root := rfl

theorem decode_valid {g : Nat} (hg : g < gindexLimit) : (decode g).Valid := by
  refine ⟨(topBit_le_iff g limit).mpr hg, ?_⟩
  rcases Nat.eq_zero_or_pos g with rfl | hpos
  · exact width_pos 0
  · exact (decode_bounds hpos).2

theorem decode_gindex (p : Position) (hp : p.Valid) : decode p.gindex = p := by
  have hdepth : topBit p.gindex = p.depth :=
    (topBit_eq_iff (gindex_pos p hp)).mpr (gindex_bounds p hp)
  unfold decode
  rw [hdepth, gindex_eq p hp, Nat.add_sub_cancel_left]

theorem decode_of_gindex {p : Position} {g : Nat} (hp : p.Valid) (h : p.gindex = g) :
    decode g = p := by
  rw [← h, decode_gindex p hp]

theorem gindex_inj {p q : Position} (hp : p.Valid) (hq : q.Valid) :
    p.gindex = q.gindex ↔ p = q := by
  constructor
  · intro h
    rw [← decode_gindex p hp, h, decode_gindex q hq]
  · intro h
    rw [h]

theorem gindex_decode {g : Nat} (hpos : 0 < g) (hg : g < gindexLimit) :
    (decode g).gindex = g := by
  rw [gindex_eq _ (decode_valid hg)]
  exact (decode_bounds hpos).1

/-- A position has a code that is never zero, so zero takes the code of the root. -/
theorem gindex_decode_eq_max {g : Nat} (hg : g < gindexLimit) :
    (decode g).gindex = max g 1 := by
  rcases Nat.eq_zero_or_pos g with rfl | hpos
  · rfl
  · rw [gindex_decode hpos hg, Nat.max_eq_left hpos]

theorem decode_eq_iff {g h : Nat} (hg : g < gindexLimit) (hh : h < gindexLimit) :
    decode g = decode h ↔ max g 1 = max h 1 := by
  rw [← gindex_inj (decode_valid hg) (decode_valid hh), gindex_decode_eq_max hg,
    gindex_decode_eq_max hh]

theorem ofGindex_eq (g : Nat) :
    ofGindex g = if g < gindexLimit then .ok (decode g)
      else .error (.overflow (.position (bitCount g))) := by
  unfold ofGindex gindexLimit
  simp only [topBit_le_iff]

theorem ofGindex_gindex {p : Position} (hp : p.Valid) : ofGindex p.gindex = .ok p := by
  rw [ofGindex_eq, if_pos (gindex_lt_limit p hp), decode_gindex p hp]

/-- A level comes before every deeper one, and its nodes stand from left to right. -/
theorem gindex_lt_gindex_iff (p q : Position) (hp : p.Valid) (hq : q.Valid) :
    p.gindex < q.gindex ↔ p.depth < q.depth ∨ p.depth = q.depth ∧ p.index < q.index := by
  -- the codes of a level end before those of the next one begin
  have hlevels : ∀ {a b : Position}, a.Valid → b.Valid → a.depth < b.depth →
      a.gindex < b.gindex := by
    intro a b ha hb hlt
    exact Nat.lt_of_lt_of_le (gindex_bounds a ha).2
      (Nat.le_trans (width_le_width hlt) (gindex_bounds b hb).1)
  rcases Nat.lt_trichotomy p.depth q.depth with hlt | heq | hgt
  · have hcodes := hlevels hp hq hlt
    exact ⟨fun _ => Or.inl hlt, fun _ => hcodes⟩
  · rw [gindex_eq p hp, gindex_eq q hq, heq]
    omega
  · have hcodes := hlevels hq hp hgt
    omega

/-- Positions and the numbers from one up to the limit are in one order, each the code of the
other. Zero stands for the root, and only a number at the limit or above it is refused. -/
theorem gindex_orderIso :
    (∀ p : Position, p.Valid →
      1 ≤ p.gindex ∧ p.gindex < gindexLimit ∧ ofGindex p.gindex = .ok p) ∧
    (∀ g, 1 ≤ g → g < gindexLimit →
      ∃ p : Position, ofGindex g = .ok p ∧ p.Valid ∧ p.gindex = g ∧
        ∀ d, p.depth = d ↔ width d ≤ g ∧ g < width (d + 1)) ∧
    (∀ p q : Position, p.Valid → q.Valid →
      (p.gindex < q.gindex ↔ p.depth < q.depth ∨ p.depth = q.depth ∧ p.index < q.index)) ∧
    ofGindex 0 = .ok root ∧
    (∀ g, (∃ why, ofGindex g = .error why) ↔ gindexLimit ≤ g) ∧
    (∀ g why, ofGindex g = .error why →
      ∃ what, why = .overflow what ∧ what.target = "Position") := by
  refine ⟨?_, ?_, gindex_lt_gindex_iff, ?_, ?_, ?_⟩
  · intro p hp
    have hlt := gindex_lt_limit p hp
    exact ⟨gindex_pos p hp, hlt, by rw [ofGindex_eq, if_pos hlt, decode_gindex p hp]⟩
  · intro g hpos hlt
    refine ⟨decode g, by rw [ofGindex_eq, if_pos hlt], decode_valid hlt,
      gindex_decode hpos hlt, fun d => topBit_eq_iff hpos⟩
  · have hzero : 0 < gindexLimit := width_pos (limit + 1)
    rw [ofGindex_eq, if_pos hzero, decode_zero]
  · intro g
    rw [ofGindex_eq]
    by_cases hlt : g < gindexLimit
    · simp [hlt]
    · simp [hlt, Nat.le_of_not_lt hlt]
  · intro g why h
    rw [ofGindex_eq] at h
    by_cases hlt : g < gindexLimit
    · simp [hlt] at h
    · rw [if_neg hlt] at h
      exact ⟨_, (Except.error.inj h).symm, rfl⟩

/-- The sixth node of the fourth level, before the first one of the next level, and the first
number that is too wide. -/
theorem gindex_orderIso_thirteen :
    (⟨3, 5⟩ : Position).Valid ∧ (⟨4, 0⟩ : Position).Valid ∧ gindex ⟨3, 5⟩ = 13 ∧
    ofGindex 13 = .ok ⟨3, 5⟩ ∧
    (∃ p : Position, ofGindex 13 = .ok p ∧ p.Valid ∧ p.gindex = 13 ∧
      ∀ d, p.depth = d ↔ width d ≤ 13 ∧ 13 < width (d + 1)) ∧
    (gindex ⟨3, 5⟩ < gindex ⟨4, 0⟩ ↔ 3 < 4 ∨ 3 = 4 ∧ 5 < 0) ∧
    ∃ why, ofGindex gindexLimit = .error why ∧
      ∃ what, why = .overflow what ∧ what.target = "Position" := by
  obtain ⟨hcode, hnumber, horder, -, hrefused, hwhy⟩ := gindex_orderIso
  have hp : (⟨3, 5⟩ : Position).Valid := by decide
  have hq : (⟨4, 0⟩ : Position).Valid := by decide
  have hlimit : 13 < gindexLimit :=
    Nat.lt_of_lt_of_le (by decide : 13 < width 4) (width_le_width (by decide))
  obtain ⟨why, herror⟩ := (hrefused gindexLimit).mpr (Nat.le_refl _)
  exact ⟨hp, hq, rfl, (hcode _ hp).2.2, hnumber 13 (by decide) hlimit, horder _ _ hp hq,
    why, herror, hwhy _ _ herror⟩

end DisputeGame.Position
