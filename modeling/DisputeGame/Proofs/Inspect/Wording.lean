import DisputeGame.Inspect.Report

/-!
Lines of a report as lines of text. The words of a line, the numbers in it and the digits of
a value hold no line break, so what is printed for one line of the report is one line, and
the lines that are printed can be counted.
-/

namespace DisputeGame

open Inspect

namespace Text

def Unbroken (text : String) : Prop := '\n' ∉ text.toList

instance (text : String) : Decidable (Unbroken text) := inferInstanceAs (Decidable (¬_))

theorem Unbroken.append {a b : String} (ha : Unbroken a) (hb : Unbroken b) :
    Unbroken (a ++ b) := by
  unfold Unbroken
  rw [String.toList_append, List.mem_append, not_or]
  exact ⟨ha, hb⟩

theorem unbroken_number (n : Nat) : Unbroken (toString n) := by
  intro h
  change '\n' ∈ n.repr.toList at h
  rw [Nat.toList_repr] at h
  have hdigit := Nat.isDigit_of_mem_toDigits (by decide) (by decide) h
  revert hdigit
  decide

end Text

open Text

theorem ClaimValue.newline_notMem_encodeByte (b : UInt8) : '\n' ∉ encodeByte b := by
  have hdigit : ∀ n, n < 16 → '\n' ≠ Nat.digitChar n := by decide
  have hbyte : b.toNat < 256 := b.toNat_lt
  have hhigh := hdigit (b.toNat / 16) (by omega)
  have hlow := hdigit (b.toNat % 16) (by omega)
  simp only [encodeByte, List.mem_cons, List.not_mem_nil, or_false, not_or]
  exact ⟨hhigh, hlow⟩

theorem ClaimValue.unbroken_display (v : ClaimValue) : Unbroken v.display := by
  unfold Unbroken display encode
  simp [newline_notMem_encodeByte]

theorem Position.unbroken_display (p : Position) : Unbroken p.display :=
  (((((unbroken_number p.depth).append (by decide)).append (unbroken_number p.index)).append
    (by decide)).append (unbroken_number p.gindex)).append (by decide)

theorem Refusal.unbroken_message (why : Refusal) : Unbroken why.message := by
  cases why with
  | exceedsMaxDepth depth maxDepth =>
    have hdepth : Unbroken (toString "claim depth " ++ toString depth) :=
      .append (by decide) (unbroken_number depth)
    exact (hdepth.append (by decide)).append (unbroken_number maxDepth)
  | unexpectedIndex expected got =>
    have hexpected : Unbroken (toString "expected claim index " ++ toString expected) :=
      .append (by decide) (unbroken_number expected)
    exact (hexpected.append (by decide)).append (unbroken_number got)
  | duplicate gindex => exact .append (by decide) (unbroken_number gindex)
  | missingParent index =>
    exact (Unbroken.append (by decide) (unbroken_number index)).append (by decide)

namespace Inspect

theorem Relation.unbroken_text (r : Relation) : Unbroken r.text := by
  cases r with
  | root => decide
  | defends => decide
  | doesNotDefend => decide

/-- What is printed for one line is one line. -/
theorem Line.unbroken_text (line : Line) : Unbroken line.text := by
  have hclaim : ∀ index : Nat, Unbroken (toString "claim " ++ toString index) := by
    intro index
    exact .append (by decide) (unbroken_number index)
  cases line with
  | position p => exact .append (by decide) p.unbroken_display
  | traceIndex index => exact .append (by decide) (unbroken_number index)
  | attack p => exact .append (by decide) p.unbroken_display
  | defense p => exact .append (by decide) p.unbroken_display
  | parent p => exact .append (by decide) p.unbroken_display
  | relative p result =>
    exact (p.unbroken_display.append (by decide)).append result.unbroken_display
  | repeated index => exact (hclaim index).append (by decide)
  | orphaned index answered =>
    exact (((hclaim index).append (by decide)).append (unbroken_number answered)).append
      (by decide)
  | rejected index why => exact ((hclaim index).append (by decide)).append why.unbroken_message
  | slot index p value relation =>
    have hslot : Unbroken (toString "slot " ++ toString index) :=
      .append (by decide) (unbroken_number index)
    have hplace : Unbroken (toString "slot " ++ toString index ++ toString " at " ++ p.display) :=
      (hslot.append (by decide)).append p.unbroken_display
    exact (((hplace.append (by decide)).append value.unbroken_display).append
      (by decide)).append relation.unbroken_text

end Inspect

end DisputeGame
