import DisputeGame.Text.Blank

/-!
Trimming, told by what it leaves. A text is trimmed to the part of it that has nothing but
blanks on both sides and neither begins nor ends with one; there is exactly one such part.
-/

namespace DisputeGame.Text

section Runs

variable {α : Type} {p : α → Bool} {run rest : List α}

/-- A run of elements of one kind ends where another kind begins, -/
theorem takeWhile_run (hrun : ∀ a ∈ run, p a = true)
    (hrest : ∀ a, rest.head? = some a → p a = false) : (run ++ rest).takeWhile p = run := by
  rw [List.takeWhile_append_of_pos hrun]
  cases rest with
  | nil => exact List.append_nil run
  | cons a tail => rw [List.takeWhile_cons_of_neg (by simp [hrest a rfl]), List.append_nil]

/-- and what is left after it begins there. -/
theorem dropWhile_run (hrun : ∀ a ∈ run, p a = true)
    (hrest : ∀ a, rest.head? = some a → p a = false) : (run ++ rest).dropWhile p = rest := by
  rw [List.dropWhile_append_of_pos hrun]
  cases rest with
  | nil => rfl
  | cons a tail => rw [List.dropWhile_cons_of_neg (by simp [hrest a rfl])]

theorem head?_dropWhile_eq {s : List α} {a : α} (h : (s.dropWhile p).head? = some a) :
    p a = false := by
  have hnot := List.head?_dropWhile_not p s
  rw [h] at hnot
  exact hnot

end Runs

namespace Blank

def AllBlank (s : List Char) : Prop := ∀ c ∈ s, isBlank c = true

theorem allBlank_nil : AllBlank [] := fun _ hc => absurd hc List.not_mem_nil

/-- Neither end of a text is blank. -/
def IsTrim (s : List Char) : Prop :=
  (∀ c, s.head? = some c → isBlank c = false) ∧ ∀ c, s.getLast? = some c → isBlank c = false

/-- The second text is the first one without the blanks around it. -/
def Trims (s t : List Char) : Prop :=
  ∃ before behind, s = before ++ t ++ behind ∧ AllBlank before ∧ AllBlank behind ∧ IsTrim t

theorem trimEnd_append {t behind : List Char} (hbehind : AllBlank behind)
    (ht : ∀ c, t.getLast? = some c → isBlank c = false) : trimEnd (t ++ behind) = t := by
  have hreverse : ∀ c ∈ behind.reverse, isBlank c = true :=
    fun c hc => hbehind c (List.mem_reverse.mp hc)
  unfold trimEnd
  rw [List.reverse_append, dropWhile_run hreverse (by rwa [List.head?_reverse]),
    List.reverse_reverse]

theorem Trims.trim_eq {s t : List Char} (h : Trims s t) : trim s = t := by
  obtain ⟨before, behind, rfl, hbefore, hbehind, hhead, hlast⟩ := h
  unfold trim trimStart
  cases t with
  | nil =>
    have hall : ∀ c ∈ before ++ [] ++ behind, isBlank c = true := by
      intro c hc
      rw [List.append_nil, List.mem_append] at hc
      exact hc.elim (hbefore c) (hbehind c)
    rw [← List.append_nil (before ++ [] ++ behind), dropWhile_run hall (by simp)]
    rfl
  | cons c rest =>
    rw [List.append_assoc, dropWhile_run hbefore (by simpa using hhead),
      trimEnd_append hbehind hlast]

theorem trims_trim (s : List Char) : Trims s (trim s) := by
  have hfront : s = s.takeWhile isBlank ++ trimStart s := List.takeWhile_append_dropWhile.symm
  have hback : trimStart s = trim s ++ ((trimStart s).reverse.takeWhile isBlank).reverse := by
    unfold trim trimEnd
    rw [← List.reverse_append, List.takeWhile_append_dropWhile, List.reverse_reverse]
  refine ⟨s.takeWhile isBlank, ((trimStart s).reverse.takeWhile isBlank).reverse,
    ?_, ?_, ?_, ?_, ?_⟩
  · rw [List.append_assoc, ← hback, ← hfront]
  · exact fun c hc => List.all_eq_true.mp List.all_takeWhile c hc
  · exact fun c hc => List.all_eq_true.mp List.all_takeWhile c (List.mem_reverse.mp hc)
  · intro c hc
    have hstart : (trimStart s).head? = some c := by
      rw [hback, List.head?_append, hc]
      rfl
    exact head?_dropWhile_eq hstart
  · intro c hc
    unfold trim trimEnd at hc
    rw [List.getLast?_reverse] at hc
    exact head?_dropWhile_eq hc

theorem Trims.unique {s t t' : List Char} (h : Trims s t) (h' : Trims s t') : t = t' :=
  h.trim_eq.symm.trans h'.trim_eq

end Blank

end DisputeGame.Text
