import DisputeGame.Proofs.Game.Runs
import DisputeGame.Proofs.Tree.Numbering

/-!
What is left of a run. Every call answers and leaves a game behind. The claims whose calls
succeed make a run of their own, in which nothing is refused and which ends in the same game;
the list of the game is made of just these, in the order of the calls. A slot that is filled
stays as it is.
-/

namespace DisputeGame.Game

/-- The answers to a run of calls, each made on the game that the one before left behind, and
the game that the last one leaves. -/
def callAll (g : Game) : List Claim → List (Except Refusal Unit) × Game
  | [] => ([], g)
  | c :: rest =>
    let (answer, left) := g.call c
    let (answers, last) := left.value.callAll rest
    (answer :: answers, last)

/-- The claims whose calls were answered well. -/
def succeeded (calls : List Claim) (answers : List (Except Refusal Unit)) : List Claim :=
  ((calls.zip answers).filter fun (_, answer) => answer.isOk).map Prod.fst

/-- The claims of a run that the game takes. -/
def taken (g : Game) (calls : List Claim) : List Claim := succeeded calls (g.callAll calls).1

theorem callAll_of_accepts {g : Game} {c : Claim} (h : g.Accepts c) (rest : List Claim) :
    g.callAll (c :: rest) =
      (.ok () :: ((g.append c).callAll rest).1, ((g.append c).callAll rest).2) := by
  rw [callAll, call_of_accepts h]

theorem callAll_of_refusal {g : Game} {c : Claim} {why : Refusal}
    (h : g.call c = (.error why, .silent g)) (rest : List Claim) :
    g.callAll (c :: rest) = (.error why :: (g.callAll rest).1, (g.callAll rest).2) := by
  rw [callAll, h]
  rfl

theorem callAll_snd (g : Game) (calls : List Claim) : (g.callAll calls).2 = g.offerAll calls := by
  induction calls generalizing g with
  | nil => rfl
  | cons c rest ih => exact ih (g.call c).2.value

/-- One call of a run: the claim is appended and kept, or nothing comes of it. -/
theorem call_cases (g : Game) (c : Claim) (rest : List Claim) :
    (g.Accepts c ∧ g.offerAll (c :: rest) = (g.append c).offerAll rest ∧
      g.taken (c :: rest) = c :: (g.append c).taken rest) ∨
    (¬g.Accepts c ∧ g.offerAll (c :: rest) = g.offerAll rest ∧
      g.taken (c :: rest) = g.taken rest) := by
  rw [← callAll_snd, ← callAll_snd, ← callAll_snd]
  unfold taken
  by_cases haccepts : g.Accepts c
  · rw [callAll_of_accepts haccepts]
    exact Or.inl ⟨haccepts, rfl, rfl⟩
  · obtain ⟨why, hcall⟩ := call_of_not_accepts haccepts
    rw [callAll_of_refusal hcall]
    exact Or.inr ⟨haccepts, rfl, rfl⟩

/-- The claims that are taken are called one after the other without a refusal, and the game is
then the one that the whole run leaves behind. -/
theorem callAll_taken (g : Game) (calls : List Claim) :
    g.callAll (g.taken calls) =
      ((g.taken calls).map fun _ => .ok (), (g.callAll calls).2) := by
  rw [callAll_snd]
  induction calls generalizing g with
  | nil => rfl
  | cons c rest ih =>
    rcases call_cases g c rest with ⟨haccepts, hrun, htaken⟩ | ⟨-, hrun, htaken⟩
    · rw [hrun, htaken, callAll_of_accepts haccepts, ih (g.append c)]
      rfl
    · rw [hrun, htaken]
      exact ih g

/-- As a fold that a refusal would have ended. -/
theorem foldlM_put_taken (g : Game) (calls : List Claim) :
    (g.taken calls).foldlM put g = .ok (g.offerAll calls) := by
  induction calls generalizing g with
  | nil => rfl
  | cons c rest ih =>
    rcases call_cases g c rest with ⟨haccepts, hrun, htaken⟩ | ⟨-, hrun, htaken⟩
    · rw [hrun, htaken, List.foldlM_cons, put_of_accepts haccepts, ok_bind]
      exact ih (g.append c)
    · rw [hrun, htaken]
      exact ih g

theorem claims_offerAll (g : Game) (calls : List Claim) :
    (g.offerAll calls).claims.toList = g.claims.toList ++ g.taken calls := by
  induction calls generalizing g with
  | nil => exact (List.append_nil _).symm
  | cons c rest ih =>
    rcases call_cases g c rest with ⟨-, hrun, htaken⟩ | ⟨-, hrun, htaken⟩
    · rw [hrun, htaken, ih, claims_append, List.append_assoc, List.singleton_append]
    · rw [hrun, htaken, ih]

theorem taken_sublist (g : Game) (calls : List Claim) : (g.taken calls).Sublist calls := by
  induction calls generalizing g with
  | nil => exact List.Sublist.refl []
  | cons c rest ih =>
    rcases call_cases g c rest with ⟨-, -, htaken⟩ | ⟨-, -, htaken⟩
    · rw [htaken]
      exact (ih _).cons_cons c
    · rw [htaken]
      exact (ih g).cons c

/-- A run without a refusal keeps all of its claims. -/
theorem taken_of_foldlM_put {g next : Game} {calls : List Claim}
    (h : calls.foldlM put g = .ok next) : g.taken calls = calls ∧ g.offerAll calls = next := by
  induction calls generalizing g with
  | nil => exact ⟨rfl, Except.ok.inj h⟩
  | cons c rest ih =>
    obtain ⟨mid, hmid, hrest⟩ := foldlM_cons_eq_ok.mp h
    obtain ⟨haccepts, rfl⟩ := accepts_of_put hmid
    rcases call_cases g c rest with ⟨-, hrun, htaken⟩ | ⟨hrefused, -, -⟩
    · obtain ⟨hkept, hlast⟩ := ih hrest
      rw [htaken, hrun, hkept]
      exact ⟨rfl, hlast⟩
    · exact absurd haccepts hrefused

theorem get?_offerAll_of_some {g : Game} {i : Nat} {c : Claim} (calls : List Claim)
    (h : g.get? i = some c) : (g.offerAll calls).get? i = some c :=
  offerAll_induction (P := fun next => next.get? i = some c) calls h
    (fun _ e hold _ => get?_append_of_some e hold)

/-- A refusal leaves no trace. A call that is refused, for whatever reason and on whatever game,
leaves the claims of the game and the set of what they say as they were. So of the calls of a
run those that failed may be left out: every one of the others then succeeds, and they end in
the same game. Its list holds their claims, in the order of the calls. What a slot has held
once, it holds at every later point. -/
theorem refusals_leave_no_trace (maxDepth : Nat) (calls : List Claim) :
    let start := empty maxDepth
    let answers := (start.callAll calls).1
    let last := (start.callAll calls).2
    let kept := succeeded calls answers
    (∀ (g : Game) c why, (g.call c).1 = .error why → (g.call c).2 = .silent g) ∧
    start.callAll kept = (kept.map fun _ => .ok (), last) ∧
    kept.foldlM put start = .ok last ∧
    last.claims.toList = kept ∧
    ∀ m n i c, m ≤ n → (start.callAll (calls.take m)).2.get? i = some c →
      (start.callAll (calls.take n)).2.get? i = some c := by
  intro start answers last kept
  have hlast : last = start.offerAll calls := callAll_snd start calls
  refine ⟨fun _ _ _ h => call_of_refusal h, callAll_taken start calls, ?_, ?_, ?_⟩
  · rw [hlast]
    exact foldlM_put_taken start calls
  · rw [hlast]
    exact claims_offerAll start calls
  · intro m n i c hmn h
    have hsplit : calls.take m ++ (calls.take n).drop m = calls.take n := by
      have hparts := List.take_append_drop m (calls.take n)
      rwa [List.take_take, Nat.min_eq_left hmn] at hparts
    rw [callAll_snd] at h ⊢
    rw [← hsplit, offerAll_append]
    exact get?_offerAll_of_some _ h

/-- A run with a claim at the root and an attack on it, and between them a claim that lies too
deep, one for another slot, a repetition and an answer to no claim. -/
theorem refusals_leave_no_trace_four :
    let top : Claim := ⟨⟨default, ⟨0, 0⟩⟩, 0, 0⟩
    let deep : Claim := ⟨⟨default, ⟨4, 0⟩⟩, 1, 0⟩
    let misplaced : Claim := ⟨⟨default, ⟨1, 0⟩⟩, 5, 0⟩
    let repeated : Claim := ⟨⟨default, ⟨0, 0⟩⟩, 1, 0⟩
    let orphan : Claim := ⟨⟨default, ⟨1, 0⟩⟩, 1, 7⟩
    let left : Claim := ⟨⟨default, ⟨1, 0⟩⟩, 1, 0⟩
    let calls := [top, deep, misplaced, repeated, orphan, left]
    let one := (empty 3).append top
    ((empty 3).callAll calls).1 = [.ok (), .error (.exceedsMaxDepth 4 3),
      .error (.unexpectedIndex 1 5), .error (.duplicate 1), .error (.missingParent 7), .ok ()] ∧
    (one.call deep).2 = .silent one ∧ (one.call misplaced).2 = .silent one ∧
    (one.call repeated).2 = .silent one ∧ (one.call orphan).2 = .silent one ∧
    (empty 3).callAll [top, left] = ([.ok (), .ok ()], ((empty 3).callAll calls).2) ∧
    ((empty 3).callAll calls).2.claims.toList = [top, left] ∧
    ((empty 3).callAll (calls.take 1)).2.get? 0 = some top ∧
    ((empty 3).callAll (calls.take 5)).2.get? 0 = some top := by
  intro top deep misplaced repeated orphan left calls one
  have hfresh : one.isDuplicate left = false :=
    isDuplicate_append_elsewhere (by decide) (isDuplicate_empty 3 left)
  have htop : (empty 3).Accepts top := ⟨by decide, rfl, isDuplicate_empty 3 top, Or.inl rfl⟩
  have hdeep : one.call deep = (.error (.exceedsMaxDepth 4 3), .silent one) :=
    call_of_deep (by decide)
  have hmisplaced : one.call misplaced = (.error (.unexpectedIndex 1 5), .silent one) :=
    call_of_misplaced (by decide) (by decide)
  have hrepeated : one.call repeated = (.error (.duplicate 1), .silent one) := by
    have hcode : repeated.position.gindex = 1 := by decide
    have hdup : one.isDuplicate repeated = true :=
      (isDuplicate_append (empty 3) top repeated).mpr (Or.inl rfl)
    rw [call_of_repeated (by decide) rfl hdup, hcode]
  have horphan : one.call orphan = (.error (.missingParent 7), .silent one) :=
    call_of_orphaned (by decide) rfl hfresh rfl (by decide)
  have hleft : one.Accepts left := ⟨by decide, rfl, hfresh, Or.inr (by decide)⟩
  have hanswers : ((empty 3).callAll calls).1 = [.ok (), .error (.exceedsMaxDepth 4 3),
      .error (.unexpectedIndex 1 5), .error (.duplicate 1), .error (.missingParent 7),
      .ok ()] := by
    rw [callAll_of_accepts htop, callAll_of_refusal hdeep, callAll_of_refusal hmisplaced,
      callAll_of_refusal hrepeated, callAll_of_refusal horphan, callAll_of_accepts hleft]
    rfl
  have hone : ((empty 3).callAll (calls.take 1)).2.get? 0 = some top := by
    change ((empty 3).callAll [top]).2.get? 0 = some top
    rw [callAll_of_accepts htop]
    rfl
  obtain ⟨hrefusal, hkept, -, hclaims, hstays⟩ := refusals_leave_no_trace 3 calls
  have hsucceeded : succeeded calls ((empty 3).callAll calls).1 = [top, left] := by
    rw [hanswers]
    rfl
  rw [hsucceeded] at hkept hclaims
  exact ⟨hanswers, hrefusal one deep _ (congrArg Prod.fst hdeep),
    hrefusal one misplaced _ (congrArg Prod.fst hmisplaced),
    hrefusal one repeated _ (congrArg Prod.fst hrepeated),
    hrefusal one orphan _ (congrArg Prod.fst horphan), hkept, hclaims, hone,
    hstays 1 5 0 top (by decide) hone⟩

end DisputeGame.Game
