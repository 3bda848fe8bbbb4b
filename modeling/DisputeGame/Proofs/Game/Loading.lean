import DisputeGame.Proofs.Game.History
import Mathlib.Data.List.Induction

/-!
Which lists of claims load. A game that is made of a list takes its claims one by one and
gives up at the first refusal. Here the condition is read off the list: every claim has to
be in its turn behind those before it. A list that loads is the list of the game; of one that
does not, the first claim out of its turn tells the refusal. What a run leaves behind loads,
and the game is then the same one again.
-/

namespace DisputeGame.Game

/-- What is asked of a claim behind the claims `earlier`. -/
structure InTurn (maxDepth : Nat) (earlier : List Claim) (c : Claim) : Prop where
  shallow : c.position.depth ≤ maxDepth
  next : c.contractIndex = earlier.length
  fresh : ∀ e ∈ earlier, e.toClaimData ≠ c.toClaimData
  answers : c.isRoot = true ∨ c.parentIndex < earlier.length

/-- Every claim is in its turn behind those before it. -/
def Orderly (maxDepth : Nat) (cs : List Claim) : Prop :=
  ∀ i c, cs[i]? = some c → InTurn maxDepth (cs.take i) c

/-- Why a claim is out of its turn behind the claims `earlier`. Where there are several
reasons the first of the four counts. -/
inductive Offends (maxDepth : Nat) (earlier : List Claim) (c : Claim) : Refusal → Prop
  | deep (hdeep : maxDepth < c.position.depth) :
      Offends maxDepth earlier c (.exceedsMaxDepth c.position.depth maxDepth)
  | misplaced (hshallow : c.position.depth ≤ maxDepth)
      (hslot : c.contractIndex ≠ earlier.length) :
      Offends maxDepth earlier c (.unexpectedIndex earlier.length c.contractIndex)
  | repeated (hshallow : c.position.depth ≤ maxDepth)
      (hnext : c.contractIndex = earlier.length)
      (hseen : ∃ e ∈ earlier, e.toClaimData = c.toClaimData) :
      Offends maxDepth earlier c (.duplicate c.position.gindex)
  | orphaned (hshallow : c.position.depth ≤ maxDepth)
      (hnext : c.contractIndex = earlier.length)
      (hfresh : ∀ e ∈ earlier, e.toClaimData ≠ c.toClaimData)
      (hroot : c.isRoot = false) (hparent : earlier.length ≤ c.parentIndex) :
      Offends maxDepth earlier c (.missingParent c.parentIndex)

instance (maxDepth : Nat) (earlier : List Claim) (c : Claim) :
    Decidable (InTurn maxDepth earlier c) :=
  decidable_of_iff
    (c.position.depth ≤ maxDepth ∧ c.contractIndex = earlier.length ∧
      (∀ e ∈ earlier, e.toClaimData ≠ c.toClaimData) ∧
      (c.isRoot = true ∨ c.parentIndex < earlier.length))
    ⟨fun h => ⟨h.1, h.2.1, h.2.2.1, h.2.2.2⟩,
      fun h => ⟨h.shallow, h.next, h.fresh, h.answers⟩⟩

instance (maxDepth : Nat) (cs : List Claim) : Decidable (Orderly maxDepth cs) :=
  decidable_of_iff' _ forall_getElem?_iff

variable {maxDepth : Nat} {g : Game}

theorem WellFormed.isDuplicate_eq_false_iff (hg : g.WellFormed) (c : Claim) :
    g.isDuplicate c = false ↔ ∀ e ∈ g.claims.toList, e.toClaimData ≠ c.toClaimData := by
  rw [← Bool.not_eq_true, hg.isDuplicate_iff_mem]
  constructor
  · intro h e he heq
    exact h ⟨e, he, heq⟩
  · intro h hseen
    obtain ⟨e, he, heq⟩ := hseen
    exact h e he heq

theorem WellFormed.accepts_iff (hg : g.WellFormed) (c : Claim) :
    g.Accepts c ↔ InTurn g.maxDepth g.claims.toList c := by
  constructor
  · intro h
    exact ⟨h.shallow, h.next, (hg.isDuplicate_eq_false_iff c).mp h.fresh, h.answers⟩
  · intro h
    exact ⟨h.shallow, h.next, (hg.isDuplicate_eq_false_iff c).mpr h.fresh, h.answers⟩

/-- The guards of the game are these reasons, in this order. -/
theorem WellFormed.put_eq_error_iff (hg : g.WellFormed) (c : Claim) (why : Refusal) :
    g.put c = .error why ↔ Offends g.maxDepth g.claims.toList c why := by
  constructor
  · intro h
    rcases put_outcome g c with ⟨hdeep, hput⟩ | ⟨hshallow, hslot, hput⟩ |
      ⟨hshallow, hnext, hdup, hput⟩ | ⟨hshallow, hnext, hdup, hroot, hparent, hput⟩ | ⟨-, hput⟩
    · cases hput.symm.trans h
      exact .deep hdeep
    · cases hput.symm.trans h
      exact .misplaced hshallow hslot
    · cases hput.symm.trans h
      exact .repeated hshallow hnext ((hg.isDuplicate_iff_mem c).mp hdup)
    · cases hput.symm.trans h
      exact .orphaned hshallow hnext ((hg.isDuplicate_eq_false_iff c).mp hdup) hroot hparent
    · cases hput.symm.trans h
  · intro h
    cases h with
    | deep hdeep => exact put_of_deep hdeep
    | misplaced hshallow hslot => exact put_of_misplaced hshallow hslot
    | repeated hshallow hnext hseen =>
      exact put_of_repeated hshallow hnext ((hg.isDuplicate_iff_mem c).mpr hseen)
    | orphaned hshallow hnext hfresh hroot hparent =>
      have hdup := (hg.isDuplicate_eq_false_iff c).mpr hfresh
      exact put_of_orphaned hshallow hnext hdup hroot hparent

/-- The game that a list loads into. -/
theorem ofClaims_eq_ok {cs : List Claim} (h : ofClaims maxDepth cs = .ok g) :
    g.WellFormed ∧ g.maxDepth = maxDepth ∧ g.claims.toList = cs := by
  obtain ⟨htaken, rfl⟩ := taken_of_foldlM_put h
  refine ⟨offerAll_empty_wellFormed maxDepth cs, maxDepth_offerAll _ cs, ?_⟩
  rw [claims_offerAll, htaken]
  rfl

theorem ofClaims_append (maxDepth : Nat) (before after : List Claim) :
    ofClaims maxDepth (before ++ after) =
      ofClaims maxDepth before >>= fun g => after.foldlM put g := List.foldlM_append

theorem ofClaims_concat (maxDepth : Nat) (cs : List Claim) (c : Claim) :
    ofClaims maxDepth (cs ++ [c]) = ofClaims maxDepth cs >>= fun g => g.put c := by
  simp only [ofClaims_append, List.foldlM_cons, List.foldlM_nil, bind_pure]

theorem orderly_concat (maxDepth : Nat) (cs : List Claim) (c : Claim) :
    Orderly maxDepth (cs ++ [c]) ↔ Orderly maxDepth cs ∧ InTurn maxDepth cs c := by
  constructor
  · intro h
    constructor
    · intro i e he
      have hi := (List.getElem?_eq_some_iff.mp he).1
      have hturn := h i e (by rw [List.getElem?_append_left hi]; exact he)
      rwa [List.take_append_of_le_length (Nat.le_of_lt hi)] at hturn
    · have hturn := h cs.length c List.getElem?_concat_length
      rwa [List.take_left' rfl] at hturn
  · intro h i e he
    obtain ⟨hcs, hc⟩ := h
    rcases getElem?_append_cases he with ⟨rfl, rfl⟩ | ⟨hi, hold⟩
    · rw [List.take_left' rfl]
      exact hc
    · rw [List.take_append_of_le_length (Nat.le_of_lt hi)]
      exact hcs i e hold

theorem exists_ofClaims_iff (maxDepth : Nat) (cs : List Claim) :
    (∃ g, ofClaims maxDepth cs = .ok g) ↔ Orderly maxDepth cs := by
  -- the list grows at its end, as the game does
  induction cs using List.reverseRecOn with
  | nil => exact ⟨fun _ i c h => absurd h (by simp), fun _ => ⟨empty maxDepth, rfl⟩⟩
  | append_singleton cs c ih =>
    rw [orderly_concat, ← ih, ofClaims_concat]
    constructor
    · intro h
      obtain ⟨next, hnext⟩ := h
      obtain ⟨g, hload, hput⟩ := bind_eq_ok.mp hnext
      obtain ⟨hg, rfl, rfl⟩ := ofClaims_eq_ok hload
      exact ⟨⟨g, hload⟩, (hg.accepts_iff c).mp (accepts_of_put hput).1⟩
    · intro h
      obtain ⟨⟨g, hload⟩, hturn⟩ := h
      obtain ⟨hg, rfl, rfl⟩ := ofClaims_eq_ok hload
      have hput := put_of_accepts ((hg.accepts_iff c).mpr hturn)
      exact ⟨g.append c, bind_eq_ok.mpr ⟨g, hload, hput⟩⟩

/-- The first claim that is out of its turn decides the refusal. -/
theorem ofClaims_eq_error_iff (maxDepth : Nat) (cs : List Claim) (why : Refusal) :
    ofClaims maxDepth cs = .error why ↔
      ∃ i c, cs[i]? = some c ∧ Orderly maxDepth (cs.take i) ∧
        Offends maxDepth (cs.take i) c why := by
  constructor
  · intro h
    induction cs using List.reverseRecOn with
    | nil => cases h
    | append_singleton cs c ih =>
      rw [ofClaims_concat] at h
      cases hload : ofClaims maxDepth cs with
      | error other =>
        rw [hload, error_bind] at h
        obtain ⟨i, e, he, horderly, hoffends⟩ := ih (hload.trans h)
        have hi := (List.getElem?_eq_some_iff.mp he).1
        refine ⟨i, e, by rw [List.getElem?_append_left hi]; exact he, ?_⟩
        rw [List.take_append_of_le_length (Nat.le_of_lt hi)]
        exact ⟨horderly, hoffends⟩
      | ok g =>
        rw [hload, ok_bind] at h
        obtain ⟨hg, rfl, rfl⟩ := ofClaims_eq_ok hload
        refine ⟨g.claims.toList.length, c, List.getElem?_concat_length, ?_⟩
        rw [List.take_left' rfl]
        exact ⟨(exists_ofClaims_iff _ _).mp ⟨g, hload⟩, (hg.put_eq_error_iff c why).mp h⟩
  · intro h
    obtain ⟨i, c, hc, horderly, hoffends⟩ := h
    obtain ⟨hi, rfl⟩ := List.getElem?_eq_some_iff.mp hc
    obtain ⟨g, hload⟩ := (exists_ofClaims_iff _ _).mpr horderly
    obtain ⟨hg, rfl, hclaims⟩ := ofClaims_eq_ok hload
    have hput : g.put cs[i] = .error why := by
      rw [hg.put_eq_error_iff, hclaims]
      exact hoffends
    have hfail : ofClaims g.maxDepth (cs.take (i + 1)) = .error why := by
      rw [← List.take_append_getElem hi, ofClaims_concat, hload, ok_bind, hput]
    rw [← List.take_append_drop (i + 1) cs, ofClaims_append, hfail, error_bind]

/-- Nothing of an orderly list is refused. -/
theorem claims_offerAll_of_orderly {cs : List Claim} (h : Orderly maxDepth cs) :
    ((empty maxDepth).offerAll cs).claims.toList = cs := by
  obtain ⟨g, hload⟩ := (exists_ofClaims_iff maxDepth cs).mpr h
  obtain ⟨-, rfl⟩ := taken_of_foldlM_put hload
  exact (ofClaims_eq_ok hload).2.2

/-- What a run leaves behind is loaded again as it is. -/
theorem ofClaims_claims_offerAll (maxDepth : Nat) (calls : List Claim) :
    ofClaims ((empty maxDepth).offerAll calls).maxDepth
      ((empty maxDepth).offerAll calls).claims.toList = .ok ((empty maxDepth).offerAll calls) := by
  rw [maxDepth_offerAll, claims_offerAll]
  exact foldlM_put_taken (empty maxDepth) calls

/-- A list loads exactly if every claim is in its turn behind those before it: not too deep,
named after its place, different from each of those in value or position, and at the root or
an answer to one of those places. The game then lists the same claims. A list that does not
load is refused for the first claim that is out of its turn, and for the first of its
reasons. The claims of any run, with refusals or without, load; and the game that comes of
them is the one that the run left behind, so it gives the same answer to everything. -/
theorem ofClaims_loads_orderly (maxDepth : Nat) (cs : List Claim) :
    ((∃ g, ofClaims maxDepth cs = .ok g) ↔
      ∀ i c, cs[i]? = some c → InTurn maxDepth (cs.take i) c) ∧
    (∀ g, ofClaims maxDepth cs = .ok g → g.claims.toList = cs) ∧
    (∀ why, ofClaims maxDepth cs = .error why ↔
      ∃ i c, cs[i]? = some c ∧ Orderly maxDepth (cs.take i) ∧
        Offends maxDepth (cs.take i) c why) ∧
    ∀ calls, let g := (empty maxDepth).offerAll calls
      ofClaims g.maxDepth g.claims.toList = .ok g :=
  ⟨exists_ofClaims_iff maxDepth cs, fun _ h => (ofClaims_eq_ok h).2.2,
    ofClaims_eq_error_iff maxDepth cs, ofClaims_claims_offerAll maxDepth⟩

end DisputeGame.Game
