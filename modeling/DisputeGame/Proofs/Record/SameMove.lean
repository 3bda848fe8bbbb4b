import DisputeGame.Proofs.Game.Repetition
import DisputeGame.Proofs.Record.Members

/-!
The same move in two texts. A claim repeats another if both make the same commitment at the same
place, and a text has many ways to say which ones these are. In a game whose claims were read
from texts the repetitions are those of what the texts denote: the case of a letter, the marker
of a value and the way an index is written make no difference, and neither do the slots that
the claims name.
-/

namespace DisputeGame.Record

open Json Text

section Lists

variable {c : Claim} {claims : List Claim} {text : String}

/-- An element of an array from which a claim is read. -/
def TellsItem (item : Json) (c : Claim) : Prop :=
  ∃ members, item = .object members ∧ TellsClaim members c

theorem readClaims_eq_ok_iff {room : Nat} {s rest : List Char} :
    readClaims room s = .ok (claims, rest) ↔ ∃ items,
      readValue .keep (room + 2) s = .ok (.array items, rest) ∧
        List.Forall₂ TellsItem items claims := by
  have hread : ∀ s c rest, readClaim room s = .ok (c, rest) ↔
      ∃ item, readValue .keep (room + 1) s = .ok (item, rest) ∧ TellsItem item c := by
    intro s c rest
    rw [readClaim_eq_ok_iff]
    constructor
    · intro h
      obtain ⟨members, hmembers, htells⟩ := h
      exact ⟨.object members, hmembers, members, rfl, htells⟩
    · intro h
      obtain ⟨_, hmembers, members, rfl, htells⟩ := h
      exact ⟨members, hmembers, htells⟩
  simp only [readValue_eq_array_iff]
  unfold readClaims
  rw [bind_eq_ok]
  constructor
  · intro h
    obtain ⟨⟨shape, body⟩, hshape, h⟩ := h
    cases shape with
    | scalar v => cases h
    | object => cases h
    | array =>
      obtain ⟨items, hitems, htells⟩ := (readItems_eq_ok_iff hread).mp h
      exact ⟨items, ⟨body, lift_eq_ok.mp hshape, hitems⟩, htells⟩
  · intro h
    obtain ⟨items, ⟨body, hshape, hitems⟩, htells⟩ := h
    exact ⟨_, lift_eq_ok.mpr hshape, (readItems_eq_ok_iff hread).mpr ⟨items, hitems, htells⟩⟩

/-- The texts that a list of claims is read from. -/
theorem parseClaims_eq_ok_iff : parseClaims text = .ok claims ↔
    ∃ items, Json.parse text = .ok (.array items) ∧ List.Forall₂ TellsItem items claims := by
  unfold parseClaims Json.parse
  simp only [readAll_eq_ok_iff, readClaims_eq_ok_iff]
  constructor
  · intro h
    obtain ⟨rest, ⟨items, hread, htells⟩, hrest⟩ := h
    exact ⟨items, ⟨rest, hread, hrest⟩, htells⟩
  · intro h
    obtain ⟨items, ⟨rest, hread, hrest⟩, htells⟩ := h
    exact ⟨rest, ⟨items, hread, htells⟩, hrest⟩

/-- A claim was read from an object with these members, which was a text of its own or stood in
a list. -/
inductive ReadFrom (members : List (String × Json)) (c : Claim) : Prop
  | alone {text : String} (hparse : Json.parse text = .ok (.object members))
      (hread : parseClaim text = .ok c)
  | listed {text : String} {items : List Json} {claims : List Claim} {i : Nat}
      (hparse : Json.parse text = .ok (.array items)) (hread : parseClaims text = .ok claims)
      (hitem : items[i]? = some (.object members)) (hclaim : claims[i]? = some c)

theorem ReadFrom.tells {members : List (String × Json)} (h : ReadFrom members c) :
    TellsClaim members c := by
  cases h with
  | alone hparse hread =>
    obtain ⟨members', hparse', htells⟩ := parseClaim_eq_ok_iff.mp hread
    cases hparse.symm.trans hparse'
    exact htells
  | @listed text items claims i hparse hread hitem hclaim =>
    obtain ⟨items', hparse', hall⟩ := parseClaims_eq_ok_iff.mp hread
    cases hparse.symm.trans hparse'
    obtain ⟨hi, hitem⟩ := List.getElem?_eq_some_iff.mp hitem
    obtain ⟨hi', hclaim⟩ := List.getElem?_eq_some_iff.mp hclaim
    obtain ⟨members', hobject, htells⟩ := hall.get hi hi'
    rw [List.get_eq_getElem, hitem] at hobject
    rw [List.get_eq_getElem, hclaim] at htells
    cases hobject
    exact htells

end Lists

section Moves

variable {members others : List (String × Json)} {c e : Claim}

/-- Two objects make the same move: their values denote the same bytes, and their positions
denote the same index. Zero is no index and stands for one. -/
structure SameMove (members others : List (String × Json)) : Prop where
  value : ∃ text other bytes, valuesOf (.data .value) members = [.scalar (.text text)] ∧
    valuesOf (.data .value) others = [.scalar (.text other)] ∧
    ClaimValue.Spells text.toList bytes ∧ ClaimValue.Spells other.toList bytes
  position : ∃ v w g h, valuesOf (.data .position) members = [.scalar v] ∧
    valuesOf (.data .position) others = [.scalar w] ∧ Denotes v g ∧ Denotes w h ∧
    max g 1 = max h 1

/-- A claim was read from such an object. The slots that it names may have been changed since. -/
def TakenFrom (members : List (String × Json)) (c : Claim) : Prop :=
  ∃ contractIndex parentIndex, ReadFrom members ⟨c.toClaimData, contractIndex, parentIndex⟩

/-- Objects make the same move exactly if the claims that they tell say the same. -/
theorem TellsClaim.sameMove_iff (hc : TellsClaim members c) (he : TellsClaim others e) :
    SameMove members others ↔ c.toClaimData = e.toClaimData := by
  obtain ⟨text, hvalue, hspells⟩ := hc.value
  obtain ⟨other, hvalue', hspells'⟩ := he.value
  obtain ⟨v, g, hposition, hg, hglimit, hplace⟩ := hc.position
  obtain ⟨w, h, hposition', hh, hhlimit, hplace'⟩ := he.position
  constructor
  · intro hsame
    obtain ⟨text', other', bytes, hthis, hthat, hbytes, hbytes'⟩ := hsame.value
    cases hvalue.symm.trans hthis
    cases hvalue'.symm.trans hthat
    obtain ⟨v', w', g', h', hthis, hthat, hg', hh', hindex⟩ := hsame.position
    cases hposition.symm.trans hthis
    cases hposition'.symm.trans hthat
    rw [← hg.unique hg', ← hh.unique hh'] at hindex
    apply ClaimData.eq_of_fields
    · rw [hspells.unique hbytes, hspells'.unique hbytes']
    · rw [hplace, hplace', Position.decode_eq_iff hglimit hhlimit]
      exact hindex
  · intro hdata
    have hbytes : c.value = e.value := congrArg ClaimData.value hdata
    have hdecode : Position.decode g = Position.decode h := by
      rw [← hplace, ← hplace']
      exact congrArg ClaimData.position hdata
    exact ⟨⟨text, other, c.value, hvalue, hvalue', hspells, hbytes ▸ hspells'⟩,
      ⟨v, w, g, h, hposition, hposition', hg, hh,
        (Position.decode_eq_iff hglimit hhlimit).mp hdecode⟩⟩

/-- The texts of a value may differ in the marker and in the case of their letters. -/
theorem sameMove_of_fold {text other : String} {body rest : List Char} {bytes : ClaimValue}
    {v w : Scalar} {g h : Nat}
    (htext : valuesOf (.data .value) members = [.scalar (.text text)])
    (hother : valuesOf (.data .value) others = [.scalar (.text other)])
    (hbody : ClaimValue.Unmarked text.toList body) (hrest : ClaimValue.Unmarked other.toList rest)
    (hfold : body.map Char.toLower = rest.map Char.toLower)
    (hspells : ClaimValue.Spells text.toList bytes)
    (hv : valuesOf (.data .position) members = [.scalar v])
    (hw : valuesOf (.data .position) others = [.scalar w])
    (hg : Denotes v g) (hh : Denotes w h) (hindex : max g 1 = max h 1) :
    SameMove members others :=
  ⟨⟨text, other, bytes, htext, hother, hspells,
      (ClaimValue.spells_iff_of_fold hbody hrest hfold).mp hspells⟩,
    ⟨v, w, g, h, hv, hw, hg, hh, hindex⟩⟩

/-- Some element of a list is like this if some element of a list beside it is like that. -/
theorem exists_mem_iff_of_forall₂ {α β : Type} {R : α → β → Prop} {P : α → Prop} {Q : β → Prop}
    {as : List α} {bs : List β} (hall : List.Forall₂ R as bs)
    (hlike : ∀ a b, R a b → (P a ↔ Q b)) : (∃ a ∈ as, P a) ↔ ∃ b ∈ bs, Q b := by
  induction hall with
  | nil => simp
  | cons hab _ ih => simp [hlike _ _ hab, ih]

/-- After any run that let in nothing but claims read from texts, a claim read from a text is
told to be a repetition exactly if one of the texts makes its move, in whatever spelling and
whatever slots either of them names; and the game refuses a repetition. -/
theorem isDuplicate_tells_same_move (maxDepth : Nat) (calls : List Claim)
    (sources : List (List (String × Json))) (members : List (String × Json)) (c : Claim) :
    let g := (Game.empty maxDepth).offerAll calls
    List.Forall₂ TakenFrom sources g.claims.toList → TakenFrom members c →
      (g.isDuplicate c = true ↔ ∃ told ∈ sources, SameMove told members) ∧
        (g.isDuplicate c = true → ∃ why, g.put c = .error why) := by
  intro g hsources hc
  have hg : g.WellFormed := Game.offerAll_empty_wellFormed maxDepth calls
  refine ⟨?_, Game.put_of_isDuplicate⟩
  obtain ⟨_, _, hread⟩ := hc
  have hlike : ∀ told e, TakenFrom told e →
      (SameMove told members ↔ e.toClaimData = c.toClaimData) := by
    intro told e he
    obtain ⟨_, _, hsource⟩ := he
    have hsame := hsource.tells.sameMove_iff hread.tells
    exact hsame
  rw [hg.isDuplicate_iff_mem, exists_mem_iff_of_forall₂ hsources hlike]

-- Every letter of the texts is a step of the reader.
set_option maxRecDepth 4000 in
/-- A claim at the root, and the same move from a list, under another slot and spelled without
the marker, in the other case and with zero for the root. -/
theorem isDuplicate_tells_same_move_respelled :
    let value := "0xAb00000000000000000000000000000000000000000000000000000000000000"
    let other := "aB00000000000000000000000000000000000000000000000000000000000000"
    let members : List (String × Json) := [("value", .scalar (.text value)),
      ("position", .scalar (.text "0x1")), ("contract_index", .scalar (.int 0))]
    let others : List (String × Json) := [("contract_index", .scalar (.int 5)),
      ("position", .scalar (.int 0)), ("value", .scalar (.text other))]
    let c : Claim := ⟨⟨.ofBytes [0xab], ⟨0, 0⟩⟩, 0, 0⟩
    let d : Claim := ⟨⟨.ofBytes [0xab], ⟨0, 0⟩⟩, 5, 0⟩
    let g := (Game.empty 3).offerAll [c]
    List.Forall₂ TakenFrom [members] g.claims.toList ∧ TakenFrom others d ∧
      SameMove members others ∧ g.isDuplicate d = true ∧ ∃ why, g.put d = .error why := by
  intro value other members others c d g
  have hclaims : g.claims.toList = [c] := Game.claims_offerAll_of_orderly (by decide)
  have hparse : Json.parse ("\x7b" ++
      "\"value\":\"0xAb00000000000000000000000000000000000000000000000000000000000000\"," ++
      "\"position\":\"0x1\",\"contract_index\":0\x7d") = .ok (.object members) := by decide +kernel
  have hlist : Json.parse ("[\x7b\"contract_index\":5,\"position\":0," ++
      "\"value\":\"aB00000000000000000000000000000000000000000000000000000000000000\"\x7d]") =
        .ok (.array [.object others]) := by
    decide +kernel
  have hfirst : TakenFrom members c := ⟨0, 0, .alone hparse (by decide +kernel)⟩
  have hsecond : TakenFrom others d :=
    ⟨5, 0, @ReadFrom.listed _ _ _ _ [d] 0 hlist (by decide +kernel) rfl rfl⟩
  have hsources : List.Forall₂ TakenFrom [members] g.claims.toList := by
    rw [hclaims]
    exact .cons hfirst .nil
  have hbody : ClaimValue.Unmarked value.toList (value.toList.drop 2) := Or.inl (by decide)
  have hrest : ClaimValue.Unmarked other.toList other.toList := by
    refine Or.inr ⟨rfl, ?_⟩
    intro rest h
    have hhead : other.toList.head? = some 'a' := by decide
    rw [h, List.head?_cons] at hhead
    exact absurd hhead (by decide)
  have hspells : ClaimValue.Spells value.toList (.ofBytes [0xab]) :=
    ClaimValue.read_eq_ok_iff.mp (by decide +kernel)
  have hhex : Denotes (.text "0x1") 1 :=
    .text (Blank.trims_trim _) (Position.readGindex?_eq_some_iff.mp (by decide))
  have hsame : SameMove members others :=
    sameMove_of_fold rfl rfl hbody hrest (by decide) hspells rfl rfl hhex (.int 0) rfl
  obtain ⟨hdup, hrefused⟩ :=
    isDuplicate_tells_same_move 3 [c] [members] others d hsources hsecond
  have hrepeats := hdup.mpr ⟨members, List.mem_singleton_self members, hsame⟩
  exact ⟨hsources, hsecond, hsame, hrepeats, hrefused hrepeats⟩

end Moves

end DisputeGame.Record
