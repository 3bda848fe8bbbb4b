import DisputeGame.Proofs.Claim.Writing
import DisputeGame.Proofs.Json.Containers
import DisputeGame.Proofs.Tree.Spelling
import DisputeGame.Record.Reader
import Mathlib.Data.List.Forall2

/-!
Records come back as they were written. Every part of a record is written as a scalar, and
reading it gives the part again, however long the index of a position is. The data of a claim
are told part by part; a whole claim keeps them until its object has ended and tells its
indices at once, and yet the four parts meet again in it. A list keeps its claims and their
order.
-/

namespace DisputeGame

open Json Text

/-- A claim whose position is in the tree and whose two slots are words. -/
structure Claim.Recordable (c : Claim) : Prop where
  position : c.position.Valid
  contractIndex : c.contractIndex < Numeral.wordLimit
  parentIndex : c.parentIndex < Numeral.wordLimit

namespace Record

section Parts

theorem isBare_digitChar : ∀ d, d < 16 → IsBare (Nat.digitChar d) := by
  decide

theorem isBare_of_mem_decimal {n : Nat} {c : Char} (hc : c ∈ Numeral.decimal n) : IsBare c := by
  obtain ⟨d, hd, rfl⟩ := Numeral.exists_digitChar_of_mem_toDigits (by decide) hc
  exact isBare_digitChar d (by omega)

theorem isBare_of_mem_encode {v : ClaimValue} {c : Char} (hc : c ∈ v.encode) : IsBare c := by
  unfold ClaimValue.encode at hc
  rcases List.mem_cons.mp hc with rfl | hc
  · exact isBare_digitChar 0 (by decide)
  rcases List.mem_cons.mp hc with rfl | hc
  · decide
  obtain ⟨b, -, hb⟩ := List.mem_flatMap.mp hc
  obtain ⟨high, low, hhigh, hlow, -, hdigits⟩ := ClaimValue.exists_encodeByte b
  rw [hdigits, List.mem_cons, List.mem_singleton] at hb
  rcases hb with rfl | rfl
  · exact isBare_digitChar high hhigh
  · exact isBare_digitChar low hlow

theorem Field.isBare_name (field : Field) : ∀ c ∈ field.name.toList, IsBare c := by
  have hall : (field.name.toList.all fun c => IsBare c) = true := by
    cases field with
    | data field => cases field <;> decide
    | contractIndex => decide
    | parentIndex => decide
  intro c hc
  exact of_decide_eq_true (List.all_eq_true.mp hall c hc)

theorem Field.ofKey?_name (field : Field) : Field.ofKey? field.name = some field := by
  cases field with
  | data field => cases field <;> decide
  | contractIndex => decide
  | parentIndex => decide

theorem DataField.ofKey?_name (field : DataField) :
    DataField.ofKey? (Field.data field).name = some field := by
  rw [DataField.ofKey?, Field.ofKey?_name]

/-- A value in the text of a record. -/
def valueShape (v : ClaimValue) : Scalar := .text (String.ofList v.encode)

/-- A position in the text of a record. -/
def positionShape (p : Position) : Scalar := .text (String.ofList (Numeral.decimal p.gindex))

theorem reads_value (v : ClaimValue) :
    Reads (readShape .keep) (encodeText v.encode) (.scalar (valueShape v)) :=
  reads_text fun _ => isBare_of_mem_encode

theorem reads_position (p : Position) :
    Reads (readShape .keep) (encodePosition p) (.scalar (positionShape p)) :=
  reads_text fun _ => isBare_of_mem_decimal

theorem valueOf_valueShape (v : ClaimValue) : valueOf (.scalar (valueShape v)) = .ok v := by
  unfold valueShape
  rw [valueOf, String.toList_ofList, ClaimValue.read_encode]
  rfl

theorem positionOf_positionShape {p : Position} (hp : p.Valid) :
    positionOf (.scalar (positionShape p)) = .ok p := by
  have hparse : Position.parse (String.ofList (Numeral.decimal p.gindex)) = .ok p :=
    Position.parse_of_shows hp (Position.showsGindex_decimal p.gindex) Blank.allBlank_nil
      Blank.allBlank_nil (by simp)
  unfold positionShape
  rw [positionOf, hparse]
  rfl

/-- A part is read from its scalar. -/
theorem reads_part {α : Type} (part : Shape → Except Mismatch α) {body : List Char}
    {shape : Shape} {a : α} (hbody : Reads (readShape .keep) body shape)
    (hpart : part shape = .ok a) : Reads (readPart part) body a := by
  refine ⟨hbody.starts, ?_⟩
  intro rest hrest
  unfold readPart
  rw [hbody.read_eq rest hrest]
  change (part shape >>= _) = _
  rw [hpart]
  rfl

end Parts

section Data

theorem takes_dataField {d next : DataDraft} {field : DataField} {body : List Char}
    {shape : Shape} (hfree : d.has field = false) (hbody : Reads (readShape .keep) body shape)
    (hfill : d.fill shape field = .ok next) :
    Takes readDataMember d (Field.data field).name body next := by
  intro rest hrest
  have hread := reads_part (fun shape => d.fill shape field) hbody hfill
  unfold readDataMember
  simp only [DataField.ofKey?_name, hfree]
  change (readPart (fun shape => d.fill shape field) (body ++ rest) >>= _) = _
  rw [hread.read_eq rest hrest]
  rfl

theorem fill_value (d : DataDraft) (v : ClaimValue) :
    d.fill (.scalar (valueShape v)) .value = .ok { d with value? := some v } := by
  rw [DataDraft.fill, valueOf_valueShape]
  rfl

theorem fill_position (d : DataDraft) {p : Position} (hp : p.Valid) :
    d.fill (.scalar (positionShape p)) .position = .ok { d with position? := some p } := by
  rw [DataDraft.fill, positionOf_positionShape hp]
  rfl

/-- The two members of the data fill the draft one after the other. -/
theorem steps_dataMembers {data : ClaimData} (hp : data.position.Valid) :
    Steps readDataMember DataDraft.empty (dataMembers data)
      ⟨some data.value, some data.position⟩ :=
  .cons (Field.isBare_name (.data .value))
    (takes_dataField rfl (reads_value data.value) (fill_value _ data.value))
    (.cons (Field.isBare_name (.data .position))
      (takes_dataField rfl (reads_position data.position) (fill_position _ hp)) (.nil _))

theorem encodeObject_append (members : List (List Char)) (rest : List Char) :
    encodeObject members ++ rest =
      '\x7b' :: ([','].intercalate members ++ '\x7d' :: rest) := by
  simp [encodeObject]

theorem reads_claimData {data : ClaimData} (hp : data.position.Valid) :
    Reads readClaimData (encodeClaimData data) data := by
  refine ⟨⟨'\x7b', rfl, by decide, by decide⟩, ?_⟩
  intro rest _
  unfold encodeClaimData
  rw [encodeObject_append]
  change (readMembers .keep readDataMember DataDraft.empty _ >>= _) = _
  rw [readMembers_intercalate .keep (steps_dataMembers hp) rest]
  rfl

end Data

section Claims

variable {room : Nat} {d : ClaimDraft}

/-- A part of the data is kept as it stands. -/
theorem takes_kept (field : DataField) {body : List Char} {v : Scalar}
    (hbody : Reads (readShape .keep) body (.scalar v)) :
    Takes (readClaimMember room) d (Field.data field).name body
      { d with kept := d.kept ++ [((Field.data field).name, .scalar v)] } := by
  intro rest hrest
  have hread := hbody.value room
  unfold readClaimMember
  simp only [Field.ofKey?_name]
  change (lift (readValue .keep room (body ++ rest) >>= _) >>= _) = _
  rw [hread.read_eq rest hrest]
  rfl

theorem reads_slot {n : Nat} (hn : n < Numeral.wordLimit) :
    Reads (readPart (countOf .slot)) (Numeral.decimal n) n :=
  reads_part (countOf .slot) (reads_decimal hn) rfl

theorem takes_contractIndex {n : Nat} (hn : n < Numeral.wordLimit)
    (hfree : d.contractIndex? = none) :
    Takes (readClaimMember room) d Field.contractIndex.name (Numeral.decimal n)
      { d with contractIndex? := some n } := by
  intro rest hrest
  unfold readClaimMember
  simp only [Field.ofKey?_name, hfree]
  change (readPart (countOf .slot) (Numeral.decimal n ++ rest) >>= _) = _
  rw [(reads_slot hn).read_eq rest hrest]
  rfl

theorem takes_parentIndex {n : Nat} (hn : n < Numeral.wordLimit)
    (hfree : d.parentIndex? = none) :
    Takes (readClaimMember room) d Field.parentIndex.name (Numeral.decimal n)
      { d with parentIndex? := some n } := by
  intro rest hrest
  unfold readClaimMember
  simp only [Field.ofKey?_name, hfree]
  change (readPart (countOf .slot) (Numeral.decimal n ++ rest) >>= _) = _
  rw [(reads_slot hn).read_eq rest hrest]
  rfl

/-- The members of the data as a claim keeps them. -/
def keptMembers (data : ClaimData) : List (String × Json) :=
  [("value", .scalar (valueShape data.value)), ("position", .scalar (positionShape data.position))]

/-- The members of a claim: its data are kept, and its slots are told at once. -/
theorem steps_claimMembers {c : Claim} (hc : c.Recordable) :
    Steps (readClaimMember room) ClaimDraft.empty
      (dataMembers c.toClaimData ++
        [encodeMember "contract_index" (Numeral.decimal c.contractIndex),
          encodeMember "parent_index" (Numeral.decimal c.parentIndex)])
      ⟨some c.contractIndex, some c.parentIndex, keptMembers c.toClaimData⟩ := by
  -- the drafts between the members are written out, for the last two steps add to them
  have hvalue : Takes (readClaimMember room) ClaimDraft.empty "value"
      (encodeText c.value.encode) ⟨none, none, [("value", .scalar (valueShape c.value))]⟩ :=
    takes_kept .value (reads_value c.value)
  have hposition : Takes (readClaimMember room)
      ⟨none, none, [("value", .scalar (valueShape c.value))]⟩ "position"
      (encodePosition c.position) ⟨none, none, keptMembers c.toClaimData⟩ :=
    takes_kept .position (reads_position c.position)
  exact .cons (Field.isBare_name (.data .value)) hvalue
    (.cons (Field.isBare_name (.data .position)) hposition
      (.cons (Field.isBare_name .contractIndex) (takes_contractIndex hc.contractIndex rfl)
        (.cons (Field.isBare_name .parentIndex) (takes_parentIndex hc.parentIndex rfl)
          (.nil _))))

theorem take_field {d next : DataDraft} (field : DataField) {v : Json}
    (hfree : d.has field = false) (hfill : d.fill v.shape field = .ok next) :
    d.take ((Field.data field).name, v) = .ok next := by
  unfold DataDraft.take
  simp only [DataField.ofKey?_name, hfree]
  exact hfill

/-- The members that were kept make the data that were written. -/
theorem claimDataOf_keptMembers {data : ClaimData} (hp : data.position.Valid) :
    claimDataOf (keptMembers data) = .ok data := by
  have hvalue : DataDraft.empty.take ("value", .scalar (valueShape data.value)) =
      .ok ⟨some data.value, none⟩ :=
    take_field .value rfl (fill_value _ data.value)
  have hposition : DataDraft.take ⟨some data.value, none⟩
      ("position", .scalar (positionShape data.position)) =
        .ok ⟨some data.value, some data.position⟩ :=
    take_field .position rfl (fill_position _ hp)
  unfold claimDataOf keptMembers
  rw [List.foldlM_cons, hvalue, ok_bind, List.foldlM_cons, hposition]
  rfl

theorem reads_claim {c : Claim} (hc : c.Recordable) :
    Reads (readClaim room) (encodeClaim c) c := by
  refine ⟨⟨'\x7b', rfl, by decide, by decide⟩, ?_⟩
  intro rest _
  unfold encodeClaim
  rw [encodeObject_append]
  change (readMembers .keep (readClaimMember room) ClaimDraft.empty _ >>= _) = _
  rw [readMembers_intercalate .keep (steps_claimMembers hc) rest]
  change (claimDataOf (keptMembers c.toClaimData) >>= _) >>= _ = _
  rw [claimDataOf_keptMembers hc.position]
  rfl

theorem reads_claims {claims : List Claim} (hclaims : ∀ c ∈ claims, c.Recordable) :
    Reads (readClaims room) (encodeClaims claims) claims := by
  refine ⟨⟨'[', rfl, by decide, by decide⟩, ?_⟩
  intro rest _
  have hitems : List.Forall₂ (Reads (readClaim room)) (claims.map encodeClaim) claims :=
    List.forall₂_map_left_iff.mpr (List.forall₂_same.mpr fun c hc => reads_claim (hclaims c hc))
  have htext : encodeClaims claims ++ rest =
      '[' :: ([','].intercalate (claims.map encodeClaim) ++ ']' :: rest) := by
    simp [encodeClaims, encodeArray]
  rw [htext]
  exact readItems_intercalate hitems rest

end Claims

/-- What is written is read back, be it the data of a claim, a claim or a list of claims: every
value, every position of the tree, every two slots of one word, and the order of a list. -/
theorem parse_write :
    (∀ data : ClaimData, data.position.Valid →
      parseClaimData (writeClaimData data) = .ok data) ∧
    (∀ c : Claim, c.Recordable → parseClaim (writeClaim c) = .ok c) ∧
    (∀ claims : List Claim, (∀ c ∈ claims, c.Recordable) →
      parseClaims (writeClaims claims) = .ok claims) := by
  refine ⟨?_, ?_, ?_⟩
  · intro data hp
    exact (reads_claimData hp).readAll_eq
  · intro c hc
    exact (reads_claim hc).readAll_eq
  · intro claims hclaims
    exact (reads_claims hclaims).readAll_eq

/-- A claim far below the reach of a word, with the widest slots there are, and its text: the
slots are numbers, and the index of the position is a string. -/
theorem parse_write_deep :
    let top : Claim := ⟨⟨default, ⟨0, 0⟩⟩, 0, 0⟩
    let deep : Claim := ⟨⟨default, ⟨70, 1180591620717411303423⟩⟩, 18446744073709551615,
      18446744073709551615⟩
    deep.position.Valid ∧ (∀ c ∈ [top, deep], c.Recordable) ∧
    writeClaim deep =
      "\x7b\"value\":\"0x0000000000000000000000000000000000000000000000000000000000000000\"," ++
        "\"position\":\"2361183241434822606847\"," ++
        "\"contract_index\":18446744073709551615,\"parent_index\":18446744073709551615\x7d" ∧
    parseClaimData (writeClaimData deep.toClaimData) = .ok deep.toClaimData ∧
    parseClaim (writeClaim deep) = .ok deep ∧
    parseClaims (writeClaims [top, deep]) = .ok [top, deep] := by
  intro top deep
  have htop : top.Recordable := ⟨by decide, by decide, by decide⟩
  have hdeep : deep.Recordable := ⟨by decide, by decide, by decide⟩
  have hboth : ∀ c ∈ [top, deep], c.Recordable := by
    intro c hc
    simp only [List.mem_cons, List.not_mem_nil, or_false] at hc
    rcases hc with rfl | rfl
    · exact htop
    · exact hdeep
  obtain ⟨hdata, hclaim, hclaims⟩ := parse_write
  exact ⟨hdeep.position, hboth, by decide +kernel, hdata _ hdeep.position, hclaim deep hdeep,
    hclaims _ hboth⟩

end Record

end DisputeGame
