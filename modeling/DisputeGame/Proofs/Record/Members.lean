import DisputeGame.Proofs.Claim.Spelling
import DisputeGame.Proofs.Json.Grammar
import DisputeGame.Proofs.Record.PositionCodec

/-!
A claim as its object tells it. The indices of a claim are taken on the way through the text,
and the rest of it from what has been kept; yet what is read depends on nothing but the values
under the four names, each name by itself. So the order of the members does not count, and
neither do members under other names.
-/

namespace DisputeGame.Record

open Json Text

/-- The values of an object under the name of a field, in the order of the text. -/
def valuesOf (field : Field) (members : List (String × Json)) : List Json :=
  (members.filter fun member => member.1 = field.name).map Prod.snd

section Fields

variable {field : Field} {key : String} {member : String × Json} {members : List (String × Json)}

theorem Field.name_inj {field other : Field} (h : field.name = other.name) : field = other := by
  have hkey := congrArg Field.ofKey? h
  rw [Field.ofKey?_name, Field.ofKey?_name] at hkey
  exact Option.some.inj hkey

theorem Field.ofKey?_eq_some_iff : Field.ofKey? key = some field ↔ key = field.name := by
  constructor
  · intro h
    have hfound := List.find?_some h
    exact (of_decide_eq_true hfound).symm
  · intro h
    rw [h, Field.ofKey?_name]

theorem valuesOf_append (field : Field) (members others : List (String × Json)) :
    valuesOf field (members ++ others) = valuesOf field members ++ valuesOf field others := by
  unfold valuesOf
  rw [List.filter_append, List.map_append]

theorem valuesOf_cons (field : Field) (member : String × Json) (members : List (String × Json)) :
    valuesOf field (member :: members) = valuesOf field [member] ++ valuesOf field members :=
  valuesOf_append field [member] members

theorem valuesOf_self (h : Field.ofKey? member.1 = some field) :
    valuesOf field [member] = [member.2] := by
  have hname := Field.ofKey?_eq_some_iff.mp h
  simp [valuesOf, hname]

theorem valuesOf_other (h : Field.ofKey? member.1 ≠ some field) :
    valuesOf field [member] = [] := by
  have hname := mt Field.ofKey?_eq_some_iff.mpr h
  simp [valuesOf, hname]

theorem mem_of_mem_valuesOf {value : Json} (h : value ∈ valuesOf field members) :
    (field.name, value) ∈ members := by
  unfold valuesOf at h
  obtain ⟨⟨key, kept⟩, hmember, rfl⟩ := List.mem_map.mp h
  obtain ⟨hmember, hkey⟩ := List.mem_filter.mp hmember
  rw [← of_decide_eq_true hkey]
  exact hmember

end Fields

section Filling

variable {α : Type} {part : Shape → Except Mismatch α} {old new : Option α}
  {values others : List Json} {value : Json} {a : α}

/-- A part of a draft that is filled by the values under one name: none leave it as it was, and
a single one fills it if it was free. -/
def Fills (part : Shape → Except Mismatch α) (old : Option α) (values : List Json)
    (new : Option α) : Prop :=
  (values = [] ∧ new = old) ∨
    ∃ value a, values = [value] ∧ old = none ∧ part value.shape = .ok a ∧ new = some a

theorem fills_nil : Fills part old [] new ↔ new = old := by
  simp [Fills]

theorem fills_singleton : Fills part old [value] new ↔
    old = none ∧ ∃ a, part value.shape = .ok a ∧ new = some a := by
  unfold Fills
  constructor
  · intro h
    rcases h with ⟨hnil, -⟩ | ⟨v, a, hvalue, hold, hpart, hnew⟩
    · cases hnil
    · cases hvalue
      exact ⟨hold, a, hpart, hnew⟩
  · intro h
    obtain ⟨hold, a, hpart, hnew⟩ := h
    exact Or.inr ⟨value, a, rfl, hold, hpart, hnew⟩

/-- Values are filled in one after the other. -/
theorem fills_append : Fills part old (values ++ others) new ↔
    ∃ mid, Fills part old values mid ∧ Fills part mid others new := by
  constructor
  · intro h
    rcases h with ⟨hnil, hnew⟩ | ⟨value, a, hone, hold, hpart, hnew⟩
    · obtain ⟨rfl, rfl⟩ := List.append_eq_nil_iff.mp hnil
      exact ⟨old, Or.inl ⟨rfl, rfl⟩, Or.inl ⟨rfl, hnew⟩⟩
    · rcases List.append_eq_singleton_iff.mp hone with ⟨rfl, rfl⟩ | ⟨rfl, rfl⟩
      · exact ⟨old, Or.inl ⟨rfl, rfl⟩, Or.inr ⟨value, a, rfl, hold, hpart, hnew⟩⟩
      · exact ⟨some a, Or.inr ⟨value, a, rfl, hold, hpart, rfl⟩, Or.inl ⟨rfl, hnew⟩⟩
  · intro h
    obtain ⟨mid, hvalues, hothers⟩ := h
    rcases hvalues with ⟨rfl, rfl⟩ | ⟨value, a, rfl, hold, hpart, rfl⟩
    · exact hothers
    · rcases hothers with ⟨rfl, rfl⟩ | ⟨-, -, -, hfree, -⟩
      · exact Or.inr ⟨value, a, rfl, hold, hpart, rfl⟩
      · cases hfree

/-- A part that is refused when it has been filled takes the value that fills it. -/
theorem takeOnce_eq_ok_iff {σ : Type} {why : Mismatch} {next : σ} (put : Option α → σ) :
    (if old.isSome = true then .error why
      else (part value.shape).map fun a => put (some a)) = .ok next ↔
    ∃ new, Fills part old [value] new ∧ put new = next := by
  simp only [fills_singleton]
  cases old with
  | none => simp [map_eq_ok]
  | some b => simp

/-- What ends up filled was told once, -/
theorem fills_some_iff : Fills part none values (some a) ↔
    ∃ value, values = [value] ∧ part value.shape = .ok a := by
  unfold Fills
  constructor
  · intro h
    rcases h with ⟨-, hsome⟩ | ⟨value, b, hone, -, hpart, hsome⟩
    · cases hsome
    · cases hsome
      exact ⟨value, hone, hpart⟩
  · intro h
    obtain ⟨value, hone, hpart⟩ := h
    exact Or.inr ⟨value, a, hone, rfl, hpart, rfl⟩

/-- and what does not was never told. -/
theorem fills_none_iff : Fills part none values none ↔ values = [] := by
  simp [Fills]

end Filling

section Data

variable {d next last : DataDraft} {member : String × Json} {members : List (String × Json)}
  {data : ClaimData}

theorem DataField.ofKey?_eq_some_iff {key : String} {field : DataField} :
    DataField.ofKey? key = some field ↔ Field.ofKey? key = some (.data field) := by
  unfold DataField.ofKey?
  split
  · next found hfound => simp [hfound]
  · next hfound => simpa using hfound field

/-- A member fills the part of its own name. -/
theorem DataDraft.take_eq_ok_iff : d.take member = .ok next ↔
    Fills valueOf d.value? (valuesOf (.data .value) [member]) next.value? ∧
      Fills positionOf d.position? (valuesOf (.data .position) [member]) next.position? := by
  obtain ⟨value?, position?⟩ := d
  obtain ⟨newValue?, newPosition?⟩ := next
  unfold DataDraft.take
  cases hfield : DataField.ofKey? member.1 with
  | none =>
    have hother : ∀ field, Field.ofKey? member.1 ≠ some (.data field) := by
      intro field hkey
      rw [DataField.ofKey?_eq_some_iff.mpr hkey] at hfield
      cases hfield
    rw [valuesOf_other (hother .value), valuesOf_other (hother .position), fills_nil, fills_nil]
    simp [eq_comm]
  | some field =>
    have hkey := DataField.ofKey?_eq_some_iff.mp hfield
    cases field with
    | value =>
      rw [valuesOf_self hkey, valuesOf_other (by simp [hkey]), fills_nil]
      refine (takeOnce_eq_ok_iff fun new => DataDraft.mk new position?).trans ?_
      simp [eq_comm]
    | position =>
      rw [valuesOf_other (by simp [hkey]), valuesOf_self hkey, fills_nil]
      refine (takeOnce_eq_ok_iff fun new => DataDraft.mk value? new).trans ?_
      simp [eq_comm, and_comm]

/-- The members fill the draft name by name, whichever way they are mixed. -/
theorem foldlM_dataDraft_eq_ok_iff : members.foldlM DataDraft.take d = .ok last ↔
    Fills valueOf d.value? (valuesOf (.data .value) members) last.value? ∧
      Fills positionOf d.position? (valuesOf (.data .position) members) last.position? := by
  induction members generalizing d with
  | nil =>
    obtain ⟨value?, position?⟩ := d
    obtain ⟨newValue?, newPosition?⟩ := last
    change Except.ok _ = _ ↔ Fills _ _ [] _ ∧ Fills _ _ [] _
    simp [fills_nil, eq_comm]
  | cons member rest ih =>
    rw [foldlM_cons_eq_ok, valuesOf_cons _ member rest, valuesOf_cons _ member rest,
      fills_append, fills_append]
    simp only [DataDraft.take_eq_ok_iff, ih]
    constructor
    · intro h
      obtain ⟨next, ⟨hvalue, hposition⟩, hvalues, hpositions⟩ := h
      exact ⟨⟨next.value?, hvalue, hvalues⟩, ⟨next.position?, hposition, hpositions⟩⟩
    · intro h
      -- no part looks at another one, so what they hold in between makes one draft
      obtain ⟨⟨value?, hvalue, hvalues⟩, ⟨position?, hposition, hpositions⟩⟩ := h
      exact ⟨⟨value?, position?⟩, ⟨hvalue, hposition⟩, hvalues, hpositions⟩

theorem DataDraft.finish_eq_ok_iff :
    d.finish = .ok data ↔ d.value? = some data.value ∧ d.position? = some data.position := by
  obtain ⟨value, position⟩ := data
  obtain ⟨value?, position?⟩ := d
  cases value? <;> cases position? <;> simp [DataDraft.finish]

/-- The data of a claim are told by one value and one position. -/
theorem claimDataOf_eq_ok_iff : claimDataOf members = .ok data ↔
    (∃ value, valuesOf (.data .value) members = [value] ∧ valueOf value.shape = .ok data.value) ∧
      ∃ value, valuesOf (.data .position) members = [value] ∧
        positionOf value.shape = .ok data.position := by
  unfold claimDataOf
  simp only [bind_eq_ok, foldlM_dataDraft_eq_ok_iff, DataDraft.finish_eq_ok_iff]
  rw [← fills_some_iff, ← fills_some_iff]
  constructor
  · intro h
    obtain ⟨d, ⟨hvalue, hposition⟩, hsomeValue, hsomePosition⟩ := h
    exact ⟨hsomeValue ▸ hvalue, hsomePosition ▸ hposition⟩
  · intro h
    exact ⟨⟨some data.value, some data.position⟩, h, rfl, rfl⟩

end Data

section Drafts

variable {d next last : ClaimDraft} {key : String} {member : String × Json}
  {members : List (String × Json)} {c : Claim} {s rest : List Char}

/-- Takes a member of a claim whose value has been kept. -/
def ClaimDraft.take (d : ClaimDraft) (member : String × Json) : Except Mismatch ClaimDraft :=
  match Field.ofKey? member.1 with
  | some .contractIndex =>
    if d.contractIndex?.isSome then .error (.duplicate .contractIndex)
    else (countOf .slot member.2.shape).map fun n => { d with contractIndex? := some n }
  | some .parentIndex =>
    if d.parentIndex?.isSome then .error (.duplicate .parentIndex)
    else (countOf .slot member.2.shape).map fun n => { d with parentIndex? := some n }
  | _ => .ok { d with kept := d.kept ++ [member] }

/-- The members that are no indices of the claim. -/
def keptOf (members : List (String × Json)) : List (String × Json) :=
  members.filter fun member =>
    member.1 ≠ Field.contractIndex.name ∧ member.1 ≠ Field.parentIndex.name

theorem keptOf_cons (member : String × Json) (members : List (String × Json)) :
    keptOf (member :: members) = keptOf [member] ++ keptOf members :=
  List.filter_append [member] members

/-- The data of a claim stand among the members that are kept. -/
theorem valuesOf_keptOf (field : DataField) (members : List (String × Json)) :
    valuesOf (.data field) (keptOf members) = valuesOf (.data field) members := by
  unfold valuesOf keptOf
  rw [List.filter_filter]
  congr 2
  funext member
  by_cases hname : member.1 = (Field.data field).name
  · have hcontract : (Field.data field).name ≠ Field.contractIndex.name := by
      intro h
      cases Field.name_inj h
    have hparent : (Field.data field).name ≠ Field.parentIndex.name := by
      intro h
      cases Field.name_inj h
    simp [hname, hcontract, hparent]
  · simp [hname]

theorem ClaimDraft.take_eq_ok_iff : d.take member = .ok next ↔
    Fills (countOf .slot) d.contractIndex? (valuesOf .contractIndex [member])
        next.contractIndex? ∧
      Fills (countOf .slot) d.parentIndex? (valuesOf .parentIndex [member]) next.parentIndex? ∧
      next.kept = d.kept ++ keptOf [member] := by
  obtain ⟨contractIndex?, parentIndex?, kept⟩ := d
  obtain ⟨newContractIndex?, newParentIndex?, newKept⟩ := next
  unfold ClaimDraft.take
  split
  · next hkey =>
    have hkept : keptOf [member] = [] := by
      simp [keptOf, Field.ofKey?_eq_some_iff.mp hkey]
    rw [valuesOf_self hkey, valuesOf_other (by simp [hkey]), fills_nil, hkept, List.append_nil]
    refine (takeOnce_eq_ok_iff fun new => ClaimDraft.mk new parentIndex? kept).trans ?_
    simp [eq_comm]
  · next hkey =>
    have hkept : keptOf [member] = [] := by
      simp [keptOf, Field.ofKey?_eq_some_iff.mp hkey]
    rw [valuesOf_other (by simp [hkey]), valuesOf_self hkey, fills_nil, hkept, List.append_nil]
    refine (takeOnce_eq_ok_iff fun new => ClaimDraft.mk contractIndex? new kept).trans ?_
    simp [eq_comm, and_left_comm]
  · next hcontract hparent =>
    have hkept : keptOf [member] = [member] := by
      have hcontractName := mt Field.ofKey?_eq_some_iff.mpr hcontract
      have hparentName := mt Field.ofKey?_eq_some_iff.mpr hparent
      simp [keptOf, hcontractName, hparentName]
    rw [valuesOf_other hcontract, valuesOf_other hparent, fills_nil, fills_nil, hkept]
    simp [eq_comm]

/-- The members fill the indices name by name, and the others are kept. -/
theorem foldlM_claimDraft_eq_ok_iff : members.foldlM ClaimDraft.take d = .ok last ↔
    Fills (countOf .slot) d.contractIndex? (valuesOf .contractIndex members)
        last.contractIndex? ∧
      Fills (countOf .slot) d.parentIndex? (valuesOf .parentIndex members) last.parentIndex? ∧
      last.kept = d.kept ++ keptOf members := by
  induction members generalizing d with
  | nil =>
    obtain ⟨contractIndex?, parentIndex?, kept⟩ := d
    obtain ⟨newContractIndex?, newParentIndex?, newKept⟩ := last
    change Except.ok _ = _ ↔ Fills _ _ [] _ ∧ Fills _ _ [] _ ∧ _ = _ ++ []
    simp [fills_nil, eq_comm]
  | cons member rest ih =>
    rw [foldlM_cons_eq_ok, valuesOf_cons _ member rest, valuesOf_cons _ member rest,
      keptOf_cons, fills_append, fills_append]
    simp only [ClaimDraft.take_eq_ok_iff, ih]
    constructor
    · intro h
      obtain ⟨next, ⟨hcontract, hparent, hkept⟩, hcontracts, hparents, hkepts⟩ := h
      refine ⟨⟨_, hcontract, hcontracts⟩, ⟨_, hparent, hparents⟩, ?_⟩
      rw [hkepts, hkept, List.append_assoc]
    · intro h
      obtain ⟨⟨contract?, hcontract, hcontracts⟩, ⟨parent?, hparent, hparents⟩, hkept⟩ := h
      refine ⟨⟨contract?, parent?, _⟩, ⟨hcontract, hparent, rfl⟩, hcontracts, hparents, ?_⟩
      rw [hkept, List.append_assoc]

/-- A part that no container can be is read from the front of a value. -/
theorem readPart_eq_ok_iff_value (room : Nat) {α : Type} {part : Shape → Except Mismatch α} {a : α}
    (hscalar : ∀ shape, part shape = .ok a → ∃ v, shape = .scalar v) :
    readPart part s = .ok (a, rest) ↔
      ∃ value, readValue .keep room s = .ok (value, rest) ∧ part value.shape = .ok a := by
  rw [readPart_eq_ok_iff]
  constructor
  · intro h
    obtain ⟨shape, hread, hpart⟩ := h
    obtain ⟨v, rfl⟩ := hscalar shape hpart
    exact ⟨.scalar v, readValue_eq_scalar_iff.mpr hread, hpart⟩
  · intro h
    obtain ⟨value, hread, hpart⟩ := h
    obtain ⟨v, hv⟩ := hscalar value.shape hpart
    cases value with
    | scalar w => exact ⟨_, readValue_eq_scalar_iff.mp hread, hpart⟩
    | array items => cases hv
    | object members => cases hv

theorem countOf_eq_ok_iff {wanted : Wanted} {shape : Shape} {n : Nat} :
    countOf wanted shape = .ok n ↔ shape = .scalar (.int n) := by
  constructor
  · intro h
    unfold countOf at h
    split at h
    · cases h
      rfl
    · cases h
    · cases h
  · intro h
    rw [h]
    rfl

theorem readSlot_eq_ok_iff (room : Nat) {n : Nat} : readSlot s = .ok (n, rest) ↔
    ∃ value, (readColon s >>= readValue .keep room) = .ok (value, rest) ∧
      countOf .slot value.shape = .ok n := by
  have hscalar : ∀ shape, countOf .slot shape = .ok n → ∃ v, shape = .scalar v :=
    fun shape hcount => ⟨_, countOf_eq_ok_iff.mp hcount⟩
  unfold readSlot
  simp only [bind_eq_ok, lift_eq_ok, readPart_eq_ok_iff_value room hscalar]
  constructor
  · intro h
    obtain ⟨behind, hcolon, value, hvalue, hcount⟩ := h
    exact ⟨value, ⟨behind, hcolon, hvalue⟩, hcount⟩
  · intro h
    obtain ⟨value, ⟨behind, hcolon, hvalue⟩, hcount⟩ := h
    exact ⟨behind, hcolon, value, hvalue, hcount⟩

/-- An index that may be told once is taken on the way as it is from what has been kept. -/
theorem readSlotOnce_eq_ok_iff (room : Nat) (taken : Bool) (why : Mismatch)
    (put : Nat → ClaimDraft) :
    (if taken = true then .error why
      else readSlot s >>= fun found => .ok (put found.1, found.2)) = .ok (next, rest) ↔
    ∃ value, (readColon s >>= readValue .keep room) = .ok (value, rest) ∧
      (if taken = true then .error why
        else (countOf .slot value.shape).map put) = .ok next := by
  cases taken with
  | true => simp
  | false =>
    simp only [Bool.false_eq_true, if_false, bind_eq_ok (x := readSlot s), Prod.exists,
      readSlot_eq_ok_iff room, map_eq_ok, Except.ok.injEq, Prod.mk.injEq]
    constructor
    · intro h
      obtain ⟨n, behind, ⟨value, hvalue, hcount⟩, hput, rfl⟩ := h
      exact ⟨value, hvalue, n, hcount, hput⟩
    · intro h
      obtain ⟨value, hvalue, n, hcount, hput⟩ := h
      exact ⟨n, rest, ⟨value, hvalue, hcount⟩, hput, rfl⟩

/-- A claim is taken as if all its members had been kept. -/
theorem stepsBy_readClaimMember (room : Nat) :
    StepsBy (readValue .keep room) (readClaimMember room) ClaimDraft.take := by
  intro d key s next rest
  have hkept : ((lift (appendMember (readValue .keep room) d.kept key s) >>= fun found =>
        (.ok ({ d with kept := found.1 }, found.2) : Except Mismatch (ClaimDraft × List Char))) =
          .ok (next, rest) ↔
        ∃ value, (readColon s >>= readValue .keep room) = .ok (value, rest) ∧
          (.ok { d with kept := d.kept ++ [(key, value)] } : Except Mismatch ClaimDraft) =
            .ok next) := by
    simp only [bind_eq_ok (x := lift _), Prod.exists, lift_eq_ok, stepsBy_appendMember d.kept key,
      keepMember, Except.ok.injEq, Prod.mk.injEq]
    constructor
    · intro h
      obtain ⟨kept, behind, ⟨value, hvalue, rfl⟩, hnext, rfl⟩ := h
      exact ⟨value, hvalue, hnext⟩
    · intro h
      obtain ⟨value, hvalue, hnext⟩ := h
      exact ⟨_, rest, ⟨value, hvalue, rfl⟩, hnext, rfl⟩
  unfold readClaimMember ClaimDraft.take
  dsimp only
  generalize Field.ofKey? key = field?
  rcases field? with _ | (field | _ | _)
  · exact hkept
  · exact hkept
  · exact readSlotOnce_eq_ok_iff room d.contractIndex?.isSome (.duplicate .contractIndex)
      fun n => { d with contractIndex? := some n }
  · exact readSlotOnce_eq_ok_iff room d.parentIndex?.isSome (.duplicate .parentIndex)
      fun n => { d with parentIndex? := some n }

theorem ClaimDraft.finish_eq_ok_iff : d.finish = .ok c ↔
    d.contractIndex? = some c.contractIndex ∧ claimDataOf d.kept = .ok c.toClaimData ∧
      d.parentIndex?.getD 0 = c.parentIndex := by
  obtain ⟨⟨value, position⟩, contractIndex, parentIndex⟩ := c
  obtain ⟨contractIndex?, parentIndex?, kept⟩ := d
  cases contractIndex? with
  | none => simp [ClaimDraft.finish]
  | some n =>
    change (claimDataOf kept >>= _) = _ ↔ _
    rw [bind_eq_ok]
    constructor
    · intro h
      obtain ⟨data, hdata, hclaim⟩ := h
      cases hclaim
      exact ⟨rfl, hdata, rfl⟩
    · intro h
      obtain ⟨hcontract, hdata, hparent⟩ := h
      cases hcontract
      exact ⟨_, hdata, congrArg Except.ok (congrArg (Claim.mk _ _) hparent)⟩

end Drafts

section Telling

variable {members : List (String × Json)} {c : Claim} {text : String}

/-- What the members of an object say about a claim. -/
structure TellsClaim (members : List (String × Json)) (c : Claim) : Prop where
  contractIndex : valuesOf .contractIndex members = [.scalar (.int c.contractIndex)] ∧
    c.contractIndex < Numeral.wordLimit
  parentIndex : (valuesOf .parentIndex members = [] ∧ c.parentIndex = 0) ∨
    (valuesOf .parentIndex members = [.scalar (.int c.parentIndex)] ∧
      c.parentIndex < Numeral.wordLimit)
  value : ∃ text, valuesOf (.data .value) members = [.scalar (.text text)] ∧
    ClaimValue.Spells text.toList c.value
  position : ∃ v g, valuesOf (.data .position) members = [.scalar v] ∧ Denotes v g ∧
    g < Position.gindexLimit ∧ c.position = Position.decode g

theorem shape_eq_scalar_iff {value : Json} {v : Scalar} :
    value.shape = .scalar v ↔ value = .scalar v := by
  cases value <;> simp [Json.shape]

theorem valueOf_eq_ok_iff {shape : Shape} {v : ClaimValue} : valueOf shape = .ok v ↔
    ∃ text, shape = .scalar (.text text) ∧ ClaimValue.Spells text.toList v := by
  constructor
  · intro h
    unfold valueOf at h
    split at h
    · next text => exact ⟨text, rfl, ClaimValue.read_eq_ok_iff.mp (mapError_eq_ok.mp h)⟩
    · cases h
  · intro h
    obtain ⟨text, rfl, hspells⟩ := h
    exact mapError_eq_ok.mpr (ClaimValue.read_eq_ok_iff.mpr hspells)

theorem positionOf_eq_ok_iff_denotes {shape : Shape} {p : Position} :
    positionOf shape = .ok p ↔ ∃ v g, shape = .scalar v ∧ Denotes v g ∧
      g < Position.gindexLimit ∧ p = Position.decode g := by
  cases shape with
  | scalar v => simp [positionOf_eq_ok_iff]
  | array => simp [positionOf]
  | object => simp [positionOf]

/-- Whether the claim is made of the members depends on the values under the four names. -/
theorem exists_claimDraft_iff :
    (∃ d, members.foldlM ClaimDraft.take ClaimDraft.empty = .ok d ∧ d.finish = .ok c) ↔
      (∃ value, valuesOf .contractIndex members = [value] ∧
        countOf .slot value.shape = .ok c.contractIndex) ∧
      ((valuesOf .parentIndex members = [] ∧ c.parentIndex = 0) ∨
        ∃ value, valuesOf .parentIndex members = [value] ∧
          countOf .slot value.shape = .ok c.parentIndex) ∧
      claimDataOf (keptOf members) = .ok c.toClaimData := by
  simp only [foldlM_claimDraft_eq_ok_iff, ClaimDraft.finish_eq_ok_iff]
  rw [← fills_some_iff, ← fills_some_iff, ← @fills_none_iff Nat (countOf .slot)]
  constructor
  · intro h
    obtain ⟨⟨contract?, parent?, kept⟩, ⟨hcontract, hparent, hkept⟩, rfl, hdata, hindex⟩ := h
    dsimp only at hcontract hparent hdata hindex
    have hkeep : kept = keptOf members := hkept
    refine ⟨hcontract, ?_, hkeep ▸ hdata⟩
    cases parent? with
    | none => exact Or.inl ⟨hparent, hindex.symm⟩
    | some n =>
      cases hindex
      exact Or.inr hparent
  · intro h
    obtain ⟨hcontract, hparent, hdata⟩ := h
    rcases hparent with ⟨hparent, hindex⟩ | hparent
    · exact ⟨⟨_, none, keptOf members⟩, ⟨hcontract, hparent, rfl⟩, rfl, hdata, hindex.symm⟩
    · exact ⟨⟨_, some c.parentIndex, keptOf members⟩, ⟨hcontract, hparent, rfl⟩, rfl, hdata, rfl⟩

/-- Members whose counts are words make the claim that they tell. -/
theorem tellsClaim_iff
    (hword : ∀ member ∈ members, ∀ n : Nat, member.2 = .scalar (.int n) → n < Numeral.wordLimit) :
    TellsClaim members c ↔
      ∃ d, members.foldlM ClaimDraft.take ClaimDraft.empty = .ok d ∧ d.finish = .ok c := by
  have hcount : ∀ {field n}, valuesOf field members = [.scalar (.int (n : Nat))] →
      n < Numeral.wordLimit := by
    intro field n hvalues
    have hmem : Json.scalar (.int n) ∈ valuesOf field members := by simp [hvalues]
    exact hword _ (mem_of_mem_valuesOf hmem) n rfl
  have hslot : ∀ {field n}, (∃ value, valuesOf field members = [value] ∧
      countOf .slot value.shape = .ok n) ↔
        valuesOf field members = [.scalar (.int (n : Nat))] ∧ n < Numeral.wordLimit := by
    intro field n
    simp only [countOf_eq_ok_iff, shape_eq_scalar_iff, exists_eq_right]
    exact ⟨fun hvalues => ⟨hvalues, hcount hvalues⟩, And.left⟩
  rw [exists_claimDraft_iff, claimDataOf_eq_ok_iff, hslot, hslot]
  simp only [valuesOf_keptOf, valueOf_eq_ok_iff, positionOf_eq_ok_iff_denotes,
    shape_eq_scalar_iff]
  constructor
  · intro h
    obtain ⟨text, hvalue, hspells⟩ := h.value
    obtain ⟨v, g, hposition, hdenotes⟩ := h.position
    exact ⟨h.contractIndex, h.parentIndex, ⟨_, hvalue, text, rfl, hspells⟩,
      ⟨_, hposition, v, g, rfl, hdenotes⟩⟩
  · intro h
    obtain ⟨hcontract, hparent, ⟨_, hvalue, text, rfl, hspells⟩,
      ⟨_, hposition, v, g, rfl, hdenotes⟩⟩ := h
    exact ⟨hcontract, hparent, ⟨text, hvalue, hspells⟩, ⟨v, g, hposition, hdenotes⟩⟩

/-- A claim is read from an object that tells it, with one level more of room for the object
itself. -/
theorem readClaim_eq_ok_iff {room : Nat} {s rest : List Char} :
    readClaim room s = .ok (c, rest) ↔ ∃ members,
      readValue .keep (room + 1) s = .ok (.object members, rest) ∧ TellsClaim members c := by
  have hmembers : ∀ {members body}, readMembers .keep (appendMember (readValue .keep room)) []
      body = .ok (members, rest) → (TellsClaim members c ↔
        ∃ d, members.foldlM ClaimDraft.take ClaimDraft.empty = .ok d ∧ d.finish = .ok c) := by
    intro members body hkept
    -- numbers that fit in no word are kept as floats, so every count that was kept is a word
    apply tellsClaim_iff
    intro member hmember n hvalue
    obtain ⟨t, after, hread⟩ := exists_read_of_readMembers hkept member hmember
    rw [hvalue, readValue_eq_scalar_iff] at hread
    exact readShape_word hread
  simp only [readValue_eq_object_iff]
  unfold readClaim
  rw [bind_eq_ok]
  constructor
  · intro h
    obtain ⟨⟨shape, body⟩, hshape, h⟩ := h
    cases shape with
    | scalar v => cases h
    | array => cases h
    | object =>
      obtain ⟨⟨d, after⟩, hread, h⟩ := bind_eq_ok.mp h
      obtain ⟨claim, hfinish, h⟩ := bind_eq_ok.mp h
      cases h
      obtain ⟨members, hkept, hfold⟩ :=
        (readMembers_eq_ok_iff (stepsBy_readClaimMember room)).mp hread
      exact ⟨members, ⟨body, lift_eq_ok.mp hshape, hkept⟩,
        (hmembers hkept).mpr ⟨d, hfold, hfinish⟩⟩
  · intro h
    obtain ⟨members, ⟨body, hshape, hkept⟩, htells⟩ := h
    obtain ⟨d, hfold, hfinish⟩ := (hmembers hkept).mp htells
    have hread := (readMembers_eq_ok_iff (stepsBy_readClaimMember room)).mpr
      ⟨members, hkept, hfold⟩
    refine ⟨_, lift_eq_ok.mpr hshape, ?_⟩
    change (readMembers .keep (readClaimMember room) ClaimDraft.empty body >>= _) = _
    rw [hread]
    change (d.finish >>= _) = _
    rw [hfinish]
    rfl

/-- The texts that a claim is read from. -/
theorem parseClaim_eq_ok_iff : parseClaim text = .ok c ↔
    ∃ members, Json.parse text = .ok (.object members) ∧ TellsClaim members c := by
  unfold parseClaim Json.parse
  simp only [readAll_eq_ok_iff, readClaim_eq_ok_iff]
  constructor
  · intro h
    obtain ⟨rest, ⟨members, hread, htells⟩, hrest⟩ := h
    exact ⟨members, ⟨rest, hread, hrest⟩, htells⟩
  · intro h
    obtain ⟨members, ⟨rest, hread, hrest⟩, htells⟩ := h
    exact ⟨rest, ⟨members, hread, htells⟩, hrest⟩

/-- The same texts as they are spelled, the reading left aside. -/
theorem parseClaim_iff_spelled : parseClaim text = .ok c ↔
    ∃ members, Spaced (Spells maxNesting) text.toList (.object members) ∧
      TellsClaim members c := by
  simp only [parseClaim_eq_ok_iff, parse_iff_spelled]

end Telling

section Orders

variable {members others : List (String × Json)} {c : Claim}

/-- Two objects agree on the members that are named like a field, in whatever order each of them
has these, and whatever else it has. -/
def SameNamed (members others : List (String × Json)) : Prop :=
  (members.filter fun member => (Field.ofKey? member.1).isSome).Perm
    (others.filter fun member => (Field.ofKey? member.1).isSome)

theorem sameNamed_of_perm (h : members.Perm others) : SameNamed members others :=
  h.filter _

/-- A member under another key may be set anywhere or left out. -/
theorem sameNamed_insert {key : String} (hkey : ∀ field : Field, key ≠ field.name)
    (before after : List (String × Json)) (value : Json) :
    SameNamed (before ++ (key, value) :: after) (before ++ after) := by
  have hnone : Field.ofKey? key = none := by
    cases hfield : Field.ofKey? key with
    | none => rfl
    | some field => exact absurd (Field.ofKey?_eq_some_iff.mp hfield) (hkey field)
  unfold SameNamed
  rw [List.filter_append, List.filter_append, List.filter_cons_of_neg (by simp [hnone])]

theorem SameNamed.valuesOf_perm (h : SameNamed members others) (field : Field) :
    (valuesOf field members).Perm (valuesOf field others) := by
  have hnamed : ∀ members, valuesOf field members =
      valuesOf field (members.filter fun member => (Field.ofKey? member.1).isSome) := by
    intro members
    unfold valuesOf
    rw [List.filter_filter]
    congr 2
    funext member
    by_cases hname : member.1 = field.name
    · simp [hname, Field.ofKey?_name]
    · simp [hname]
  rw [hnamed members, hnamed others]
  exact (h.filter _).map _

/-- No name is told twice, so nothing in the telling has an order. -/
theorem TellsClaim.of_sameNamed (h : SameNamed members others) (htells : TellsClaim members c) :
    TellsClaim others c := by
  have hone : ∀ {field value}, valuesOf field members = [value] →
      valuesOf field others = [value] := by
    intro field value hvalue
    exact (List.singleton_perm.mp (hvalue ▸ h.valuesOf_perm field)).symm
  have hnone : ∀ {field}, valuesOf field members = [] → valuesOf field others = [] := by
    intro field hvalue
    exact List.nil_perm.mp (hvalue ▸ h.valuesOf_perm field)
  obtain ⟨text, hvalue, hspells⟩ := htells.value
  obtain ⟨v, g, hposition, hdenotes⟩ := htells.position
  refine ⟨⟨hone htells.contractIndex.1, htells.contractIndex.2⟩, ?_,
    ⟨text, hone hvalue, hspells⟩, ⟨v, g, hone hposition, hdenotes⟩⟩
  rcases htells.parentIndex with ⟨hnil, hzero⟩ | ⟨hparent, hword⟩
  · exact Or.inl ⟨hnone hnil, hzero⟩
  · exact Or.inr ⟨hone hparent, hword⟩

theorem tellsClaim_congr (h : SameNamed members others) :
    TellsClaim members c ↔ TellsClaim others c :=
  ⟨.of_sameNamed h, .of_sameNamed h.symm⟩

/-- A claim is read from an object exactly if the object names its own slot once, its parent at
most once, its value once and its position once, each of them with an accepted content, and
then the claim has these contents; without a parent it has zero in its place. Objects that
agree on these names are read alike: neither the order of their members nor the members under
other names count, and these may be repeated. -/
theorem parseClaim_reads_by_name {text : String} {members : List (String × Json)}
    (hparse : Json.parse text = .ok (.object members)) :
    (∀ c, parseClaim text = .ok c ↔ TellsClaim members c) ∧
    ∀ (other : String) (others : List (String × Json)),
      Json.parse other = .ok (.object others) → SameNamed members others →
      ∀ c, parseClaim text = .ok c ↔ parseClaim other = .ok c := by
  have htold : ∀ {text members}, Json.parse text = .ok (.object members) →
      ∀ c, parseClaim text = .ok c ↔ TellsClaim members c := by
    intro text members hparse c
    rw [parseClaim_eq_ok_iff]
    constructor
    · intro h
      obtain ⟨members', hparse', htells⟩ := h
      cases hparse.symm.trans hparse'
      exact htells
    · intro htells
      exact ⟨members, hparse, htells⟩
  refine ⟨htold hparse, ?_⟩
  intro other others hother hsame c
  rw [htold hparse c, htold hother c, tellsClaim_congr hsame]

-- Every letter of the texts is a step of the reader.
set_option maxRecDepth 4000 in
/-- A claim that names no parent, and its members backwards with others between them. -/
theorem parseClaim_reads_by_name_backwards :
    let zeros := "0000000000000000000000000000000000000000000000000000000000000000"
    let members : List (String × Json) := [("value", .scalar (.text zeros)),
      ("position", .scalar (.text "0x1")), ("contract_index", .scalar (.int 7))]
    let others : List (String × Json) := [("x", .array []), ("contract_index", .scalar (.int 7)),
      ("x", .object []), ("position", .scalar (.text "0x1")), ("value", .scalar (.text zeros))]
    let text :=
      "\x7b\"value\":\"0000000000000000000000000000000000000000000000000000000000000000\"," ++
      "\"position\":\"0x1\",\"contract_index\":7\x7d"
    let other := "\x7b\"x\":[],\"contract_index\":7,\"x\":\x7b\x7d,\"position\":\"0x1\"," ++
      "\"value\":\"0000000000000000000000000000000000000000000000000000000000000000\"\x7d"
    Json.parse text = .ok (.object members) ∧ Json.parse other = .ok (.object others) ∧
      SameNamed members others ∧ TellsClaim members ⟨⟨default, ⟨0, 0⟩⟩, 7, 0⟩ ∧
      parseClaim other = .ok ⟨⟨default, ⟨0, 0⟩⟩, 7, 0⟩ := by
  intro zeros members others text other
  have htext : Json.parse text = .ok (.object members) := by decide +kernel
  have hother : Json.parse other = .ok (.object others) := by decide +kernel
  have hread : parseClaim text = .ok ⟨⟨default, ⟨0, 0⟩⟩, 7, 0⟩ := by decide +kernel
  have hforeign : ∀ field : Field, "x" ≠ field.name := by
    intro field
    rcases field with (_ | _) | _ | _ <;> decide
  have hsame : SameNamed members others := by
    have hback := sameNamed_of_perm (List.reverse_perm members).symm
    have hlast := sameNamed_insert hforeign [("contract_index", .scalar (.int 7))]
      [("position", .scalar (.text "0x1")), ("value", .scalar (.text zeros))] (.object [])
    have hfirst := sameNamed_insert hforeign [] (("contract_index", .scalar (.int 7)) ::
      ("x", .object []) :: [("position", .scalar (.text "0x1")), ("value", .scalar (.text zeros))])
      (.array [])
    exact (hback.trans hlast.symm).trans hfirst.symm
  obtain ⟨htells, halike⟩ := parseClaim_reads_by_name htext
  exact ⟨htext, hother, hsame, (htells _).mp hread, (halike other others hother hsame _).mp hread⟩

end Orders

end DisputeGame.Record
