import DisputeGame.Claim.Basic
import DisputeGame.Json.Reader
import DisputeGame.Record.Part

/-!
Records read from JSON. The data of a claim stand in an object or in a pair, and are
looked at where they stand. A whole claim is an object; its indices are looked at
where they stand, while its data are kept until the object has ended and are then
taken in the order of the text. Members under other keys are passed over.
-/

namespace DisputeGame.Record

open Json

/-- The parts of the data of a claim that have been found. -/
structure DataDraft where
  value? : Option ClaimValue
  position? : Option Position

namespace DataDraft

def empty : DataDraft := ⟨none, none⟩

def has (d : DataDraft) : DataField → Bool
  | .value => d.value?.isSome
  | .position => d.position?.isSome

def fill (d : DataDraft) (shape : Shape) : DataField → Except Mismatch DataDraft
  | .value => (valueOf shape).map fun v => { d with value? := some v }
  | .position => (positionOf shape).map fun p => { d with position? := some p }

def finish (d : DataDraft) : Except Mismatch ClaimData :=
  match d.value?, d.position? with
  | none, _ => .error (.missing (.data .value))
  | _, none => .error (.missing (.data .position))
  | some value, some position => .ok ⟨value, position⟩

end DataDraft

def readPart {α : Type} (part : Shape → Except Mismatch α) (s : List Char) :
    Except Mismatch (α × List Char) := do
  let (shape, rest) ← lift (readShape .keep s)
  let v ← part shape
  return (v, rest)

/-- A repeated field is refused before its value is read. -/
def readDataMember (d : DataDraft) (key : String) (s : List Char) :
    Except Mismatch (DataDraft × List Char) :=
  match DataField.ofKey? key with
  | none => do
    let rest ← lift (readColon s)
    let rest ← lift (skipValue rest)
    return (d, rest)
  | some field =>
    if d.has field then .error (.duplicate (.data field))
    else do
      let rest ← lift (readColon s)
      let (d, rest) ← readPart (d.fill · field) rest
      return (d, rest)

/-- Reads a value and a position from behind the opening bracket. -/
def readPair (s : List Char) : Except Mismatch (ClaimData × List Char) :=
  match skipSpace s with
  | ']' :: _ => .error (.wrongLength 0 .claimPair)
  | s => do
    let (value, rest) ← readPart valueOf s
    match skipSpace rest with
    | ']' :: _ => .error (.wrongLength 1 .claimPair)
    | ',' :: rest =>
      let (position, rest) ← readPart positionOf rest
      match skipSpace rest with
      | ']' :: rest => return (⟨value, position⟩, rest)
      | rest => stopAt rest
    | rest => stopAt rest

def readClaimData (s : List Char) : Except Mismatch (ClaimData × List Char) := do
  match ← lift (readShape .keep s) with
  | (.object, rest) =>
    let (d, rest) ← readMembers .keep readDataMember DataDraft.empty rest
    let data ← d.finish
    return (data, rest)
  | (.array, rest) => readPair rest
  | (found, _) => .error (.wrongType found .claimData)

/-- Takes a member of a claim that has been kept. -/
def DataDraft.take (d : DataDraft) (member : String × Json) : Except Mismatch DataDraft :=
  match DataField.ofKey? member.1 with
  | none => .ok d
  | some field =>
    if d.has field then .error (.duplicate (.data field)) else d.fill member.2.shape field

def claimDataOf (members : List (String × Json)) : Except Mismatch ClaimData := do
  let d ← members.foldlM DataDraft.take DataDraft.empty
  d.finish

/-- The indices of a claim that have been found, and the other members. -/
structure ClaimDraft where
  contractIndex? : Option Nat
  parentIndex? : Option Nat
  kept : List (String × Json)

namespace ClaimDraft

def empty : ClaimDraft := ⟨none, none, []⟩

/-- The claim that the members make. One that names no parent answers the claim in slot zero. -/
def finish (d : ClaimDraft) : Except Mismatch Claim :=
  match d.contractIndex? with
  | none => .error (.missing .contractIndex)
  | some contractIndex => do
    let data ← claimDataOf d.kept
    return ⟨data, contractIndex, d.parentIndex?.getD 0⟩

end ClaimDraft

def readSlot (s : List Char) : Except Mismatch (Nat × List Char) := do
  let rest ← lift (readColon s)
  readPart (countOf .slot) rest

/-- Reads a member of a claim; a value that is kept has room for so many nested containers. -/
def readClaimMember (room : Nat) (d : ClaimDraft) (key : String) (s : List Char) :
    Except Mismatch (ClaimDraft × List Char) :=
  match Field.ofKey? key with
  | some .contractIndex =>
    if d.contractIndex?.isSome then .error (.duplicate .contractIndex)
    else do
      let (slot, rest) ← readSlot s
      return ({ d with contractIndex? := some slot }, rest)
  | some .parentIndex =>
    if d.parentIndex?.isSome then .error (.duplicate .parentIndex)
    else do
      let (slot, rest) ← readSlot s
      return ({ d with parentIndex? := some slot }, rest)
  | _ => do
    let (kept, rest) ← lift (appendMember (readValue .keep room) d.kept key s)
    return ({ d with kept }, rest)

def readClaim (room : Nat) (s : List Char) : Except Mismatch (Claim × List Char) := do
  match ← lift (readShape .keep s) with
  | (.object, rest) =>
    let (d, rest) ← readMembers .keep (readClaimMember room) ClaimDraft.empty rest
    let claim ← d.finish
    return (claim, rest)
  | (found, _) => .error (.wrongType found .claim)

def readClaims (room : Nat) (s : List Char) : Except Mismatch (List Claim × List Char) := do
  match ← lift (readShape .keep s) with
  | (.array, rest) => readItems (readClaim room) rest
  | (found, _) => .error (.wrongType found .claims)

def parseDepth : String → Except Mismatch Depth := readAll (readPart (countOf .depth))

def parsePosition : String → Except Mismatch Position := readAll (readPart positionOf)

def parseClaimData : String → Except Mismatch ClaimData := readAll readClaimData

/-- The claim itself takes one level of the nesting. -/
def parseClaim : String → Except Mismatch Claim := readAll (readClaim (maxNesting - 1))

/-- The array and each claim in it take one level of the nesting. -/
def parseClaims : String → Except Mismatch (List Claim) := readAll (readClaims (maxNesting - 2))

end DisputeGame.Record
