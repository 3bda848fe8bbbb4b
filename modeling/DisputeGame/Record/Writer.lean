import DisputeGame.Claim.Basic
import DisputeGame.Text.Numeral

/-!
Records written as JSON, without spaces and with the members of a claim in a fixed
order. A position is written as its generalized index in decimal, between quotes, for
it may be larger than any number that a reader of JSON keeps.
-/

namespace DisputeGame.Record

open Text

def encodeText (body : List Char) : List Char := '"' :: body ++ ['"']

def encodeMember (key : String) (body : List Char) : List Char :=
  encodeText key.toList ++ ':' :: body

def encodeObject (members : List (List Char)) : List Char :=
  '\x7b' :: [','].intercalate members ++ ['\x7d']

def encodeArray (items : List (List Char)) : List Char :=
  '[' :: [','].intercalate items ++ [']']

def encodePosition (p : Position) : List Char := encodeText (Numeral.decimal p.gindex)

def dataMembers (data : ClaimData) : List (List Char) :=
  [encodeMember "value" (encodeText data.value.encode),
    encodeMember "position" (encodePosition data.position)]

def encodeClaimData (data : ClaimData) : List Char := encodeObject (dataMembers data)

def encodeClaim (c : Claim) : List Char :=
  encodeObject (dataMembers c.toClaimData ++
    [encodeMember "contract_index" (Numeral.decimal c.contractIndex),
      encodeMember "parent_index" (Numeral.decimal c.parentIndex)])

def encodeClaims (claims : List Claim) : List Char := encodeArray (claims.map encodeClaim)

def writeDepth (d : Depth) : String := String.ofList (Numeral.decimal d)

def writePosition (p : Position) : String := String.ofList (encodePosition p)

def writeClaimData (data : ClaimData) : String := String.ofList (encodeClaimData data)

def writeClaim (c : Claim) : String := String.ofList (encodeClaim c)

def writeClaims (claims : List Claim) : String := String.ofList (encodeClaims claims)

end DisputeGame.Record
