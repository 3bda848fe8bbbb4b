import DisputeGame.Json.Number
import DisputeGame.Json.Quoted

/-!
Reading JSON from the front of a text. A reading returns the value and what follows
it. The lists of a container are read by one loop each, which is told how to read an
element; so the same loops serve values that are kept, values that are passed over
and records whose fields are looked at on the way. Containers that are kept may nest
so many levels deep as there is room; those that are passed over have no limit.
-/

namespace DisputeGame.Json

def isSpace (c : Char) : Bool := c = ' ' || c = '\n' || c = '\t' || c = '\r'

def skipSpace (s : List Char) : List Char := s.dropWhile isSpace

/-- The rest of a word that has begun. -/
def readWord : List Char → List Char → Except Fault (List Char)
  | [], s => .ok s
  | _ :: _, [] => .error .truncated
  | c :: word, d :: s => if c = d then readWord word s else .error .malformed

def readScalar (purpose : Purpose) (s : List Char) : Except Fault (Scalar × List Char) :=
  match s with
  | 'n' :: rest => (readWord ['u', 'l', 'l'] rest).map fun rest => (.null, rest)
  | 't' :: rest => (readWord ['r', 'u', 'e'] rest).map fun rest => (.bool true, rest)
  | 'f' :: rest => (readWord ['a', 'l', 's', 'e'] rest).map fun rest => (.bool false, rest)
  | '"' :: rest => (readText purpose rest).map fun (text, rest) => (.text text, rest)
  | c :: _ =>
    if c = '-' || c.isDigit then
      match purpose with
      | .keep => readNumber s
      | .skip => skipNumber s
    else .error .malformed
  | [] => .error .truncated

/-- Reads a scalar, or the bracket that opens a container. -/
def readShape (purpose : Purpose) (s : List Char) : Except Fault (Shape × List Char) :=
  match skipSpace s with
  | '[' :: rest => .ok (.array, rest)
  | '\x7b' :: rest => .ok (.object, rest)
  | s => (readScalar purpose s).map fun (v, rest) => (.scalar v, rest)

/-- Reads elements, at least one, up to the closing bracket. Every element takes a
character, so `fuel` lasts if there is more of it than text. -/
def readItemsFrom {E α : Type} [OfFault E] (read : List Char → Except E (α × List Char)) :
    Nat → List Char → Except E (List α × List Char)
  | 0, s => stopAt s
  | fuel + 1, s => do
    let (item, rest) ← read s
    match skipSpace rest with
    | ',' :: rest =>
      let (items, rest) ← readItemsFrom read fuel rest
      return (item :: items, rest)
    | ']' :: rest => return ([item], rest)
    | rest => stopAt rest

/-- Reads the elements of an array from behind the opening bracket. -/
def readItems {E α : Type} [OfFault E] (read : List Char → Except E (α × List Char))
    (s : List Char) : Except E (List α × List Char) :=
  match skipSpace s with
  | ']' :: rest => .ok ([], rest)
  | s => readItemsFrom read (s.length + 1) s

/-- Reads members, at least one, up to the closing brace. A step is given what has been
made of the members so far, the key and the text behind it. -/
def readMembersFrom {E σ : Type} [OfFault E] (purpose : Purpose)
    (step : σ → String → List Char → Except E (σ × List Char)) :
    Nat → σ → List Char → Except E (σ × List Char)
  | 0, _, s => stopAt s
  | fuel + 1, state, s =>
    match skipSpace s with
    | '"' :: rest => do
      let (key, rest) ← lift (readText purpose rest)
      let (state, rest) ← step state key rest
      match skipSpace rest with
      | ',' :: rest => readMembersFrom purpose step fuel state rest
      | '\x7d' :: rest => return (state, rest)
      | rest => stopAt rest
    | rest => stopAt rest

/-- Reads the members of an object from behind the opening brace. -/
def readMembers {E σ : Type} [OfFault E] (purpose : Purpose)
    (step : σ → String → List Char → Except E (σ × List Char)) (start : σ)
    (s : List Char) : Except E (σ × List Char) :=
  match skipSpace s with
  | '\x7d' :: rest => .ok (start, rest)
  | s => readMembersFrom purpose step (s.length + 1) start s

def readColon (s : List Char) : Except Fault (List Char) :=
  match skipSpace s with
  | ':' :: rest => .ok rest
  | rest => stopAt rest

/-- Puts a member behind those before it. -/
def appendMember (read : List Char → Except Fault (Json × List Char))
    (members : List (String × Json)) (key : String) (s : List Char) :
    Except Fault (List (String × Json) × List Char) := do
  let (value, rest) ← read (← readColon s)
  return (members ++ [(key, value)], rest)

/-- Reads a value with room for so many containers inside each other. -/
def readValue (purpose : Purpose) (room : Nat) (s : List Char) :
    Except Fault (Json × List Char) := do
  match ← readShape purpose s with
  | (.scalar v, rest) => return (.scalar v, rest)
  | (.array, rest) =>
    match room with
    | 0 => .error .malformed
    | room + 1 =>
      let (items, rest) ← readItems (readValue purpose room) rest
      return (.array items, rest)
  | (.object, rest) =>
    match room with
    | 0 => .error .malformed
    | room + 1 =>
      let (members, rest) ← readMembers purpose (appendMember (readValue purpose room)) [] rest
      return (.object members, rest)

/-- How deep containers may nest in a value that is kept. -/
def maxNesting : Nat := 127

/-- Passes a value over. A text has no room for more containers than characters. -/
def skipValue (s : List Char) : Except Fault (List Char) :=
  (readValue .skip s.length s).map Prod.snd

/-- A reading of a whole text: nothing but space may follow the value. -/
def readAll {E α : Type} [OfFault E] (read : List Char → Except E (α × List Char))
    (text : String) : Except E α := do
  let (value, rest) ← read text.toList
  match skipSpace rest with
  | [] => return value
  | rest => stopAt rest

def parse (text : String) : Except Fault Json := readAll (readValue .keep maxNesting) text

end DisputeGame.Json
