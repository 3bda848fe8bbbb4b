import DisputeGame.Text.Numeral
import DisputeGame.Tree.Spelling

/-!
The arguments of an inspection. Flags for more output stand before the command. After
it the positional arguments and the option for the depth of the game may stand in any
order; two dashes end the options. Wrong usage of whatever kind gives no arguments.
What is not given may be found in the environment, which is not looked at otherwise.
-/

namespace DisputeGame.Inspect

open Text

inductive Command
  | position (node : Position) (maxDepth : Depth)
  | relative (node : Position) (ancestor : Depth)
  | claims (path : String) (maxDepth : Depth)
  deriving DecidableEq, Repr

structure Arguments where
  verbosity : Nat
  command : Command
  deriving DecidableEq, Repr

/-- The variables of the environment that stand in for what is not given. -/
structure Environment where
  depth? : Option String := none
  verbosity? : Option String := none
  deriving DecidableEq, Repr

/-- An environment with a depth and nothing else. -/
instance : Coe (Option String) Environment := ⟨fun depth? => { depth? }⟩

/-- Arguments behind a command: the positional ones in their order, and the values given
to the option for the depth. -/
structure Operands where
  positionals : List String
  depths : List String
  deriving DecidableEq, Repr

namespace Operands

def addPositional (o : Operands) (text : String) : Operands :=
  { o with positionals := text :: o.positionals }

def addDepth (o : Operands) (text : String) : Operands := { o with depths := text :: o.depths }

end Operands

/-- A lone dash is not an option. -/
def isOption (text : String) : Bool :=
  match text.toList with
  | '-' :: _ :: _ => true
  | _ => false

/-- An argument as the option for the depth: `none` if it is another one, and otherwise
the value attached to it, if there is one. -/
def depthOption? (text : String) : Option (Option String) :=
  match text.toList with
  | '-' :: 'd' :: '=' :: value => some (some (String.ofList value))
  | ['-', 'd'] => some none
  | '-' :: 'd' :: value => some (some (String.ofList value))
  | '-' :: '-' :: name =>
    if name = "max-depth".toList then some none
    else
      if "max-depth=".toList.isPrefixOf name then
        some (some (String.ofList (name.drop "max-depth=".length)))
      else none
  | _ => none

/-- Sorts the arguments behind a command. -/
def sortOperands? : List String → Option Operands
  | [] => some ⟨[], []⟩
  | "--" :: rest => some ⟨rest, []⟩
  | text :: rest =>
    if isOption text then
      match depthOption? text with
      | some (some value) => (sortOperands? rest).map (·.addDepth value)
      | some none =>
        match rest with
        | value :: rest =>
          if isOption value then none else (sortOperands? rest).map (·.addDepth value)
        | [] => none
      | none => none
    else (sortOperands? rest).map (·.addPositional text)

def readNode? (text : String) : Option Position := (Position.parse text).toOption

def readDepth? (text : String) : Option Depth := Numeral.readCount? text.toList

/-- The depth of the game; the environment stands in for a missing option. -/
def gameDepth? (o : Operands) (fallback? : Option String) : Option Depth :=
  match o.depths with
  | [text] => readDepth? text
  | [] => fallback?.bind readDepth?
  | _ => none

def readCommand? (fallback? : Option String) (name : String) (o : Operands) : Option Command :=
  match name, o.positionals with
  | "position", [node] => do
    return .position (← readNode? node) (← gameDepth? o fallback?)
  | "relative", [node, ancestor] =>
    if o.depths.isEmpty then do return .relative (← readNode? node) (← readDepth? ancestor)
    else none
  | "claims", [path] =>
    if path.isEmpty then none else do return .claims path (← gameDepth? o fallback?)
  | _, _ => none

/-- How much more output a flag asks for. -/
def flagCount? (text : String) : Option Nat :=
  match text.toList with
  | ['-', '-', 'v'] => some 1
  | '-' :: c :: flags => if (c :: flags).all (· = 'v') then some (flags.length + 1) else none
  | _ => none

/-- A number of one byte. A sign may stand in front of it, but only zero may be negative. -/
def readByte? : List Char → Option Nat
  | '-' :: digits => if digits ≠ [] && digits.all (· = '0') then some 0 else none
  | s => (Numeral.readCount? s).filter (· < 256)

/-- How much more output the environment asks for; a text that is no number is wrong usage. -/
def Environment.askedFor? (env : Environment) : Option Nat :=
  match env.verbosity? with
  | some text => readByte? text.toList
  | none => some 0

namespace Arguments

/-- Reads flags, the command and its operands; `fallback?` is the depth that the environment
gives. -/
def given? (fallback? : Option String) : List String → Option Arguments
  | [] => none
  | text :: rest =>
    match flagCount? text with
    | some n => (given? fallback? rest).map fun a => { a with verbosity := a.verbosity + n }
    | none => do
      let operands ← sortOperands? rest
      let command ← readCommand? fallback? text operands
      return ⟨0, command⟩

/-- Reads the arguments of a run. One flag is enough to outrank the environment. -/
def parse? (env : Environment) (args : List String) : Option Arguments := do
  let a ← given? env.depth? args
  if a.verbosity = 0 then
    let asked ← env.askedFor?
    return { a with verbosity := asked }
  else return a

end Arguments

end DisputeGame.Inspect
