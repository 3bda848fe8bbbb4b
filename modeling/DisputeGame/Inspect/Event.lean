import DisputeGame.Game.Basic
import DisputeGame.Tree.Spelling

/-!
What an inspection notes in its log. An event has a level and comes from one of
three sources; a run shows the events up to the level it was asked for.
-/

namespace DisputeGame.Inspect

inductive Level
  | error
  | warn
  | info
  | debug
  | trace
  deriving DecidableEq, Repr

namespace Level

def name : Level → String
  | error => "ERROR"
  | warn => "WARN"
  | info => "INFO"
  | debug => "DEBUG"
  | trace => "TRACE"

/-- How often more output has to be asked for until the level shows. -/
def rank : Level → Nat
  | error => 0
  | warn => 1
  | info => 2
  | debug => 3
  | trace => 4

end Level

inductive Source
  | inspection
  | game
  | position
  deriving DecidableEq, Repr

def Source.name : Source → String
  | inspection => "fault-inspect"
  | game => "fault-game"
  | position => "fault-position"

inductive Event
  | inspecting (maxDepth : Depth)
  | noDefense (against : Position) (why : TreeError)
  | loaded (count : Nat) (path : String)
  | rejected (index : Nat) (why : Refusal)
  | admitting (slot : Nat) (position : Position)
  | rerooted (position : Position) (ancestor : Depth) (result : Position)
  deriving DecidableEq, Repr

namespace Event

def level : Event → Level
  | inspecting _ | noDefense .. | admitting .. => .debug
  | loaded .. => .info
  | rejected .. => .warn
  | rerooted .. => .trace

def source : Event → Source
  | inspecting _ | noDefense .. | loaded .. | rejected .. => .inspection
  | admitting .. => .game
  | rerooted .. => .position

def text : Event → String
  | inspecting maxDepth => s!"Inspecting a game of max depth {maxDepth}"
  | noDefense p why => s!"No defense against {p.display}: {why.message}"
  | loaded count path => s!"Loaded {count} claims from {path}"
  | rejected index why => s!"Rejected claim {index}: {why.message}"
  | admitting slot p => s!"Admitting claim {slot} at {p.display}"
  | rerooted p ancestor result =>
    s!"Re-rooted {p.display} at ancestor depth {ancestor}: " ++
      s!"depth {result.depth}, index {result.index}"

/-- What a step notes is an event of the run that takes the step. -/
def ofNote : Note → Event
  | .admitting slot p => .admitting slot p
  | .rerooted p ancestor result => .rerooted p ancestor result

def display (e : Event) : String := s!"{e.level.name} {e.source.name}: {e.text}"

def showsAt (verbosity : Nat) (e : Event) : Bool := e.level.rank ≤ verbosity

end Event

end DisputeGame.Inspect
