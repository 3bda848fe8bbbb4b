import DisputeGame.Inspect.Event

/-!
What an inspection prints, and how it may fail. A report is put together from parts;
nothing of what comes after a failure is left in it.
-/

namespace DisputeGame.Inspect

/-- How a claim of a game stands to the claim it answers. -/
inductive Relation
  | root
  | defends
  | doesNotDefend
  deriving DecidableEq, Repr

def Relation.text : Relation → String
  | root => "root"
  | defends => "defends parent"
  | doesNotDefend => "does not defend parent"

inductive Line
  | position (p : Position)
  | traceIndex (index : Nat)
  | attack (p : Position)
  | defense (p : Position)
  | parent (p : Position)
  | relative (p result : Position)
  | repeated (index : Nat)
  | orphaned (index answered : Nat)
  | rejected (index : Nat) (why : Refusal)
  | slot (index : Nat) (p : Position) (value : ClaimValue) (relation : Relation)
  deriving DecidableEq, Repr

namespace Line

def text : Line → String
  | position p => s!"position:    {p.display}"
  | traceIndex index => s!"trace index: {index}"
  | attack p => s!"attack:      {p.display}"
  | defense p => s!"defend:      {p.display}"
  | parent p => s!"parent:      {p.display}"
  | relative p result => s!"{p.display} -> {result.display}"
  | repeated index => s!"claim {index} duplicates an earlier claim, skipping"
  | orphaned index answered =>
    s!"claim {index} rejected: parent claim {answered} was not admitted"
  | rejected index why => s!"claim {index} rejected: {why.message}"
  | slot index p value relation =>
    s!"slot {index} at {p.display} value {value.display}: {relation.text}"

end Line

inductive Failure
  | tree (why : TreeError)
  | belowMaxDepth (p : Position) (maxDepth : Depth)
  | unreadable (path : String)
  | unparsable (path : String)
  deriving DecidableEq, Repr

def Failure.message : Failure → String
  | tree why => why.message
  | belowMaxDepth p maxDepth => s!"position {p.display} is below the max game depth {maxDepth}"
  | unreadable path => s!"failed to read claim file {path}"
  | unparsable path => s!"failed to parse claim file {path}"

structure Report where
  lines : List Line
  log : List Event
  failure? : Option Failure
  deriving DecidableEq, Repr

namespace Report

def nothing : Report := ⟨[], [], none⟩

def print (lines : List Line) : Report := ⟨lines, [], none⟩

def note (events : List Event) : Report := ⟨[], events, none⟩

def fail (why : Failure) : Report := ⟨[], [], some why⟩

/-- Goes on with another report unless the first one has failed. -/
def andThen (r next : Report) : Report :=
  match r.failure? with
  | some _ => r
  | none => ⟨r.lines ++ next.lines, r.log ++ next.log, next.failure?⟩

instance : Append Report := ⟨andThen⟩

@[simp] theorem nothing_append (r : Report) : nothing ++ r = r := rfl

@[simp] theorem print_append (lines : List Line) (r : Report) :
    print lines ++ r = ⟨lines ++ r.lines, r.log, r.failure?⟩ := rfl

@[simp] theorem note_append (events : List Event) (r : Report) :
    note events ++ r = ⟨r.lines, events ++ r.log, r.failure?⟩ := rfl

/-- Nothing is left of what comes after a failure. -/
@[simp] theorem fail_append (why : Failure) (r : Report) : fail why ++ r = fail why := rfl

/-- Goes on with a result, or fails for its error. -/
def need {α : Type} (result : Except TreeError α) (next : α → Report) : Report :=
  match result with
  | .ok a => next a
  | .error why => fail (.tree why)

end Report

end DisputeGame.Inspect
