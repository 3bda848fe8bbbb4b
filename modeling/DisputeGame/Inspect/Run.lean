import DisputeGame.Game.Intake
import DisputeGame.Inspect.Arguments
import DisputeGame.Inspect.Report
import DisputeGame.Record.Reader

/-!
A run of the inspection. One command describes a position and the moves against it,
one looks at a position from an ancestor, and one takes the claims of a file in and
tells how they relate. A run ends with wrong usage, with a failure, or well.
-/

namespace DisputeGame.Inspect

open Report

/-- Checks the depth of a game before anything else is done. -/
def withDepth (maxDepth : Nat) (next : Nat → Report) : Report :=
  need (Depth.ensureSupported maxDepth) fun maxDepth =>
    note [.inspecting maxDepth] ++ next maxDepth

/-- A defense that leaves the tree is no failure: there is no such move. -/
def describeDefense (p : Position) : Report :=
  match p.defend with
  | .ok defense => print [.defense defense]
  | .error why => note [.noDefense p why]

def describeMoves (p : Position) : Report :=
  need p.attack (fun attack => print [.attack attack]) ++ describeDefense p

def describeParent (p : Position) : Report :=
  match p.parent with
  | .ok parent => print [.parent parent]
  | .error _ => nothing

def describePosition (p : Position) (maxDepth : Nat) : Report :=
  if maxDepth < p.depth then fail (.belowMaxDepth p maxDepth)
  else
    print [.position p] ++
    need (p.traceIndex maxDepth) (fun index => print [.traceIndex index]) ++
    (if p.depth < maxDepth then describeMoves p else nothing) ++
    describeParent p

def describeRelative (p : Position) (ancestor : Nat) : Report :=
  let look := p.reroot ancestor
  note (look.notes.map Event.ofNote) ++
    need look.value fun result => print [.relative p result]

/-- What is said of a claim that is passed over. An admitted one gets its line later. -/
def rulingLines (r : Ruling) : List Line :=
  let index := r.claim.contractIndex
  match r.verdict with
  | .duplicate => [.repeated index]
  | .orphan => [.orphaned index r.claim.parentIndex]
  | .refused why => [.rejected index why]
  | .admitted _ => []

/-- How a claim of a game stands to the claim it answers. A claim at the root answers none. -/
def relate (g : Game) (c : Claim) : Noted Relation :=
  if c.isRoot then .silent .root
  else (g.testParent c).map fun defends => if defends then .defends else .doesNotDefend

def relationOf (g : Game) (c : Claim) : Relation := (relate g c).value

def relationLog (g : Game) (c : Claim) : List Event := (relate g c).notes.map Event.ofNote

def slotLine (g : Game) (c : Claim) : Line :=
  .slot c.contractIndex c.position c.value (relationOf g c)

/-- The claims that are passed over come first, then those of the game by their slots. -/
def inspectClaims (claims : List Claim) (maxDepth : Nat) : Report :=
  let (rulings, intake) := (Intake.start maxDepth).run claims
  let admitted := intake.game.claims.toList
  { lines := rulings.flatMap rulingLines ++ admitted.map (slotLine intake.game)
    log := intake.log ++ admitted.flatMap (relationLog intake.game)
    failure? := none }

def inspectFile (path : String) (content? : Option String) (maxDepth : Nat) : Report :=
  match content? with
  | none => fail (.unreadable path)
  | some content =>
    match Record.parseClaims content with
    | .error _ => fail (.unparsable path)
    | .ok claims => note [.loaded claims.length path] ++ inspectClaims claims maxDepth

/-- Carries a command out; `read` gives the text of a file that can be read. -/
def execute (read : String → Option String) : Command → Report
  | .position p maxDepth => withDepth maxDepth (describePosition p)
  | .relative p ancestor => describeRelative p ancestor
  | .claims path maxDepth => withDepth maxDepth (inspectFile path (read path))

/-- The file that a command looks into. The depth of the game is checked before, so where it
is not supported no file is touched. -/
def Command.file? : Command → Option String
  | .claims path maxDepth => if Depth.isSupported maxDepth then some path else none
  | _ => none

/-- What a run leaves behind. -/
structure Outcome where
  exitCode : Nat
  output : List String
  log : List String
  error? : Option String
  deriving DecidableEq, Repr

namespace Outcome

def wrongUsage : Outcome := ⟨2, [], [], none⟩

def ofReport (verbosity : Nat) (r : Report) : Outcome where
  exitCode := if r.failure?.isSome then 1 else 0
  output := r.lines.map Line.text
  log := (r.log.filter (Event.showsAt verbosity)).map Event.display
  error? := r.failure?.map fun why => s!"Error: {why.message}"

end Outcome

def depthVariable : String := "FAULT_MAX_DEPTH"

def verbosityVariable : String := "VERBOSITY"

def run (env : Environment) (read : String → Option String) (args : List String) : Outcome :=
  match Arguments.parse? env args with
  | none => .wrongUsage
  | some a => .ofReport a.verbosity (execute read a.command)

/-- The file that a run will ask for. -/
def requestedPath? (env : Environment) (args : List String) : Option String :=
  (Arguments.parse? env args).bind fun a => a.command.file?

end DisputeGame.Inspect
