import DisputeGame.Inspect.Run
import DisputeGame.Main
import DisputeGame.Record.Writer
import DisputeGame.Proofs.Tree.Numbering
import DisputeGame.Proofs.Tree.Encoding
import DisputeGame.Proofs.Tree.Paths
import DisputeGame.Proofs.Tree.Expansion
import DisputeGame.Proofs.Tree.CodeSteps
import DisputeGame.Proofs.Tree.Ancestors
import DisputeGame.Proofs.Tree.Descendants
import DisputeGame.Proofs.Tree.Validity
import DisputeGame.Proofs.Tree.Origin
import DisputeGame.Proofs.Tree.Rerooting
import DisputeGame.Proofs.Tree.Lines
import DisputeGame.Proofs.Tree.TraceIndex
import DisputeGame.Proofs.Tree.Spine
import DisputeGame.Proofs.Tree.Construction
import DisputeGame.Proofs.Tree.Level
import DisputeGame.Proofs.Game.Admission
import DisputeGame.Proofs.Game.History
import DisputeGame.Proofs.Game.Loading
import DisputeGame.Proofs.Game.Repetition
import DisputeGame.Proofs.Game.Lineage
import DisputeGame.Proofs.Game.Finality
import DisputeGame.Proofs.Claim.Defense
import DisputeGame.Proofs.Inspect.Wording
import DisputeGame.Proofs.Inspect.Standing
import DisputeGame.Proofs.Inspect.Accounting
import DisputeGame.Proofs.Inspect.Reordering
import DisputeGame.Proofs.Inspect.Renaming
import DisputeGame.Proofs.Inspect.Agreement
import DisputeGame.Proofs.Inspect.Endings
import DisputeGame.Proofs.Text.Blank
import DisputeGame.Proofs.Text.Numeral
import DisputeGame.Proofs.Tree.Spelling
import DisputeGame.Proofs.Json.Scalars
import DisputeGame.Proofs.Json.Containers
import DisputeGame.Proofs.Claim.Writing
import DisputeGame.Proofs.Record.RoundTrip
import DisputeGame.Proofs.Record.PositionCodec
import DisputeGame.Proofs.Claim.Answers
import DisputeGame.Proofs.Tree.Projection
import DisputeGame.Proofs.Claim.Spelling
import DisputeGame.Proofs.Json.Traversal
import DisputeGame.Proofs.Record.Members
import DisputeGame.Proofs.Record.SameMove
import DisputeGame.Proofs.Tree.Narrowing
import DisputeGame.Proofs.Tree.Parenthood
import DisputeGame.Proofs.Inspect.Description
import DisputeGame.Proofs.Inspect.Logging
import DisputeGame.Proofs.Json.Grammar
