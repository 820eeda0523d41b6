import RegexInsight.Pattern
import RegexInsight.Profile
import RegexInsight.Engine
import RegexInsight.Engine.Compilation
import RegexInsight.Dialect.Builtin
import RegexInsight.Portability
import RegexInsight.Repetition
import RegexInsight.Backtracking.Verdict
import RegexInsight.Config.Document
import RegexInsight.Config.Environment
import RegexInsight.Inference.Column
import RegexInsight.Explanation.Summary
import RegexInsight.Explanation.Attempt
import RegexInsight.Analysis
import RegexInsight.Batch
import RegexInsight.Report.Sheet
import RegexInsight.Report.Console
import RegexInsight.Command
import RegexInsight.Main
import RegexInsight.Proofs.Pattern.Leaf
import RegexInsight.Proofs.Pattern.Move
import RegexInsight.Proofs.Pattern.Numbering
import RegexInsight.Proofs.Pattern.ArenaTree
import RegexInsight.Proofs.CharSet.Membership
import RegexInsight.Proofs.Pattern.Language
import RegexInsight.Proofs.Pattern.NormalForm
import RegexInsight.Proofs.Pattern.ReachExact
import RegexInsight.Proofs.Pattern.NumeralFailure
import RegexInsight.Proofs.Pattern.Expression
import RegexInsight.Proofs.Pattern.Reading
import RegexInsight.Proofs.Pattern.RoundTrip
import RegexInsight.Proofs.Pattern.Way
import RegexInsight.Proofs.Engine.Routing
import RegexInsight.Proofs.Repetition.Nesting
import RegexInsight.Repetition.Worklist
import RegexInsight.Proofs.Dialect.Automaton
import RegexInsight.Proofs.Dialect.Bookkeeping
import RegexInsight.Proofs.Dialect.Lookup
import RegexInsight.Proofs.Dialect.FirstFailure
import RegexInsight.Proofs.Repetition.Worklist
import RegexInsight.Proofs.CharSet.Canonical
import RegexInsight.Proofs.Pattern.Derivation
import RegexInsight.Proofs.Repetition.Follow
import RegexInsight.Proofs.Text.Run
import RegexInsight.Proofs.Form.Language
import RegexInsight.Proofs.Form.FullMatch
import RegexInsight.Proofs.Inference.Shape
import RegexInsight.Proofs.Pattern.Members
import RegexInsight.Proofs.Pattern.Parts
import RegexInsight.Proofs.Pattern.Flat
import RegexInsight.Proofs.Inference.Parsed
import RegexInsight.Proofs.Backtracking.Probe
import RegexInsight.Proofs.Backtracking.Sharing
import RegexInsight.Proofs.Backtracking.Verdict
import RegexInsight.Proofs.Pattern.Explicit
import RegexInsight.Proofs.Pattern.GroupOrder
import RegexInsight.Proofs.Pattern.Reference
import RegexInsight.Proofs.Pattern.Offset
import RegexInsight.Proofs.Explanation.Attempt
import RegexInsight.Proofs.Explanation.Resolution
import RegexInsight.Proofs.Backtracking.Terminator
import RegexInsight.Proofs.Batch.Isolation
import RegexInsight.Proofs.Decimal.Order
import RegexInsight.Proofs.Inference.Ranking
import RegexInsight.Proofs.Text.Maximal
import RegexInsight.Proofs.Inference.Recovery
import RegexInsight.Proofs.Inference.EvidenceOrder
import RegexInsight.Proofs.Pattern.Cut
import RegexInsight.Proofs.Pattern.CutLeaf
import RegexInsight.Proofs.Pattern.Token
import RegexInsight.Proofs.Pattern.Replay
import RegexInsight.Proofs.Pattern.Span
import RegexInsight.Proofs.Pattern.ReadBack
import RegexInsight.Proofs.Pattern.Faithful
import RegexInsight.Proofs.Backtracking.Witness
import RegexInsight.Proofs.Backtracking.Extent
import RegexInsight.Proofs.Backtracking.Attack
import RegexInsight.Proofs.Backtracking.Assessment
import RegexInsight.Proofs.Repetition.Overlap
import RegexInsight.Proofs.Backtracking.Growth
import RegexInsight.Proofs.Backtracking.Plan
import RegexInsight.Proofs.Pattern.Gap
import RegexInsight.Proofs.Explanation.QuantifierText
import RegexInsight.Proofs.Pattern.Locality
import RegexInsight.Proofs.Pattern.Stack
import RegexInsight.Proofs.Pattern.Within
import RegexInsight.Proofs.Pattern.Mirror
import RegexInsight.Proofs.Pattern.Excerpt
import RegexInsight.Proofs.Backtracking.Rewrite
import RegexInsight.Proofs.CharSet.OtherCase
import RegexInsight.Proofs.CharSet.Algebra
import RegexInsight.Proofs.Pattern.ClassText
import RegexInsight.Proofs.Pattern.LiteralOrder
import RegexInsight.Proofs.Pattern.Scope
import RegexInsight.Proofs.Pattern.Verbose
import RegexInsight.Proofs.Pattern.ClassItems
import RegexInsight.Proofs.Pattern.ClassFollowed
import RegexInsight.Proofs.Pattern.CharacterCode
import RegexInsight.Proofs.Pattern.Balance
import RegexInsight.Proofs.Pattern.FaultPosition
import RegexInsight.Proofs.Pattern.Unspanned
import RegexInsight.Proofs.Pattern.Enclosed
import RegexInsight.Proofs.Repetition.Enclosed
import RegexInsight.Proofs.Pattern.LiteralText
import RegexInsight.Proofs.Inference.Generalization
import RegexInsight.Proofs.Decimal.Rounding
import RegexInsight.Proofs.Inference.Candidates
import RegexInsight.Proofs.Inference.Confidence
import RegexInsight.Explanation.Assembly
import RegexInsight.Proofs.Pattern.ArenaForm
import RegexInsight.Proofs.Pattern.Layout
import RegexInsight.Proofs.Explanation.Assembly
import RegexInsight.Proofs.Explanation.Coverage
import RegexInsight.Proofs.Config.Verdict
import RegexInsight.Proofs.Config.Loading
import RegexInsight.Proofs.CharSet.Overlap
import RegexInsight.Proofs.CharSet.Sample
import RegexInsight.Proofs.Pattern.Traversal
