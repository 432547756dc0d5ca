import Credence.Assertion.Basic
import Credence.Assertion.Codec
import Credence.Decay
import Credence.Decimal.Binary
import Credence.Decimal.Layout
import Credence.Decimal.Power
import Credence.Decimal.Shortest
import Credence.Diff.Basic
import Credence.Diff.Record
import Credence.Error.Basic
import Credence.Error.Message
import Credence.Fields
import Credence.Graph.Bare
import Credence.Graph.Basic
import Credence.Graph.Codec
import Credence.Graph.Equality
import Credence.Instant.Basic
import Credence.Instant.Calendar
import Credence.Instant.Parser
import Credence.Instant.Printer
import Credence.Json.Basic
import Credence.Json.Printer
import Credence.Json.Reader
import Credence.Keyword
import Credence.Literal
import Credence.Merge.Buckets
import Credence.Merge.Options
import Credence.Merge.Reconcile
import Credence.Merge.Report
import Credence.Opinion.Basic
import Credence.Opinion.Discord
import Credence.Opinion.Fusion
import Credence.Opinion.Reasoning
import Credence.Opinion.Record
import Credence.Proofs.Assertion
import Credence.Proofs.Assertion.Forms
import Credence.Proofs.Audit
import Credence.Proofs.Contest.Choice
import Credence.Proofs.Contest.Dissent
import Credence.Proofs.Contest.Groups
import Credence.Proofs.Contest.Growth
import Credence.Proofs.Contest.Pooling
import Credence.Proofs.Contest.Vote
import Credence.Proofs.Decay.Curves
import Credence.Proofs.Decay.Fading
import Credence.Proofs.Decay.Observation
import Credence.Proofs.Diff.Account
import Credence.Proofs.Diff.Empty
import Credence.Proofs.Diff.Entries
import Credence.Proofs.Diff.Mirror
import Credence.Proofs.Diff.Record
import Credence.Proofs.Fields
import Credence.Proofs.Graph.Bare
import Credence.Proofs.Graph.Confidences
import Credence.Proofs.Graph.Decoding
import Credence.Proofs.Graph.Encoding
import Credence.Proofs.Graph.Grammar
import Credence.Proofs.Graph.Normalization
import Credence.Proofs.Graph.Places
import Credence.Proofs.Graph.Presentation
import Credence.Proofs.Graph.ReadBack
import Credence.Proofs.Graph.RoundTrip
import Credence.Proofs.Graph.Sameness
import Credence.Proofs.Graph.Throughout
import Credence.Proofs.Instant.Calendar
import Credence.Proofs.Instant.ReadBack
import Credence.Proofs.Json.Number
import Credence.Proofs.Json.Ordered
import Credence.Proofs.Json.Print
import Credence.Proofs.Json.Quoted
import Credence.Proofs.Merge.Account
import Credence.Proofs.Merge.Agreement
import Credence.Proofs.Merge.Audit
import Credence.Proofs.Merge.Closure
import Credence.Proofs.Merge.Confidence
import Credence.Proofs.Merge.Consensus
import Credence.Proofs.Merge.Gathering
import Credence.Proofs.Merge.Increment
import Credence.Proofs.Merge.Influence
import Credence.Proofs.Merge.Isolation
import Credence.Proofs.Merge.Outline
import Credence.Proofs.Merge.Pooling
import Credence.Proofs.Merge.Provenance
import Credence.Proofs.Merge.Record
import Credence.Proofs.Merge.Refusal
import Credence.Proofs.Merge.Remerge
import Credence.Proofs.Merge.Run
import Credence.Proofs.Merge.SourceOrder
import Credence.Proofs.Opinion.Averaging
import Credence.Proofs.Opinion.BaseRate
import Credence.Proofs.Opinion.Certainty
import Credence.Proofs.Opinion.Deduction
import Credence.Proofs.Opinion.Discord
import Credence.Proofs.Opinion.Evidence
import Credence.Proofs.Opinion.Exact
import Credence.Proofs.Opinion.Grouping
import Credence.Proofs.Opinion.Guarded
import Credence.Proofs.Opinion.LeaveOneOut
import Credence.Proofs.Opinion.Masses
import Credence.Proofs.Opinion.Mean
import Credence.Proofs.Opinion.Minority
import Credence.Proofs.Opinion.SourceOrder
import Credence.Proofs.Opinion.Tolerance
import Credence.Proofs.Opinion.Trust
import Credence.Proofs.Opinion.Wholeness
import Credence.Proofs.Record
import Credence.Proofs.Resolution
import Credence.Proofs.Scalar.Arithmetic
import Credence.Proofs.Scalar.Binary64
import Credence.Proofs.Scalar.Exact
import Credence.Proofs.Scalar.Greatest
import Credence.Proofs.Scalar.Guarded
import Credence.Proofs.Scalar.Leader
import Credence.Proofs.Scalar.Mean
import Credence.Proofs.Scalar.Packing
import Credence.Proofs.Scalar.Rank
import Credence.Proofs.Scalar.Real
import Credence.Proofs.Scalar.Rounding
import Credence.Proofs.Scalar.Tenths
import Credence.Proofs.Scalar.Whole
import Credence.Proofs.Score.Binary64
import Credence.Proofs.Score.Chain
import Credence.Proofs.Score.Combination
import Credence.Proofs.Score.Comparison
import Credence.Proofs.Score.Evidence
import Credence.Proofs.Score.Monotonicity
import Credence.Proofs.Score.Odds
import Credence.Proofs.Score.Order
import Credence.Proofs.Score.Pool
import Credence.Proofs.Score.Projection
import Credence.Proofs.Score.Propagation
import Credence.Proofs.Text.Digits
import Credence.Proofs.Traversal
import Credence.Proofs.Walk.Concatenation
import Credence.Proofs.Walk.Path
import Credence.Record
import Credence.Resolution
import Credence.Scalar
import Credence.Scalar.Binary64
import Credence.Scalar.Leader
import Credence.Score.Basic
import Credence.Score.Combination
import Credence.Score.Evidence
import Credence.Score.Propagation
import Credence.Score.Record
import Credence.Text.Blank
import Credence.Text.Digits
import Credence.Text.Quoted
import Credence.Text.Shown
import Credence.Vocabulary
import Credence.Walk
