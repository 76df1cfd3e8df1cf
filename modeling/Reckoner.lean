import Reckoner.Text.Quoted
import Reckoner.Text.Case
import Reckoner.Number.Decimal
import Reckoner.Number.Numeral
import Reckoner.Number.Function
import Reckoner.Time.Span
import Reckoner.Time.DateTime
import Reckoner.Value.Text
import Reckoner.Error
import Reckoner.Heap
import Reckoner.Value.Equality
import Reckoner.Value.Sequence
import Reckoner.Value.Matrix
import Reckoner.Operator.Evaluate
import Reckoner.Stream.Escape
import Reckoner.Stream.Varint
import Reckoner.Stream.Deflate
import Reckoner.Stream.Writer
import Reckoner.Stream.Registry
import Reckoner.Stream.Decoder
import Reckoner.Stream.Reader
import Reckoner.Storage.Slot
import Reckoner.Expr.Evaluate
import Reckoner.Builtin
import Reckoner.Main
import Reckoner.Proofs.Numeral
import Reckoner.Proofs.Token
import Reckoner.Proofs.Rounding
import Reckoner.Proofs.Shortest
import Reckoner.Proofs.DoubleText
import Reckoner.Proofs.Calendar
import Reckoner.Proofs.DateTimeText
import Reckoner.Proofs.Inflate
import Reckoner.Proofs.Pieces
import Reckoner.Proofs.Cycle
import Reckoner.Proofs.Marks
import Reckoner.Proofs.Records
import Reckoner.Proofs.ReadBack
import Reckoner.Proofs.Composite
import Reckoner.Proofs.Storable
import Reckoner.Proofs.Streams
import Reckoner.Proofs.RoundTrip
import Reckoner.Proofs.Steps
import Reckoner.Proofs.Sound
import Reckoner.Proofs.Makers
import Reckoner.Proofs.WellFormed
import Reckoner.Proofs.Total
import Reckoner.Proofs.Broadcast
import Reckoner.Proofs.Runs
import Reckoner.Proofs.Binding
import Reckoner.Proofs.OrderedMap
import Reckoner.Proofs.Scopes
import Reckoner.Proofs.Memory
import Reckoner.Proofs.ContextRuns
import Reckoner.Proofs.Kernels
import Reckoner.Proofs.Stored
import Reckoner.Proofs.Safe
import Reckoner.Proofs.Evaluation
import Reckoner.Proofs.Builtins
import Reckoner.Proofs.Lookup
import Reckoner.Proofs.Places
import Reckoner.Proofs.Copies
import Reckoner.Proofs.StoredMaps
import Reckoner.Proofs.GlobalSteps
import Reckoner.Proofs.GlobalRuns
import Reckoner.Proofs.ScopeChains
import Reckoner.Proofs.CheckedIntegers
import Reckoner.Proofs.Coupling
import Reckoner.Proofs.GuardedKernels
import Reckoner.Proofs.Interference
import Reckoner.Proofs.Requests
import Reckoner.Proofs.TrapFree
import Reckoner.Proofs.GlobalDates
import Reckoner.Proofs.IntegerLaws
import Reckoner.Proofs.SpanLaws
import Reckoner.Proofs.Literals
import Reckoner.Proofs.MatrixShapes
import Reckoner.Proofs.Locality
import Reckoner.Proofs.Truncation
import Reckoner.Proofs.CutBlocks
import Reckoner.Proofs.Legible
import Reckoner.Proofs.AppendedFields
import Reckoner.Proofs.RevisedStreams
import Reckoner.Proofs.Widening
import Reckoner.Proofs.LineGrammar
import Reckoner.Proofs.LineEnds
import Reckoner.Proofs.Files
import Reckoner.Proofs.Conversion
import Reckoner.Proofs.Counting
import Reckoner.Proofs.Collections
import Reckoner.Proofs.JoinedTexts
import Reckoner.Proofs.Comparisons
import Reckoner.Proofs.Invoking
import Reckoner.Proofs.ValueEquality
import Reckoner.Proofs.Indentation
import Reckoner.Proofs.SequenceLiterals
import Reckoner.Proofs.Splitting
import Reckoner.Proofs.Slots
import Reckoner.Proofs.StoredAgain
import Reckoner.Proofs.Clearing
import Reckoner.Proofs.TokenGrammar
import Reckoner.Proofs.Transcripts
import Reckoner.Proofs.TextRecords
