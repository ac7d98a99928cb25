import Chronograph.Main
import Chronograph.Module.Profiled
import Chronograph.Timing.Session
import Chronograph.Proofs.Timing.Average
import Chronograph.Proofs.Code.Layout
import Chronograph.Proofs.Code.Rendering
import Chronograph.Proofs.Code.Comment
import Chronograph.Proofs.Module.Weaving
import Chronograph.Proofs.Binary.Packing
import Chronograph.Proofs.Decimal.Notation
import Chronograph.Proofs.Code.Literal
import Chronograph.Proofs.Module.Buffers
import Chronograph.Proofs.Binary.Rounded
import Chronograph.Proofs.Json.Powers
import Chronograph.Proofs.Binary.DoubleRounding
import Chronograph.Proofs.Json.Numerals
import Chronograph.Proofs.Json.Significands
import Chronograph.Proofs.Json.Exactness
import Chronograph.Proofs.Json.Following
import Chronograph.Proofs.Graph.Integers
import Chronograph.Proofs.Graph.Building
import Chronograph.Proofs.Module.Choices
import Chronograph.Proofs.Module.Uses
import Chronograph.Proofs.Timing.Session
import Chronograph.Proofs.Graph.Sizes
import Chronograph.Proofs.Code.Flush
import Chronograph.Proofs.Module.Verdicts
import Chronograph.Proofs.Module.Acceptance
import Chronograph.Proofs.Module.Flush
import Chronograph.Proofs.Code.Phrase
import Chronograph.Proofs.Module.Output
import Chronograph.Proofs.Module.Signature
import Chronograph.Proofs.Module.Headers
import Chronograph.Proofs.Module.Omissions
import Chronograph.Proofs.Module.Provenance
import Chronograph.Proofs.Code.Execution
import Chronograph.Proofs.Timing.Orders
import Chronograph.Proofs.Code.Walks
import Chronograph.Proofs.Module.AverageFunction
import Chronograph.Proofs.Binary.Sums
import Chronograph.Proofs.Timing.Sums
import Chronograph.Proofs.Code.Pieces
import Chronograph.Proofs.Module.Cuts
import Chronograph.Proofs.Decimal.Size
import Chronograph.Proofs.Json.Spacing
import Chronograph.Proofs.Json.Texts
import Chronograph.Proofs.Json.Literals
import Chronograph.Proofs.Json.Rereading
import Chronograph.Proofs.Json.Reading
import Chronograph.Proofs.Json.Collections
import Chronograph.Proofs.Graph.Descriptions
import Chronograph.Proofs.Timing.Exchange
import Chronograph.Proofs.Module.EmptyTensors
import Chronograph.Proofs.Module.Initializers
import Chronograph.Proofs.Binary.Narrowing
import Chronograph.Proofs.Graph.Constants
import Chronograph.Proofs.Graph.Weights
import Chronograph.Proofs.Module.Macros
import Chronograph.Proofs.Code.Dedent
import Chronograph.Proofs.Code.LineEnds
import Chronograph.Proofs.Code.Depth
import Chronograph.Proofs.Module.Accounting
import Chronograph.Proofs.Binary.Order
import Chronograph.Proofs.Timing.Summary
import Chronograph.Proofs.Timing.Policies
import Chronograph.Proofs.Module.Routines
import Chronograph.Proofs.Decimal.Places
import Chronograph.Proofs.Timing.Shares
import Chronograph.Proofs.Timing.Table
import Chronograph.Proofs.Code.Quotation
import Chronograph.Proofs.Module.Keys
import Chronograph.Proofs.Module.Namespace
import Chronograph.Proofs.Graph.Templates
