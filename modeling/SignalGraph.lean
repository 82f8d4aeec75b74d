import SignalGraph.Calendar.Moment
import SignalGraph.Config.Declaration
import SignalGraph.Config.Decoding
import SignalGraph.Config.Encoding
import SignalGraph.Config.Error
import SignalGraph.Decimal.Layout
import SignalGraph.Decimal.Numeral
import SignalGraph.Decimal.Rounding
import SignalGraph.Decimal.Shortest
import SignalGraph.Dictionary
import SignalGraph.Document
import SignalGraph.Engine.Basic
import SignalGraph.Engine.Evaluation
import SignalGraph.Engine.Propagation
import SignalGraph.Engine.World
import SignalGraph.Graph.Basic
import SignalGraph.Graph.Build
import SignalGraph.Host.Basic
import SignalGraph.Host.Memory
import SignalGraph.Host.Recording
import SignalGraph.Json.Basic
import SignalGraph.Json.Printer
import SignalGraph.Json.Reader
import SignalGraph.MessagePack.Reader
import SignalGraph.MessagePack.Writer
import SignalGraph.Node.Arithmetic
import SignalGraph.Node.Behavior
import SignalGraph.Node.Bridge
import SignalGraph.Node.Comparison
import SignalGraph.Node.Counter
import SignalGraph.Node.Delay
import SignalGraph.Node.Edge
import SignalGraph.Node.Gate
import SignalGraph.Node.HourMeter
import SignalGraph.Node.Latch
import SignalGraph.Node.NodeType
import SignalGraph.Node.Params
import SignalGraph.Node.Ports
import SignalGraph.Node.Pulse
import SignalGraph.Node.Reaction
import SignalGraph.Node.Schedule
import SignalGraph.Proofs.Calendar.Date
import SignalGraph.Proofs.Calendar.Minute
import SignalGraph.Proofs.Calendar.Moment
import SignalGraph.Proofs.Config.Encoded
import SignalGraph.Proofs.Config.Spelled
import SignalGraph.Proofs.Config.Written
import SignalGraph.Proofs.Decimal.Alike
import SignalGraph.Proofs.Decimal.Monotone
import SignalGraph.Proofs.Decimal.Nearest
import SignalGraph.Proofs.Decimal.NotANumber
import SignalGraph.Proofs.Decimal.Numeral
import SignalGraph.Proofs.Decimal.Operations
import SignalGraph.Proofs.Decimal.Order
import SignalGraph.Proofs.Decimal.Rational
import SignalGraph.Proofs.Decimal.Rounded
import SignalGraph.Proofs.Decimal.Zero
import SignalGraph.Proofs.Dictionary
import SignalGraph.Proofs.Document
import SignalGraph.Proofs.Engine.Abreast
import SignalGraph.Proofs.Engine.Absent
import SignalGraph.Proofs.Engine.Account
import SignalGraph.Proofs.Engine.Again
import SignalGraph.Proofs.Engine.Alone
import SignalGraph.Proofs.Engine.Becoming
import SignalGraph.Proofs.Engine.Beside
import SignalGraph.Proofs.Engine.Bookkeeping
import SignalGraph.Proofs.Engine.Calls
import SignalGraph.Proofs.Engine.Chronicle
import SignalGraph.Proofs.Engine.Coherence
import SignalGraph.Proofs.Engine.Computing
import SignalGraph.Proofs.Engine.Counting
import SignalGraph.Proofs.Engine.Coupling
import SignalGraph.Proofs.Engine.Delay
import SignalGraph.Proofs.Engine.Deliveries
import SignalGraph.Proofs.Engine.Edges
import SignalGraph.Proofs.Engine.Effects
import SignalGraph.Proofs.Engine.Erased
import SignalGraph.Proofs.Engine.Failures
import SignalGraph.Proofs.Engine.Fires
import SignalGraph.Proofs.Engine.Jobs
import SignalGraph.Proofs.Engine.Latch
import SignalGraph.Proofs.Engine.Ledger
import SignalGraph.Proofs.Engine.Moments
import SignalGraph.Proofs.Engine.Observed
import SignalGraph.Proofs.Engine.Outcome
import SignalGraph.Proofs.Engine.Pace
import SignalGraph.Proofs.Engine.Pass
import SignalGraph.Proofs.Engine.Passage
import SignalGraph.Proofs.Engine.Period
import SignalGraph.Proofs.Engine.Primed
import SignalGraph.Proofs.Engine.Prompt
import SignalGraph.Proofs.Engine.Pulse
import SignalGraph.Proofs.Engine.Punctual
import SignalGraph.Proofs.Engine.Readings
import SignalGraph.Proofs.Engine.Refinement
import SignalGraph.Proofs.Engine.Rehosting
import SignalGraph.Proofs.Engine.Reload
import SignalGraph.Proofs.Engine.Renumbering
import SignalGraph.Proofs.Engine.Repeated
import SignalGraph.Proofs.Engine.Requests
import SignalGraph.Proofs.Engine.Routing
import SignalGraph.Proofs.Engine.Run
import SignalGraph.Proofs.Engine.Scene
import SignalGraph.Proofs.Engine.Settling
import SignalGraph.Proofs.Engine.Share
import SignalGraph.Proofs.Engine.Sparing
import SignalGraph.Proofs.Engine.Subscribers
import SignalGraph.Proofs.Engine.Terminating
import SignalGraph.Proofs.Engine.Throttle
import SignalGraph.Proofs.Engine.Tick
import SignalGraph.Proofs.Engine.Tied
import SignalGraph.Proofs.Engine.Timely
import SignalGraph.Proofs.Engine.Transcript
import SignalGraph.Proofs.Engine.Traversals
import SignalGraph.Proofs.Engine.Typing
import SignalGraph.Proofs.Engine.Unchanged
import SignalGraph.Proofs.Engine.Without
import SignalGraph.Proofs.Engine.Writes
import SignalGraph.Proofs.Graph.Built
import SignalGraph.Proofs.Graph.Denotation
import SignalGraph.Proofs.Graph.Erased
import SignalGraph.Proofs.Graph.Evolution
import SignalGraph.Proofs.Graph.Paths
import SignalGraph.Proofs.Graph.Target
import SignalGraph.Proofs.Graph.Valid
import SignalGraph.Proofs.Host.Logged
import SignalGraph.Proofs.Json.Literals
import SignalGraph.Proofs.Json.Spelling
import SignalGraph.Proofs.MessagePack.RoundTrip
import SignalGraph.Proofs.Node.Accepted
import SignalGraph.Proofs.Node.Again
import SignalGraph.Proofs.Node.Arming
import SignalGraph.Proofs.Node.Bridge
import SignalGraph.Proofs.Node.Checked
import SignalGraph.Proofs.Node.Combinational
import SignalGraph.Proofs.Node.Computing
import SignalGraph.Proofs.Node.Counting
import SignalGraph.Proofs.Node.Delay
import SignalGraph.Proofs.Node.Edges
import SignalGraph.Proofs.Node.History
import SignalGraph.Proofs.Node.Hours
import SignalGraph.Proofs.Node.Kind
import SignalGraph.Proofs.Node.Latch
import SignalGraph.Proofs.Node.Pace
import SignalGraph.Proofs.Node.Pulse
import SignalGraph.Proofs.Node.Reaction
import SignalGraph.Proofs.Node.Same
import SignalGraph.Proofs.Node.Scale
import SignalGraph.Proofs.Node.Solitary
import SignalGraph.Proofs.Node.Step
import SignalGraph.Proofs.Node.Throttle
import SignalGraph.Proofs.Node.Tick
import SignalGraph.Proofs.Node.Total
import SignalGraph.Proofs.Node.Typing
import SignalGraph.Proofs.Node.Window
import SignalGraph.Proofs.SideBySide
import SignalGraph.Proofs.Text.Case
import SignalGraph.Proofs.Timer.Due
import SignalGraph.Proofs.Timer.Excerpt
import SignalGraph.Proofs.Timer.Firing
import SignalGraph.Proofs.Timer.Passage
import SignalGraph.Proofs.Timer.Timeline
import SignalGraph.Proofs.Value.Cast
import SignalGraph.Proofs.Value.Same
import SignalGraph.Text.Blank
import SignalGraph.Timer.Armed
import SignalGraph.Timer.Key
import SignalGraph.Timer.Script
import SignalGraph.Timer.Timeline
import SignalGraph.Value.Basic
import SignalGraph.Value.Cast
