import Harjus.Lib.Amounts
import Harjus.Lib.FixedPoint
import Harjus.Lib.Bottleneck
import Harjus.Lib.Machine
import Harjus.Lib.Writes
import Harjus.Lib.Fifo
import Harjus.Lib.Circuit
import Harjus.Lib.EvenSplit
import Harjus.Lib.Decimal
import Harjus.Lib.Ascending
import Harjus.Lib.Framing
import Harjus.Lib.Effects
import Harjus.Lib.Epochs
import Harjus.Lib.Reorder
import Harjus.PreciseNumber
import Harjus.Multiprecision
import Harjus.Trade
import Harjus.Opportunity
import Harjus.Exchange
import Harjus.Configuration
import Harjus.Arbmapper
import Harjus.Main
import Harjus.Execution
import Harjus.Worker
import Harjus.Application
import Harjus.Schema
import Harjus.Refresh
import Harjus.Subscription
import Harjus.Parser
import Harjus.FieldMap
import Harjus.Message
import Harjus.Connection
import Harjus.Inbound
import Harjus.Outbound
import Harjus.Market
import Harjus.SessionState
import Harjus.Session
import Harjus.Callbacks
import Harjus.Proofs.Worker.Select
import Harjus.Proofs.Worker.Steps
import Harjus.Proofs.Worker.Bookkeeping
import Harjus.Proofs.Worker.Choice
import Harjus.Proofs.Worker.Consistency
import Harjus.Proofs.Worker.Ledger
import Harjus.Proofs.Worker.Commute
import Harjus.Proofs.Worker.Placement
import Harjus.Proofs.Worker.Arbitrage
import Harjus.Proofs.PreciseNumber
import Harjus.Proofs.Multiprecision
import Harjus.Proofs.Sizing
import Harjus.Proofs.Capacity
import Harjus.Proofs.LotSize
import Harjus.Proofs.Commission
import Harjus.Proofs.Market
import Harjus.Proofs.Refresh
import Harjus.Proofs.Grouping
import Harjus.Proofs.Subscription
import Harjus.Proofs.Connection
import Harjus.Proofs.Inbound
import Harjus.Proofs.Outbound
import Harjus.Proofs.Exchange
import Harjus.Proofs.Arbmapper
import Harjus.Proofs.Configuration
import Harjus.Proofs.Main
import Harjus.Proofs.Schema
import Harjus.Proofs.Session.Moves
import Harjus.Proofs.Session.Next
import Harjus.Proofs.Session.Sequence
import Harjus.Proofs.Session.Agreement
import Harjus.Proofs.Session.Resending
import Harjus.Proofs.Session.Steady
import Harjus.Proofs.Session.Delivery
import Harjus.Proofs.Session.Request
import Harjus.Proofs.Session.Orders
import Harjus.Proofs.Session.Recovery
import Harjus.Proofs.Wire.Integers
import Harjus.Proofs.Wire.FieldMap
import Harjus.Proofs.Wire.Framing
import Harjus.Proofs.Wire.Text
import Harjus.Proofs.Wire.Complete
import Harjus.Proofs.Wire.Groups
import Harjus.Proofs.Wire.RoundTrip
import Harjus.Proofs.Wire.Transfer
import Harjus.FieldMap
import Harjus.Lib.Ascending
import Harjus.Lib.Framing
import Harjus.Message
import Harjus.Proofs.Wire.Complete
import Harjus.Proofs.Wire.Groups
import Harjus.Proofs.Wire.RoundTrip
import Harjus.Proofs.Wire.Transfer
