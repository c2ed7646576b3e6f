import MzQuic.Endpoint
import MzQuic.Proto.Wire
import MzQuic.Proto.Ack
import MzQuic.Proto.Payload
import MzQuic.Proto.PacketNumber
import MzQuic.Proto.Header
import MzQuic.Proto.RangeSets
import MzQuic.Proto.AckBlocks
import MzQuic.Proto.CloseLimit
import MzQuic.Proto.Elements
import MzQuic.Stream.Reassembly
import MzQuic.Stream.Wakeup
import MzQuic.Stream.Outgoing
import MzQuic.Stream.Places
import MzQuic.Stream.Delivery
import MzQuic.Stream.Finish
import MzQuic.Stream.FinalSize
import MzQuic.Stream.Closed
import MzQuic.Stream.Queue
import MzQuic.Stream.Ended
import MzQuic.Stream.Stopped
import MzQuic.Stream.Agreement
import MzQuic.Stream.Segments
import MzQuic.Stream.Budget
import MzQuic.Stream.Scheduling
import MzQuic.Connection.Compose
import MzQuic.Connection.Acks
import MzQuic.Connection.Probe
import MzQuic.Connection.Detection
import MzQuic.Connection.Repeated
import MzQuic.Connection.Pruning
import MzQuic.Connection.Elicit
import MzQuic.Connection.Closing
import MzQuic.Connection.Window
import MzQuic.Connection.Truthful
import MzQuic.Connection.Dedup
import MzQuic.Connection.Duplicates
import MzQuic.Connection.AckTimer
import MzQuic.Connection.Timers
import MzQuic.Connection.Lifecycle
import MzQuic.Connection.Loop
import MzQuic.Connection.Control
import MzQuic.Connection.Reno
import MzQuic.Connection.Rtt
import MzQuic.Connection.HonestAcks
import MzQuic.Connection.NumberSpace
import MzQuic.Connection.Ledger
import MzQuic.System.Receiver
import MzQuic.System.Acked
import MzQuic.System.Handshake
import MzQuic.Stream.Single
