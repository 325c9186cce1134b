import ComputerNetworks.Lib.Runs
import ComputerNetworks.Lib.WeightedGraph
import ComputerNetworks.Lib.DistanceVector
import ComputerNetworks.Lib.CyclicWindow
import ComputerNetworks.Lib.BellmanFord
import ComputerNetworks.Lib.ByteBuffer
import ComputerNetworks.Lib.BinaryHeap
import ComputerNetworks.Lib.RelativePath
import ComputerNetworks.Lib.Tokens
import ComputerNetworks.Lib.LinkedList
import ComputerNetworks.Lib.BitPolynomial
import ComputerNetworks.Lib.ShiftRegister
import ComputerNetworks.Lib.ReleaseBuffer
import ComputerNetworks.Transfer.Util
import ComputerNetworks.Transfer.Frames
import ComputerNetworks.Transfer.Sender
import ComputerNetworks.Transfer.SenderInvariant
import ComputerNetworks.Transfer.Receiver
import ComputerNetworks.Transfer.ReceiverInvariant
import ComputerNetworks.Transfer.System
import ComputerNetworks.Transfer.Invariant
import ComputerNetworks.Transfer.Safety
import ComputerNetworks.Transfer.Resend
import ComputerNetworks.Transfer.Freshness
import ComputerNetworks.Transfer.Crc16
import ComputerNetworks.Transfer.Datagram
import ComputerNetworks.Transfer.ErrorDetection
import ComputerNetworks.Transfer.Malformed
import ComputerNetworks.Transfer.Reassembly
import ComputerNetworks.Transfer.Timeout
import ComputerNetworks.Transfer.StrSplit
import ComputerNetworks.Transfer.Bookkeeping
import ComputerNetworks.Routing.Router
import ComputerNetworks.Routing.Moves
import ComputerNetworks.Routing.Site
import ComputerNetworks.Routing.Coherence
import ComputerNetworks.Routing.PortSync
import ComputerNetworks.Routing.Costs
import ComputerNetworks.Routing.Announcements
import ComputerNetworks.Routing.Wire
import ComputerNetworks.Routing.Entries
import ComputerNetworks.Routing.Rounds
import ComputerNetworks.Routing.Repricing
import ComputerNetworks.Routing.Reference
import ComputerNetworks.Routing.Expiry
import ComputerNetworks.Routing.Links
import ComputerNetworks.Routing.StableTables
import ComputerNetworks.Routing.StaticNetwork
import ComputerNetworks.Routing.Convergence
import ComputerNetworks.Routing.Sends
import ComputerNetworks.Routing.PoisonReverse
import ComputerNetworks.Routing.Network
import ComputerNetworks.Routing.Overflow
import ComputerNetworks.Routing.Uninitialized
import ComputerNetworks.Routing.Tables
import ComputerNetworks.Echo.Node
import ComputerNetworks.Echo.Connection
import ComputerNetworks.Echo.Client
import ComputerNetworks.Echo.Sending
import ComputerNetworks.Echo.Framing
import ComputerNetworks.Echo.SendLoop
import ComputerNetworks.Echo.Pass
import ComputerNetworks.Simulation.Simulator
import ComputerNetworks.Simulation.EventLoop
import ComputerNetworks.Simulation.Delivery
import ComputerNetworks.Simulation.NodeSection
import ComputerNetworks.Web.Process
import ComputerNetworks.Web.Routes
import ComputerNetworks.Web.Confinement
import ComputerNetworks.Web.SendingMsgs
import ComputerNetworks.Web.Request
import ComputerNetworks.Lib.Simulation
import ComputerNetworks.Transfer.Sockets
import ComputerNetworks.Transfer.Noise
import ComputerNetworks.Simulation.Wiring
import ComputerNetworks.Simulation.Networked
import ComputerNetworks.Routing.Forwarding
import ComputerNetworks.Lib.Flood
import ComputerNetworks.Routing.Flooding
import ComputerNetworks.Routing.Probes
import ComputerNetworks.Simulation.RoundTrip
import ComputerNetworks.Simulation.KeepAlive
import ComputerNetworks.Simulation.Termination
import ComputerNetworks.Lib.Progress
import ComputerNetworks.Transfer.Progress
import ComputerNetworks.Transfer.Recovery
import ComputerNetworks.Transfer.OutputFile
import ComputerNetworks.Transfer.Arrivals
import ComputerNetworks.Lib.Traversal
