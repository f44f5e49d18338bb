import Msg801.Lib.Budget
import Msg801.Lib.Duplex
import Msg801.Lib.Interleaving
import Msg801.Lib.Segmentation
import Msg801.Lib.Transition
import Msg801.Tunnel.TwoHop
import Msg801.Tunnel.Session
import Msg801.Tunnel.AcceptLoop
import Msg801.Tunnel.Journal
import Msg801.Tunnel.CfbCorruption
import Msg801.Tunnel.PaddingGrammar
import Msg801.Tunnel.Memory
import Msg801.Tunnel.NonceRefinement
import Msg801.Tunnel.LegacyReverse
import Msg801.Tunnel.SpecValidation
import Msg801.Tunnel.Segmentation
import Msg801.Tunnel.SessionPair
import Msg801.Tunnel.Drain
import Msg801.Relay.AConn
import Msg801.Relay.FrameStream
import Msg801.Relay.Server
import Msg801.Relay.ArrivalOrder
import Msg801.Relay.Isolation
import Msg801.Relay.Visitor
import Msg801.Relay.Orphans
import Msg801.Relay.Disconnect
import Msg801.Relay.CloseFinality
import Msg801.Relay.HalfOpen
import Msg801.Relay.ReadResults
import Msg801.Relay.Requests
import Msg801.Relay.Overtaking
import Msg801.Relay.Conversation
import Msg801.Relay.Drain
import Msg801.Relay.DrainRequests
import Msg801.Relay.Flow
import Msg801.Relay.ReaderEntry
import Msg801.Relay.Register
import Msg801.Relay.Remotes
import Msg801.Relay.UuidForm
