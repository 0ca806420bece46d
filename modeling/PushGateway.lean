import PushGateway.Hash
import PushGateway.Frame.Wire
import PushGateway.Frame.Json
import PushGateway.ControlPlane.Token
import PushGateway.Config.Environment
import PushGateway.Ring
import PushGateway.BufferPool
import PushGateway.Rotation
import PushGateway.Closing
import PushGateway.Timer.Shard
import PushGateway.Directory
import PushGateway.Node.Event
import PushGateway.Node.Wait
import PushGateway.Transport.Stream
import PushGateway.Transport.Messages
import PushGateway.Listener
import PushGateway.Routes
import PushGateway.Proofs.Frame.Decode
import PushGateway.Proofs.Frame.RoundTrip
import PushGateway.Proofs.Frame.Acceptance
import PushGateway.Proofs.Transport.Chunks
import PushGateway.Proofs.Timer.Places
import PushGateway.Proofs.Timer.Invariant
import PushGateway.Proofs.Timer.Bounds
import PushGateway.Proofs.Room.Chain
import PushGateway.Proofs.Timer.Runs
import PushGateway.Proofs.Lobby.Seats
import PushGateway.Proofs.Lobby.Roster
import PushGateway.Proofs.Ring.Protocol
import PushGateway.Proofs.Directory.Rooms
import PushGateway.Proofs.Directory.Sessions
import PushGateway.Proofs.Directory.Consistency
import PushGateway.Proofs.Channel.Wake
import PushGateway.Proofs.Node.Presence
import PushGateway.Proofs.Node.Replies
import PushGateway.Proofs.Node.Departure
import PushGateway.Proofs.Node.Authentication
import PushGateway.Proofs.Node.HeartbeatPace
import PushGateway.Proofs.Channel.Order
import PushGateway.Proofs.Lobby.Fanout
import PushGateway.Proofs.Directory.Sharding
import PushGateway.Proofs.Timer.Expiry
import PushGateway.Proofs.Timer.Driver
import PushGateway.Proofs.Timer.Trace
import PushGateway.Proofs.Node.Supervision
import PushGateway.Proofs.Directory.Joining
import PushGateway.Proofs.Node.Overrun
import PushGateway.Proofs.Config.Limits
import PushGateway.Proofs.Node.Renewal
import PushGateway.Proofs.Timer.Firing
import PushGateway.Proofs.Timer.HandleContract
import PushGateway.Proofs.Lobby.Broadcast
import PushGateway.Proofs.Text.Utf8
import PushGateway.Proofs.Text.Decimal
import PushGateway.Proofs.Text.Blank
import PushGateway.Proofs.ControlPlane.Token
import PushGateway.Proofs.Json.Grammar
import PushGateway.Proofs.Json.Plain
import PushGateway.Proofs.Frame.Json
import PushGateway.Proofs.Directory.Spread
import PushGateway.Proofs.Directory.Places
import PushGateway.Proofs.Node.WriterActions
import PushGateway.Proofs.Node.WriterContract
import PushGateway.Proofs.Hash
import PushGateway.Proofs.Config.Environment
import PushGateway.Proofs.Node.Subscriptions
import PushGateway.Proofs.Node.Forwarding
import PushGateway.Proofs.BufferPool.Privacy
import PushGateway.Proofs.Node.Settling
import PushGateway.Proofs.Node.Closing
