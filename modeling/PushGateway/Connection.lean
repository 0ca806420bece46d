import PushGateway.ControlPlane.Token
import PushGateway.Error
import PushGateway.Frame
import PushGateway.Timer.Heap

/-!
A connection: its transport, one task that reads and one that writes. The reader authenticates the
client, serves its frames and tears the connection down; the writer brings pushes and replies onto
the transport. Either stops at the close signal wherever it would wait for the transport.
-/

namespace PushGateway

/-- The transport of a connection, as its two tasks see it. -/
structure Wire where
  /-- Frames that have arrived and not been read, and what ends them. -/
  incoming : List (Except GatewayError Frame) := []
  written : List Outgoing := []
  /-- How many of them have been flushed. -/
  flushed : Nat := 0
  stalled : Bool := false
  failing : Bool := false
  dropped : Bool := false

namespace Wire

def write (w : Wire) (item : Outgoing) : Wire := { w with written := w.written ++ [item] }

def flush (w : Wire) : Wire := { w with flushed := w.written.length }

def drop (w : Wire) : Wire := { w with dropped := true }

end Wire

/-- A registered connection: what it was granted, its channel, and when the control plane last heard
of it. -/
structure Session where
  grant : ControlPlane.Grant
  channel : Nat
  /-- Heartbeats to the control plane are further apart than this. -/
  interval : Nanos
  lastBeat : Nanos
  deriving Repr

inductive Reader
  | awaitingAuth
  /-- The control plane has been asked and will not answer in time. -/
  | connecting (until' : Nanos)
  | greeting (reply : Frame) (grant : ControlPlane.Grant)
  | greeted (grant : ControlPlane.Grant)
  | serving (s : Session)
  /-- The control plane has been told of a frame and will not answer in time; then comes the
  reply. -/
  | calling (s : Session) (reply : Frame) (until' : Nanos)
  /-- The control plane has been told of the end and will not answer in time. -/
  | leaving (channel : Nat) (until' : Nanos)
  | returned
  /-- A deadline that the clock cannot show has killed the task. -/
  | crashed
  deriving Repr

inductive Writer
  | absent
  | waiting (channel : Nat)
  | writing (channel : Nat) (item : Outgoing)
  | draining (channel : Nat)
  | flushing (channel : Nat)
  /-- Has failed, and takes signals off the queue until one says finish. -/
  | discarding (channel : Nat)
  | gone
  deriving Repr

structure Connection where
  ip : String
  cookie : String := ""
  /-- Which timer supervises it, and by which entry. -/
  timer : Nat := 0
  deadline : Timer.Handle := default
  closed : Bool := false
  reader : Reader := .awaitingAuth
  writer : Writer := .absent
  wire : Wire := {}

namespace Connection

instance : Inhabited Connection := ⟨{ ip := "" }⟩

/-- The reader has come to its end, in order or not; nothing that happens outside reaches the
connection any more. -/
def isOver (c : Connection) : Bool :=
  match c.reader with
  | .returned | .crashed => true
  | _ => false

end Connection

end PushGateway
