import PushGateway.Error
import PushGateway.Outbox
import PushGateway.Ring

/-!
A channel is the session of one authenticated client: who it is, the replies that wait for the
writer, the outbound queue, the codes it wants pushed, and its seat in a room. A channel exists
while somebody holds it.
-/

namespace PushGateway

structure Seat where
  room : Nat
  slot : Nat
  deriving DecidableEq, Repr

structure Channel where
  mid : Int64 := 0
  key : String := ""
  ip : String := ""
  inbound : Ring Frame := .new 1
  outbox : Outbox := {}
  /-- A wake is queued that the writer has not seen. -/
  wakePending : Bool := false
  watched : List Int32 := []
  seat : Option Seat := none
  holders : Nat := 1
  deriving Repr, Inhabited

namespace Channel

def new (mid : Int64) (key ip : String) (cli svr : Nat) (canWait : Bool) : Channel :=
  { mid, key, ip, inbound := .new cli, outbox := .new svr canWait }

def exists? (c : Channel) : Bool := 0 < c.holders

def hold (c : Channel) : Channel := { c with holders := c.holders + 1 }

def release (c : Channel) : Channel := { c with holders := c.holders - 1 }

def watch (c : Channel) (ops : List Int32) : Channel :=
  { c with watched := c.watched ++ ops.filter fun op => !c.watched.contains op }

def unwatch (c : Channel) (ops : List Int32) : Channel :=
  { c with watched := c.watched.filter fun op => !ops.contains op }

def needsPush (c : Channel) (op : Int32) : Bool := c.watched.contains op

/-- Queues a push; false, and the push is lost, when there is no place or no writer. -/
def deliver (c : Channel) (f : Frame) : Bool × Channel :=
  match c.outbox.offer? (.data f) with
  | some outbox => (true, { c with outbox })
  | none => (false, c)

/-- Tells the writer about the ring, once until it looks. A refused wake leaves no mark: the writer
looks at the ring after every signal that is already queued. -/
def wake (c : Channel) : Channel :=
  if c.wakePending then c
  else match c.outbox.offer? .ready with
    | some outbox => { c with outbox, wakePending := true }
    | none => c

def clearWake (c : Channel) : Channel := { c with wakePending := false }

def close (c : Channel) : Channel := { c with outbox := c.outbox.finish }

def pushInbound (c : Channel) (f : Frame) : Except GatewayError Channel :=
  match c.inbound.push? f with
  | some inbound => .ok { c with inbound }
  | none => .error .ringFull

def popInbound (c : Channel) : Option (Frame × Channel) :=
  c.inbound.pop?.map fun (f, inbound) => (f, { c with inbound })

def receive (c : Channel) : Option (Signal × Channel) :=
  c.outbox.take?.map fun (s, outbox) => (s, { c with outbox })

def dropReceiver (c : Channel) : Channel := { c with outbox := c.outbox.dropReceiver }

end Channel

end PushGateway
