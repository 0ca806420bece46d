import PushGateway.Node.Task

/-!
What reaches a node from outside: connections with what their transports do, the clock, faults of
the control plane, and the orders of whoever runs the node.
-/

namespace PushGateway

inductive Event
  | open (ip cookie : String)
  | arrive (i : Nat) (items : List (Except GatewayError Frame))
  | stall (i : Nat)
  | resume (i : Nat)
  | failWrites (i : Nat)
  | advance (d : Nanos)
  | fault (m : Method) (f : Option Fault)
  | startTicker
  | pushKeys (keys : List String) (op : Int32) (f : Frame)
  | broadcast (op : Int32) (f : Frame)
  | broadcastRoom (p : RoomPush)
  | closeRoom (id : String)

namespace Node

def accept (n : Node) (ip cookie : String) : Node :=
  let i := n.connections.size
  let (index, rotation) := n.rotation.next
  let n := { n with rotation }
  let t := rotation.timer index
  let add (n : Node) (c : Connection) : Node := { n with connections := n.connections.push c }
  match (n.timer t).add? n.now n.config.handshakeTimeout "" i with
  | none => add n { ip, cookie, timer := t, reader := .crashed, wire := { dropped := true } }
  | some (deadline, s) => add (n.setTimer t s) { ip, cookie, timer := t, deadline }

/-- Does something to the transport of a connection that is not over. -/
def onWire (n : Node) (i : Nat) (f : Wire → Wire) : Node :=
  if (n.connection i).isOver then n else n.modifyWire i f

def arrive (n : Node) (i : Nat) (items : List (Except GatewayError Frame)) : Node :=
  n.onWire i fun w => { w with incoming := w.incoming ++ items }

def advance (n : Node) (d : Nanos) : Node := { n with now := n.now + d }

def setFault (n : Node) (m : Method) (f : Option Fault) : Node :=
  { n with faults := match f with
      | some f => n.faults.insert m f
      | none => n.faults.erase m }

/-- The first renewal comes one tick from now. A tick of no length kills the task. -/
def startTicker (n : Node) : Node :=
  let t : Ticker := if n.config.onlineTick = 0 then .crashed
    else .idle (n.now + n.config.onlineTick)
  { n with tickers := n.tickers.push t }

def pushKeys (n : Node) (keys : List String) (op : Int32) (f : Frame) : Nat × Node :=
  let (sent, directory) := n.directory.pushKeys keys op f
  (sent, { n with directory })

def broadcast (n : Node) (op : Int32) (f : Frame) : Nat × Node :=
  let (sent, directory) := n.directory.broadcast op f
  (sent, { n with directory })

def broadcastRoom (n : Node) (p : RoomPush) : Nat × Node :=
  let (queued, directory) := n.directory.broadcastRoom p
  (queued, { n with directory })

def closeRoom (n : Node) (id : String) : Nat × Node :=
  (List.range n.directory.buckets.size).foldl
    (fun (k, n) b =>
      let (found, directory) := n.directory.closeRoom b id
      (k + found.toNat, { n with directory })) (0, n)

end Node

def Event.apply (n : Node) : Event → Node
  | .open ip cookie => n.accept ip cookie
  | .arrive i items => n.arrive i items
  | .stall i => n.onWire i fun w => { w with stalled := true }
  | .resume i => n.onWire i fun w => { w with stalled := false }
  | .failWrites i => n.onWire i fun w => { w with failing := true }
  | .advance d => n.advance d
  | .fault m f => n.setFault m f
  | .startTicker => n.startTicker
  | .pushKeys keys op f => (n.pushKeys keys op f).2
  | .broadcast op f => (n.broadcast op f).2
  | .broadcastRoom p => (n.broadcastRoom p).2
  | .closeRoom id => (n.closeRoom id).2

end PushGateway
