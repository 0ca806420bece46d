import PushGateway.Node.Reader

/-!
The writing task of a connection. It takes signals off the queue; after each it writes the replies
in the ring and flushes. The first write that fails or is refused closes the connection, and from
then on the task only takes signals until it is told to finish, so that whoever waits for a place in
the queue gets it.
-/

namespace PushGateway.Node

def setWriter (n : Node) (i : Nat) (w : Writer) : Node :=
  n.modifyConnection i fun c => { c with writer := w }

def dropWriter (n : Node) (i : Nat) : Node := (n.close i).modifyWire i Wire.drop

def failWriter (n : Node) (i c : Nat) : Node := (n.dropWriter i).setWriter i (.discarding c)

/-- The task ends, and with it the queue. -/
def finishWriter (n : Node) (i c : Nat) : Node :=
  (n.modifyChannel c fun ch => ch.dropReceiver.release).setWriter i .gone

def onlineOf (n : Node) (c : Nat) : Int32 :=
  match n.directory.lobby.roomOf c with
  | some r => (n.directory.lobby.room r).onlineNum
  | none => 0

def outgoing (n : Node) (c : Nat) (f : Frame) : Outgoing :=
  if f.op = Op.heartbeatReply then .heartbeat f (n.onlineOf c) else .frame f

def useWire (n : Node) (i c : Nat) (f : Wire → Wire) (next : Writer) : Option Node :=
  let conn := n.connection i
  if conn.closed then some (n.failWriter i c)
  else if conn.wire.stalled then none
  else if conn.wire.failing then some (n.failWriter i c)
  else some ((n.modifyWire i f).setWriter i next)

def writerStep (n : Node) (i : Nat) : Option Node :=
  match (n.connection i).writer with
  | .absent | .gone => none
  | .waiting c =>
    (n.channel c).receive.map fun (signal, ch) =>
      let n := n.modifyChannel c fun _ => ch
      match signal with
      | .finish => (n.dropWriter i).finishWriter i c
      | .ready => (n.modifyChannel c Channel.clearWake).setWriter i (.draining c)
      | .data f => n.setWriter i (.writing c (.frame f))
  | .writing c item => n.useWire i c (·.write item) (.draining c)
  | .draining c =>
    if (n.connection i).closed then some (n.failWriter i c)
    else match (n.channel c).popInbound with
      | none => some (n.setWriter i (.flushing c))
      | some (f, ch) =>
        let item := n.outgoing c f
        some ((n.modifyChannel c fun _ => ch).setWriter i (.writing c item))
  | .flushing c => n.useWire i c Wire.flush (.waiting c)
  | .discarding c =>
    (n.channel c).receive.map fun (signal, ch) =>
      let n := n.modifyChannel c fun _ => ch
      match signal with
      | .finish => n.finishWriter i c
      | _ => n

end PushGateway.Node
