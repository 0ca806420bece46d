import PushGateway.Node

/-!
The reading task of a connection, in steps between which other tasks may run. `none` means that it
has to wait, or has ended.
-/

namespace PushGateway.Node

def close (n : Node) (i : Nat) : Node := n.modifyConnection i fun c => { c with closed := true }

def setReader (n : Node) (i : Nat) (r : Reader) : Node :=
  n.modifyConnection i fun c => { c with reader := r }

def modifyWire (n : Node) (i : Nat) (f : Wire → Wire) : Node :=
  n.modifyConnection i fun c => { c with wire := f c.wire }

def dropDeadline (n : Node) (i : Nat) : Node :=
  let c := n.connection i
  n.setTimer c.timer ((n.timer c.timer).del c.deadline).2

/-- Moves the deadline of a connection to `delay` from now; `none` if the clock cannot show it. -/
def moveDeadline (n : Node) (i : Nat) (delay : Nanos) : Option Node :=
  let c := n.connection i
  ((n.timer c.timer).set? n.now c.deadline delay).map fun (_, s) => n.setTimer c.timer s

def reject (n : Node) (i : Nat) : Node :=
  ((n.dropDeadline i).close i).modifyConnection i fun c =>
    { c with reader := .returned, wire := c.wire.drop }

def finishReader (n : Node) (i c : Nat) : Node :=
  (n.modifyChannel c Channel.release).setReader i .returned

def signOff (n : Node) (i c : Nat) : Node :=
  let ch := n.channel c
  match n.callDisconnect (some i) ch.mid ch.key with
  | (.ready _, n) => n.finishReader i c
  | (.never, n) => n.setReader i (.leaving c n.giveUp)

def tearDown (n : Node) (i c : Nat) : Node :=
  let b := n.directory.bucketOf (n.channel c).key
  let n := { n with directory := n.directory.del b c }
  let n := (n.dropDeadline i).close i
  (n.modifyChannel c Channel.close).signOff i c

/-- The task is gone with its channel and what it read from. -/
def crash (n : Node) (i c : Nat) : Node := (n.modifyChannel c Channel.release).setReader i .crashed

/-- Puts a reply into the ring for the writer; a full ring ends the connection. -/
def reply (n : Node) (i : Nat) (s : Session) (f : Frame) : Node :=
  match (n.channel s.channel).pushInbound f with
  | .error _ => n.tearDown i s.channel
  | .ok ch => (n.modifyChannel s.channel fun _ => ch.wake).setReader i (.serving s)

def enroll (n : Node) (i : Nat) (g : ControlPlane.Grant) : Node :=
  let conn := n.connection i
  let ch := Channel.new g.mid g.key conn.ip n.config.cliProto n.config.svrProto true
  let (c, lobby) := n.directory.lobby.addChannel (ch.watch g.accepts)
  let b := n.directory.bucketOf g.key
  match (n.directory.withLobby lobby).put b g.room c with
  | (.error _, directory) =>
    let n := { n with directory := directory.del b c }
    let n := ((n.dropDeadline i).close i).modifyWire i Wire.drop
    (n.modifyChannel c Channel.dropReceiver).signOff i c
  | (.ok (), directory) =>
    let n := { n with directory }
    let n := n.setTimer conn.timer ((n.timer conn.timer).setKey conn.deadline g.key)
    match n.moveDeadline i g.heartbeat with
    | none => ((n.modifyWire i Wire.drop).modifyChannel c Channel.dropReceiver).crash i c
    | some n =>
      let (interval, n) := n.drawInterval
      (n.modifyChannel c Channel.hold).modifyConnection i fun conn =>
        { conn with
          reader := .serving { grant := g, channel := c, interval, lastBeat := n.now }
          writer := .waiting c }

def authenticate (n : Node) (i : Nat) (f : Frame) : Node :=
  if f.op ≠ Op.auth then n.reject i
  else match n.callConnect (some i) (n.connection i).cookie f.body with
    | (.ready (.ok g), n) => n.setReader i (.greeting (f.emptied Op.authReply) g)
    | (.ready (.error _), n) => n.reject i
    | (.never, n) => n.setReader i (.connecting n.giveUp)

/-- Answers a heartbeat, and passes it on if the control plane has not heard of the session for long
enough. What becomes of that call does not matter to the client. -/
def beat (n : Node) (i : Nat) (s : Session) (f : Frame) : Node :=
  match n.moveDeadline i s.grant.heartbeat with
  | none => n.crash i s.channel
  | some n =>
    let answer := f.emptied Op.heartbeatReply
    if n.now - s.lastBeat ≤ s.interval then n.reply i s answer
    else match n.callHeartbeat (some i) s.grant.mid s.grant.key with
      | (.ready (.ok ()), n) => n.reply i { s with lastBeat := n.now } answer
      | (.ready (.error _), n) => n.reply i s answer
      | (.never, n) => n.setReader i (.calling s answer n.giveUp)

def serve (n : Node) (i : Nat) (s : Session) (f : Frame) : Node :=
  if f.op = Op.heartbeat then n.beat i s f
  else match n.operate (some i) s.channel (n.directory.bucketOf s.grant.key) f with
    | (.reply f, n) => n.reply i s f
    | (.awaiting f, n) => n.setReader i (.calling s f n.giveUp)
    | (.refused _, n) => n.tearDown i s.channel

def nextIncoming (n : Node) (i : Nat) : Option (Except GatewayError Frame × Node) :=
  match (n.connection i).wire.incoming with
  | [] => none
  | item :: rest => some (item, n.modifyWire i fun w => { w with incoming := rest })

def readerStep (n : Node) (i : Nat) : Option Node :=
  let c := n.connection i
  match c.reader with
  | .awaitingAuth =>
    if c.closed then some (n.reject i)
    else match n.nextIncoming i with
      | none => none
      | some (.error _, n) => some (n.reject i)
      | some (.ok f, n) => some (n.authenticate i f)
  | .connecting until' => if c.closed ∨ until' ≤ n.now then some (n.reject i) else none
  | .greeting f g =>
    if c.closed then some (n.reject i)
    else if c.wire.stalled then none
    else if c.wire.failing then some (n.reject i)
    else some ((n.modifyWire i (·.write (.frame f))).setReader i (.greeted g))
  | .greeted g =>
    if c.closed then some (n.reject i)
    else if c.wire.stalled then none
    else if c.wire.failing then some (n.reject i)
    else some ((n.modifyWire i Wire.flush).enroll i g)
  | .serving s =>
    if c.closed then some (n.tearDown i s.channel)
    else match n.nextIncoming i with
      | none => none
      | some (.error _, n) => some (n.tearDown i s.channel)
      | some (.ok f, n) => some (n.serve i s f)
  | .calling s f until' => if until' ≤ n.now then some (n.reply i s f) else none
  | .leaving c until' => if until' ≤ n.now then some (n.finishReader i c) else none
  | .returned | .crashed => none

end PushGateway.Node
