import PushGateway.Config
import PushGateway.Connection
import PushGateway.ControlPlane
import PushGateway.Directory
import PushGateway.Entropy
import PushGateway.Rotation
import PushGateway.Timer.Shard

/-!
A node: the directory, the timers, the connections and a control plane on one clock. Every call to
the control plane is recorded. A call is answered at once, or it hangs and is given up after the
time the configuration allows.
-/

namespace PushGateway

inductive Method
  | connect
  | disconnect
  | heartbeat
  | renewOnline
  | receive
  deriving DecidableEq, Repr

inductive Fault
  | refuses (reason : String)
  | hangs
  deriving DecidableEq, Repr

inductive Call
  | connect (server offered cookie : String) (token : Bytes)
  | disconnect (server : String) (mid : Int64) (key : String)
  | heartbeat (server : String) (mid : Int64) (key : String)
  | renewOnline (server : String) (counts : Table String Int32)
  | receive (mid : Int64) (f : Frame)
  deriving DecidableEq, Repr

structure CallRecord where
  time : Nanos
  caller : Option Nat
  call : Call
  deriving Repr

inductive Answer (α : Type)
  | ready (r : Except GatewayError α)
  | never

inductive Ticker
  | idle (next : Nanos)
  | calling (next until' : Nanos)
  | crashed
  deriving DecidableEq, Repr

structure Node where
  config : Config
  serverId : String
  now : Nanos := 0
  directory : Directory
  timers : Array (Timer.Shard Nat)
  rotation : Rotation
  plane : ControlPlane := {}
  faults : Table Method Fault := []
  connections : Array Connection := #[]
  tickers : Array Ticker := #[]
  entropy : Entropy
  /-- Keys and ids that the node made. -/
  issued : List String := []
  log : List CallRecord := []

namespace Node

/-- The id of a node is set, or the name of the host, or made up. -/
def new (config : Config) (hostname : Option String) (entropy : Entropy) : Node :=
  let (made, later) := entropy.uuid
  let given := match config.serverId with
    | some id => some id
    | none => hostname.filter (· ≠ "")
  { config
    serverId := given.getD made
    entropy := if given.isSome then entropy else later
    issued := if given.isSome then [] else [made]
    directory := .new config.bucketSize config.routineAmount config.routineSize
    timers := .replicate (max config.timerShards 1) (.new config.timerSize)
    rotation := .new config }

def connection (n : Node) (i : Nat) : Connection := n.connections.getD i default

def modifyConnection (n : Node) (i : Nat) (f : Connection → Connection) : Node :=
  { n with connections := n.connections.modify i f }

def modifyChannel (n : Node) (c : Nat) (f : Channel → Channel) : Node :=
  { n with directory := n.directory.withLobby (n.directory.lobby.modify c f) }

def channel (n : Node) (c : Nat) : Channel := n.directory.lobby.channel c

def timer (n : Node) (t : Nat) : Timer.Shard Nat := n.timers.getD t (.new 0)

def setTimer (n : Node) (t : Nat) (s : Timer.Shard Nat) : Node :=
  { n with timers := n.timers.setIfInBounds t s }

def nextKey (n : Node) : String × Node :=
  let (key, entropy) := n.entropy.uuid
  (key, { n with entropy, issued := key :: n.issued })

def beatWindow : Nat × Nat := (600, 1200)

def drawInterval (n : Node) : Nanos × Node :=
  let (seconds, entropy) := n.entropy.below beatWindow.1 beatWindow.2
  (.ofSeconds seconds, { n with entropy })

def record (n : Node) (caller : Option Nat) (call : Call) : Node :=
  { n with log := n.log ++ [⟨n.now, caller, call⟩] }

/-- The answer to a call that would go as `r` with the control plane it leaves, under the fault of
the method. -/
def answer {α : Type} (n : Node) (m : Method) (r : Except ControlPlane.Refusal α)
    (after : ControlPlane) : Answer α × Node :=
  match n.faults.get? m with
  | some .hangs => (.never, n)
  | some (.refuses reason) => (.ready (.error (ControlPlane.Refusal.down reason).error), n)
  | none => (.ready (r.mapError (·.error)), { n with plane := after })

/-- Authenticates a token. A grant without a heartbeat gets the node's own. -/
def callConnect (n : Node) (caller : Option Nat) (cookie : String) (token : Bytes) :
    Answer ControlPlane.Grant × Node :=
  let (offered, n) := n.nextKey
  let n := n.record caller (.connect n.serverId offered cookie token)
  let (r, after) := n.plane.connect offered token
  let own (g : ControlPlane.Grant) : ControlPlane.Grant :=
    if g.heartbeat = 0 then { g with heartbeat := n.config.heartbeatInterval } else g
  n.answer .connect (r.map own) after

def callDisconnect (n : Node) (caller : Option Nat) (mid : Int64) (key : String) :
    Answer Unit × Node :=
  let n := n.record caller (.disconnect n.serverId mid key)
  n.answer .disconnect (.ok ()) (n.plane.disconnect mid key)

def callHeartbeat (n : Node) (caller : Option Nat) (mid : Int64) (key : String) :
    Answer Unit × Node :=
  let n := n.record caller (.heartbeat n.serverId mid key)
  n.answer .heartbeat (n.plane.heartbeat mid key) n.plane

def callReceive (n : Node) (caller : Option Nat) (mid : Int64) (f : Frame) : Answer Unit × Node :=
  let n := n.record caller (.receive mid f)
  n.answer .receive (.ok ()) (n.plane.receive mid f)

def callRenewOnline (n : Node) : Answer Unit × Node :=
  let counts := n.directory.roomCounts
  let n := n.record none (.renewOnline n.serverId counts)
  let (all, after) := n.plane.renewOnline n.serverId counts
  match n.answer .renewOnline (.ok all) after with
  | (.ready (.ok all), n) => (.ready (.ok ()), { n with directory := n.directory.updateCounts all })
  | (.ready (.error e), n) => (.ready (.error e), n)
  | (.never, n) => (.never, n)

def giveUp (n : Node) : Nanos := n.now + n.config.rpcTimeout

/-- How a client frame went: a reply, a reply once a call is given up, or the end of the
connection. -/
inductive Handled
  | reply (f : Frame)
  | awaiting (f : Frame)
  | refused (e : GatewayError)
  deriving DecidableEq, Repr

/-- Serves one client frame other than a heartbeat for channel `c` of bucket `b`. A list of codes
that does not read changes nothing and is answered all the same. -/
def operate (n : Node) (caller : Option Nat) (c b : Nat) (f : Frame) : Handled × Node :=
  let text := Text.Utf8.decodeLossy f.body
  if f.op = Op.changeRoom then
    match n.directory.changeRoom b (String.ofList text) c with
    | (.ok (), directory) => (.reply (f.echoed Op.changeRoomReply), { n with directory })
    | (.error e, directory) => (.refused e, { n with directory })
  else if f.op = Op.sub then
    (.reply (f.echoed Op.subReply), n.modifyChannel c (·.watch ((Op.parseList text).getD [])))
  else if f.op = Op.unsub then
    (.reply (f.echoed Op.unsubReply), n.modifyChannel c (·.unwatch ((Op.parseList text).getD [])))
  else if Op.isBusiness f.op then
    match n.callReceive caller (n.channel c).mid f with
    | (.ready _, n) => (.reply (f.emptied f.op), n)
    | (.never, n) => (.awaiting (f.emptied f.op), n)
  else (.refused (.unknownOperation f.op), n)

end Node

end PushGateway
