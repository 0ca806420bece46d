import PushGateway.Error
import PushGateway.Time

/-!
The settings of a gateway, the two sets it starts from, and the check that a gateway can run with
them.
-/

namespace PushGateway

structure Config where
  tcpBind : List String := ["0.0.0.0:3101"]
  websocketBind : List String := ["0.0.0.0:3102"]
  tcpKeepalive : Bool := false
  tcpSndbuf : Nat := 4096
  tcpRcvbuf : Nat := 4096
  acceptTasks : Nat := 4
  readerPools : Nat := 32
  readBuf : Nat := 1024
  readBufSize : Nat := 8192
  writerPools : Nat := 32
  writeBuf : Nat := 1024
  writeBufSize : Nat := 8192
  timerShards : Nat := 32
  timerSize : Nat := 2048
  handshakeTimeout : Nanos := .ofSeconds 8
  heartbeatInterval : Nanos := .ofSeconds 90
  cliProto : Nat := 5
  svrProto : Nat := 10
  maxBodySize : Nat := 4096
  bucketSize : Nat := 32
  bucketChannel : Nat := 1024
  bucketRoom : Nat := 1024
  routineAmount : Nat := 32
  routineSize : Nat := 1024
  rpcTimeout : Nanos := .ofSeconds 1
  onlineTick : Nanos := .ofSeconds 10
  serverId : Option String := none
  debug : Bool := false
  deriving DecidableEq, Repr

inductive Transport
  | stream
  | messages
  deriving DecidableEq, Repr

def Transport.title : Transport → String
  | stream => "tcp"
  | messages => "websocket"

inductive ConfigProblem
  | noBinds
  | zeroCount (name : String)
  | zeroTimeout
  | bodySize (size : Nat)
  /-- Found only when a listener starts. -/
  | badBind (t : Transport) (bind : String)
  /-- The machine does not let the gateway listen at an address. -/
  | noListener (address reason : String)
  deriving DecidableEq, Repr

def ConfigProblem.message : ConfigProblem → String
  | noBinds => "at least one of COMET_TCP_BIND or COMET_WEBSOCKET_BIND must be set"
  | zeroCount name => name ++ " must be greater than zero"
  | zeroTimeout => "handshake timeout and heartbeat interval must be non-zero"
  | bodySize size => "max_body_size " ++ toString size ++ " does not fit a frame header"
  | badBind t bind => "invalid " ++ t.title ++ " bind " ++ bind ++ ": invalid socket address syntax"
  | noListener address reason =>
    "websocket bind " ++ address ++ ": error creating server listener: " ++ reason

namespace Config

def testing : Config where
  tcpBind := ["127.0.0.1:0"]
  websocketBind := ["127.0.0.1:0"]
  acceptTasks := 1
  readerPools := 2
  readBuf := 4
  readBufSize := 1024
  writerPools := 2
  writeBuf := 4
  writeBufSize := 1024
  timerShards := 2
  timerSize := 16
  handshakeTimeout := .ofSeconds 2
  heartbeatInterval := .ofSeconds 30
  bucketSize := 4
  bucketChannel := 16
  bucketRoom := 16
  routineAmount := 2
  routineSize := 16
  onlineTick := .ofSeconds 60
  serverId := some "comet-test"

def counts (c : Config) : List (String × Nat) :=
  [("bucket_size", c.bucketSize), ("routine_amount", c.routineAmount),
    ("routine_size", c.routineSize), ("reader_pools", c.readerPools),
    ("writer_pools", c.writerPools), ("timer_shards", c.timerShards),
    ("cli_proto", c.cliProto), ("svr_proto", c.svrProto), ("accept_tasks", c.acceptTasks)]

/-- A body of this size still has a packet length in 32 bits. -/
def largestBody : Nat := 0x7fffffff - 16

def problem? (c : Config) : Option ConfigProblem :=
  if c.tcpBind.isEmpty ∧ c.websocketBind.isEmpty then some .noBinds
  else match c.counts.find? (·.2 = 0) with
    | some (name, _) => some (.zeroCount name)
    | none =>
      if c.handshakeTimeout = 0 ∨ c.heartbeatInterval = 0 then some .zeroTimeout
      else if largestBody < c.maxBodySize then some (.bodySize c.maxBodySize)
      else none

def validate (c : Config) : Except GatewayError Unit :=
  match c.problem? with
  | some p => .error (.config p.message)
  | none => .ok ()

end Config

end PushGateway
