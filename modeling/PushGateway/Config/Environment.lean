import PushGateway.Config
import PushGateway.Text.Blank
import PushGateway.Text.Decimal

/-!
Settings from environment variables. A variable that is absent, or a number that does not read,
leaves the default; a list that is present but empty is empty.
-/

namespace PushGateway.Config

abbrev Environment := String → Option String

namespace Environment

def read {α : Type} (env : Environment) (name : String) (parse : List Char → Option α)
    (default : α) : α :=
  ((env name).bind fun v => parse v.toList).getD default

def nat (env : Environment) (name : String) (default : Nat) : Nat :=
  env.read name Text.Decimal.nat64? default

def word (env : Environment) (name : String) (default : Nat) : Nat :=
  env.read name Text.Decimal.nat32? default

def seconds (env : Environment) (name : String) (default : Nanos) : Nanos :=
  env.read name (fun s => (Text.Decimal.nat64? s).map Nanos.ofSeconds) default

/-- Only ASCII letters have a letter of this word as their lower case. -/
def isTrue (v : String) : Bool := v.map Char.toLower = "true" ∨ v = "1"

def flag (env : Environment) (name : String) (default : Bool) : Bool :=
  ((env name).map isTrue).getD default

def items (v : String) : List String :=
  ((Text.split ',' v.toList).map Text.trim |>.filter (! ·.isEmpty)).map String.ofList

def list (env : Environment) (name : String) (default : List String) : List String :=
  ((env name).map items).getD default

end Environment

/-- The configuration that the variables describe, before it is checked. -/
def fromVariables (env : Environment) : Config :=
  let d : Config := {}
  { tcpBind := env.list "COMET_TCP_BIND" d.tcpBind
    websocketBind := env.list "COMET_WEBSOCKET_BIND" d.websocketBind
    tcpKeepalive := env.flag "COMET_TCP_KEEPALIVE" d.tcpKeepalive
    tcpSndbuf := env.word "COMET_TCP_SNDBUF" d.tcpSndbuf
    tcpRcvbuf := env.word "COMET_TCP_RCVBUF" d.tcpRcvbuf
    acceptTasks := env.nat "COMET_ACCEPT_TASKS" d.acceptTasks
    readerPools := env.nat "COMET_READER_POOLS" d.readerPools
    readBuf := env.nat "COMET_READ_BUF" d.readBuf
    readBufSize := env.nat "COMET_READ_BUF_SIZE" d.readBufSize
    writerPools := env.nat "COMET_WRITER_POOLS" d.writerPools
    writeBuf := env.nat "COMET_WRITE_BUF" d.writeBuf
    writeBufSize := env.nat "COMET_WRITE_BUF_SIZE" d.writeBufSize
    timerShards := env.nat "COMET_TIMER_SHARDS" d.timerShards
    timerSize := env.nat "COMET_TIMER_SIZE" d.timerSize
    handshakeTimeout := env.seconds "COMET_HANDSHAKE_TIMEOUT" d.handshakeTimeout
    heartbeatInterval := env.seconds "COMET_HEARTBEAT" d.heartbeatInterval
    cliProto := env.nat "COMET_CLI_PROTO" d.cliProto
    svrProto := env.nat "COMET_SVR_PROTO" d.svrProto
    maxBodySize := env.nat "COMET_MAX_BODY_SIZE" d.maxBodySize
    bucketSize := env.nat "COMET_BUCKET_SIZE" d.bucketSize
    bucketChannel := env.nat "COMET_BUCKET_CHANNEL" d.bucketChannel
    bucketRoom := env.nat "COMET_BUCKET_ROOM" d.bucketRoom
    routineAmount := env.nat "COMET_ROUTINE_AMOUNT" d.routineAmount
    routineSize := env.nat "COMET_ROUTINE_SIZE" d.routineSize
    rpcTimeout := env.seconds "COMET_RPC_TIMEOUT" d.rpcTimeout
    onlineTick := env.seconds "COMET_ONLINE_TICK" d.onlineTick
    serverId := (env "COMET_SERVER_ID").filter (· ≠ "")
    debug := env.flag "COMET_DEBUG" false }

def ofEnvironment (env : Environment) : Except GatewayError Config := do
  let c := fromVariables env
  c.validate
  return c

end PushGateway.Config
