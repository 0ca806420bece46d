import PushGateway.ControlPlane.Token
import PushGateway.Error
import PushGateway.Frame
import PushGateway.Table

/-!
The control plane that believes its tokens. It knows which keys are online and under which member,
adds up the room counts that servers report, and keeps the latest business frames.
-/

namespace PushGateway

structure ControlPlane where
  /-- The member behind every key that is online. -/
  sessions : Table String Int64 := []
  /-- The latest room counts of every server. -/
  reports : Table String (Table String Int32) := []
  /-- The latest business frames with their senders, oldest first. -/
  received : List (Int64 × Frame) := []
  deriving Repr

namespace ControlPlane

inductive Refusal
  | token (e : TokenError)
  | unknownSession (mid : Int64) (key : String)
  | down (reason : String)
  deriving DecidableEq, Repr

def Refusal.message : Refusal → String
  | token e => e.message
  | unknownSession mid key =>
    "heartbeat for unknown session mid: " ++ toString mid ++ " key: " ++ key
  | down reason => reason

def Refusal.error (r : Refusal) : GatewayError := .controlPlane r.message

def capacity : Nat := 1024

def connect (p : ControlPlane) (offered : String) (token : Bytes) :
    Except Refusal Grant × ControlPlane :=
  match Token.parse token offered with
  | .error e => (.error (.token e), p)
  | .ok g => (.ok g, { p with sessions := p.sessions.insert g.key g.mid })

/-- Takes a key offline, unless another member has it by now. -/
def disconnect (p : ControlPlane) (mid : Int64) (key : String) : ControlPlane :=
  if p.sessions.get? key = some mid then { p with sessions := p.sessions.erase key } else p

def heartbeat (p : ControlPlane) (mid : Int64) (key : String) : Except Refusal Unit :=
  if p.sessions.contains key then .ok () else .error (.unknownSession mid key)

def totals (p : ControlPlane) : Table String Int32 := p.reports.values.foldl Table.addAll []

def renewOnline (p : ControlPlane) (server : String) (counts : Table String Int32) :
    Table String Int32 × ControlPlane :=
  let p := { p with reports := p.reports.insert server counts }
  (p.totals, p)

def receive (p : ControlPlane) (mid : Int64) (f : Frame) : ControlPlane :=
  let kept := if p.received.length = capacity then p.received.drop 1 else p.received
  { p with received := kept ++ [(mid, f)] }

def isOnline (p : ControlPlane) (key : String) : Bool := p.sessions.contains key

end ControlPlane

end PushGateway
