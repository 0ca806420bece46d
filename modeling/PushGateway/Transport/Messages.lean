import PushGateway.Frame.Json
import PushGateway.Frame.Wire

/-!
A connection over messages. A binary message is one frame in binary form, a text message one in JSON
form. The kind of the first of them is the kind in which the connection is answered for good.
-/

namespace PushGateway

inductive Message
  | text (s : List Char)
  | binary (b : Bytes)
  | ping
  | pong
  | close
  deriving DecidableEq, Repr

structure MessageStream where
  maxBody : Nat
  /-- Whether the first frame came as text. -/
  textual : Option Bool := none
  deriving DecidableEq, Repr

namespace MessageStream

/-- The frame of a text message. Its body has the same limit as a binary one. -/
def decodeText (maxBody : Nat) (s : List Char) : Except GatewayError Frame := do
  let f ← Frame.decodeJson s
  if maxBody < f.body.length then .error (.packLength (Int32.ofNat f.body.length)) else return f

/-- The frame of a message and whether it is text; `none` for one that only keeps the line open. -/
def read (maxBody : Nat) : Message → Option (Except GatewayError (Frame × Bool))
  | .text s => some ((decodeText maxBody s).map (·, true))
  | .binary b => some ((Frame.decodeMessage maxBody b).map (·, false))
  | .ping | .pong => none
  | .close => some (.error .connectionClosed)

/-- What a message brings to the reader of the connection. -/
def receive (s : MessageStream) (m : Message) : List (Except GatewayError Frame) × MessageStream :=
  match read s.maxBody m with
  | none => ([], s)
  | some (.error e) => ([.error e], s)
  | some (.ok (f, textual)) => ([.ok f], { s with textual := some (s.textual.getD textual) })

def write (s : MessageStream) (item : Outgoing) : Message :=
  if s.textual = some true then .text item.toJson else .binary item.encode

/-- Once a frame has come, the kind of the answers stays. -/
theorem receive_textual {s : MessageStream} {b : Bool} (h : s.textual = some b) (m : Message) :
    (s.receive m).2.textual = some b := by
  unfold receive
  split <;> simp [h]

end MessageStream

end PushGateway
