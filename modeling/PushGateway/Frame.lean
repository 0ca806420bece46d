import PushGateway.Bytes
import PushGateway.Operation

/-!
A frame is one message between client and node. An outgoing item is a frame, or a heartbeat reply,
whose body is the number of clients in the room.
-/

namespace PushGateway

structure Frame where
  ver : Int16 := 0
  op : Int32 := 0
  seq : Int32 := 0
  body : Bytes := []
  deriving DecidableEq, Repr, Inhabited

inductive Outgoing
  | frame (f : Frame)
  | heartbeat (f : Frame) (online : Int32)
  deriving DecidableEq, Repr

namespace Frame

/-- The frame that a slot holds once its contents are moved out. -/
def empty : Frame := {}

def emptied (f : Frame) (op : Int32) : Frame := { f with op, body := [] }

def echoed (f : Frame) (op : Int32) : Frame := { f with op }

end Frame

end PushGateway
