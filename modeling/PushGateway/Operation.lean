import PushGateway.Text.Blank
import PushGateway.Text.Decimal

/-!
The operation codes of frames. A client request is answered with the code after its own; codes
from 1000 to 10000 belong to the business behind the control plane. Subscriptions name codes in a
comma-separated list.
-/

namespace PushGateway.Op

abbrev heartbeat : Int32 := 2
abbrev heartbeatReply : Int32 := 3
abbrev auth : Int32 := 7
abbrev authReply : Int32 := 8
/-- The body travels without a header. -/
abbrev raw : Int32 := 9
abbrev changeRoom : Int32 := 12
abbrev changeRoomReply : Int32 := 13
abbrev sub : Int32 := 14
abbrev subReply : Int32 := 15
abbrev unsub : Int32 := 16
abbrev unsubReply : Int32 := 17

def isBusiness (op : Int32) : Bool := 1000 ≤ op && op ≤ 10000

/-- Blank text is the empty list; otherwise every item between commas is one code. -/
def parseList (s : List Char) : Option (List Int32) :=
  if (Text.trim s).isEmpty then some []
  else (Text.split ',' s).mapM fun item => Text.Decimal.int32? (Text.trim item)

end PushGateway.Op
