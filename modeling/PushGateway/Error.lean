/-!
What can go wrong, and the wording of it. Errors that belong to an ordinary end of a connection
are told apart from those worth reporting.
-/

namespace PushGateway

inductive IoKind
  | unexpectedEof
  | connectionReset
  | brokenPipe
  | connectionAborted
  | timedOut
  | other
  deriving DecidableEq, Repr

inductive GatewayError
  | packLength (length : Int32)
  | headerLength (length : Int16)
  | notAuthenticated (op : Int32)
  | unknownOperation (op : Int32)
  | malformedFrame (reason : String)
  | ringFull
  | roomDropped
  | controlPlane (reason : String)
  | timeout
  | io (kind : IoKind) (text : String)
  | webSocket (reason : String)
  | connectionClosed
  | config (reason : String)
  deriving DecidableEq, Repr

namespace GatewayError

def isDisconnect : GatewayError → Bool
  | connectionClosed => true
  | io .unexpectedEof _ | io .connectionReset _ | io .brokenPipe _ => true
  | _ => false

def message : GatewayError → String
  | packLength n => "Invalid pack length: " ++ toString n
  | headerLength n => "Invalid header length: " ++ toString n
  | notAuthenticated op => "Operation " ++ toString op ++ " received before auth"
  | unknownOperation op => "Unknown operation: " ++ toString op
  | malformedFrame reason => "Malformed frame: " ++ reason
  | ringFull => "Client ring buffer full"
  | roomDropped => "Room is draining"
  | controlPlane reason => "Control plane error: " ++ reason
  | timeout => "Control plane call timed out"
  | io _ text => "I/O error: " ++ text
  | webSocket reason => "WebSocket error: " ++ reason
  | connectionClosed => "Connection closed"
  | config reason => "Configuration error: " ++ reason

def source : GatewayError → Option String
  | io _ text => some text
  | _ => none

end GatewayError

end PushGateway
