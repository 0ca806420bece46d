import PushGateway.Address
import PushGateway.Config

/-!
The addresses on which a gateway waits for clients of a transport. Which addresses it may use is up
to the machine, which gives a reason where it refuses.
-/

namespace PushGateway

def Transport.refused : Transport → Address → String → GatewayError
  | stream, _, reason => .io .other reason
  | messages, a, reason => .config (ConfigProblem.noListener a.text reason).message

namespace Config

def binds (c : Config) : Transport → List String
  | .stream => c.tcpBind
  | .messages => c.websocketBind

def listen (t : Transport) (machine : Address → Option String) (bind : String) :
    Except GatewayError Address :=
  match Address.parse? bind.toList with
  | none => .error (.config (ConfigProblem.badBind t bind).message)
  | some a =>
    match machine a with
    | some reason => .error (t.refused a reason)
    | none => .ok a

/-- Where to listen, in the order of the settings. The first entry that fails is the error. -/
def listeners (c : Config) (t : Transport) (machine : Address → Option String) :
    Except GatewayError (List Address) :=
  (c.binds t).mapM (listen t machine)

end Config

end PushGateway
