import PushGateway.Request

/-!
What the listener for messages answers to a request that does not open a session: one path tells
that the gateway is up, and the path of sessions wants a request that asks for one.
-/

namespace PushGateway

structure Response where
  status : Nat
  body : String := ""
  deriving DecidableEq, Repr

inductive Route
  | health
  | session
  deriving DecidableEq, Repr

namespace Route

def name : Route → List Char
  | health => "health".toList
  | session => "sub".toList

/-- The route of a path, which has one segment; one slash may follow it. -/
def ofPath? : List Char → Option Route
  | '/' :: rest => [health, session].find? fun r => rest = r.name ∨ rest = r.name ++ ['/']
  | _ => none

end Route

def Request.respond (r : Request) : Response :=
  match Route.ofPath? r.path with
  | some .health => { status := 200, body := "OK" }
  | some .session => { status := if r.method = "GET" then 400 else 405 }
  | none => { status := 404 }

end PushGateway
