import PushGateway.Operation
import PushGateway.Text.Utf8
import PushGateway.Time

/-!
Auth tokens. A token is UTF-8 text of five or six fields between bars:

    mid|key|room|platform|op,op,...[|heartbeat seconds]

Blanks around a field do not count. An empty key takes the one the node offers; without a heartbeat
the grant leaves the interval to the node.
-/

namespace PushGateway.ControlPlane

/-- Who a session is and what it may have. A heartbeat of zero stands for the node's own. -/
structure Grant where
  mid : Int64
  key : String
  room : String
  platform : String
  accepts : List Int32
  heartbeat : Nanos
  deriving DecidableEq, Repr

inductive TokenError
  | notUtf8
  | fieldCount (n : Nat)
  | mid (field : String)
  | accepts (field : String)
  | heartbeat (field : String)
  deriving DecidableEq, Repr

def TokenError.message : TokenError → String
  | notUtf8 => "token is not utf-8"
  | fieldCount n => "token has " ++ toString n ++ " fields, expected 5 or 6"
  | mid field => "invalid mid: " ++ field
  | accepts field => "invalid accepts: " ++ field
  | heartbeat field => "invalid heartbeat: " ++ field

namespace Token

open Text (trim)

structure Fields where
  mid : List Char
  key : List Char
  room : List Char
  platform : List Char
  accepts : List Char
  heartbeat : Option (List Char)
  deriving DecidableEq, Repr

def fields (s : List Char) : Except TokenError Fields :=
  match Text.split '|' s with
  | [mid, key, room, platform, accepts] =>
    .ok { mid, key, room, platform, accepts, heartbeat := none }
  | [mid, key, room, platform, accepts, heartbeat] =>
    .ok { mid, key, room, platform, accepts, heartbeat := some heartbeat }
  | parts => .error (.fieldCount parts.length)

def Fields.seconds (f : Fields) : Except TokenError Nat :=
  match f.heartbeat with
  | none => .ok 0
  | some s =>
    match Text.Decimal.nat64? (trim s) with
    | some n => .ok n
    | none => .error (.heartbeat (String.ofList s))

/-- The grant of a token; of several bad fields the first of mid, accepts and heartbeat is named. -/
def Fields.grant (f : Fields) (offered : String) : Except TokenError Grant := do
  let some mid := Text.Decimal.int64? (trim f.mid) | .error (.mid (String.ofList f.mid))
  let some accepts := Op.parseList f.accepts | .error (.accepts (String.ofList f.accepts))
  let seconds ← f.seconds
  let key := trim f.key
  return {
    mid, accepts
    key := if key.isEmpty then offered else String.ofList key
    room := String.ofList (trim f.room)
    platform := String.ofList (trim f.platform)
    heartbeat := Nanos.ofSeconds seconds }

def parse (token : Bytes) (offered : String) : Except TokenError Grant := do
  let some s := Text.Utf8.decode? token | .error .notUtf8
  (← fields s).grant offered

end Token

end PushGateway.ControlPlane
