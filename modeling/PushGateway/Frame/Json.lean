import PushGateway.Error
import PushGateway.Frame
import PushGateway.Json.Value
import PushGateway.Text.Utf8

/-!
The JSON text form of a frame: an object with the fields ver, op, seq and body, or an array of them
in that order whose end may be missing. Only op is required. A body that is text is a JSON string;
any other JSON value stands for its own compact text.
-/

namespace PushGateway.Frame

open Json (Tree Value Part)

def intField? (low high : Int) : Tree → Option Int
  | .number n => n.integer?.filter fun v => low ≤ v ∧ v ≤ high
  | _ => none

def int16Field? (x : Tree) : Option Int16 := (intField? (-0x8000) 0x7fff x).map Int16.ofInt

def int32Field? (x : Tree) : Option Int32 := (intField? (-0x80000000) 0x7fffffff x).map Int32.ofInt

def bodyBytes : Value → Bytes
  | .null => []
  | .string s => Text.Utf8.encode s
  | v => Text.Utf8.encode v.write

/-- A body inside the frame, which is one level itself. -/
def body? (x : Tree) : Option Bytes := (Value.ofTree (Json.maxDepth - 1) x).map bodyBytes

structure Fields where
  ver : Option Int16 := none
  op : Option Int32 := none
  seq : Option Int32 := none
  body : Option Bytes := none
  deriving DecidableEq, Repr

/-- Missing fields are zero or empty, but op must be there. -/
def Fields.frame? (f : Fields) : Option Frame :=
  f.op.map fun op => { ver := f.ver.getD 0, op, seq := f.seq.getD 0, body := f.body.getD [] }

def once {α : Type} (old new : Option α) : Option (Option α) :=
  if old.isSome then none else new.map some

/-- Takes one more field in. A known one may come once; an unknown one is passed over. -/
def Fields.add (f : Fields) (name : List Part) (x : Tree) : Option Fields := do
  match String.ofList (← Json.text? name) with
  | "ver" => return { f with ver := ← once f.ver (int16Field? x) }
  | "op" => return { f with op := ← once f.op (int32Field? x) }
  | "seq" => return { f with seq := ← once f.seq (int32Field? x) }
  | "body" => return { f with body := ← once f.body (body? x) }
  | _ => return f

def ofFields? (xs : List (List Part × Tree)) : Option Frame := do
  (← xs.foldlM (fun f (name, x) => f.add name x) ({} : Fields)).frame?

def ofItems? : List Tree → Option Frame
  | [v, o] => do return { ver := ← int16Field? v, op := ← int32Field? o }
  | [v, o, s] => do return { ver := ← int16Field? v, op := ← int32Field? o, seq := ← int32Field? s }
  | [v, o, s, b] => do
    return {
      ver := ← int16Field? v, op := ← int32Field? o, seq := ← int32Field? s, body := ← body? b }
  | _ => none

def ofTree? : Tree → Option Frame
  | .object xs => ofFields? xs
  | .array xs => ofItems? xs
  | _ => none

def decodeJson (s : List Char) : Except GatewayError Frame :=
  match (Tree.parse? s).bind ofTree? with
  | some f => .ok f
  | none => .error (.malformedFrame "invalid json frame")

/-- The value that stands for a body: what its text means as JSON, or else the text itself. -/
def bodyValue (body : Bytes) : Value :=
  if body.isEmpty then .null
  else match Text.Utf8.decode? body with
    | some s => (Value.parse? s).getD (.string s)
    | none => .string (Text.Utf8.decodeLossy body)

def jsonWith (f : Frame) (body : Value) : List Char :=
  let field (name : String) (x : List Char) := Json.quote name.toList ++ ':' :: x
  let int (n : Int) := Text.Decimal.ofInt n
  '\x7b' :: Json.commas
    [field "ver" (int f.ver.toInt), field "op" (int f.op.toInt), field "seq" (int f.seq.toInt),
      field "body" body.write] ++ ['\x7d']

def toJson (f : Frame) : List Char := f.jsonWith (bodyValue f.body)

def heartbeatJson (f : Frame) (online : Int32) : List Char :=
  f.jsonWith (.number (.int online.toInt))

end PushGateway.Frame

namespace PushGateway

def Outgoing.toJson : Outgoing → List Char
  | .frame f => f.toJson
  | .heartbeat f online => f.heartbeatJson online

end PushGateway
