import PushGateway.Json.Number

/-!
JSON values. Reading limits the nesting, pairs surrogates and keeps the last of repeated names;
writing puts names in order, leaves no blanks and escapes only what it must.
-/

namespace PushGateway.Json

inductive Value
  | null
  | bool (b : Bool)
  | number (n : Number)
  | string (s : List Char)
  | array (items : List Value)
  | object (fields : List (List Char × Value))

def maxDepth : Nat := 127

/-- The characters of a string; a surrogate must be the high half of a pair with a low half right
behind it. -/
def text? : List Part → Option (List Char)
  | [] => some []
  | .char c :: s => (text? s).map (c :: ·)
  | .unit u :: s =>
    if u < 0xD800 ∨ 0xDFFF < u then (text? s).map (Char.ofNat u :: ·)
    else match s with
      | .unit v :: s =>
        if u ≤ 0xDBFF ∧ 0xDC00 ≤ v ∧ v ≤ 0xDFFF then
          (text? s).map (Char.ofNat (0x10000 + (u - 0xD800) * 0x400 + (v - 0xDC00)) :: ·)
        else none
      | _ => none

def insertField (name : List Char) (x : Value) : List (List Char × Value) → List (List Char × Value)
  | [] => [(name, x)]
  | (other, y) :: r =>
    if name = other then (name, x) :: r
    else if name < other then (name, x) :: (other, y) :: r
    else (other, y) :: insertField name x r

mutual

/-- The value of a tree, with room for `depth` nested arrays and objects. -/
def Value.ofTree : Nat → Tree → Option Value
  | _, .null => some .null
  | _, .bool b => some (.bool b)
  | _, .number n => n.number?.map .number
  | _, .string s => (text? s).map .string
  | 0, .array _ => none
  | 0, .object _ => none
  | depth + 1, .array xs => (Value.ofItems depth xs).map .array
  | depth + 1, .object xs => (Value.ofFields depth [] xs).map .object

def Value.ofItems : Nat → List Tree → Option (List Value)
  | _, [] => some []
  | depth, x :: xs => do
    let v ← Value.ofTree depth x
    return v :: (← Value.ofItems depth xs)

/-- Adds fields from left to right, so that the last of a name stays. -/
def Value.ofFields : Nat → List (List Char × Value) → List (List Part × Tree) →
    Option (List (List Char × Value))
  | _, done, [] => some done
  | depth, done, (name, x) :: xs => do
    let name ← text? name
    let v ← Value.ofTree depth x
    Value.ofFields depth (insertField name v done) xs

end

def Value.parse? (s : List Char) : Option Value := (Tree.parse? s).bind (Value.ofTree maxDepth)

def hexDigit (n : Nat) : Char := if n < 10 then Char.ofNat (48 + n) else Char.ofNat (87 + n)

def escape (c : Char) : List Char :=
  if c = '"' then ['\\', '"']
  else if c = '\\' then ['\\', '\\']
  else if c = '\x08' then ['\\', 'b']
  else if c = '\x0c' then ['\\', 'f']
  else if c = '\n' then ['\\', 'n']
  else if c = '\r' then ['\\', 'r']
  else if c = '\t' then ['\\', 't']
  else if c < ' ' then ['\\', 'u', '0', '0', hexDigit (c.toNat / 16), hexDigit (c.toNat % 16)]
  else [c]

def quote (s : List Char) : List Char := '"' :: s.flatMap escape ++ ['"']

def commas : List (List Char) → List Char
  | [] => []
  | [x] => x
  | x :: xs => x ++ ',' :: commas xs

mutual

def Value.write : Value → List Char
  | .null => ['n', 'u', 'l', 'l']
  | .bool true => ['t', 'r', 'u', 'e']
  | .bool false => ['f', 'a', 'l', 's', 'e']
  | .number n => n.write
  | .string s => quote s
  | .array xs => '[' :: commas (Value.writeItems xs) ++ [']']
  | .object xs => '\x7b' :: commas (Value.writeFields xs) ++ ['\x7d']

def Value.writeItems : List Value → List (List Char)
  | [] => []
  | x :: xs => Value.write x :: Value.writeItems xs

def Value.writeFields : List (List Char × Value) → List (List Char)
  | [] => []
  | (name, x) :: xs => (quote name ++ ':' :: Value.write x) :: Value.writeFields xs

end

end PushGateway.Json
