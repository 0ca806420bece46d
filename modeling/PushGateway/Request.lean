/-!
What a request asks for: a method, and a target that names a path outright, a whole URI with the
path in it, or an authority alone, which has none. A fragment and a query are no part of the path.
-/

namespace PushGateway

structure Request where
  method : String
  path : List Char
  deriving DecidableEq, Repr

namespace Request

def isAlphanumeric (c : Char) : Bool :=
  ('a' ≤ c ∧ c ≤ 'z') ∨ ('A' ≤ c ∧ c ≤ 'Z') ∨ ('0' ≤ c ∧ c ≤ '9')

def isTokenChar (c : Char) : Bool := isAlphanumeric c || "!#$%&'*+-.^_\x60|~".toList.contains c

def isSchemeChar (c : Char) : Bool := isAlphanumeric c || "+-.~".toList.contains c

/-- The characters that mean nothing in an authority. -/
def isPlain (c : Char) : Bool := isAlphanumeric c || "!$&'()*+,-.;=_~".toList.contains c

def between (low high : Nat) (c : Char) : Bool := low ≤ c.toNat ∧ c.toNat ≤ high

/-- What may stand in a path as it is: no blank, no control character, nothing outside ASCII. -/
def isPathChar (c : Char) : Bool :=
  c = '!' ∨ between 0x24 0x3b c ∨ c = '=' ∨ between 0x40 0x5f c ∨ between 0x61 0x7e c ∨ c = '"'

def isQueryChar (c : Char) : Bool := c = '!' ∨ between 0x24 0x3b c ∨ c = '=' ∨ between 0x3f 0x7e c

/-- The path in front of a query and a fragment. The fragment may hold anything. -/
def path? (s : List Char) : Option (List Char) :=
  let inPath (c : Char) : Bool := c ≠ '?' ∧ c ≠ '#'
  let path := s.takeWhile inPath
  let query := match s.dropWhile inPath with
    | '?' :: r => r.takeWhile (· ≠ '#')
    | _ => []
  if path.all isPathChar && query.all isQueryChar then
    some (if path.isEmpty then ['/'] else path)
  else none

structure Seen where
  /-- Colons that are part of neither a user nor an address in brackets. -/
  colons : Nat := 0
  opened : Bool := false
  closed : Bool := false
  percent : Bool := false
  last : Option Char := none

def Seen.add (s : Seen) (c : Char) : Option Seen :=
  let t := { s with last := some c }
  match c with
  | ':' => if 8 ≤ s.colons then none else some { t with colons := s.colons + 1 }
  | '[' => if s.percent ∨ s.opened then none else some { t with opened := true }
  | ']' => if !s.opened ∨ s.closed then none
      else some { t with closed := true, colons := 0, percent := false }
  | '@' => some { t with colons := 0, percent := false }
  | '%' => some { t with percent := true }
  | c => if isPlain c then some t else none

def Seen.isWhole (s : Seen) : Bool :=
  s.opened = s.closed ∧ s.colons ≤ 1 ∧ s.last ≠ some '@' ∧ !s.percent

def authority? (s : List Char) : Option (List Char × List Char) :=
  let inside (c : Char) : Bool := c ≠ '/' ∧ c ≠ '?' ∧ c ≠ '#'
  let a := s.takeWhile inside
  match a.foldlM Seen.add {} with
  | some seen => if seen.isWhole then some (a, s.dropWhile inside) else none
  | none => none

def longestScheme : Nat := 64

/-- The path of a target that does not start with one. -/
def pathOfUri? (s : List Char) : Option (List Char) := do
  match s.dropWhile isSchemeChar with
  | ':' :: '/' :: '/' :: r =>
    if longestScheme < (s.takeWhile isSchemeChar).length then none
    let (a, r) ← authority? r
    if a.isEmpty then none else path? r
  | _ =>
    let (_, r) ← authority? s
    if r.isEmpty then some [] else none

def longestTarget : Nat := 0xfffe

def pathOf? (target : List Char) : Option (List Char) :=
  if longestTarget < target.length then none
  else match target with
    | [] => none
    | ['*'] => some ['*']
    | '/' :: _ => path? target
    | _ => pathOfUri? target

/-- A request, if its method is a token and its target well formed. -/
def ofText? (method : String) (target : List Char) : Option Request :=
  if method = "" ∨ !method.toList.all isTokenChar then none
  else (pathOf? target).map fun path => { method, path }

end Request

end PushGateway
