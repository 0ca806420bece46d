import PushGateway.Text.Decimal
import PushGateway.Json.Grammar

/-!
Socket addresses as text: a host as four octets, or as eight groups in brackets, then a colon and
the number of a socket. Names of hosts are no addresses, and nothing may stand around one. An
address is written back in its shortest form.
-/

namespace PushGateway

inductive Host
  | v4 (octets : List Nat)
  | v6 (groups : List Nat) (scope : Nat)
  deriving DecidableEq, Repr

structure Address where
  host : Host
  socket : Nat
  deriving DecidableEq, Repr

namespace Address

/-- Reads something off the front of a text; a reader that fails has read nothing. -/
abbrev Reader := StateT (List Char) Option

def expect (c : Char) : Reader Unit := fun s =>
  match s with
  | d :: r => if c = d then some ((), r) else none
  | [] => none

def leading (digit? : Char → Option Nat) : List Char → List Nat × List Char
  | [] => ([], [])
  | c :: s =>
    match digit? c with
    | none => ([], c :: s)
    | some d =>
      let (ds, r) := leading digit? s
      (d :: ds, r)

def value (radix : Nat) (ds : List Nat) : Nat := ds.foldl (fun n d => n * radix + d) 0

def octet : Reader Nat := fun s =>
  let (ds, r) := leading Text.Decimal.digit? s
  let n := value 10 ds
  if ds = [] ∨ (ds.head? = some 0 ∧ 1 < ds.length) ∨ 3 < ds.length ∨ 255 < n then none
  else some (n, r)

def number (bound : Nat) : Reader Nat := fun s =>
  let (ds, r) := leading Text.Decimal.digit? s
  let n := value 10 ds
  if ds = [] ∨ bound ≤ n then none else some (n, r)

def group : Reader Nat := fun s =>
  let (ds, r) := leading Json.Tree.hex? s
  if ds = [] ∨ 4 < ds.length then none else some (value 16 ds, r)

def octets : Reader (List Nat) := do
  let a ← octet
  expect '.'
  let b ← octet
  expect '.'
  let c ← octet
  expect '.'
  let d ← octet
  return [a, b, c, d]

/-- Something that a colon parts from what was read before it, if anything was. -/
def apart {α : Type} (first : Bool) (r : Reader α) : Reader α := do
  unless first do expect ':'
  r

/-- Two groups spelled as four octets. -/
def pairOfGroups (first : Bool) : Reader (List Nat) := do
  match ← apart first octets with
  | [a, b, c, d] => return [a * 256 + b, c * 256 + d]
  | _ => failure

/-- As many groups as there are, up to a limit, what follows them, and whether the last two were
spelled as octets, after which there can be no more. -/
def groups (first : Bool) : Nat → List Char → List Nat × Bool × List Char
  | 0, s => ([], false, s)
  | limit + 1, s =>
    match if limit = 0 then none else pairOfGroups first s with
    | some (pair, r) => (pair, true, r)
    | none =>
      match apart first group s with
      | some (g, r) =>
        let (gs, out) := groups false limit r
        (g :: gs, out)
      | none => ([], false, s)

/-- Eight groups, or fewer with `::` for at least one group of zeros between them. -/
def eightGroups : Reader (List Nat) := fun s =>
  match groups true 8 s with
  | (front, octal, r) =>
    if front.length = 8 then some (front, r)
    else if octal then none
    else match r with
      | ':' :: ':' :: r =>
        let (back, _, r) := groups true (7 - front.length) r
        some (front ++ List.replicate (8 - front.length - back.length) 0 ++ back, r)
      | _ => none

def socketNumber : Reader Nat := do
  expect ':'
  number UInt16.size

def plain : Reader Address := do
  let a ← octets
  return { host := .v4 a, socket := ← socketNumber }

def scope : Reader Nat := (do expect '%'; number UInt32.size) <|> pure 0

def bracketed : Reader Address := do
  expect '['
  let gs ← eightGroups
  let z ← scope
  expect ']'
  return { host := .v6 gs z, socket := ← socketNumber }

def parse? (s : List Char) : Option Address :=
  match (plain <|> bracketed) s with
  | some (a, []) => some a
  | _ => none

def separated (separator : Char) : List (List Char) → List Char
  | [] => []
  | [x] => x
  | x :: xs => x ++ separator :: separated separator xs

def groupsText (gs : List Nat) : List Char := separated ':' (gs.map (Nat.toDigits 16))

def octetsText (os : List Nat) : List Char := separated '.' (os.map Text.Decimal.ofNat)

def zerosAhead (gs : List Nat) : Nat := (gs.takeWhile (· = 0)).length

/-- Where the longest run of zeros starts and how long it is; the first of several as long. -/
def longestZeros : List Nat → Nat × Nat
  | [] => (0, 0)
  | g :: gs =>
    let here := zerosAhead (g :: gs)
    let (start, size) := longestZeros gs
    if size ≤ here then (0, here) else (start + 1, size)

/-- Eight groups, with `::` for the longest run of at least two zeros. An address that stands for
four octets shows them. -/
def eightText (gs : List Nat) : List Char :=
  match gs with
  | [0, 0, 0, 0, 0, 0xffff, a, b] =>
    "::ffff:".toList ++ octetsText [a / 256, a % 256, b / 256, b % 256]
  | _ =>
    let (start, size) := longestZeros gs
    if size ≤ 1 then groupsText gs
    else groupsText (gs.take start) ++ ':' :: ':' :: groupsText (gs.drop (start + size))

def hostText : Host → List Char
  | .v4 os => octetsText os
  | .v6 gs scope =>
    '[' :: eightText gs ++ (if scope = 0 then [] else '%' :: Text.Decimal.ofNat scope) ++ [']']

def text (a : Address) : String :=
  String.ofList (hostText a.host ++ ':' :: Text.Decimal.ofNat a.socket)

end Address

end PushGateway
