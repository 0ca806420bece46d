import PushGateway.Text.Decimal

/-!
The grammar of JSON texts, with the spelling of numbers and escapes kept as written. What the
grammar leaves open (the range of numbers, the pairing of surrogates, the depth of nesting, the
meaning of repeated names) is decided by whoever reads the tree.
-/

namespace PushGateway.Json

/-- One item of a string: a character as it stands, or the code unit of a \u escape. -/
inductive Part
  | char (c : Char)
  | unit (u : Nat)
  deriving DecidableEq, Repr

structure Numeral where
  negative : Bool
  whole : List Char
  fraction : Option (List Char)
  /-- True for a negative exponent, and its digits. -/
  exponent : Option (Bool × List Char)
  deriving DecidableEq, Repr

inductive Tree
  | null
  | bool (b : Bool)
  | number (n : Numeral)
  | string (s : List Part)
  | array (items : List Tree)
  | object (fields : List (List Part × Tree))

namespace Tree

def isSpace (c : Char) : Bool := c = ' ' ∨ c = '\t' ∨ c = '\n' ∨ c = '\r'

def skipSpace (s : List Char) : List Char := s.dropWhile isSpace

def isDigit (c : Char) : Bool := '0' ≤ c ∧ c ≤ '9'

def hex? (c : Char) : Option Nat :=
  if '0' ≤ c ∧ c ≤ '9' then some (c.toNat - '0'.toNat)
  else if 'a' ≤ c ∧ c ≤ 'f' then some (c.toNat - 'a'.toNat + 10)
  else if 'A' ≤ c ∧ c ≤ 'F' then some (c.toNat - 'A'.toNat + 10)
  else none

def escape? : Char → Option Char
  | '"' => some '"'
  | '\\' => some '\\'
  | '/' => some '/'
  | 'b' => some '\x08'
  | 'f' => some '\x0c'
  | 'n' => some '\n'
  | 'r' => some '\r'
  | 't' => some '\t'
  | _ => none

def string? : List Char → Option (List Part × List Char)
  | '"' :: r => some ([], r)
  | '\\' :: 'u' :: a :: b :: c :: d :: r => do
    let u := (← hex? a) * 4096 + (← hex? b) * 256 + (← hex? c) * 16 + (← hex? d)
    let (s, rest) ← string? r
    return (.unit u :: s, rest)
  | '\\' :: c :: r => do
    let e ← escape? c
    let (s, rest) ← string? r
    return (.char e :: s, rest)
  | c :: r =>
    if c < ' ' ∨ c = '\\' then none
    else do
      let (s, rest) ← string? r
      return (.char c :: s, rest)
  | [] => none

def digits (s : List Char) : List Char × List Char := (s.takeWhile isDigit, s.dropWhile isDigit)

def fraction? : List Char → Option (Option (List Char) × List Char)
  | '.' :: r => if (digits r).1.isEmpty then none else some (some (digits r).1, (digits r).2)
  | r => some (none, r)

def exponent? : List Char → Option (Option (Bool × List Char) × List Char)
  | e :: r =>
    if e = 'e' ∨ e = 'E' then
      let (negative, r) := match r with
        | '+' :: r => (false, r)
        | '-' :: r => (true, r)
        | r => (false, r)
      if (digits r).1.isEmpty then none else some (some (negative, (digits r).1), (digits r).2)
    else some (none, e :: r)
  | [] => some (none, [])

/-- A number; a zero in front of other digits is refused. -/
def numeral? (s : List Char) : Option (Numeral × List Char) := do
  let (negative, s) := match s with
    | '-' :: r => (true, r)
    | r => (false, r)
  let (whole, s) := digits s
  if whole.isEmpty ∨ (whole.head? = some '0' ∧ whole.length ≠ 1) then none
  let (fraction, s) ← fraction? s
  let (exponent, s) ← exponent? s
  return ({ negative, whole, fraction, exponent }, s)

def word? : List Char → List Char → Option (List Char)
  | [], r => some r
  | c :: w, d :: r => if c = d then word? w r else none
  | _ :: _, [] => none

mutual

/-- The value in front and the text behind it. Every call reads a character or goes one part down,
so the length of the text is fuel enough. -/
def value? : Nat → List Char → Option (Tree × List Char)
  | 0, _ => none
  | fuel + 1, s =>
    match skipSpace s with
    | 'n' :: r => (word? ['u', 'l', 'l'] r).map (null, ·)
    | 't' :: r => (word? ['r', 'u', 'e'] r).map (bool true, ·)
    | 'f' :: r => (word? ['a', 'l', 's', 'e'] r).map (bool false, ·)
    | '"' :: r => (string? r).map fun (s, rest) => (string s, rest)
    | '[' :: r =>
      match skipSpace r with
      | ']' :: rest => some (array [], rest)
      | r => (items? fuel r).map fun (xs, rest) => (array xs, rest)
    | '\x7b' :: r =>
      match skipSpace r with
      | '\x7d' :: rest => some (object [], rest)
      | r => (fields? fuel r).map fun (xs, rest) => (object xs, rest)
    | r => (numeral? r).map fun (n, rest) => (number n, rest)

def items? : Nat → List Char → Option (List Tree × List Char)
  | 0, _ => none
  | fuel + 1, s => do
    let (x, s) ← value? fuel s
    match skipSpace s with
    | ']' :: rest => return ([x], rest)
    | ',' :: r =>
      let (xs, rest) ← items? fuel r
      return (x :: xs, rest)
    | _ => none

def fields? : Nat → List Char → Option (List (List Part × Tree) × List Char)
  | 0, _ => none
  | fuel + 1, s =>
    match skipSpace s with
    | '"' :: r => do
      let (name, s) ← string? r
      match skipSpace s with
      | ':' :: r =>
        let (x, s) ← value? fuel r
        match skipSpace s with
        | '\x7d' :: rest => return ([(name, x)], rest)
        | ',' :: r =>
          let (xs, rest) ← fields? fuel r
          return ((name, x) :: xs, rest)
        | _ => none
      | _ => none
    | _ => none

end

def parse? (s : List Char) : Option Tree :=
  match value? (2 * s.length + 1) s with
  | some (x, rest) => if (skipSpace rest).isEmpty then some x else none
  | none => none

end Tree

end PushGateway.Json
