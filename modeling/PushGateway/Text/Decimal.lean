/-!
Decimal integers as text. Reading takes an optional sign and ASCII digits, at least one, and
nothing else; an unsigned number takes `+` but no `-`, not even before zero.
-/

namespace PushGateway.Text.Decimal

def digit? (c : Char) : Option Nat :=
  if '0' ≤ c ∧ c ≤ '9' then some (c.toNat - '0'.toNat) else none

def digits? (n : Nat) : List Char → Option Nat
  | [] => some n
  | c :: s => (digit? c).bind fun d => digits? (n * 10 + d) s

def natural? : List Char → Option Nat
  | [] => none
  | s => digits? 0 s

def nat? (bound : Nat) (s : List Char) : Option Nat :=
  let body := match s with
    | '+' :: r => r
    | r => r
  (natural? body).filter (· < bound)

def int? (low high : Int) (s : List Char) : Option Int :=
  let value := match s with
    | '+' :: r => (natural? r).map Int.ofNat
    | '-' :: r => (natural? r).map fun n => -(n : Int)
    | r => (natural? r).map Int.ofNat
  value.filter fun n => low ≤ n ∧ n ≤ high

def int32? (s : List Char) : Option Int32 := (int? (-0x80000000) 0x7fffffff s).map Int32.ofInt
def int64? (s : List Char) : Option Int64 :=
  (int? (-0x8000000000000000) 0x7fffffffffffffff s).map Int64.ofInt
def nat64? (s : List Char) : Option Nat := nat? UInt64.size s
def nat32? (s : List Char) : Option Nat := nat? UInt32.size s

def ofNat (n : Nat) : List Char := Nat.toDigits 10 n

def ofInt (n : Int) : List Char :=
  if n < 0 then '-' :: ofNat n.natAbs else ofNat n.natAbs

end PushGateway.Text.Decimal
