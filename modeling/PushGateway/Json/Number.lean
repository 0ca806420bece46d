import PushGateway.Json.Grammar
import PushGateway.Text.Shortest

/-!
JSON numbers. One without fraction and exponent that fits 64 bits, signed or unsigned, is an
integer; every other one, and -0, is a double. A double is computed from the first digits that fit
64 bits and a power of ten, by one multiplication or division, so it may miss the nearest double by
a unit; it is written with the fewest digits that read back.
-/

namespace PushGateway.Json

/-- An integer in the range of 64 bits, or the bits of a finite double. -/
inductive Number
  | int (n : Int)
  | double (bits : UInt64)
  deriving DecidableEq, Repr

namespace Numeral

/-- The digits taken in so far as a number below 2^64, and the power of ten they are short of. -/
structure Decimal where
  significand : Nat
  exponent : Int
  deriving DecidableEq, Repr

def digitValue (c : Char) : Nat := c.toNat - '0'.toNat

/-- Takes digits in while the number stays below 2^64; gives back the digits that no longer fit. -/
def absorb (n : Nat) : List Char → Nat × List Char
  | [] => (n, [])
  | c :: s =>
    let next := n * 10 + digitValue c
    if next < UInt64.size then absorb next s else (n, c :: s)

/-- The significand with the exponent that dropped and fractional digits give. Whole digits that do
not fit count as tens; fractional ones that do not fit are dropped with all behind them. -/
def decimal (n : Numeral) : Decimal :=
  let (whole, dropped) := absorb 0 n.whole
  let fraction := n.fraction.getD []
  let (significand, lost) := absorb whole fraction
  ⟨significand, dropped.length - (fraction.length - lost.length : Nat)⟩

/-- `f / 10 ^ k`, in steps of at most 10^308 as that is the largest power of ten that is a double.
Three steps bring every significand to zero. -/
def divide : Nat → Float → Nat → Float
  | 0, f, _ => f
  | fuel + 1, f, k =>
    if k ≤ 308 then f / Float.ofScientific 1 false k
    else if f == 0 then f
    else divide fuel (f / Float.ofScientific 1 false 308) (k - 308)

def scale (f : Float) (e : Int) : Option Float :=
  if e < 0 then some (divide 4 f e.natAbs)
  else if e ≤ 308 then
    let g := f * Float.ofScientific 1 false e.toNat
    if g.isInf then none else some g
  else if f == 0 then some f
  else none

def exponentLimit : Nat := 0x7fffffff

def exponentValue (s : List Char) : Nat := s.foldl (fun n c => n * 10 + digitValue c) 0

/-- The double that a number stands for, `none` where it is out of range. An exponent past 31 bits
is an overflow, or a zero where it is negative or the digits are zero. -/
def double? (n : Numeral) : Option Float := do
  let d := n.decimal
  let f := d.significand.toUInt64.toFloat
  let g ← match n.exponent with
    | none => scale f d.exponent
    | some (negative, e) =>
      if exponentLimit < exponentValue e then
        if d.significand ≠ 0 ∧ ¬ negative then none else some 0.0
      else
        let shift : Int := if negative then -(exponentValue e : Int) else exponentValue e
        scale f (max (-0x80000000) (min 0x7fffffff (d.exponent + shift)))
  return if n.negative then -g else g

def integer? (n : Numeral) : Option Int :=
  if n.fraction.isSome ∨ n.exponent.isSome then none
  else
    let v := exponentValue n.whole
    if n.negative then
      if 0 < v ∧ v ≤ 0x8000000000000000 then some (-(v : Int)) else none
    else if v < UInt64.size then some v else none

def number? (n : Numeral) : Option Number :=
  match n.integer? with
  | some v => some (.int v)
  | none => n.double?.map fun f => .double f.toBits

end Numeral

namespace Number

def plainLow : Int := -5
def plainHigh : Int := 15

def zeros (n : Nat) : List Char := List.replicate n '0'

/-- A positive decimal: in full between the two bounds, with an exponent outside them; always with
a point or an exponent, so that it stays a double. -/
def writeDecimal (d : Text.Shortest.Decimal) : List Char :=
  let ds := Text.Decimal.ofNat d.digits
  let top := d.exponent + ds.length - 1
  if plainLow ≤ top ∧ top ≤ plainHigh then
    if 0 ≤ d.exponent then ds ++ zeros d.exponent.toNat ++ ['.', '0']
    else if 0 ≤ top then
      ds.take (top.toNat + 1) ++ '.' :: ds.drop (top.toNat + 1)
    else '0' :: '.' :: zeros (-top - 1).toNat ++ ds
  else
    let mantissa := match ds with
      | [c] => [c]
      | c :: r => c :: '.' :: r
      | [] => []
    mantissa ++ 'e' :: Text.Decimal.ofInt top

def writeDouble (bits : UInt64) : List Char :=
  let n := bits.toNat
  let sign := if 0x8000000000000000 ≤ n then ['-'] else []
  let magnitude := n % 0x8000000000000000
  if magnitude = 0 then sign ++ ['0', '.', '0']
  else sign ++ writeDecimal (Text.Shortest.Binary.ofBits magnitude).shortest

def write : Number → List Char
  | int n => Text.Decimal.ofInt n
  | double bits => writeDouble bits

end Number

end PushGateway.Json
