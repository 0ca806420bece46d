/-!
The shortest decimal that reads back as a given double. A double is a whole number times a power of
two; the reals that round to it form an interval, which holds its ends when the whole number is
even. On the grid of decimals with `n` digits only the two neighbours of the value can lie in the
interval without a shorter one doing so, hence the first grid with a hit has the fewest digits.
-/

namespace PushGateway.Text.Shortest

/-- A positive value `digits * 10 ^ exponent`, without zeros at the end of `digits`. -/
structure Decimal where
  digits : Nat
  exponent : Int
  deriving DecidableEq, Repr

/-- A positive double `m * 2 ^ q`. At the foot of a binade the gap below is half of the gap
above. -/
structure Binary where
  m : Nat
  q : Int
  foot : Bool
  deriving DecidableEq, Repr

/-- The positive finite double with these bits, sign taken off. -/
def Binary.ofBits (bits : Nat) : Binary :=
  let e : Nat := (bits >>> 52) % 0x800
  let f : Nat := bits % 0x10000000000000
  if e = 0 then ⟨f, -1074, false⟩ else ⟨f + 0x10000000000000, (e : Int) - 1075, f = 0 ∧ 1 < e⟩

def scaled (n : Nat) (a b : Int) : Nat × Nat :=
  (n * Nat.pow 2 a.toNat * Nat.pow 10 b.toNat, Nat.pow 2 (-a).toNat * Nat.pow 10 (-b).toNat)

/-- Whether `n * 10 ^ b` rounds to the double: it lies in the interval between the midpoints to the
two neighbours, whose ends belong to it when `m` is even. -/
def Binary.holds (x : Binary) (n : Nat) (b : Int) : Bool :=
  let (dn, dd) := scaled n 0 b
  let (hn, hd) := scaled (4 * x.m + 2) (x.q - 2) 0
  let (ln, ld) := scaled (4 * x.m - (if x.foot then 1 else 2)) (x.q - 2) 0
  if x.m % 2 = 0 then ln * dd ≤ dn * ld ∧ dn * hd ≤ hn * dd
  else ln * dd < dn * ld ∧ dn * hd < hn * dd

/-- Of two neighbours on a grid the one nearer to `num / den`, a tie going to the even one. -/
def nearer (num den low : Nat) : Nat :=
  let twice := 2 * num
  let mid := (2 * low + 1) * den
  if twice < mid then low else if mid < twice then low + 1
  else if low % 2 = 0 then low else low + 1

/-- The decimal on the grid of step `10 ^ b` that rounds to the double, the nearer one of two. -/
def Binary.onGrid (x : Binary) (b : Int) : Option Nat :=
  let (num, den) := scaled x.m x.q (-b)
  let low := num / den
  match x.holds low b && 0 < low, x.holds (low + 1) b with
  | true, true => some (nearer num den low)
  | true, false => some low
  | false, true => some (low + 1)
  | false, false => none

def decimalLength (n : Nat) : Nat := (Nat.toDigits 10 n).length

/-- The power of ten at or below the value: `10 ^ k ≤ m * 2 ^ q < 10 ^ (k + 1)`. -/
def Binary.magnitude (x : Binary) : Int :=
  let (num, den) := scaled x.m x.q 0
  if den ≤ num then (decimalLength (num / den) : Int) - 1
  else -(decimalLength ((den - 1) / num) : Int)

def Decimal.strip : Nat → Decimal → Decimal
  | 0, d => d
  | fuel + 1, d =>
    if d.digits % 10 = 0 ∧ d.digits ≠ 0 then strip fuel ⟨d.digits / 10, d.exponent + 1⟩ else d

/-- Tries grids of `n`, `n + 1`, … digits. Seventeen digits always suffice. -/
def Binary.search (x : Binary) (top : Int) : Nat → Nat → Decimal
  | 0, n => ⟨0, top - n⟩
  | fuel + 1, n =>
    match x.onGrid (top - n + 1) with
    | some d => (Decimal.mk d (top - n + 1)).strip 20
    | none => search x top fuel (n + 1)

def Binary.shortest (x : Binary) : Decimal := x.search x.magnitude 18 1

end PushGateway.Text.Shortest
