/-!
A source of unpredictable numbers, and what is drawn from it: keys in the form of version 4 UUIDs,
and the intervals that spread the reports of sessions over time.
-/

namespace PushGateway

structure Entropy where
  state : UInt64
  deriving DecidableEq, Repr

namespace Entropy

def next (e : Entropy) : UInt64 × Entropy :=
  let s := e.state + 0x9E3779B97F4A7C15
  let z := (s ^^^ s >>> 30) * 0xBF58476D1CE4E5B9
  let z := (z ^^^ z >>> 27) * 0x94D049BB133111EB
  (z ^^^ z >>> 31, ⟨s⟩)

def hexDigits (n : Nat) (x : Nat) : List Char :=
  (List.range n).reverse.map fun i =>
    let d := (x >>> (4 * i)) % 16
    Char.ofNat (if d < 10 then 48 + d else 87 + d)

def uuid (e : Entropy) : String × Entropy :=
  let (a, e) := e.next
  let (b, e) := e.next
  let a := a.toNat
  let b := b.toNat
  let dash (s : List Char) := s ++ ['-']
  let text := dash (hexDigits 8 (a >>> 32)) ++ dash (hexDigits 4 (a >>> 16)) ++
    dash ('4' :: hexDigits 3 a) ++ dash (hexDigits 4 (0x8000 + (b >>> 48) % 0x4000)) ++
    hexDigits 12 b
  (String.ofList text, e)

def below (e : Entropy) (low high : Nat) : Nat × Entropy :=
  let (x, e) := e.next
  (low + x.toNat % (high - low), e)

end Entropy

end PushGateway
