import PushGateway.Bytes

/-!
UTF-8. A byte string is read as a row of characters and faults, a fault being the longest run of
bytes that starts like a character and goes wrong. The strict reading wants no fault; the lossy
one writes U+FFFD for each.
-/

namespace PushGateway.Text.Utf8

def encode (s : List Char) : Bytes := s.flatMap String.utf8EncodeChar

def isTail (b : UInt8) : Bool := 0x80 ≤ b && b ≤ 0xBF

/-- After a first byte of a longer character: how many bytes follow it, and the bounds of the first
of them, which keep out overlong forms, surrogates and values past U+10FFFF. -/
def lead (a : UInt8) : Option (Nat × UInt8 × UInt8) :=
  if 0xC2 ≤ a && a ≤ 0xDF then some (1, 0x80, 0xBF)
  else if a == 0xE0 then some (2, 0xA0, 0xBF)
  else if a == 0xED then some (2, 0x80, 0x9F)
  else if 0xE1 ≤ a && a ≤ 0xEF then some (2, 0x80, 0xBF)
  else if a == 0xF0 then some (3, 0x90, 0xBF)
  else if 0xF1 ≤ a && a ≤ 0xF3 then some (3, 0x80, 0xBF)
  else if a == 0xF4 then some (3, 0x80, 0x8F)
  else none

/-- The value bits of a first byte that `n` others follow. -/
def leadBits (n : Nat) (a : UInt8) : Nat := a.toNat % (1 <<< (6 - n))

def tails : Nat → Nat → Bytes → Option Char × Bytes
  | 0, v, r => (some (Char.ofNat v), r)
  | _ + 1, _, [] => (none, [])
  | n + 1, v, b :: r => if isTail b then tails n (v * 64 + b.toNat % 64) r else (none, b :: r)

/-- The first character or fault of the text `a :: r`, and the bytes behind it. -/
def next (a : UInt8) (r : Bytes) : Option Char × Bytes :=
  if a < 0x80 then (some (Char.ofNat a.toNat), r)
  else match lead a, r with
    | some (n, low, high), b :: r =>
      if low ≤ b && b ≤ high then tails (n - 1) (leadBits n a * 64 + b.toNat % 64) r
      else (none, b :: r)
    | _, r => (none, r)

theorem tails_length_le (n v : Nat) (r : Bytes) : (tails n v r).2.length ≤ r.length := by
  induction n generalizing v r with
  | zero => simp [tails]
  | succ n ih =>
    cases r with
    | nil => simp [tails]
    | cons b r =>
      simp only [tails]
      split
      · exact Nat.le_trans (ih _ _) (Nat.le_succ _)
      · exact Nat.le_refl _

theorem next_length_le (a : UInt8) (r : Bytes) : (next a r).2.length ≤ r.length := by
  simp only [next]
  split
  · exact Nat.le_refl _
  · split
    · split
      · exact Nat.le_trans (tails_length_le _ _ _) (Nat.le_succ _)
      · exact Nat.le_refl _
    · exact Nat.le_refl _

def pieces : Bytes → List (Option Char)
  | [] => []
  | a :: r => (next a r).1 :: pieces (next a r).2
termination_by b => b.length
decreasing_by exact Nat.lt_succ_of_le (next_length_le a r)

def decode? (b : Bytes) : Option (List Char) := (pieces b).mapM id

def decodeLossy (b : Bytes) : List Char := (pieces b).map (·.getD '\uFFFD')

end PushGateway.Text.Utf8
