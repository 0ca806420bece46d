import Mathlib.Algebra.Group.Int.Defs
import Mathlib.Algebra.Group.Nat.Defs
import Mathlib.Tactic.Common
import PushGateway.Bytes

/-!
Words as numbers. The or of shifted bytes is their sum with weights, so a word read from its own
bytes is that word, and the bytes written are the digits of its two's complement in base 256.
Whichever bytes a word was read from are the ones written for it.
-/

namespace PushGateway.Bytes

theorem or_eq_add (i x : Nat) {y : Nat} (hy : y < 2 ^ i) : x * 2 ^ i ||| y = x * 2 ^ i + y := by
  rw [Nat.mul_comm, Nat.two_pow_add_eq_or_of_lt hy]

theorem word16_toNat (a b : UInt8) : (word16 a b).toNat = a.toNat * 2 ^ 8 + b.toNat := by
  have ha := a.toNat_lt
  have hb := b.toNat_lt
  simp only [word16, UInt16.toNat_or, UInt16.toNat_shiftLeft, UInt8.toNat_toUInt16,
    Nat.shiftLeft_eq]
  change a.toNat * 2 ^ 8 % 2 ^ 16 ||| b.toNat = _
  rw [Nat.mod_eq_of_lt (by omega), or_eq_add 8 _ hb]

theorem word32_toNat (a b c d : UInt8) : (word32 a b c d).toNat =
    a.toNat * 2 ^ 24 + b.toNat * 2 ^ 16 + c.toNat * 2 ^ 8 + d.toNat := by
  have ha := a.toNat_lt
  have hb := b.toNat_lt
  have hc := c.toNat_lt
  have hd := d.toNat_lt
  simp only [word32, UInt32.toNat_or, UInt32.toNat_shiftLeft, UInt8.toNat_toUInt32,
    Nat.shiftLeft_eq]
  change a.toNat * 2 ^ 24 % 2 ^ 32 ||| b.toNat * 2 ^ 16 % 2 ^ 32 ||| c.toNat * 2 ^ 8 % 2 ^ 32 |||
    d.toNat = _
  rw [Nat.mod_eq_of_lt (by omega), Nat.mod_eq_of_lt (by omega), Nat.mod_eq_of_lt (by omega)]
  have h2 : a.toNat * 2 ^ 24 ||| b.toNat * 2 ^ 16 = (a.toNat * 2 ^ 8 + b.toNat) * 2 ^ 16 := by
    rw [or_eq_add 24 _ (by omega)]; omega
  have h3 : (a.toNat * 2 ^ 8 + b.toNat) * 2 ^ 16 ||| c.toNat * 2 ^ 8 =
      (a.toNat * 2 ^ 16 + b.toNat * 2 ^ 8 + c.toNat) * 2 ^ 8 := by
    rw [or_eq_add 16 _ (by omega)]; omega
  rw [h2, h3, or_eq_add 8 _ hd]
  omega

theorem int16_ofInt16 (n : Int16) : int16 (n.toUInt16 >>> 8).toUInt8 n.toUInt16.toUInt8 = n := by
  have hw : word16 (n.toUInt16 >>> 8).toUInt8 n.toUInt16.toUInt8 = n.toUInt16 := by
    have hn := n.toUInt16.toNat_lt
    apply UInt16.toNat_inj.mp
    rw [word16_toNat]
    simp only [UInt16.toNat_toUInt8, UInt16.toNat_shiftRight, Nat.shiftRight_eq_div_pow]
    change n.toUInt16.toNat / 2 ^ 8 % 2 ^ 8 * 2 ^ 8 + n.toUInt16.toNat % 2 ^ 8 = _
    omega
  rw [int16, hw, Int16.toInt16_toUInt16]

theorem int32_ofInt32 (n : Int32) : int32 (n.toUInt32 >>> 24).toUInt8 (n.toUInt32 >>> 16).toUInt8
    (n.toUInt32 >>> 8).toUInt8 n.toUInt32.toUInt8 = n := by
  have hw : word32 (n.toUInt32 >>> 24).toUInt8 (n.toUInt32 >>> 16).toUInt8
      (n.toUInt32 >>> 8).toUInt8 n.toUInt32.toUInt8 = n.toUInt32 := by
    have hn := n.toUInt32.toNat_lt
    apply UInt32.toNat_inj.mp
    rw [word32_toNat]
    simp only [UInt32.toNat_toUInt8, UInt32.toNat_shiftRight, Nat.shiftRight_eq_div_pow]
    change n.toUInt32.toNat / 2 ^ 24 % 2 ^ 8 * 2 ^ 24 + n.toUInt32.toNat / 2 ^ 16 % 2 ^ 8 * 2 ^ 16 +
      n.toUInt32.toNat / 2 ^ 8 % 2 ^ 8 * 2 ^ 8 + n.toUInt32.toNat % 2 ^ 8 = _
    omega
  rw [int32, hw, Int32.toInt32_toUInt32]

theorem toUInt32_toNat (n : Int32) : n.toUInt32.toNat = (n.toInt % 2 ^ 32).toNat := by
  have hn := n.toUInt32.toNat_lt
  have hi : n.toInt = (n.toUInt32.toNat : Int).bmod (2 ^ 32) := BitVec.toInt_eq_toNat_bmod _
  have hm : (n.toUInt32.toNat : Int).bmod (2 ^ 32) % (2 ^ 32 : Nat) =
      n.toUInt32.toNat % (2 ^ 32 : Nat) :=
    Int.bmod_emod
  rw [hi]
  omega

def bigEndian (k n : Nat) : Bytes := (List.range k).reverse.map fun i => UInt8.ofNat (n / 256 ^ i)

theorem ofInt32_eq_bigEndian (n : Int32) : ofInt32 n = bigEndian 4 (n.toInt % 2 ^ 32).toNat := by
  rw [← toUInt32_toNat]
  change _ = [3, 2, 1, 0].map fun i => UInt8.ofNat (n.toUInt32.toNat / 256 ^ i)
  simp only [ofInt32, List.map_cons, List.map_nil, List.cons.injEq, and_true, ← UInt8.toNat_inj,
    UInt32.toNat_toUInt8, UInt32.toNat_shiftRight, Nat.shiftRight_eq_div_pow]
  simp

def value (b : Bytes) : Nat := b.foldl (fun n a => n * 256 + a.toNat) 0

theorem int32_eq_ofNat (a b c d : UInt8) : int32 a b c d = Int32.ofNat (value [a, b, c, d]) := by
  have hw : word32 a b c d = UInt32.ofNat (value [a, b, c, d]) := by
    have ha := a.toNat_lt
    have hb := b.toNat_lt
    have hc := c.toNat_lt
    have hd := d.toNat_lt
    apply UInt32.toNat_inj.mp
    rw [word32_toNat, UInt32.toNat_ofNat']
    simp only [value, List.foldl]
    omega
  rw [int32, hw]
  rfl

theorem int16_eq_ofNat (a b : UInt8) : int16 a b = Int16.ofNat (value [a, b]) := by
  have hw : word16 a b = UInt16.ofNat (value [a, b]) := by
    have ha := a.toNat_lt
    have hb := b.toNat_lt
    apply UInt16.toNat_inj.mp
    rw [word16_toNat, UInt16.toNat_ofNat']
    simp only [value, List.foldl]
    omega
  rw [int16, hw]
  rfl

theorem ofInt32_int32 (a b c d : UInt8) : ofInt32 (int32 a b c d) = [a, b, c, d] := by
  have ha := a.toNat_lt
  have hb := b.toNat_lt
  have hc := c.toNat_lt
  have hd := d.toNat_lt
  have hw : (int32 a b c d).toUInt32 = word32 a b c d := rfl
  simp only [ofInt32, hw, List.cons.injEq, and_true, ← UInt8.toNat_inj, UInt32.toNat_toUInt8,
    UInt32.toNat_shiftRight, Nat.shiftRight_eq_div_pow, word32_toNat]
  change _ / 2 ^ 24 % _ = _ ∧ _ / 2 ^ 16 % _ = _ ∧ _ / 2 ^ 8 % _ = _ ∧ _
  omega

theorem word32_inj {a b c d a' b' c' d' : UInt8} (h : word32 a b c d = word32 a' b' c' d') :
    [a, b, c, d] = [a', b', c', d'] := by
  have hi : int32 a b c d = int32 a' b' c' d' := by rw [int32, h, int32]
  rw [← ofInt32_int32 a b c d, hi, ofInt32_int32]

theorem ofInt16_int16 (a b : UInt8) : ofInt16 (int16 a b) = [a, b] := by
  have ha := a.toNat_lt
  have hb := b.toNat_lt
  have hw : (int16 a b).toUInt16 = word16 a b := rfl
  simp only [ofInt16, hw, List.cons.injEq, and_true, ← UInt8.toNat_inj, UInt16.toNat_toUInt8,
    UInt16.toNat_shiftRight, Nat.shiftRight_eq_div_pow, word16_toNat]
  change _ / 2 ^ 8 % _ = _ ∧ _
  omega

end PushGateway.Bytes
