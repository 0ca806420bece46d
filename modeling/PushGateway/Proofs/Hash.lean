import Mathlib.Data.List.Basic
import Mathlib.Logic.Function.Basic
import PushGateway.Hash
import PushGateway.Proofs.Words

/-!
Which keys the hash tells apart. A multiplication by an odd constant, a rotation and a shifted or
added word each keep different words different, so every stage of the hash does, whether the state
or the word mixed in is what differs. Keys that differ in one block only therefore leave different
states behind it, and the bytes behind it, which are the same, keep the states apart.
-/

namespace PushGateway.Hash

open Function

theorem mul_injective {c inverse : UInt32} (h : c * inverse = 1) :
    Injective fun x : UInt32 => x * c := by
  intro x y hxy
  calc x = x * c * inverse := by rw [UInt32.mul_assoc, h, UInt32.mul_one]
    _ = y * c * inverse := congrArg (· * inverse) hxy
    _ = y := by rw [UInt32.mul_assoc, h, UInt32.mul_one]

/-- What two words with one image differ by is its own shift, and only zero is that. -/
theorem xorShift_injective {s : UInt32} (hs : 0 < s.toNat % 32) :
    Injective fun x : UInt32 => x ^^^ x >>> s := by
  intro x y (hxy : x ^^^ x >>> s = y ^^^ y >>> s)
  have hshift : x ^^^ y = (x ^^^ y) >>> s := by
    apply UInt32.xor_eq_zero_iff.1
    calc x ^^^ y ^^^ (x ^^^ y) >>> s = (x ^^^ x >>> s) ^^^ (y ^^^ y >>> s) := by
          rw [UInt32.shiftRight_xor]
          ac_rfl
      _ = 0 := UInt32.xor_eq_zero_iff.2 hxy
  have hzero : (x ^^^ y).toNat = 0 := by
    have hdiv := congrArg UInt32.toNat hshift
    rw [UInt32.toNat_shiftRight, Nat.shiftRight_eq_div_pow] at hdiv
    by_contra hne
    have hlt := Nat.div_lt_self (Nat.pos_of_ne_zero hne) (Nat.one_lt_two_pow (Nat.ne_of_gt hs))
    omega
  exact UInt32.xor_eq_zero_iff.1 (UInt32.toNat_inj.1 hzero)

theorem toBitVec_rotateLeft {n : UInt32} (h : 0 < n.toNat ∧ n.toNat < 32) (x : UInt32) :
    (rotateLeft x n).toBitVec = x.toBitVec.rotateLeft n.toNat := by
  have hn : (n.toBitVec % 32).toNat = n.toNat := Nat.mod_eq_of_lt h.2
  have hrest : ((32 - n).toBitVec % 32).toNat = 32 - n.toNat := by
    have hsub : (32 - n).toNat = 32 - n.toNat :=
      UInt32.toNat_sub_of_le 32 n (UInt32.le_iff_toNat_le.2 (Nat.le_of_lt h.2))
    change (32 - n).toNat % 32 = _
    omega
  rw [rotateLeft, UInt32.toBitVec_or, UInt32.toBitVec_shiftLeft, UInt32.toBitVec_shiftRight,
    BitVec.shiftLeft_eq', BitVec.ushiftRight_eq', hn, hrest,
    BitVec.rotateLeft_eq_rotateLeftAux_of_lt h.2]
  rfl

/-- Every bit is found again, above the ones that came round or among them. -/
theorem rotateLeft_injective {n : UInt32} (h : 0 < n.toNat ∧ n.toNat < 32) :
    Injective (rotateLeft · n) := by
  intro x y hxy
  have hbits (i : Nat) :
      (x.toBitVec.rotateLeft n.toNat).getLsbD i = (y.toBitVec.rotateLeft n.toNat).getLsbD i := by
    rw [← toBitVec_rotateLeft h, ← toBitVec_rotateLeft h]
    exact congrArg (fun z : UInt32 => z.toBitVec.getLsbD i) hxy
  apply UInt32.toBitVec_inj.1
  apply BitVec.eq_of_getLsbD_eq
  intro i hi
  by_cases hwrap : i + n.toNat < 32
  · have hb := hbits (i + n.toNat)
    have hhigh : ¬ i + n.toNat < n.toNat := by omega
    simpa only [BitVec.getLsbD_rotateLeft, Nat.mod_eq_of_lt h.2, hhigh, hwrap, decide_false,
      decide_true, cond_false, Bool.true_and, Nat.add_sub_cancel] using hb
  · have hb := hbits (i + n.toNat - 32)
    have hlow : i + n.toNat - 32 < n.toNat := by omega
    have hback : 32 - n.toNat + (i + n.toNat - 32) = i := by omega
    simpa only [BitVec.getLsbD_rotateLeft, Nat.mod_eq_of_lt h.2, hlow, hback, decide_true,
      cond_true] using hb

theorem scatter_injective : Injective scatter := by
  have h16 : Injective fun h : UInt32 => h ^^^ h >>> 16 := xorShift_injective (by decide)
  have h13 : Injective fun h : UInt32 => h ^^^ h >>> 13 := xorShift_injective (by decide)
  have hfirst : (0x85EBCA6B : UInt32) * 0xA5CB9243 = 1 := by decide
  have hsecond : (0xC2B2AE35 : UInt32) * 0x7ED1B41D = 1 := by decide
  exact h16.comp ((mul_injective hsecond).comp (h13.comp ((mul_injective hfirst).comp h16)))

theorem mixWord_injective : Injective mixWord := by
  have hfirst : (0xCC9E2D51 : UInt32) * 0xDEE13BB1 = 1 := by decide
  have hsecond : (0x1B873593 : UInt32) * 0x56ED309B = 1 := by decide
  exact (mul_injective hsecond).comp
    ((rotateLeft_injective (by decide)).comp (mul_injective hfirst))

theorem xor_eq_of_mixBlock {h h' k k' : UInt32} (heq : mixBlock h k = mixBlock h' k') :
    h ^^^ mixWord k = h' ^^^ mixWord k' := by
  have hfive : (5 : UInt32) * 0xCCCCCCCD = 1 := by decide
  exact rotateLeft_injective (by decide) (mul_injective hfive ((UInt32.add_left_inj _).1 heq))

theorem mixBlock_injective_word (h : UInt32) : Injective (mixBlock h) := fun _ _ heq =>
  mixWord_injective ((UInt32.xor_right_inj h).1 (xor_eq_of_mixBlock heq))

theorem mixBlock_injective_state (k : UInt32) : Injective (mixBlock · k) := fun _ _ heq =>
  (UInt32.xor_left_inj _).1 (xor_eq_of_mixBlock heq)

theorem absorb_block (h : UInt32) (a b c d : UInt8) (r : Bytes) :
    absorb h (a :: b :: c :: d :: r) = absorb (mixBlock h (Bytes.word32 d c b a)) r := by
  conv_lhs => rw [absorb.eq_def]

theorem absorb_injective (key : Bytes) : Injective (absorb · key) := by
  intro h h' (heq : absorb h key = absorb h' key)
  induction h, key using absorb.induct generalizing h' with
  | case1 h a b c d r ih =>
    rw [absorb_block, absorb_block] at heq
    exact mixBlock_injective_state _ (ih heq)
  | case2 h c b a => exact (UInt32.xor_left_inj _).1 heq
  | case3 h b a => exact (UInt32.xor_left_inj _).1 heq
  | case4 h a => exact (UInt32.xor_left_inj _).1 heq
  | case5 h => exact heq

/-- Keys of one length that agree outside of block `b`, the bytes from `4 * b` to `4 * b + 3`, of
which the last block of a key may have only one to three. -/
structure AgreeOutside (b : Nat) (key key' : Bytes) : Prop where
  length : key.length = key'.length
  byte : ∀ i, i / 4 ≠ b → key[i]? = key'[i]?

variable {b : Nat} {key key' : Bytes}

theorem AgreeOutside.block_or_rest {a₀ a₁ a₂ a₃ a₀' a₁' a₂' a₃' : UInt8} {r r' : Bytes}
    (h : AgreeOutside b (a₀ :: a₁ :: a₂ :: a₃ :: r) (a₀' :: a₁' :: a₂' :: a₃' :: r')) :
    r = r' ∨ (a₀ = a₀' ∧ a₁ = a₁' ∧ a₂ = a₂' ∧ a₃ = a₃') ∧ ∃ b', AgreeOutside b' r r' := by
  cases b with
  | zero =>
    left
    apply List.ext_getElem?
    exact fun i => h.byte (i + 4) (by omega)
  | succ b =>
    have hfirst (i : Nat) (hi : i < 4) := h.byte i (by omega)
    refine .inr ⟨⟨?_, ?_, ?_, ?_⟩, b, ⟨?_, fun i hi => h.byte (i + 4) (by omega)⟩⟩
    · exact Option.some.inj (hfirst 0 (by decide))
    · exact Option.some.inj (hfirst 1 (by decide))
    · exact Option.some.inj (hfirst 2 (by decide))
    · exact Option.some.inj (hfirst 3 (by decide))
    · simpa using h.length

theorem exists_block {n : Nat} (h : n + 4 = key.length) :
    ∃ a₀ a₁ a₂ a₃ r, key = a₀ :: a₁ :: a₂ :: a₃ :: r :=
  match key, h with
  | a₀ :: a₁ :: a₂ :: a₃ :: r, _ => ⟨a₀, a₁, a₂, a₃, r, rfl⟩

theorem word32_inj_of_tail {h : UInt32} {a₀ a₁ a₂ a₃ a₀' a₁' a₂' a₃' : UInt8}
    (heq : h ^^^ mixWord (Bytes.word32 a₀ a₁ a₂ a₃) =
      h ^^^ mixWord (Bytes.word32 a₀' a₁' a₂' a₃')) : [a₀, a₁, a₂, a₃] = [a₀', a₁', a₂', a₃'] :=
  Bytes.word32_inj (mixWord_injective ((UInt32.xor_right_inj h).1 heq))

/-- From one state, keys that differ in one block only lead to different states: that block does,
and behind it the bytes are the same. -/
theorem AgreeOutside.eq_of_absorb {h : UInt32} (ha : AgreeOutside b key key')
    (heq : absorb h key = absorb h key') : key = key' := by
  have hlength := ha.length
  induction h, key using absorb.induct generalizing b key' with
  | case1 h a₀ a₁ a₂ a₃ r ih =>
    obtain ⟨a₀', a₁', a₂', a₃', r', rfl⟩ := exists_block hlength
    rw [absorb_block, absorb_block] at heq
    rcases ha.block_or_rest with rfl | ⟨⟨rfl, rfl, rfl, rfl⟩, b', hr⟩
    · have hbytes := Bytes.word32_inj (mixBlock_injective_word h (absorb_injective r heq))
      simp only [List.cons.injEq] at hbytes ⊢
      tauto
    · rw [ih hr heq hr.length]
  | case2 h a₂ a₁ a₀ =>
    obtain ⟨a₂', a₁', a₀', rfl⟩ := List.length_eq_three.1 hlength.symm
    have hbytes := word32_inj_of_tail heq
    simp_all
  | case3 h a₁ a₀ =>
    obtain ⟨a₁', a₀', rfl⟩ := List.length_eq_two.1 hlength.symm
    have hbytes := word32_inj_of_tail heq
    simp_all
  | case4 h a₀ =>
    obtain ⟨a₀', rfl⟩ := List.length_eq_one_iff.1 hlength.symm
    have hbytes := word32_inj_of_tail heq
    simp_all
  | case5 h => exact (List.length_eq_zero_iff.1 hlength.symm).symm

/-- Keys that differ in one block only have different hashes under every seed, and every key has
different hashes under different seeds. -/
theorem murmur3_separates :
    (∀ (seed : UInt32) (b : Nat) (key key' : Bytes), AgreeOutside b key key' → key ≠ key' →
      murmur3 key seed ≠ murmur3 key' seed) ∧
    ∀ (key : Bytes) (seed seed' : UInt32), seed ≠ seed' → murmur3 key seed ≠ murmur3 key seed' := by
  refine ⟨fun seed b key key' ha hne heq => hne ?_, fun key seed seed' hne heq => hne ?_⟩
  · have hstate := scatter_injective heq
    rw [ha.length] at hstate
    exact ha.eq_of_absorb ((UInt32.xor_left_inj _).1 hstate)
  · exact absorb_injective key ((UInt32.xor_left_inj _).1 (scatter_injective heq))

/-- `user-1` and `user-2`, which differ in their last block of two bytes, and `user-1` under two
seeds. -/
theorem murmur3_separates_users :
    murmur3 [0x75, 0x73, 0x65, 0x72, 0x2D, 0x31] 7 ≠ murmur3 [0x75, 0x73, 0x65, 0x72, 0x2D,
      0x32] 7 ∧ murmur3 [0x75, 0x73, 0x65, 0x72, 0x2D, 0x31] 7 ≠ murmur3 [0x75, 0x73, 0x65, 0x72,
      0x2D, 0x31] 8 := by
  refine ⟨murmur3_separates.1 7 1 _ _ ⟨rfl, fun i hi => ?_⟩ (by decide),
    murmur3_separates.2 _ 7 8 (by decide)⟩
  rcases i with _ | _ | _ | _ | _ | _ | i
  · rfl
  · rfl
  · rfl
  · rfl
  · rfl
  · exact absurd rfl hi
  · rfl

end PushGateway.Hash
