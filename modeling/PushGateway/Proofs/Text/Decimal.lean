import Mathlib.Tactic.Common
import PushGateway.Text.Decimal

/-!
The digits of a number: ASCII digits, at least one, the first of them a zero for zero alone. Written
out, a number within the bounds of a reader is read back, and so is every other spelling, with a
sign of its own or more zeros than it needs.
-/

namespace PushGateway.Text.Decimal

theorem ofNat_ne_nil (n : Nat) : ofNat n ≠ [] := Nat.toDigits_ne_nil

theorem isDigit_of_mem {n : Nat} {c : Char} (hc : c ∈ ofNat n) : '0' ≤ c ∧ c ≤ '9' := by
  have hd : c.isDigit = true := Nat.isDigit_of_mem_toDigits (by decide) (by decide) hc
  rw [Char.isDigit, Bool.and_eq_true, decide_eq_true_eq, decide_eq_true_eq] at hd
  exact hd

theorem ofNat_step (n : Nat) : ofNat n =
    if n < 10 then [n.digitChar] else ofNat (n / 10) ++ [(n % 10).digitChar] :=
  Nat.toDigits_eq_if (by decide)

theorem head?_ofNat {n : Nat} (h : (ofNat n).head? = some '0') : n = 0 := by
  induction n using Nat.strongRecOn with
  | ind n ih =>
    rw [ofNat_step] at h
    split_ifs at h with hn
    · have hz : ∀ d < 10, d.digitChar = '0' → d = 0 := by decide
      exact hz n hn (by simpa using h)
    · -- The first digit is that of the number without its last one.
      obtain ⟨c, ds, hc⟩ := List.exists_cons_of_ne_nil (ofNat_ne_nil (n / 10))
      have hz := ih (n / 10) (by omega) (by rwa [hc] at h ⊢)
      omega

theorem length_ofNat_of_head? {n : Nat} (h : (ofNat n).head? = some '0') :
    (ofNat n).length = 1 := by
  rw [head?_ofNat h]
  rfl

theorem foldl_ofNat (n : Nat) :
    (ofNat n).foldl (fun m c => m * 10 + (c.toNat - '0'.toNat)) 0 = n := by
  have hf : (fun (m : Nat) (c : Char) => m * 10 + (c.toNat - '0'.toNat)) =
      fun m c => 10 * m + (c.toNat - '0'.toNat) := by
    funext m c
    rw [Nat.mul_comm]
  rw [hf, ← Nat.ofDigitChars_eq_foldl]
  exact Nat.ofDigitChars_ten_toDigits

theorem isDigit_of_digit? {c : Char} {d : Nat} (h : digit? c = some d) : '0' ≤ c ∧ c ≤ '9' := by
  rw [digit?] at h
  split_ifs at h with hc
  exact hc

theorem digits?_eq_foldl {s : List Char} (h : ∀ c ∈ s, '0' ≤ c ∧ c ≤ '9') (n : Nat) :
    digits? n s = some (s.foldl (fun m c => m * 10 + (c.toNat - '0'.toNat)) n) := by
  induction s generalizing n with
  | nil => rfl
  | cons c s ih =>
    have hd : digit? c = some (c.toNat - '0'.toNat) := if_pos (h c List.mem_cons_self)
    rw [digits?, hd, Option.bind_some, ih fun x hx => h x (List.mem_cons_of_mem c hx),
      List.foldl_cons]

theorem natural?_ofNat (n : Nat) : natural? (ofNat n) = some n := by
  have hd := digits?_eq_foldl (fun _ => isDigit_of_mem) 0 (s := ofNat n)
  rw [foldl_ofNat] at hd
  cases hs : ofNat n with
  | nil => exact absurd hs (ofNat_ne_nil n)
  | cons c s => rwa [hs] at hd

theorem ofNat_ne_cons {c : Char} (h : ¬ ('0' ≤ c ∧ c ≤ '9')) (n : Nat) (s : List Char) :
    ofNat n ≠ c :: s :=
  fun hs => h (isDigit_of_mem (hs ▸ List.mem_cons_self))

theorem nat?_ofNat {bound n : Nat} (h : n < bound) : nat? bound (ofNat n) = some n := by
  unfold nat?
  dsimp only
  split
  · next r hr => exact absurd hr (ofNat_ne_cons (by decide) n r)
  · rw [natural?_ofNat, Option.filter_some, if_pos (decide_eq_true h)]

theorem lt_of_nat? {bound n : Nat} {s : List Char} (h : nat? bound s = some n) : n < bound :=
  of_decide_eq_true (Option.filter_eq_some_iff.1 h).2

theorem int?_ofInt {low high n : Int} (h : low ≤ n ∧ n ≤ high) :
    int? low high (ofInt n) = some n := by
  suffices hv : int? low high (ofInt n) = (some n).filter fun n => low ≤ n ∧ n ≤ high by
    rw [hv, Option.filter_some, if_pos (decide_eq_true h)]
  unfold ofInt
  split_ifs with hn
  · have hv : -(n.natAbs : Int) = n := by omega
    rw [int?, natural?_ofNat]
    exact congrArg (Option.filter _ <| some ·) hv
  · unfold int?
    split
    · next r hr => exact absurd hr (ofNat_ne_cons (by decide) _ r)
    · next r hr => exact absurd hr (ofNat_ne_cons (by decide) _ r)
    · rw [natural?_ofNat, Option.map_some, Int.ofNat_eq_natCast, Int.natAbs_of_nonneg (by omega)]

theorem int32?_ofInt (n : Int32) : int32? (ofInt n.toInt) = some n := by
  have hn : -0x80000000 ≤ n.toInt ∧ n.toInt ≤ 0x7fffffff := ⟨n.minValue_le_toInt, n.toInt_le⟩
  rw [int32?, int?_ofInt hn, Option.map_some, Int32.ofInt_toInt]

theorem int64?_ofInt (n : Int64) : int64? (ofInt n.toInt) = some n := by
  have hn : -0x8000000000000000 ≤ n.toInt ∧ n.toInt ≤ 0x7fffffffffffffff :=
    ⟨n.minValue_le_toInt, n.toInt_le⟩
  rw [int64?, int?_ofInt hn, Option.map_some, Int64.ofInt_toInt]

theorem nat64?_ofNat (n : UInt64) : nat64? (ofNat n.toNat) = some n.toNat := nat?_ofNat n.toNat_lt

theorem ofInt_natCast (n : Nat) : ofInt n = ofNat n :=
  if_neg (by omega)

theorem ofInt_ne_nil (n : Int) : ofInt n ≠ [] := by
  unfold ofInt
  split_ifs
  · exact List.cons_ne_nil _ _
  · exact ofNat_ne_nil _

theorem toNat_of_mem_ofInt {n : Int} {c : Char} (hc : c ∈ ofInt n) : 0x2D ≤ c.toNat ∧
    c.toNat ≤ 0x39 := by
  have hdigit {m : Nat} (hm : c ∈ ofNat m) : 0x2D ≤ c.toNat ∧ c.toNat ≤ 0x39 := by
    obtain ⟨h0, h9⟩ := isDigit_of_mem hm
    exact ⟨Nat.le_trans (by decide) (UInt32.le_iff_toNat_le.1 h0), UInt32.le_iff_toNat_le.1 h9⟩
  unfold ofInt at hc
  split_ifs at hc
  · obtain rfl | hc := List.mem_cons.1 hc
    · decide
    · exact hdigit hc
  · exact hdigit hc

def Digits (s : List Char) : Prop := s ≠ [] ∧ ∀ c ∈ s, '0' ≤ c ∧ c ≤ '9'

inductive SignedDecimal : List Char → Int → Prop
  | bare {s : List Char} : Digits s → SignedDecimal s (Nat.ofDigitChars 10 s 0)
  | plus {s : List Char} : Digits s → SignedDecimal ('+' :: s) (Nat.ofDigitChars 10 s 0)
  | minus {s : List Char} : Digits s → SignedDecimal ('-' :: s) (-(Nat.ofDigitChars 10 s 0 : Int))

theorem isDigit_of_digits? {n m : Nat} {s : List Char} (h : digits? n s = some m) :
    ∀ c ∈ s, '0' ≤ c ∧ c ≤ '9' := by
  induction s generalizing n with
  | nil => exact nofun
  | cons c s ih =>
    rw [digits?, Option.bind_eq_some_iff] at h
    obtain ⟨d, hd, h⟩ := h
    exact List.forall_mem_cons.2 ⟨isDigit_of_digit? hd, ih h⟩

theorem natural?_eq_some_iff {s : List Char} {n : Nat} :
    natural? s = some n ↔ Digits s ∧ Nat.ofDigitChars 10 s 0 = n := by
  have hvalue (hs : ∀ c ∈ s, '0' ≤ c ∧ c ≤ '9') : digits? 0 s = some (Nat.ofDigitChars 10 s 0) := by
    rw [digits?_eq_foldl hs, Nat.ofDigitChars_eq_foldl]
    simp only [Nat.mul_comm]
  cases s with
  | nil => exact ⟨nofun, fun h => absurd rfl h.1.1⟩
  | cons c s =>
    rw [natural?]
    · refine ⟨fun h => ?_, fun ⟨hd, hn⟩ => (hvalue hd.2).trans (congrArg some hn)⟩
      have hs := isDigit_of_digits? h
      exact ⟨⟨List.cons_ne_nil c s, hs⟩, Option.some.inj ((hvalue hs).symm.trans h)⟩
    · exact nofun

theorem not_digits_cons {c : Char} {s : List Char} (h : ¬ ('0' ≤ c ∧ c ≤ '9')) :
    ¬ Digits (c :: s) :=
  fun hd => h (hd.2 c List.mem_cons_self)

theorem map_natural?_eq_some_iff {s : List Char} {f : Nat → Int} {n : Int} :
    (natural? s).map f = some n ↔ Digits s ∧ f (Nat.ofDigitChars 10 s 0) = n := by
  simp only [Option.map_eq_some_iff, natural?_eq_some_iff]
  constructor
  · rintro ⟨m, ⟨hd, rfl⟩, hn⟩
    exact ⟨hd, hn⟩
  · rintro ⟨hd, hn⟩
    exact ⟨_, ⟨hd, rfl⟩, hn⟩

theorem int?_eq_some_iff {low high n : Int} {s : List Char} :
    int? low high s = some n ↔ SignedDecimal s n ∧ low ≤ n ∧ n ≤ high := by
  unfold int?
  dsimp only
  rw [Option.filter_eq_some_iff, decide_eq_true_eq]
  refine and_congr_left fun _ => ?_
  split
  · next r =>
    rw [map_natural?_eq_some_iff]
    constructor
    · rintro ⟨hd, rfl⟩
      exact .plus hd
    · rintro (hd | hd | _)
      · exact absurd hd (not_digits_cons (by decide))
      · exact ⟨hd, rfl⟩
  · next r =>
    have hneg : (do let m ← natural? r; pure (m : Int)).map (fun m => -m) =
        Option.map (fun m : Nat => -(m : Int)) (natural? r) := by
      cases natural? r <;> rfl
    rw [hneg, map_natural?_eq_some_iff]
    constructor
    · rintro ⟨hd, rfl⟩
      exact .minus hd
    · rintro (hd | _ | hd)
      · exact absurd hd (not_digits_cons (by decide))
      · exact ⟨hd, rfl⟩
  · next hplus hminus =>
    rw [map_natural?_eq_some_iff]
    constructor
    · rintro ⟨hd, rfl⟩
      exact .bare hd
    · rintro (hd | hd | hd)
      · exact ⟨hd, rfl⟩
      · exact absurd rfl (hplus _)
      · exact absurd rfl (hminus _)

/-- The numbers of 32 bits are read in every spelling, and nothing else is. -/
theorem int32?_eq_some_iff {s : List Char} {n : Int32} : int32? s = some n ↔
    SignedDecimal s n.toInt := by
  rw [int32?, Option.map_eq_some_iff]
  constructor
  · rintro ⟨m, hm, rfl⟩
    obtain ⟨hs, hlow, hhigh⟩ := int?_eq_some_iff.1 hm
    rwa [Int32.toInt_ofInt_of_le hlow (by omega)]
  · intro h
    exact ⟨n.toInt, int?_eq_some_iff.2 ⟨h, n.minValue_le_toInt, n.toInt_le⟩, Int32.ofInt_toInt n⟩

theorem Digits.graphic {s : List Char} (h : Digits s) : ∀ c ∈ s, 0x30 ≤ c.toNat ∧ c.toNat ≤ 0x39 :=
  fun c hc =>
  (h.2 c hc).imp UInt32.le_iff_toNat_le.1 UInt32.le_iff_toNat_le.1

theorem SignedDecimal.sign_or_digit {s : List Char} {n : Int} (h : SignedDecimal s n) :
    ∀ c ∈ s, c = '+' ∨ c = '-' ∨ 0x30 ≤ c.toNat ∧ c.toNat ≤ 0x39 := by
  have hdigits {r : List Char} (hd : Digits r) (c : Char) (hc : c ∈ r) :
      c = '+' ∨ c = '-' ∨ 0x30 ≤ c.toNat ∧ c.toNat ≤ 0x39 := .inr (.inr (hd.graphic c hc))
  cases h with
  | bare hd => exact hdigits hd
  | plus hd => exact List.forall_mem_cons.2 ⟨.inl rfl, hdigits hd⟩
  | minus hd => exact List.forall_mem_cons.2 ⟨.inr (.inl rfl), hdigits hd⟩

theorem SignedDecimal.ne_nil {s : List Char} {n : Int} (h : SignedDecimal s n) : s ≠ [] := by
  cases h with
  | bare hd => exact hd.1
  | plus hd => exact List.cons_ne_nil _ _
  | minus hd => exact List.cons_ne_nil _ _

end PushGateway.Text.Decimal
