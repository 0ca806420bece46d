import Mathlib.Tactic.Common
import PushGateway.Text.Utf8

/-!
Texts read back from their UTF-8. The first byte of a character tells how many others follow and
bounds the first of these; the others carry six bits each. The bounds leave each character its
shortest form alone, so nothing but the UTF-8 of a text is read as that text.
-/

namespace PushGateway.Text.Utf8

def follower (x : Nat) : UInt8 := .ofNat (x % 64 + 0x80)

theorem toNat_ofNat {x : Nat} (h : x < 256) : (UInt8.ofNat x).toNat = x :=
  UInt8.toNat_ofNat_of_lt h

theorem follower_toNat (x : Nat) : (follower x).toNat = x % 64 + 0x80 := toNat_ofNat (by omega)

theorem within_iff (low b high : UInt8) :
    (decide (low ≤ b) && decide (b ≤ high)) = true ↔ low.toNat ≤ b.toNat ∧
      b.toNat ≤ high.toNat := by
  rw [Bool.and_eq_true, decide_eq_true_eq, decide_eq_true_eq, UInt8.le_iff_toNat_le,
    UInt8.le_iff_toNat_le]

theorem isTail_follower (x : Nat) : isTail (follower x) = true := by
  rw [isTail, within_iff, follower_toNat]
  exact ⟨Nat.le_add_left _ _,
    Nat.add_le_add_right (Nat.le_of_lt_succ (Nat.mod_lt x (by decide))) 0x80⟩

theorem tails_follower (n v x : Nat) (r : Bytes) :
    tails (n + 1) v (follower x :: r) = tails n (v * 64 + x % 64) r := by
  have hx : (x % 64 + 0x80) % 64 = x % 64 := by omega
  rw [tails, if_pos (isTail_follower x), follower_toNat, hx]

theorem lead_two : ∀ k < 32, 2 ≤ k → lead (.ofNat (k + 0xC0)) = some (1, 0x80, 0xBF) := by decide

theorem lead_three : ∀ k < 16, lead (.ofNat (k + 0xE0)) =
    some (2, if k = 0 then 0xA0 else 0x80, if k = 13 then 0x9F else 0xBF) := by decide

theorem lead_four : ∀ k < 5, lead (.ofNat (k + 0xF0)) =
    some (3, if k = 0 then 0x90 else 0x80, if k = 4 then 0x8F else 0xBF) := by decide

theorem next_ascii {v : Nat} (hv : v < 0x80) (r : Bytes) :
    next (.ofNat v) r = (some (Char.ofNat v), r) := by
  have hn : (UInt8.ofNat v).toNat = v := toNat_ofNat (by omega)
  have hlt : UInt8.ofNat v < 0x80 := by
    rw [UInt8.lt_iff_toNat_lt, hn]
    exact hv
  unfold next
  rw [if_pos hlt, hn]

theorem next_lead {k base n x : Nat} {low high : UInt8} (hk : 0x80 ≤ k + base ∧ k + base < 256)
    (hl : lead (.ofNat (k + base)) = some (n + 1, low, high))
    (hbits : (k + base) % (1 <<< (6 - (n + 1))) = k)
    (hx : low.toNat ≤ x % 64 + 0x80 ∧ x % 64 + 0x80 ≤ high.toNat) (r : Bytes) :
    next (.ofNat (k + base)) (follower x :: r) = tails n (k * 64 + x % 64) r := by
  have hn : (UInt8.ofNat (k + base)).toNat = k + base := toNat_ofNat hk.2
  have hge : ¬ UInt8.ofNat (k + base) < 0x80 := by
    rw [UInt8.lt_iff_toNat_lt, hn]
    exact Nat.not_lt.2 hk.1
  have hxx : (x % 64 + 0x80) % 64 = x % 64 := by omega
  have hw := (within_iff low (follower x) high).2 (follower_toNat x ▸ hx)
  unfold next
  rw [if_neg hge, hl]
  dsimp only
  rw [if_pos hw, Nat.add_sub_cancel, leadBits, hn, hbits, follower_toNat, hxx]

theorem next_encoded (c : Char) (r : Bytes) :
    ∃ a t, String.utf8EncodeChar c ++ r = a :: t ∧ next a t = (some c, r) := by
  have hc : Char.ofNat c.val.toNat = c := Char.ofNat_toNat c
  have hvalid : c.val.toNat < 0xD800 ∨ 0xDFFF < c.val.toNat ∧ c.val.toNat < 0x110000 := c.valid
  simp only [String.utf8EncodeChar]
  generalize c.val.toNat = v at hc hvalid
  split_ifs with h1 h2 h3
  · refine ⟨_, _, rfl, ?_⟩
    rw [next_ascii (by omega), hc]
    rfl
  · have hv : v / 64 % 0x20 * 64 + v % 64 = v := by omega
    refine ⟨_, _, rfl, (next_lead (x := v) (by omega) (lead_two _ (by omega) (by omega)) ?_ ?_
      r).trans ?_⟩
    · change _ % 32 = _
      omega
    · change 0x80 ≤ _ ∧ _ ≤ 0xBF
      omega
    · rw [tails, hv, hc]
  · -- Overlong forms and surrogates are what the bounds after the first byte keep out.
    have hv : (v / 4096 % 0x10 * 64 + v / 64 % 64) * 64 + v % 64 = v := by omega
    refine ⟨_, _, rfl,
      (next_lead (x := v / 64) (by omega) (lead_three _ (by omega)) ?_ ?_ (follower v :: r)).trans
      ?_⟩
    · change _ % 16 = _
      omega
    · split_ifs
      · change 0xA0 ≤ _ ∧ _ ≤ 0x9F
        omega
      · change 0xA0 ≤ _ ∧ _ ≤ 0xBF
        omega
      · change 0x80 ≤ _ ∧ _ ≤ 0x9F
        omega
      · change 0x80 ≤ _ ∧ _ ≤ 0xBF
        omega
    · rw [tails_follower, tails, hv, hc]
  · have hv : ((v / 262144 % 0x08 * 64 + v / 4096 % 64) * 64 + v / 64 % 64) * 64 + v % 64 =
      v := by omega
    refine ⟨_, _, rfl, (next_lead (x := v / 4096) (by omega) (lead_four _ (by omega)) ?_ ?_
      (follower (v / 64) :: follower v :: r)).trans ?_⟩
    · change _ % 8 = _
      omega
    · split_ifs
      · change 0x90 ≤ _ ∧ _ ≤ 0x8F
        omega
      · change 0x90 ≤ _ ∧ _ ≤ 0xBF
        omega
      · change 0x80 ≤ _ ∧ _ ≤ 0x8F
        omega
      · change 0x80 ≤ _ ∧ _ ≤ 0xBF
        omega
    · rw [tails_follower, tails_follower, tails, hv, hc]

theorem pieces_encode (s : List Char) (r : Bytes) :
    pieces (encode s ++ r) = s.map some ++ pieces r := by
  induction s with
  | nil => rfl
  | cons c s ih =>
    obtain ⟨a, t, hat, hn⟩ := next_encoded c (encode s ++ r)
    have he : encode (c :: s) ++ r = a :: t := by
      rw [encode, List.flatMap_cons, List.append_assoc, ← hat]
      rfl
    rw [he, pieces, hn, ih]
    rfl

theorem decode?_encode (s : List Char) : decode? (encode s) = some s := by
  have hp := pieces_encode s []
  rw [List.append_nil, pieces, List.append_nil] at hp
  rw [decode?, hp, List.mapM_map]
  exact List.mapM_pure.trans (congrArg some (List.map_id s))

theorem toNat_val_ofNat {v : Nat} (h : v.isValidChar) : (Char.ofNat v).val.toNat = v := by
  rw [Char.ofNat, dif_pos h]
  exact UInt32.toNat_ofNatLT

theorem ofNat_eq {b : UInt8} {x : Nat} (h : x = b.toNat) : UInt8.ofNat x = b := by
  rw [h, UInt8.ofNat_toNat]

theorem follower_eq {b : UInt8} {x : Nat} (hb : 0x80 ≤ b.toNat ∧ b.toNat ≤ 0xBF)
    (hx : x % 64 = b.toNat % 64) : follower x = b :=
  ofNat_eq (by omega)

theorem lead_eq_some {a : UInt8} {n : Nat} {low high : UInt8} (h : lead a = some (n, low, high)) :
    (n = 1 ∧ (0xC2 ≤ a.toNat ∧ a.toNat ≤ 0xDF) ∧ 0x80 ≤ low.toNat ∧ high.toNat ≤ 0xBF) ∨
    (n = 2 ∧ (0xE0 ≤ a.toNat ∧ a.toNat ≤ 0xEF) ∧ 0x80 ≤ low.toNat ∧ high.toNat ≤ 0xBF ∧
      (a.toNat = 0xE0 → 0xA0 ≤ low.toNat) ∧ (a.toNat = 0xED → high.toNat ≤ 0x9F)) ∨
    (n = 3 ∧ (0xF0 ≤ a.toNat ∧ a.toNat ≤ 0xF4) ∧ 0x80 ≤ low.toNat ∧ high.toNat ≤ 0xBF ∧
      (a.toNat = 0xF0 → 0x90 ≤ low.toNat) ∧ (a.toNat = 0xF4 → high.toNat ≤ 0x8F)) := by
  unfold lead at h
  simp only [within_iff, beq_iff_eq, ← UInt8.toNat_inj] at h
  split_ifs at h <;> cases h <;> simp_all <;> omega

theorem tails_succ_eq_some {n v : Nat} {r t : Bytes} {c : Char}
    (h : tails (n + 1) v r = (some c, t)) :
    ∃ b s, r = b :: s ∧ (0x80 ≤ b.toNat ∧ b.toNat ≤ 0xBF) ∧
      tails n (v * 64 + b.toNat % 64) s = (some c, t) := by
  cases r with
  | nil => simp [tails] at h
  | cons b s =>
    rw [tails] at h
    split_ifs at h with hb
    · rw [isTail, within_iff] at hb
      exact ⟨b, s, rfl, hb, h⟩
    · simp at h

theorem tails_zero_eq_some {v : Nat} {r t : Bytes} {c : Char} (h : tails 0 v r = (some c, t)) :
    Char.ofNat v = c ∧ r = t :=
  (Prod.mk.inj h).imp_left Option.some.inj

section Forms

variable {a b₁ b₂ b₃ : UInt8}

theorem encodeChar_one (ha : a.toNat < 0x80) :
    String.utf8EncodeChar (Char.ofNat a.toNat) = [a] := by
  rw [String.utf8EncodeChar, toNat_val_ofNat (by left; omega)]
  exact (if_pos (Nat.le_of_lt_succ ha)).trans (congrArg ([·]) (UInt8.ofNat_toNat))

theorem encodeChar_two (ha : 0xC2 ≤ a.toNat ∧ a.toNat ≤ 0xDF)
    (h₁ : 0x80 ≤ b₁.toNat ∧ b₁.toNat ≤ 0xBF) :
    String.utf8EncodeChar (Char.ofNat (a.toNat % 32 * 64 + b₁.toNat % 64)) = [a, b₁] := by
  rw [String.utf8EncodeChar, toNat_val_ofNat (by left; omega), if_neg (by omega), if_pos (by omega)]
  exact congrArg₂ ([·, ·]) (ofNat_eq (by omega)) (follower_eq h₁ (by omega))

theorem encodeChar_three (ha : 0xE0 ≤ a.toNat ∧ a.toNat ≤ 0xEF)
    (h₁ : 0x80 ≤ b₁.toNat ∧ b₁.toNat ≤ 0xBF) (hlow : a.toNat = 0xE0 → 0xA0 ≤ b₁.toNat)
    (hhigh : a.toNat = 0xED → b₁.toNat ≤ 0x9F) (h₂ : 0x80 ≤ b₂.toNat ∧ b₂.toNat ≤ 0xBF) :
    String.utf8EncodeChar (Char.ofNat ((a.toNat % 16 * 64 + b₁.toNat % 64) * 64 + b₂.toNat % 64)) =
      [a, b₁, b₂] := by
  generalize hv : (a.toNat % 16 * 64 + b₁.toNat % 64) * 64 + b₂.toNat % 64 = v
  have hvalid : v.isValidChar := by
    change _ ∨ _
    omega
  rw [String.utf8EncodeChar, toNat_val_ofNat hvalid, if_neg (by omega), if_neg (by omega),
    if_pos (by omega)]
  exact congrArg₂ (· :: ·) (ofNat_eq (by omega))
    (congrArg₂ ([·, ·]) (follower_eq h₁ (by omega)) (follower_eq h₂ (by omega)))

theorem encodeChar_four (ha : 0xF0 ≤ a.toNat ∧ a.toNat ≤ 0xF4)
    (h₁ : 0x80 ≤ b₁.toNat ∧ b₁.toNat ≤ 0xBF) (hlow : a.toNat = 0xF0 → 0x90 ≤ b₁.toNat)
    (hhigh : a.toNat = 0xF4 → b₁.toNat ≤ 0x8F) (h₂ : 0x80 ≤ b₂.toNat ∧ b₂.toNat ≤ 0xBF)
    (h₃ : 0x80 ≤ b₃.toNat ∧ b₃.toNat ≤ 0xBF) :
    String.utf8EncodeChar (Char.ofNat
      (((a.toNat % 8 * 64 + b₁.toNat % 64) * 64 + b₂.toNat % 64) * 64 + b₃.toNat % 64)) =
      [a, b₁, b₂, b₃] := by
  generalize hv : ((a.toNat % 8 * 64 + b₁.toNat % 64) * 64 + b₂.toNat % 64) * 64 + b₃.toNat % 64 = v
  rw [String.utf8EncodeChar, toNat_val_ofNat (by right; omega), if_neg (by omega),
    if_neg (by omega),
    if_neg (by omega)]
  exact congrArg₂ (· :: ·) (ofNat_eq (by omega)) (congrArg₂ (· :: ·) (follower_eq h₁ (by omega))
    (congrArg₂ ([·, ·]) (follower_eq h₂ (by omega)) (follower_eq h₃ (by omega))))

end Forms

theorem encodeChar_of_next {a : UInt8} {r t : Bytes} {c : Char} (h : next a r = (some c, t)) :
    String.utf8EncodeChar c ++ t = a :: r := by
  unfold next at h
  split_ifs at h with ha
  · obtain ⟨rfl, rfl⟩ := (Prod.mk.inj h).imp_left Option.some.inj
    rw [encodeChar_one (UInt8.lt_iff_toNat_lt.1 ha)]
    rfl
  · split at h
    · next n low high b s hl =>
      split_ifs at h with hb
      · rw [within_iff] at hb
        obtain ⟨rfl, ha, hk⟩ | ⟨rfl, ha, hk⟩ | ⟨rfl, ha, hk⟩ := lead_eq_some hl
        · obtain ⟨rfl, rfl⟩ := tails_zero_eq_some h
          exact congrArg (· ++ s) (encodeChar_two ha (by omega))
        · obtain ⟨b₂, s, rfl, h₂, h⟩ := tails_succ_eq_some h
          obtain ⟨rfl, rfl⟩ := tails_zero_eq_some h
          exact congrArg (· ++ s) (encodeChar_three ha (by omega) (by omega) (by omega) h₂)
        · obtain ⟨b₂, s, rfl, h₂, h⟩ := tails_succ_eq_some h
          obtain ⟨b₃, s, rfl, h₃, h⟩ := tails_succ_eq_some h
          obtain ⟨rfl, rfl⟩ := tails_zero_eq_some h
          exact congrArg (· ++ s) (encodeChar_four ha (by omega) (by omega) (by omega) h₂ h₃)
      · simp at h
    · simp at h

theorem decode?_cons (a : UInt8) (r : Bytes) :
    decode? (a :: r) = (next a r).1.bind fun c => (decode? (next a r).2).map (c :: ·) := by
  rw [decode?, pieces, List.mapM_cons]
  cases (next a r).1 with
  | none => rfl
  | some c =>
    rw [Option.bind_some, decode?]
    cases (pieces (next a r).2).mapM id <;> rfl

theorem encode_of_decode? {b : Bytes} {s : List Char} (h : decode? b = some s) : encode s = b := by
  induction b using pieces.induct generalizing s with
  | case1 =>
    rw [decode?, pieces] at h
    cases h
    rfl
  | case2 a r ih =>
    rw [decode?_cons, Option.bind_eq_some_iff] at h
    obtain ⟨c, hc, h⟩ := h
    obtain ⟨s', hs, rfl⟩ := Option.map_eq_some_iff.1 h
    rw [encode, List.flatMap_cons]
    exact (congrArg _ (ih hs)).trans (encodeChar_of_next (Prod.ext hc rfl))

theorem decode?_eq_some_iff {b : Bytes} {s : List Char} : decode? b = some s ↔ b = encode s :=
  ⟨fun h => (encode_of_decode? h).symm, fun h => h ▸ decode?_encode s⟩

theorem decodeLossy_encode (s : List Char) : decodeLossy (encode s) = s := by
  have hp := pieces_encode s []
  rw [List.append_nil, pieces, List.append_nil] at hp
  rw [decodeLossy, hp, List.map_map]
  exact List.map_id s

theorem encode_decodeLossy {b : Bytes} (h : '\uFFFD' ∉ decodeLossy b) :
    encode (decodeLossy b) = b := by
  have hpieces : ∀ p ∈ pieces b, p ≠ none := by
    rintro p hp rfl
    exact h (List.mem_map.2 ⟨none, hp, rfl⟩)
  apply encode_of_decode?
  rw [decode?, decodeLossy]
  generalize pieces b = ps at hpieces
  induction ps with
  | nil => rfl
  | cons p ps ih =>
    obtain ⟨hp, hps⟩ := List.forall_mem_cons.1 hpieces
    obtain ⟨c, rfl⟩ := Option.ne_none_iff_exists'.1 hp
    rw [List.mapM_cons, ih hps]
    rfl

end PushGateway.Text.Utf8
