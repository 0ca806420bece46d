import PushGateway.Proofs.Words
import PushGateway.Frame.Wire

/-!
What the stream reader answers, by the header at the front of the buffer and the bytes behind it.
An answer other than "not yet" stays the same whatever arrives behind, and a frame that comes out
takes at least its header with it, so reading frame by frame follows the buffer.
-/

namespace PushGateway.Frame

theorem header?_append {buf r : Bytes} {h : Header} (hh : header? buf = some (h, r)) (x : Bytes) :
    header? (buf ++ x) = some (h, r ++ x) := by
  revert hh
  fun_cases header? buf with
  | case1 => rintro ⟨⟩; rfl
  | case2 => simp

theorem header?_length {buf r : Bytes} {h : Header} (hh : header? buf = some (h, r)) :
    buf.length = headerSize + r.length := by
  revert hh
  fun_cases header? buf with
  | case1 => rintro ⟨⟩; simp only [List.length_cons, headerSize]; omega
  | case2 => simp

theorem header?_putHeader (f : Frame) (n : Nat) (x : Bytes) : header? (putHeader f n ++ x) =
    some (⟨Int32.ofNat (headerSize + n), Int16.ofNat headerSize, f.ver, f.op, f.seq⟩, x) := by
  simp only [putHeader, Bytes.ofInt32, Bytes.ofInt16, List.cons_append, List.nil_append, header?,
    Bytes.int32_ofInt32, Bytes.int16_ofInt16]

theorem bodySize_ok {h : Header} {maxBody n : Nat} (hp : h.packLen.toInt = headerSize + n)
    (hl : h.headerLen.toInt = headerSize) (hn : n ≤ maxBody) : h.bodySize maxBody = .ok n := by
  have hr : ¬(h.packLen.toInt < headerSize ∨ h.packLen.toInt > maxBody + headerSize) := by omega
  have hs : h.packLen.toInt.toNat - headerSize = n := by omega
  simp only [Header.bodySize, if_neg hr, hl, ne_eq, not_true_eq_false, if_false, hs]

theorem bodySize_error {h : Header} {maxBody : Nat} {e : GatewayError}
    (he : h.bodySize maxBody = .error e) :
    (∃ n, e = .packLength n) ∨ ∃ n, e = .headerLength n := by
  simp only [Header.bodySize] at he
  split_ifs at he with hp hl
  · cases he; exact .inl ⟨_, rfl⟩
  · cases he; exact .inr ⟨_, rfl⟩

section
variable {maxBody n : Nat} {buf r : Bytes} {h : Header}

theorem decode_short (hh : header? buf = none) : decode maxBody buf = .ok none := by
  simp only [decode, hh]

theorem decode_refused {e : GatewayError} (hh : header? buf = some (h, r))
    (hb : h.bodySize maxBody = .error e) : decode maxBody buf = .error e := by
  simp only [decode, hh, hb]
  rfl

theorem decode_partial (hh : header? buf = some (h, r)) (hb : h.bodySize maxBody = .ok n)
    (hn : r.length < n) : decode maxBody buf = .ok none := by
  have hl : (r.take n).length < n := by rw [List.length_take]; omega
  simp only [decode, hh, hb]
  exact if_pos hl

theorem decode_whole (hh : header? buf = some (h, r)) (hb : h.bodySize maxBody = .ok n)
    (hn : n ≤ r.length) : decode maxBody buf = .ok (some (h.frame (r.take n), r.drop n)) := by
  have hl : ¬(r.take n).length < n := by rw [List.length_take]; omega
  simp only [decode, hh, hb]
  exact if_neg hl

end

theorem decode_cases (maxBody : Nat) (buf : Bytes) :
    decode maxBody buf = .ok none ∨
    (∃ h r e, header? buf = some (h, r) ∧ h.bodySize maxBody = .error e) ∨
    ∃ h r n, header? buf = some (h, r) ∧ h.bodySize maxBody = .ok n ∧ n ≤ r.length := by
  cases hh : header? buf with
  | none => exact .inl (decode_short hh)
  | some p =>
    obtain ⟨h, r⟩ := p
    cases hb : h.bodySize maxBody with
    | error e => exact .inr (.inl ⟨h, r, e, rfl, hb⟩)
    | ok n =>
      by_cases hn : n ≤ r.length
      · exact .inr (.inr ⟨h, r, n, rfl, hb, hn⟩)
      · exact .inl (decode_partial hh hb (by omega))

theorem decode_append {maxBody : Nat} {buf : Bytes} (hd : decode maxBody buf ≠ .ok none)
    (x : Bytes) :
    decode maxBody (buf ++ x) = (decode maxBody buf).map (·.map fun p => (p.1, p.2 ++ x)) := by
  rcases decode_cases maxBody buf with hs | ⟨h, r, e, hh, hb⟩ | ⟨h, r, n, hh, hb, hn⟩
  · exact absurd hs hd
  · rw [decode_refused hh hb, decode_refused (header?_append hh x) hb]
    rfl
  · have hn' : n ≤ (r ++ x).length := by rw [List.length_append]; omega
    rw [decode_whole hh hb hn, decode_whole (header?_append hh x) hb hn',
      List.take_append_of_le_length hn, List.drop_append_of_le_length hn]
    rfl

theorem decode_length {maxBody : Nat} {buf r : Bytes} {f : Frame}
    (hd : decode maxBody buf = .ok (some (f, r))) : headerSize + r.length ≤ buf.length := by
  rcases decode_cases maxBody buf with hs | ⟨h, t, e, hh, hb⟩ | ⟨h, t, n, hh, hb, hn⟩
  · simp [hs] at hd
  · simp [decode_refused hh hb] at hd
  · rw [decode_whole hh hb hn] at hd
    cases hd
    rw [header?_length hh, List.length_drop]
    omega

theorem decode_error {maxBody : Nat} {buf : Bytes} {e : GatewayError}
    (hd : decode maxBody buf = .error e) : (∃ n, e = .packLength n) ∨ ∃ n, e = .headerLength n := by
  rcases decode_cases maxBody buf with hs | ⟨h, t, e', hh, hb⟩ | ⟨h, t, n, hh, hb, hn⟩
  · simp [hs] at hd
  · rw [decode_refused hh hb] at hd
    cases hd
    exact bodySize_error hb
  · simp [decode_whole hh hb hn] at hd

/-- Reading frame by frame ends: an induction along the frames at the front of a buffer. -/
@[elab_as_elim]
theorem decode_induction (maxBody : Nat) {motive : Bytes → Prop}
    (waiting : ∀ buf, decode maxBody buf = .ok none → motive buf)
    (refused : ∀ buf e, decode maxBody buf = .error e → motive buf)
    (whole : ∀ buf f r, decode maxBody buf = .ok (some (f, r)) → motive r → motive buf)
    (buf : Bytes) : motive buf := by
  induction hn : buf.length using Nat.strongRecOn generalizing buf with
  | ind n ih =>
    cases hd : decode maxBody buf with
    | error e => exact refused buf e hd
    | ok o =>
      cases o with
      | none => exact waiting buf hd
      | some p =>
        have hl := decode_length hd
        simp only [headerSize] at hl
        exact whole buf p.1 p.2 hd (ih p.2.length (by omega) p.2 rfl)

theorem decodeAll_go (maxBody : Nat) (fuel : Nat) {buf : Bytes} (hf : buf.length ≤ fuel) :
    decodeAll.go maxBody fuel buf = decodeAll maxBody buf := by
  suffices ∀ a b, ∀ buf : Bytes, buf.length ≤ a → buf.length ≤ b →
      decodeAll.go maxBody a buf = decodeAll.go maxBody b buf from
    this _ _ _ hf (Nat.le_refl _)
  clear hf buf fuel
  intro a
  induction a with
  | zero =>
    intro b buf ha _
    obtain rfl : buf = [] := List.length_eq_zero_iff.1 (by omega)
    cases b <;> rfl
  | succ a ih =>
    intro b buf ha hb
    cases b with
    | zero =>
      obtain rfl : buf = [] := List.length_eq_zero_iff.1 (by omega)
      rfl
    | succ b =>
      simp only [decodeAll.go]
      cases hd : decode maxBody buf with
      | error e => rfl
      | ok o =>
        cases o with
        | none => rfl
        | some p =>
          have hl := decode_length hd
          simp only [headerSize] at hl
          simp only [ih b p.2 (by omega) (by omega)]

theorem decodeAll_none {maxBody : Nat} {buf : Bytes} (hd : decode maxBody buf = .ok none) :
    decodeAll maxBody buf = ([], buf, none) := by
  rw [← decodeAll_go maxBody (buf.length + 1) (by omega)]
  simp only [decodeAll.go, hd]

theorem decodeAll_error {maxBody : Nat} {buf : Bytes} {e : GatewayError}
    (hd : decode maxBody buf = .error e) : decodeAll maxBody buf = ([], buf, some e) := by
  rw [← decodeAll_go maxBody (buf.length + 1) (by omega)]
  simp only [decodeAll.go, hd]

theorem decodeAll_some {maxBody : Nat} {buf r : Bytes} {f : Frame}
    (hd : decode maxBody buf = .ok (some (f, r))) :
    decodeAll maxBody buf = (f :: (decodeAll maxBody r).1, (decodeAll maxBody r).2) := by
  have hl := decode_length hd
  rw [← decodeAll_go maxBody (buf.length + 1) (by omega)]
  simp only [decodeAll.go, hd]
  rw [decodeAll_go maxBody buf.length (by omega)]

end PushGateway.Frame
