import PushGateway.Proofs.Frame.Decode
import PushGateway.Transport.Stream

/-!
Where a byte stream is cut makes no difference: the frames that come out of the chunks, and then the
error or the bytes left over, are those of the whole stream read at once. What carries the induction
over the chunks is that the buffer between two of them holds no whole frame and no wrong header.
-/

namespace PushGateway

namespace Frame

theorem decodeAll_rest {maxBody : Nat} (buf : Bytes) {fs : List Frame} {rest : Bytes}
    (hd : decodeAll maxBody buf = (fs, rest, none)) : decode maxBody rest = .ok none := by
  induction buf using decode_induction maxBody generalizing fs with
  | waiting buf hw =>
    rw [decodeAll_none hw] at hd
    cases hd
    exact hw
  | refused buf e hr => simp [decodeAll_error hr] at hd
  | whole buf f r hs ih =>
    rw [decodeAll_some hs, Prod.mk.injEq] at hd
    exact ih (Prod.ext rfl hd.2)

theorem decodeAll_fault {maxBody : Nat} (buf : Bytes) {fs : List Frame} {rest : Bytes}
    {e : GatewayError} (hd : decodeAll maxBody buf = (fs, rest, some e)) :
    (∃ n, e = .packLength n) ∨ ∃ n, e = .headerLength n := by
  induction buf using decode_induction maxBody generalizing fs with
  | waiting buf hw => simp [decodeAll_none hw] at hd
  | refused buf e' hr =>
    rw [decodeAll_error hr] at hd
    cases hd
    exact decode_error hr
  | whole buf f r hs ih =>
    rw [decodeAll_some hs, Prod.mk.injEq] at hd
    exact ih (Prod.ext rfl hd.2)

theorem decodeAll_append (maxBody : Nat) (buf x : Bytes) : decodeAll maxBody (buf ++ x) =
    match decodeAll maxBody buf with
    | (fs, rest, some e) => (fs, rest ++ x, some e)
    | (fs, rest, none) =>
      (fs ++ (decodeAll maxBody (rest ++ x)).1, (decodeAll maxBody (rest ++ x)).2) := by
  induction buf using decode_induction maxBody with
  | waiting buf hw =>
    rw [decodeAll_none hw]
    rfl
  | refused buf e hr =>
    have hx := decode_append (by rw [hr]; simp) x
    rw [hr] at hx
    rw [decodeAll_error hr, decodeAll_error hx]
  | whole buf f r hs ih =>
    have hx := decode_append (by rw [hs]; simp) x
    rw [hs] at hx
    rw [decodeAll_some hs, decodeAll_some hx, ih]
    rcases decodeAll maxBody r with ⟨fs, rest, e | e⟩ <;> rfl

end Frame

namespace ByteStream

def outcome (s : ByteStream) : Except GatewayError Bytes :=
  match s.fault with
  | some e => .error e
  | none => .ok s.buffer

def readChunks (maxBody : Nat) (chunks : List Bytes) : List Frame × Except GatewayError Bytes :=
  let (fs, s) := ({ maxBody } : ByteStream).feedAll chunks
  (fs, s.outcome)

def readWhole (maxBody : Nat) (bytes : Bytes) : List Frame × Except GatewayError Bytes :=
  match Frame.decodeAll maxBody bytes with
  | (fs, _, some e) => (fs, .error e)
  | (fs, rest, none) => (fs, .ok rest)

theorem feedAll_of_fault {s : ByteStream} (h : s.fault.isSome) (chunks : List Bytes) :
    s.feedAll chunks = ([], s) := by
  induction chunks with
  | nil => rfl
  | cons c cs ih => simp only [feedAll, feed_of_fault h, ih, List.append_nil]

theorem feed_open {s : ByteStream} (h : s.fault = none) (chunk : Bytes) : s.feed chunk =
    ((Frame.decodeAll s.maxBody (s.buffer ++ chunk)).1,
      ⟨s.maxBody, (Frame.decodeAll s.maxBody (s.buffer ++ chunk)).2.1,
        (Frame.decodeAll s.maxBody (s.buffer ++ chunk)).2.2⟩) := by
  simp only [feed, h]

theorem feedAll_eq (s : ByteStream) (hf : s.fault = none)
    (hb : Frame.decode s.maxBody s.buffer = .ok none) (chunks : List Bytes) :
    ((s.feedAll chunks).1, (s.feedAll chunks).2.outcome) =
      readWhole s.maxBody (s.buffer ++ chunks.flatten) := by
  induction chunks generalizing s with
  | nil =>
    simp only [feedAll, List.flatten_nil, List.append_nil, readWhole, outcome, hf,
      Frame.decodeAll_none hb]
  | cons c cs ih =>
    have happ := Frame.decodeAll_append s.maxBody (s.buffer ++ c) cs.flatten
    rw [List.append_assoc] at happ
    rw [readWhole, List.flatten_cons, happ]
    simp only [feedAll, feed_open hf]
    rcases hd : Frame.decodeAll s.maxBody (s.buffer ++ c) with ⟨fs, rest, e⟩
    cases e with
    | some e =>
      -- The stream is not read on, so what the later chunks hold cannot matter.
      rw [feedAll_of_fault rfl]
      simp only [List.append_nil, outcome]
    | none =>
      have hr := ih ⟨s.maxBody, rest, none⟩ rfl (Frame.decodeAll_rest _ hd)
      rcases ht : Frame.decodeAll s.maxBody (rest ++ cs.flatten) with ⟨gs, rest', e | e⟩ <;>
        simp only [readWhole, ht, Prod.mk.injEq] at hr <;>
        simp only [ht, hr.1, hr.2]

theorem readChunks_eq (maxBody : Nat) (chunks : List Bytes) :
    readChunks maxBody chunks = readWhole maxBody chunks.flatten :=
  feedAll_eq { maxBody } rfl rfl chunks

theorem readWhole_error {maxBody : Nat} {bytes : Bytes} {fs : List Frame} {e : GatewayError}
    (h : readWhole maxBody bytes = (fs, .error e)) :
    (∃ n, e = .packLength n) ∨ ∃ n, e = .headerLength n := by
  rcases hd : Frame.decodeAll maxBody bytes with ⟨gs, rest, e' | e'⟩
  · simp [readWhole, hd] at h
  · simp only [readWhole, hd, Prod.mk.injEq, Except.error.injEq] at h
    exact Frame.decodeAll_fault bytes (h.2 ▸ hd)

/-- Two ways to cut one stream, well formed or not, give the same frames and the same end; and where
that end is an error, it is one of the header. -/
theorem readChunks_congr (maxBody : Nat) {cs ds : List Bytes} (h : cs.flatten = ds.flatten) :
    readChunks maxBody cs = readChunks maxBody ds ∧
      ∀ fs e, readChunks maxBody cs = (fs, .error e) →
        (∃ n, e = .packLength n) ∨ ∃ n, e = .headerLength n := by
  rw [readChunks_eq, readChunks_eq, h]
  exact ⟨rfl, fun fs e => readWhole_error⟩

/-- A frame and a header with a wrong length, cut inside both headers and inside the body, and
whole. -/
theorem readChunks_congr_cut :
    [[0, 0, 0], [], [18, 0, 16, 0, 1, 0, 0, 0, 2, 0, 0, 0, 3, 5], [6, 0, 0, 0, 16, 0],
      [12, 0, 1, 0, 0, 0, 2, 0, 0, 0, 3, 7]].flatten =
      [[0, 0, 0, 18, 0, 16, 0, 1, 0, 0, 0, 2, 0, 0, 0, 3, 5, 6,
        0, 0, 0, 16, 0, 12, 0, 1, 0, 0, 0, 2, 0, 0, 0, 3, (7 : UInt8)]].flatten ∧
    readChunks 8 [[0, 0, 0], [], [18, 0, 16, 0, 1, 0, 0, 0, 2, 0, 0, 0, 3, 5], [6, 0, 0, 0, 16, 0],
      [12, 0, 1, 0, 0, 0, 2, 0, 0, 0, 3, 7]] =
      ([⟨1, 2, 3, [5, 6]⟩], .error (.headerLength 12)) := by
  have h : [[0, 0, 0], [], [18, 0, 16, 0, 1, 0, 0, 0, 2, 0, 0, 0, 3, 5], [6, 0, 0, 0, 16, 0],
      [12, 0, 1, 0, 0, 0, 2, 0, 0, 0, 3, 7]].flatten =
      [[0, 0, 0, 18, 0, 16, 0, 1, 0, 0, 0, 2, 0, 0, 0, 3, 5, 6,
        0, 0, 0, 16, 0, 12, 0, 1, 0, 0, 0, 2, 0, 0, 0, 3, (7 : UInt8)]].flatten := by decide
  exact ⟨h, (readChunks_congr 8 h).1.trans rfl⟩

end ByteStream

end PushGateway
