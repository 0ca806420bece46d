import PushGateway.Proofs.Frame.RoundTrip

/-!
Which buffers are read as frames. The two lengths at the front of a buffer, and how much there is of
it, sort all buffers into five kinds; for each of them it is known what the stream reader and the
reader of whole messages answer. Both take the same frames, and a frame that was read is written as
the bytes that it was read from.
-/

namespace PushGateway.Frame

def packLen (buf : Bytes) : Int32 := .ofNat (Bytes.value (buf.take 4))

def headerLen (buf : Bytes) : Int16 := .ofNat (Bytes.value ((buf.drop 4).take 2))

def InRange (maxBody : Nat) (buf : Bytes) : Prop :=
  headerSize ≤ (packLen buf).toInt ∧ (packLen buf).toInt ≤ maxBody + headerSize

def mismatch (data : Bytes) : String :=
  "packet length " ++ toString (packLen data) ++ " does not match message length " ++
    toString data.length

/-- What a call of the stream reader answers to a buffer, and what it leaves of it. -/
structure Answers (maxBody : Nat) (buf : Bytes) (answer : Except GatewayError (Option Frame))
    (left : Bytes) : Prop where
  waits_iff : answer = .ok none ↔ buf.length < headerSize ∨
    InRange maxBody buf ∧ (headerLen buf).toInt = headerSize ∧ buf.length < (packLen buf).toInt
  packLength_iff : answer = .error (.packLength (packLen buf)) ↔
    headerSize ≤ buf.length ∧ ¬ InRange maxBody buf
  headerLength_iff : answer = .error (.headerLength (headerLen buf)) ↔
    headerSize ≤ buf.length ∧ InRange maxBody buf ∧ (headerLen buf).toInt ≠ headerSize
  error : ∀ e, answer = .error e → e = .packLength (packLen buf) ∨ e = .headerLength (headerLen buf)
  gives_iff : (∃ f, answer = .ok (some f)) ↔ headerSize ≤ buf.length ∧ InRange maxBody buf ∧
    (headerLen buf).toInt = headerSize ∧ (packLen buf).toInt ≤ buf.length
  bodySize : ∀ f, answer = .ok (some f) →
    (f.body.length : Int) = (packLen buf).toInt - headerSize ∧ f.body.length ≤ maxBody
  encode : ∀ f, answer = .ok (some f) → f.op ≠ Op.raw →
    f.encode = buf.take (packLen buf).toInt.toNat
  removed : ∀ f, answer = .ok (some f) → left = buf.drop (packLen buf).toInt.toNat
  untouched : (∀ f, answer ≠ .ok (some f)) → left = buf

theorem header?_eq_none_iff {buf : Bytes} : header? buf = none ↔ buf.length < headerSize := by
  constructor
  · intro hh
    by_contra hlen
    rw [headerSize, Nat.not_lt] at hlen
    iterate 16
      obtain ⟨b, buf, rfl⟩ := List.exists_cons_of_length_pos (Nat.lt_of_lt_of_le (by decide) hlen)
      replace hlen := Nat.le_of_succ_le_succ hlen
    cases hh
  · intro hlen
    cases hh : header? buf with
    | none => rfl
    | some p =>
      have hl := header?_length hh
      omega

section
variable {maxBody n : Nat} {buf r : Bytes} {h : Header}

def Header.bytes (h : Header) : Bytes :=
  Bytes.ofInt32 h.packLen ++ Bytes.ofInt16 h.headerLen ++ Bytes.ofInt16 h.ver ++
    Bytes.ofInt32 h.op ++ Bytes.ofInt32 h.seq

theorem header?_bytes (hh : header? buf = some (h, r)) :
    packLen buf = h.packLen ∧ headerLen buf = h.headerLen ∧ buf = h.bytes ++ r := by
  revert hh
  fun_cases header? buf with
  | case1 =>
    rintro ⟨⟩
    refine ⟨(Bytes.int32_eq_ofNat ..).symm, (Bytes.int16_eq_ofNat ..).symm, ?_⟩
    simp only [Header.bytes, Bytes.ofInt32_int32, Bytes.ofInt16_int16, List.cons_append,
      List.nil_append]
  | case2 =>
    intro hn
    cases hn

theorem bodySize_cases (maxBody : Nat) (hh : header? buf = some (h, r)) :
    (¬ InRange maxBody buf ∧ h.bodySize maxBody = .error (.packLength (packLen buf))) ∨
      (InRange maxBody buf ∧ (headerLen buf).toInt ≠ headerSize ∧
        h.bodySize maxBody = .error (.headerLength (headerLen buf))) ∨
      InRange maxBody buf ∧ (headerLen buf).toInt = headerSize ∧
      ∃ n : Nat, (packLen buf).toInt = headerSize + n ∧ n ≤ maxBody ∧
      h.bodySize maxBody = .ok n := by
  obtain ⟨hp, hl, -⟩ := header?_bytes hh
  by_cases hr : InRange maxBody buf
  · have hin := hr
    rw [InRange, hp] at hin
    by_cases hs : (headerLen buf).toInt = headerSize
    · have hn : h.packLen.toInt = headerSize + (h.packLen.toInt - headerSize).toNat := by omega
      have hle : (h.packLen.toInt - headerSize).toNat ≤ maxBody := by omega
      exact .inr (.inr ⟨hr, hs, _, hp ▸ hn, hle, bodySize_ok hn (hl ▸ hs) hle⟩)
    · refine .inr (.inl ⟨hr, hs, ?_⟩)
      rw [hl] at hs ⊢
      simp only [Header.bodySize]
      rw [if_neg (by omega), if_pos hs]
  · refine .inl ⟨hr, ?_⟩
    rw [InRange, hp] at hr
    rw [hp]
    simp only [Header.bodySize]
    rw [if_pos (by omega)]

theorem encode_frame (hh : header? buf = some (h, r)) (hp : (packLen buf).toInt = headerSize + n)
    (hl : (headerLen buf).toInt = headerSize) (hn : n ≤ r.length) (ho : h.op ≠ Op.raw) :
    (h.frame (r.take n)).encode = buf.take (headerSize + n) := by
  obtain ⟨hpe, hle, hbuf⟩ := header?_bytes hh
  have hlen : (r.take n).length = n := List.length_take_of_le hn
  have hpack : Int32.ofNat (headerSize + n) = h.packLen := by
    have hlt := (packLen buf).toInt_lt
    rw [← hpe, ← Int32.toInt_inj, hp, Int32.toInt_ofNat_of_lt (by omega)]
    rfl
  have hhead : Int16.ofNat headerSize = h.headerLen := by
    rw [← hle, ← Int16.toInt_inj, hl]
    rfl
  have hbytes : putHeader (h.frame (r.take n)) n = h.bytes := by
    rw [putHeader, hpack, hhead]
    rfl
  have hsize : h.bytes.length = headerSize := rfl
  have hencode : (h.frame (r.take n)).encode =
      putHeader (h.frame (r.take n)) (r.take n).length ++ r.take n :=
    if_neg ho
  rw [hencode, hlen, hbytes, hbuf, ← hsize, List.take_length_add_append]

/-- Every buffer is of one of five kinds. For each kind, what the stream reader answers, and what
the reader of whole messages does. -/
inductive Verdict (maxBody : Nat) (buf : Bytes) : Prop
  | short : buf.length < headerSize → decode maxBody buf = .ok none →
      decodeMessage maxBody buf = .error (.packLength (.ofNat buf.length)) → Verdict maxBody buf
  | outOfRange : headerSize ≤ buf.length → ¬ InRange maxBody buf →
      decode maxBody buf = .error (.packLength (packLen buf)) →
      decodeMessage maxBody buf = .error (.packLength (packLen buf)) → Verdict maxBody buf
  | misfit : headerSize ≤ buf.length → InRange maxBody buf → (headerLen buf).toInt ≠ headerSize →
      decode maxBody buf = .error (.headerLength (headerLen buf)) →
      decodeMessage maxBody buf = .error (.headerLength (headerLen buf)) → Verdict maxBody buf
  | unfinished : headerSize ≤ buf.length → InRange maxBody buf →
      (headerLen buf).toInt = headerSize → buf.length < (packLen buf).toInt →
      decode maxBody buf = .ok none →
      decodeMessage maxBody buf = .error (.malformedFrame (mismatch buf)) → Verdict maxBody buf
  | whole (f : Frame) (n : Nat) : (packLen buf).toInt = headerSize + n →
      headerSize + n ≤ buf.length → n ≤ maxBody → InRange maxBody buf →
      (headerLen buf).toInt = headerSize → f.body.length = n →
      (f.op ≠ Op.raw → f.encode = buf.take (headerSize + n)) →
      decode maxBody buf = .ok (some (f, buf.drop (headerSize + n))) → decodeMessage maxBody buf =
        (if buf.length = headerSize + n then .ok f else .error (.malformedFrame (mismatch buf))) →
      Verdict maxBody buf

theorem decodeMessage_short (hh : header? buf = none) :
    decodeMessage maxBody buf = .error (.packLength (.ofNat buf.length)) := by
  simp only [decodeMessage, hh]

theorem decodeMessage_refused {e : GatewayError} (hh : header? buf = some (h, r))
    (hb : h.bodySize maxBody = .error e) : decodeMessage maxBody buf = .error e := by
  simp only [decodeMessage, hh, hb]
  rfl

theorem decodeMessage_sized (hh : header? buf = some (h, r)) (hb : h.bodySize maxBody = .ok n) :
    decodeMessage maxBody buf =
      if buf.length = headerSize + n then .ok (h.frame r)
      else .error (.malformedFrame (mismatch buf)) := by
  have hlen := header?_length hh
  simp only [decodeMessage, hh, hb, ← (header?_bytes hh).1]
  by_cases hn : r.length = n
  · rw [if_pos (by omega)]
    exact if_neg (not_not.2 hn)
  · rw [if_neg (by omega)]
    exact if_pos hn

theorem verdict (maxBody : Nat) (buf : Bytes) : Verdict maxBody buf := by
  by_cases hlen : buf.length < headerSize
  · have hh := header?_eq_none_iff.2 hlen
    exact .short hlen (decode_short hh) (decodeMessage_short hh)
  · obtain ⟨⟨h, r⟩, hh⟩ := Option.ne_none_iff_exists'.1 (mt header?_eq_none_iff.1 hlen)
    have hr := header?_length hh
    have hle : headerSize ≤ buf.length := by omega
    rcases bodySize_cases maxBody hh with ⟨hin, hb⟩ | ⟨hin, hl, hb⟩ | ⟨hin, hl, n, hp, hn, hb⟩
    · exact .outOfRange hle hin (decode_refused hh hb) (decodeMessage_refused hh hb)
    · exact .misfit hle hin hl (decode_refused hh hb) (decodeMessage_refused hh hb)
    · have hm := decodeMessage_sized hh hb
      by_cases hw : n ≤ r.length
      · have hdrop : buf.drop (headerSize + n) = r.drop n := by
          have hsize : h.bytes.length = headerSize := rfl
          rw [(header?_bytes hh).2.2, ← hsize, List.drop_length_add_append]
        refine .whole (h.frame (r.take n)) n hp (by omega) hn hin hl (List.length_take_of_le hw)
          (encode_frame hh hp hl hw) (hdrop ▸ decode_whole hh hb hw) ?_
        rw [hm]
        split_ifs with hfull
        · rw [List.take_of_length_le (by omega)]
        · rfl
      · refine .unfinished hle hin hl (by omega) (decode_partial hh hb (by omega)) ?_
        rw [hm, if_neg (by omega)]

end

theorem decodeOnce_none {maxBody : Nat} {buf : Bytes} (hd : decode maxBody buf = .ok none) :
    decodeOnce maxBody buf = (.ok none, buf) := by
  simp only [decodeOnce, hd]

theorem decodeOnce_error {maxBody : Nat} {buf : Bytes} {e : GatewayError}
    (hd : decode maxBody buf = .error e) : decodeOnce maxBody buf = (.error e, buf) := by
  simp only [decodeOnce, hd]

theorem decodeOnce_some {maxBody : Nat} {buf r : Bytes} {f : Frame}
    (hd : decode maxBody buf = .ok (some (f, r))) : decodeOnce maxBody buf = (.ok (some f), r) := by
  simp only [decodeOnce, hd]

theorem Verdict.answers {maxBody : Nat} {buf : Bytes} (h : Verdict maxBody buf) :
    Answers maxBody buf (decodeOnce maxBody buf).1 (decodeOnce maxBody buf).2 := by
  cases h with
  | short hlen hd _ =>
    rw [decodeOnce_none hd]
    constructor <;> simp <;> omega
  | outOfRange hlen hin hd _ =>
    rw [decodeOnce_error hd]
    constructor <;> simp [hin, hlen]
  | misfit hlen hin hl hd _ =>
    rw [decodeOnce_error hd]
    constructor <;> simp [hin, hlen, hl]
  | unfinished hlen hin hl hp hd _ =>
    rw [decodeOnce_none hd]
    constructor <;> simp [hin, hlen, hl] <;> omega
  | whole f n hp hlen hmax hin hl hbody hencode hd _ =>
    rw [decodeOnce_some hd]
    have hn : (packLen buf).toInt.toNat = headerSize + n := by omega
    have hle : headerSize ≤ buf.length ∧ (packLen buf).toInt ≤ buf.length := by omega
    have hsize : (f.body.length : Int) = (packLen buf).toInt - headerSize := by omega
    constructor
    case bodySize =>
      rintro _ ⟨⟩
      exact ⟨hsize, hbody ▸ hmax⟩
    case encode =>
      rintro _ ⟨⟩ ho
      rw [hn, hencode ho]
    all_goals simp [hin, hl, hn, hle]

theorem decodeAll_times (maxBody : Nat) (buf : Bytes) :
    decodeTimes maxBody (decodeAll maxBody buf).1.length buf =
      ((decodeAll maxBody buf).1.map fun f => .ok (some f), (decodeAll maxBody buf).2.1) ∧
      decodeOnce maxBody (decodeAll maxBody buf).2.1 =
      ((decodeAll maxBody buf).2.2.elim (.ok none) .error, (decodeAll maxBody buf).2.1) ∧
      headerSize * (decodeAll maxBody buf).1.length + (decodeAll maxBody buf).2.1.length ≤
      buf.length := by
  induction buf using decode_induction maxBody with
  | waiting buf hd =>
    rw [decodeAll_none hd]
    exact ⟨rfl, decodeOnce_none hd, by simp⟩
  | refused buf e hd =>
    rw [decodeAll_error hd]
    exact ⟨rfl, decodeOnce_error hd, by simp⟩
  | whole buf f r hd ih =>
    obtain ⟨htimes, hend, hlen⟩ := ih
    have hshort := decode_length hd
    rw [decodeAll_some hd]
    refine ⟨?_, hend, ?_⟩
    · simp only [List.length_cons, decodeTimes, decodeOnce_some hd, htimes, List.map_cons]
    · change headerSize * (_ + 1) + (decodeAll maxBody r).2.1.length ≤ _
      rw [Nat.mul_add_one]
      omega

/-- A call of the stream reader gives nothing, a frame or an error just as the two lengths at the
front of the buffer say, and takes exactly the bytes of a frame that it gives. So one call after
another reaches an end: with `fs` given, which were in the buffer one behind another, the next call
gives none. -/
theorem decodeOnce_answers (maxBody : Nat) (buf : Bytes) :
    Answers maxBody buf (decodeOnce maxBody buf).1 (decodeOnce maxBody buf).2 ∧
    let (fs, rest, fault) := decodeAll maxBody buf
    decodeTimes maxBody fs.length buf = (fs.map fun f => .ok (some f), rest) ∧
      decodeOnce maxBody rest = (fault.elim (.ok none) .error, rest) ∧
      headerSize * fs.length + rest.length ≤ buf.length :=
  ⟨(verdict maxBody buf).answers, decodeAll_times maxBody buf⟩

/-- A negative packet length is out of range, whatever else is wrong with the header. -/
example : let buf : Bytes := [255, 255, 255, 240, 0, 17, 0, 1, 0, 0, 0, 2, 0, 0, 0, 3]
    decodeOnce 4096 buf = (.error (.packLength (-16)), buf) := by decide

/-- A message is read as a frame exactly when the stream reader takes that frame and leaves nothing;
a wrong header is the same error to both, and where the stream reader would wait, or leave
something, the message does not fit its header. -/
theorem decodeMessage_agrees (maxBody : Nat) (data : Bytes) :
    let answer := (decodeOnce maxBody data).1
    let left := (decodeOnce maxBody data).2
    let message := decodeMessage maxBody data
    (∀ f, message = .ok f ↔ answer = .ok (some f) ∧ left = []) ∧
    (∀ e, answer = .error e →
      message = .error e ∧ ((∃ n, e = .packLength n) ∨ ∃ n, e = .headerLength n)) ∧
    (∀ reason, message = .error (.malformedFrame reason) ↔ reason = mismatch data ∧
      headerSize ≤ data.length ∧ (answer = .ok none ∨ (∃ f, answer = .ok (some f)) ∧ left ≠ [])) ∧
    (data.length < headerSize →
      answer = .ok none ∧ ∃ n : Int32, n.toInt = data.length ∧ message = .error (.packLength n)) ∧
    (data.length < headerSize ∨ (∃ e, answer = .error e) ∨
    (∃ f, answer = .ok (some f) ∧ left = []) ∨
      headerSize ≤ data.length ∧
      (answer = .ok none ∨ (∃ f, answer = .ok (some f)) ∧ left ≠ [])) := by
  intro answer left message
  cases verdict maxBody data with
  | short hlen hd hm =>
    have hone : answer = .ok none := congrArg Prod.fst (decodeOnce_none hd)
    have hlength : (Int32.ofNat data.length).toInt = data.length :=
      Int32.toInt_ofNat_of_lt (by simp only [headerSize] at hlen; omega)
    have hnot : ¬ headerSize ≤ data.length := Nat.not_le.2 hlen
    simp [hone, show message = _ from hm, hlen, hnot, hlength]
  | outOfRange hlen hin hd hm =>
    have hone : answer = .error (.packLength (packLen data)) :=
      congrArg Prod.fst (decodeOnce_error hd)
    simp [hone, show message = _ from hm, Nat.not_lt.2 hlen]
  | misfit hlen hin hl hd hm =>
    have hone : answer = .error (.headerLength (headerLen data)) :=
      congrArg Prod.fst (decodeOnce_error hd)
    simp [hone, show message = _ from hm, Nat.not_lt.2 hlen]
  | unfinished hlen hin hl hp hd hm =>
    have hone : answer = .ok none := congrArg Prod.fst (decodeOnce_none hd)
    simp [hone, show message = _ from hm, hlen, Nat.not_lt.2 hlen,
      @eq_comm _ (mismatch data)]
  | whole f n hp hlen hmax hin hl hbody hencode hd hm =>
    have hone : answer = .ok (some f) := congrArg Prod.fst (decodeOnce_some hd)
    have hleft : left = data.drop (headerSize + n) := congrArg Prod.snd (decodeOnce_some hd)
    have hle : headerSize ≤ data.length := by omega
    by_cases hfull : data.length = headerSize + n
    · have hnil : left = [] := hleft.trans (List.drop_of_length_le (by omega))
      have hmessage : message = .ok f := hm.trans (if_pos hfull)
      simp [hone, hnil, hmessage, hle]
    · have hne : left ≠ [] := by
        rw [hleft, Ne, List.drop_eq_nil_iff]
        omega
      have hmessage : message = .error (.malformedFrame (mismatch data)) := hm.trans (if_neg hfull)
      simp [hone, hne, hmessage, hle, @eq_comm _ (mismatch data)]

end PushGateway.Frame
