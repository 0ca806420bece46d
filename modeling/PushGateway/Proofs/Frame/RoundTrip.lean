import PushGateway.Proofs.Frame.Decode
import PushGateway.Transport.Stream

/-!
Frames written one behind another are read back one by one, and the reader stops exactly where the
writer stopped. A heartbeat reply comes back as a frame whose body is the four digits of its number.
Raw frames are left out: they travel without a header.
-/

namespace PushGateway

/-- What a reader can get back of an item. -/
def Outgoing.Fits (maxBody : Nat) : Outgoing → Prop
  | .frame f => f.op ≠ Op.raw ∧ f.body.length ≤ maxBody
  | .heartbeat _ _ => True

def Outgoing.received : Outgoing → Frame
  | .frame f => f
  | .heartbeat f online => { f with body := Bytes.bigEndian 4 (online.toInt % 2 ^ 32).toNat }

namespace Frame

def decodeOnce (maxBody : Nat) (buf : Bytes) : Except GatewayError (Option Frame) × Bytes :=
  match decode maxBody buf with
  | .error e => (.error e, buf)
  | .ok none => (.ok none, buf)
  | .ok (some (f, rest)) => (.ok (some f), rest)

def decodeTimes (maxBody : Nat) : Nat → Bytes → List (Except GatewayError (Option Frame)) × Bytes
  | 0, buf => ([], buf)
  | n + 1, buf =>
    let (answer, buf) := decodeOnce maxBody buf
    let (answers, buf) := decodeTimes maxBody n buf
    (answer :: answers, buf)

theorem decode_putHeader {maxBody : Nat} (hm : maxBody + headerSize < 2 ^ 31) (f : Frame)
    {body : Bytes} (hb : body.length ≤ maxBody) (x : Bytes) :
    decode maxBody (putHeader f body.length ++ (body ++ x)) = .ok (some ({ f with body }, x)) := by
  have hp : (Int32.ofNat (headerSize + body.length)).toInt = headerSize + body.length := by
    rw [Int32.toInt_ofNat_of_lt (by omega)]; rfl
  have hs : (Int16.ofNat headerSize).toInt = headerSize := by decide
  have hl : body.length ≤ (body ++ x).length := by rw [List.length_append]; omega
  rw [decode_whole (header?_putHeader f body.length (body ++ x)) (bodySize_ok hp hs hb) hl,
    List.take_left, List.drop_left]
  rfl

theorem decode_item {maxBody : Nat} (h4 : 4 ≤ maxBody) (hm : maxBody + headerSize < 2 ^ 31)
    {item : Outgoing} (hf : item.Fits maxBody) (x : Bytes) :
    decode maxBody (item.encode ++ x) = .ok (some (item.received, x)) := by
  cases item with
  | frame f =>
    obtain ⟨ho, hb⟩ := hf
    simp only [Outgoing.encode, encode, if_neg ho, List.append_assoc]
    exact decode_putHeader hm f hb x
  | heartbeat f online =>
    simp only [Outgoing.encode, encodeHeartbeat, List.append_assoc]
    have hb : (Bytes.ofInt32 online).length ≤ maxBody := h4
    rw [Outgoing.received, ← Bytes.ofInt32_eq_bigEndian]
    exact decode_putHeader hm f hb x

theorem decodeOnce_item {maxBody : Nat} (h4 : 4 ≤ maxBody) (hm : maxBody + headerSize < 2 ^ 31)
    {item : Outgoing} (hf : item.Fits maxBody) (x : Bytes) :
    decodeOnce maxBody (item.encode ++ x) = (.ok (some item.received), x) := by
  simp only [decodeOnce, decode_item h4 hm hf x]

/-- Whatever has been written and whatever follows, as many calls as there are items give the items
back in order and leave what follows. -/
theorem decodeTimes_write {maxBody : Nat} (h4 : 4 ≤ maxBody) (hm : maxBody ≤ 2 ^ 31 - 1 - 16)
    {items : List Outgoing} (hf : ∀ item ∈ items, item.Fits maxBody) (rest : Bytes) :
    decodeTimes maxBody items.length (ByteStream.write items ++ rest) =
      (items.map fun item => .ok (some item.received), rest) := by
  have hm' : maxBody + headerSize < 2 ^ 31 := by simp only [headerSize]; omega
  induction items with
  | nil => rfl
  | cons item items ih =>
    have hi := decodeOnce_item h4 hm' (hf item (by simp)) (ByteStream.write items ++ rest)
    have hr := ih fun item hi => hf item (by simp [hi])
    simp only [ByteStream.write, List.flatMap_cons, List.append_assoc] at hi hr ⊢
    simp only [List.length_cons, decodeTimes, hi, hr, List.map_cons]

/-- A frame of negative fields with a body as long as allowed, a heartbeat reply with a negative
number, a frame without a body, and the beginning of another header. -/
theorem decodeTimes_write_three :
    (4 : Nat) ≤ 4 ∧ 4 ≤ 2 ^ 31 - 1 - 16 ∧
    (∀ item ∈ [Outgoing.frame ⟨-1, -2, -3, [1, 2, 3, 4]⟩, .heartbeat ⟨1, 3, 7, [9]⟩ (-2),
      .frame ⟨0, 8, 0, []⟩], item.Fits 4) ∧
    decodeTimes 4 3 (ByteStream.write [.frame ⟨-1, -2, -3, [1, 2, 3, 4]⟩,
      .heartbeat ⟨1, 3, 7, [9]⟩ (-2), .frame ⟨0, 8, 0, []⟩] ++ [0, 0, 0, 16]) =
      ([.ok (some ⟨-1, -2, -3, [1, 2, 3, 4]⟩), .ok (some ⟨1, 3, 7, [255, 255, 255, 254]⟩),
        .ok (some ⟨0, 8, 0, []⟩)], [0, 0, 0, 16]) := by
  have hf : ∀ item ∈ [Outgoing.frame ⟨-1, -2, -3, [1, 2, 3, 4]⟩, .heartbeat ⟨1, 3, 7, [9]⟩ (-2),
      .frame ⟨0, 8, 0, []⟩], item.Fits 4 := by
    simp only [List.mem_cons, List.not_mem_nil, or_false, forall_eq_or_imp, forall_eq,
      Outgoing.Fits]
    decide
  exact ⟨by decide, by decide, hf, decodeTimes_write (by decide) (by decide) hf [0, 0, 0, 16]⟩

end Frame

end PushGateway
