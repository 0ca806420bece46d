import PushGateway.Error
import PushGateway.Frame

/-!
The binary form of a frame: packet length, header length (always 16), version, operation and
sequence, big-endian, then the body. A stream is read frame by frame from the front of a buffer and
refused as soon as a header is wrong; a message must hold exactly one frame.
-/

namespace PushGateway.Frame

def headerSize : Nat := 16

structure Header where
  packLen : Int32
  headerLen : Int16
  ver : Int16
  op : Int32
  seq : Int32
  deriving DecidableEq, Repr

def header? : Bytes → Option (Header × Bytes)
  | p0 :: p1 :: p2 :: p3 :: h0 :: h1 :: v0 :: v1 :: o0 :: o1 :: o2 :: o3 ::
      s0 :: s1 :: s2 :: s3 :: r =>
    some ({ packLen := Bytes.int32 p0 p1 p2 p3, headerLen := Bytes.int16 h0 h1,
            ver := Bytes.int16 v0 v1, op := Bytes.int32 o0 o1 o2 o3,
            seq := Bytes.int32 s0 s1 s2 s3 }, r)
  | _ => none

/-- The body length a header announces. The packet length is tested before the header length. -/
def Header.bodySize (h : Header) (maxBody : Nat) : Except GatewayError Nat :=
  let n := h.packLen.toInt
  if n < headerSize ∨ n > maxBody + headerSize then .error (.packLength h.packLen)
  else if h.headerLen.toInt ≠ headerSize then .error (.headerLength h.headerLen)
  else .ok (n.toNat - headerSize)

def Header.frame (h : Header) (body : Bytes) : Frame := ⟨h.ver, h.op, h.seq, body⟩

def decode (maxBody : Nat) (buf : Bytes) : Except GatewayError (Option (Frame × Bytes)) :=
  match header? buf with
  | none => .ok none
  | some (h, rest) => do
    let size ← h.bodySize maxBody
    let body := rest.take size
    if body.length < size then return none
    return some (h.frame body, rest.drop size)

def decodeMessage (maxBody : Nat) (data : Bytes) : Except GatewayError Frame :=
  match header? data with
  | none => .error (.packLength (Int32.ofNat data.length))
  | some (h, rest) => do
    let size ← h.bodySize maxBody
    if rest.length ≠ size then
      .error (.malformedFrame ("packet length " ++ toString h.packLen ++
        " does not match message length " ++ toString data.length))
    else return h.frame rest

def putHeader (f : Frame) (bodySize : Nat) : Bytes :=
  Bytes.ofInt32 (Int32.ofNat (headerSize + bodySize)) ++ Bytes.ofInt16 (Int16.ofNat headerSize) ++
    Bytes.ofInt16 f.ver ++ Bytes.ofInt32 f.op ++ Bytes.ofInt32 f.seq

/-- A raw frame is its body alone. -/
def encode (f : Frame) : Bytes :=
  if f.op = Op.raw then f.body else putHeader f f.body.length ++ f.body

def encodeHeartbeat (f : Frame) (online : Int32) : Bytes := putHeader f 4 ++ Bytes.ofInt32 online

/-- The frames that a buffer holds in full, what is left over, and the error that stopped the
reading, if any. A refused header stays in the buffer. -/
def decodeAll (maxBody : Nat) (buf : Bytes) : List Frame × Bytes × Option GatewayError :=
  go buf.length buf
where
  /-- Every frame takes at least a header, so the length of the buffer is fuel enough. -/
  go : Nat → Bytes → List Frame × Bytes × Option GatewayError
    | 0, buf => ([], buf, none)
    | fuel + 1, buf =>
      match decode maxBody buf with
      | .error e => ([], buf, some e)
      | .ok none => ([], buf, none)
      | .ok (some (f, rest)) =>
        let (fs, out) := go fuel rest
        (f :: fs, out)

theorem putHeader_length (f : Frame) (n : Nat) : (putHeader f n).length = headerSize := rfl

end PushGateway.Frame

namespace PushGateway

def Outgoing.encode : Outgoing → Bytes
  | .frame f => f.encode
  | .heartbeat f online => f.encodeHeartbeat online

end PushGateway
