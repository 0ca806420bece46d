import PushGateway.Frame.Wire

/-!
A connection over a byte stream. What arrives is cut into frames wherever the stream was cut into
chunks; what is written is the frames one behind another.
-/

namespace PushGateway

structure ByteStream where
  maxBody : Nat
  /-- What has arrived and makes no whole frame yet. -/
  buffer : Bytes := []
  /-- What was wrong with the stream, which is not read from there on. -/
  fault : Option GatewayError := none
  deriving DecidableEq, Repr

namespace ByteStream

def feed (s : ByteStream) (chunk : Bytes) : List Frame × ByteStream :=
  match s.fault with
  | some _ => ([], s)
  | none =>
    let (fs, buffer, fault) := Frame.decodeAll s.maxBody (s.buffer ++ chunk)
    (fs, { s with buffer, fault })

def feedAll (s : ByteStream) : List Bytes → List Frame × ByteStream
  | [] => ([], s)
  | c :: cs =>
    let (fs, s) := s.feed c
    let (gs, s) := s.feedAll cs
    (fs ++ gs, s)

/-- What a chunk brings to the reader of the connection. -/
def receive (s : ByteStream) (chunk : Bytes) : List (Except GatewayError Frame) × ByteStream :=
  let (fs, t) := s.feed chunk
  (fs.map .ok ++ if s.fault.isSome then [] else t.fault.toList.map .error, t)

/-- The peer is gone. A frame that has not all arrived never will. -/
def finish (s : ByteStream) : List (Except GatewayError Frame) :=
  if s.fault.isSome then [] else [.error .connectionClosed]

def write (items : List Outgoing) : Bytes := items.flatMap Outgoing.encode

theorem feed_maxBody (s : ByteStream) (chunk : Bytes) : (s.feed chunk).2.maxBody = s.maxBody := by
  unfold feed
  cases s.fault <;> rfl

theorem feed_of_fault {s : ByteStream} (h : s.fault.isSome) (chunk : Bytes) :
    s.feed chunk = ([], s) := by
  obtain ⟨e, he⟩ := Option.isSome_iff_exists.1 h
  simp [feed, he]

end ByteStream

end PushGateway
