import PushGateway.Proofs.BufferPool.Storage
import PushGateway.Proofs.Frame.Acceptance
import PushGateway.Proofs.Transport.Chunks

/-!
Buffers carry nothing from one holder to the next. What a holder gets out of its buffer, pieces and
frames alike, is what it would get out of a new buffer that nobody else has; for a reader of a
stream it is the frames of the bytes that it has put in itself.
-/

namespace PushGateway

namespace ByteStream

theorem readWhole_whole {maxBody : Nat} {bytes r : Bytes} {f : Frame}
    (hd : Frame.decode maxBody bytes = .ok (some (f, r))) :
    readWhole maxBody bytes = (f :: (readWhole maxBody r).1, (readWhole maxBody r).2) := by
  simp only [readWhole, Frame.decodeAll_some hd]
  rcases Frame.decodeAll maxBody r with ⟨fs, rest, e | e⟩ <;> rfl

end ByteStream

namespace BufferPool

open ByteStream (readWhole)

def Yield.frame? : Yield → Option Frame
  | .answer (.ok (some f)) => some f
  | _ => none

def framesRead (ys : List Yield) : List Frame := ys.filterMap Yield.frame?

def Use.Reads (maxBody : Nat) : Use → Prop
  | .write _ => True
  | .split _ => False
  | .decode n => n = maxBody

def Use.written : Use → Bytes
  | .write data => data
  | _ => []

def received (us : List Use) : Bytes := us.flatMap Use.written

/-- What came out of the buffer of a reader, and what the rest of it will give, are the frames and
the end of the stream that went in. -/
theorem readWhole_useAll {maxBody : Nat} (b : Bytes) {us : List Use}
    (hr : ∀ u ∈ us, u.Reads maxBody) :
    readWhole maxBody (b ++ received us) =
      (framesRead (useAll b us).1 ++ (readWhole maxBody (useAll b us).2).1,
        (readWhole maxBody (useAll b us).2).2) := by
  induction us generalizing b with
  | nil =>
    rw [received, List.flatMap_nil, List.append_nil]
    rfl
  | cons u us ih =>
    have hus := fun b => ih b fun u hu => hr u (List.mem_cons_of_mem _ hu)
    have hu := hr u List.mem_cons_self
    cases u with
    | split n => exact hu.elim
    | write data =>
      have hw : b ++ received (.write data :: us) = b ++ data ++ received us :=
        (List.append_assoc ..).symm
      rw [hw, hus]
      rfl
    | decode n =>
      obtain rfl : n = maxBody := hu
      have hw : b ++ received (.decode n :: us) = b ++ received us := rfl
      rw [hw]
      cases hd : Frame.decode n b with
      | error e =>
        simp only [useAll, Use.on, Frame.decodeOnce_error hd, hus]
        rfl
      | ok o =>
        cases o with
        | none =>
          simp only [useAll, Use.on, Frame.decodeOnce_none hd, hus]
          rfl
        | some p =>
          have hx := Frame.decode_append (by rw [hd]; simp) (received us)
          rw [hd] at hx
          simp only [useAll, Use.on, Frame.decodeOnce_some hd, ByteStream.readWhole_whole hx, hus]
          rfl

/-- Nothing in the storage of a pool of `count` buffers gets from one loan to another. -/
structure Isolated (count : Nat) (s : Storage) : Prop where
  /-- The pool hands out an empty buffer, and that is what the holder finds in it. -/
  blank : s.pool.get = ([], s.get.pool) ∧ s.get.held? s.loans.size = some []
  used : ∀ i b u, s.held? i = some b →
    (s.use i u).held? i = some (u.on b).2 ∧ (s.use i u).pool = s.pool
  back : ∀ i b, s.held? i = some b → (s.put i).held? i = none ∧ (s.put i).pool = s.pool.put b
  /-- A buffer that is lent is not free, and has one holder. -/
  apart : ∀ i j o, s.holding? i = some o → o ∉ s.free.items ∧ (s.holding? j = some o → i = j)
  /-- What others do leaves what a holder has. -/
  still : ∀ m j, j < s.loans.size → m.loan? ≠ some j → (s.step m).held? j = s.held? j
  bounded : s.pool.items.length ≤ count
  /-- Whatever happens from now on, the next loan is as good as a new buffer that nobody else has:
  what its holder gets out of it depends on the holder's own uses alone. -/
  own : ∀ ms, let us := usesOf s.loans.size ms
    s.get.yields s.loans.size ms = (useAll [] us).1 ∧
      (s.get.after ms).held? s.loans.size = if .put s.loans.size ∈ ms then none
      else some (useAll [] us).2
  /-- If its holder reads a stream, the frames that it has read, and then those that are in the
  buffer yet, are the frames of the bytes that it has received itself, and the end is the end of
  these. -/
  reader : ∀ ms maxBody, let us := usesOf s.loans.size ms
    (∀ u ∈ us, u.Reads maxBody) →
      readWhole maxBody (received us) =
        (framesRead (s.get.yields s.loans.size ms) ++ (readWhole maxBody (useAll [] us).2).1,
          (readWhole maxBody (useAll [] us).2).2)

namespace Storage

theorem limit_step (s : Storage) (m : Move) : (s.step m).free.limit = s.free.limit := by
  cases m with
  | get => exact s.free.get_limit _
  | use i u =>
    simp only [step, use]
    split <;> rfl
  | put i =>
    simp only [step, put]
    split
    · exact s.free.put_limit _
    · rfl

theorem limit_after (s : Storage) (ms : List Move) : (s.after ms).free.limit = s.free.limit := by
  induction ms generalizing s with
  | nil => rfl
  | cons m ms ih => exact (ih (s.step m)).trans (limit_step s m)

theorem WellFormed.isolated {s : Storage} (h : s.WellFormed) : Isolated s.free.limit s := by
  have hnew : s.get.held? s.loans.size = some [] := (h.held?_get _).trans (if_pos rfl)
  have hfollow := h.get.follow (size_loans_get s) hnew
  refine { blank := ⟨h.pool_get, hnew⟩, used := ?used, back := ?back, apart := ?apart,
           still := fun m j => h.held?_step, bounded := ?bounded, own := hfollow, reader :=
           ?reader }
  case used =>
    intro i b u hb
    rw [h.held?_use, if_pos rfl, hb]
    exact ⟨rfl, h.pool_use i u⟩
  case back =>
    intro i b hb
    rw [h.held?_put, if_pos rfl]
    exact ⟨rfl, h.pool_put hb⟩
  case apart =>
    intro i j o ho
    exact ⟨(h.lent i o ho).2, h.apart i j o ho⟩
  case bounded => exact Nat.le_trans (Nat.le_of_eq (List.length_map _)) h.bounded
  case reader =>
    intro ms maxBody us hr
    rw [(hfollow ms).1]
    exact readWhole_useAll [] hr

/-- However buffers are lent, used and given back, in storage they are what the pool has them to be,
and no loan has anything of another, earlier or at the same time. -/
theorem after_isolated (count : Nat) (ms : List Move) :
    (new count).pool = BufferPool.new count ∧ Isolated count ((new count).after ms) := by
  have h := ((new_wellFormed count).after ms).isolated
  rw [limit_after] at h
  exact ⟨pool_new count, h⟩

/-- Two holders leave bytes behind, the first of them half a header; one of their buffers is
kept. -/
def bytesLeftBehind : List Move :=
  [.get, .use 0 (.write [0, 0, 0, 18, 0, 16, 0]), .get, .use 1 (.write [9]), .put 0, .put 1]

/-- The third holder reads a frame that comes in two pieces, and a fourth one writes in between. -/
def frameInPieces : List Move :=
  [.use 2 (.write [0, 0, 0]), .use 2 (.decode 8), .get, .use 3 (.write [7]),
    .use 2 (.write [18, 0, 16, 0, 1, 0, 0, 0, 2, 0, 0, 0, 3, 5, 6, 0]), .use 2 (.decode 8)]

/-- The third holder has the buffer of the first. -/
theorem after_isolated_bytesLeftBehind :
    ((new 1).after bytesLeftBehind).get.holding? 2 = some 0 ∧
    (∀ u ∈ usesOf 2 frameInPieces, u.Reads 8) ∧
    framesRead (((new 1).after bytesLeftBehind).get.yields 2 frameInPieces) = [⟨1, 2, 3, [5, 6]⟩] ∧
    readWhole 8 (received (usesOf 2 frameInPieces)) = ([⟨1, 2, 3, [5, 6]⟩], .ok [0]) := by
  have hr : ∀ u ∈ usesOf 2 frameInPieces, u.Reads 8 := by
    simp [usesOf, frameInPieces, Use.Reads]
  exact ⟨rfl, hr, rfl, ((after_isolated 1 bytesLeftBehind).2.reader frameInPieces 8 hr).trans rfl⟩

end Storage

end BufferPool

end PushGateway
