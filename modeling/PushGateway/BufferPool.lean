import PushGateway.Bytes

/-!
A pool of byte buffers. A buffer is handed out empty, and cleared when it comes back; the pool keeps
no more than it started with.
-/

namespace PushGateway

/-- What waits to be used again, the last put in front, and never more than `limit` of it. -/
structure FreeList (α : Type) where
  items : List α
  limit : Nat
  deriving DecidableEq, Repr

namespace FreeList

variable {α : Type}

def get (l : FreeList α) (fresh : α) : α × FreeList α :=
  match l.items with
  | a :: r => (a, { l with items := r })
  | [] => (fresh, l)

def put (l : FreeList α) (a : α) : FreeList α :=
  if l.items.length < l.limit then { l with items := a :: l.items } else l

end FreeList

abbrev BufferPool := FreeList Bytes

namespace BufferPool

def new (count : Nat) : BufferPool := ⟨List.replicate count [], count⟩

def get (p : BufferPool) : Bytes × BufferPool := FreeList.get p []

def put (p : BufferPool) (_ : Bytes) : BufferPool := FreeList.put p []

end BufferPool

end PushGateway
