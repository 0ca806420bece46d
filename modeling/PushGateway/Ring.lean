/-!
A bounded queue in a circle of slots. Two counters run ahead of each other for ever; a slot is
their remainder by the number of slots, a power of two. A slot is reserved, filled and committed;
what is reserved but not committed is invisible to the reader.
-/

namespace PushGateway

structure Ring (α : Type) where
  reads : Nat
  writes : Nat
  slots : Array α
  deriving Repr

namespace Ring

variable {α : Type}

def new [Inhabited α] (n : Nat) : Ring α := ⟨0, 0, .replicate (max n 1).nextPowerOfTwo default⟩

def capacity (r : Ring α) : Nat := r.slots.size
def size (r : Ring α) : Nat := r.writes - r.reads
def isEmpty (r : Ring α) : Bool := r.reads = r.writes
def isFull (r : Ring α) : Bool := r.capacity ≤ r.size

def slot (r : Ring α) (counter : Nat) : Nat := counter % r.capacity

/-- What the next slot to write holds, `none` when every slot is outstanding. -/
def reserveWrite? (r : Ring α) : Option α := if r.isFull then none else r.slots[r.slot r.writes]?

def fill (r : Ring α) (x : α) : Ring α :=
  { r with slots := r.slots.setIfInBounds (r.slot r.writes) x }

def commitWrite (r : Ring α) : Ring α := { r with writes := r.writes + 1 }

/-- What the oldest committed slot holds, `none` when there is nothing to read. -/
def reserveRead? (r : Ring α) : Option α := if r.isEmpty then none else r.slots[r.slot r.reads]?

/-- Moves the value out of the oldest slot and leaves the default behind. -/
def vacate [Inhabited α] (r : Ring α) : Ring α :=
  { r with slots := r.slots.setIfInBounds (r.slot r.reads) default }

def commitRead (r : Ring α) : Ring α := { r with reads := r.reads + 1 }

def push? (r : Ring α) (x : α) : Option (Ring α) :=
  r.reserveWrite?.map fun _ => (r.fill x).commitWrite

def pop? [Inhabited α] (r : Ring α) : Option (α × Ring α) :=
  r.reserveRead?.map fun x => (x, r.vacate.commitRead)

def toList (r : Ring α) : List α :=
  (List.range r.size).filterMap fun i => r.slots[r.slot (r.reads + i)]?

end Ring

end PushGateway
