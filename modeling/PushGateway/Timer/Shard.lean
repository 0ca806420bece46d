import PushGateway.Timer.Heap

/-!
A deadline heap and the task that fires its callbacks. The task takes what is due and the next
deadline in one look at the heap, runs the callbacks one by one, and parks until that deadline or a
notice. Whoever puts an entry at the root gives notice; one notice is kept while nobody waits.
-/

namespace PushGateway.Timer

/-- What the task is doing. `parked none` waits for a notice alone. -/
inductive Phase (κ : Type)
  | looking
  | firing (due : List (String × κ)) (next : Option Nanos)
  | parked (wake : Option Nanos)
  deriving Repr, DecidableEq

structure Shard (κ : Type) where
  heap : Heap κ
  notice : Bool := false
  phase : Phase κ := .looking
  deriving Repr

namespace Shard

variable {κ : Type}

def new (size : Nat) : Shard κ := { heap := .new size }

def rearm (s : Shard κ) (handle : Handle) : Shard κ :=
  if s.heap.isRoot handle then { s with notice := true } else s

/-- `none` if the clock cannot show the deadline. -/
def add? (s : Shard κ) (now delay : Nanos) (key : String) (callback : κ) :
    Option (Handle × Shard κ) :=
  (Nanos.after? now delay).map fun deadline =>
    let (handle, heap) := s.heap.add deadline key callback
    (handle, { s with heap }.rearm handle)

def del (s : Shard κ) (handle : Handle) : Bool × Shard κ :=
  let (ok, heap) := s.heap.del handle
  (ok, { s with heap })

def set? (s : Shard κ) (now : Nanos) (handle : Handle) (delay : Nanos) : Option (Bool × Shard κ) :=
  (Nanos.after? now delay).map fun deadline =>
    let (ok, heap) := s.heap.set handle deadline
    let s := { s with heap }
    (ok, if ok then s.rearm handle else s)

def setKey (s : Shard κ) (handle : Handle) (key : String) : Shard κ :=
  { s with heap := s.heap.setKey handle key }

/-- One step of the task with the callback it runs, if any; `none` while it is parked. -/
def step (s : Shard κ) (now : Nanos) : Option (Option κ × Shard κ) :=
  match s.phase with
  | .looking =>
    let (due, heap) := s.heap.expire now
    some (none, { s with heap, phase := .firing due heap.peek? })
  | .firing ((_, callback) :: due) next =>
    some (some callback, { s with phase := .firing due next })
  | .firing [] next => some (none, { s with phase := .parked next })
  | .parked wake =>
    if s.notice then some (none, { s with notice := false, phase := .looking })
    else if wake.any (· ≤ now) then some (none, { s with phase := .looking })
    else none

def run (now : Nanos) : Nat → Shard κ → List κ × Shard κ
  | 0, s => ([], s)
  | fuel + 1, s =>
    match s.step now with
    | none => ([], s)
    | some (callback, s) =>
      let (fired, s) := run now fuel s
      (callback.toList ++ fired, s)

/-- The steps the task takes before it parks for good, at most, while nobody calls: an entry is run
for once, and the task looks at the heap again for a notice and for a wake that has passed. -/
def todo (s : Shard κ) (now : Nanos) : Nat :=
  let again (wake : Option Nanos) : Nat := if wake.any (· ≤ now) then 3 else 0
  s.heap.size + 3 * s.notice.toNat + match s.phase with
    | .looking => 2
    | .firing due next => due.length + 1 + again next
    | .parked wake => again wake

/-- A look, the callbacks, and a step to park, at most three times: once for what is due now, once
for a notice given before, once to find nothing. -/
def rest (s : Shard κ) (now : Nanos) : List κ × Shard κ := s.run now (3 * (s.heap.size + 4))

end Shard

end PushGateway.Timer
