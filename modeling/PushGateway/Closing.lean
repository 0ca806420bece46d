import PushGateway.Error
import PushGateway.Time

/-!
The close signal of a connection, and calls that run under it. A call does not start once the signal
is given, and is abandoned when it is given first; a call that ends at the moment for which a signal
is planned has ended, and the signal waits for time to pass again. Signals may be given at once or
at a set time, and several handles can share one.
-/

namespace PushGateway

structure Closers where
  /-- Whether each signal has been given. -/
  given : Array Bool := #[false]
  /-- The signal behind each handle. -/
  handles : Array Nat := #[0]
  /-- Signals that will be given at a time. -/
  planned : List (Nat × Nanos) := []
  now : Nanos := 0
  deriving Repr

namespace Closers

def signal (c : Closers) (handle : Nat) : Nat := c.handles.getD handle 0

def isClosed (c : Closers) (handle : Nat) : Bool := c.given.getD (c.signal handle) false

def new (c : Closers) : Nat × Closers :=
  (c.handles.size, { c with given := c.given.push false, handles := c.handles.push c.given.size })

def clone (c : Closers) (handle : Nat) : Nat × Closers :=
  (c.handles.size, { c with handles := c.handles.push (c.signal handle) })

def give (c : Closers) (signal : Nat) : Closers :=
  { c with given := c.given.setIfInBounds signal true }

def close (c : Closers) (handle : Nat) : Closers := c.give (c.signal handle)

def plan (c : Closers) (handle : Nat) (delay : Nanos) : Closers :=
  { c with planned := c.planned ++ [(c.signal handle, c.now + delay)] }

def giveBefore (c : Closers) (t : Nanos) : Closers :=
  let due := c.planned.filter (·.2 < t)
  due.foldl (fun c p => c.give p.1) { c with planned := c.planned.filter (t ≤ ·.2) }

def closingTime (c : Closers) (signal : Nat) : Option Nanos :=
  ((c.planned.filter (·.1 = signal)).map (·.2)).min?

/-- Runs a call that takes `duration` and ends with `outcome`. Answers what the caller gets, and how
long it waited. A call that takes no time gives nothing planned a chance. -/
def guard {α : Type} (c : Closers) (handle : Nat) (duration : Nanos)
    (outcome : Except GatewayError α) : Except GatewayError α × Nanos × Closers :=
  if c.isClosed handle then (.error .connectionClosed, 0, c)
  else
    let done := c.now + duration
    match (c.closingTime (c.signal handle)).filter (· < done) with
    | some t => (.error .connectionClosed, t - c.now,
        { c with now := max c.now t }.giveBefore (t + 1))
    | none => (outcome, duration, { c with now := done }.giveBefore done)

end Closers

end PushGateway
