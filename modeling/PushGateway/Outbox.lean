import PushGateway.Frame

/-!
The outbound queue of a channel: a bounded queue of signals that a writer takes from. Offers are
refused when there is no place or no writer. A request to finish is never refused: on a full queue
it waits, and the next place that comes free goes to the one that has waited longest.
-/

namespace PushGateway

inductive Signal
  | data (f : Frame)
  | ready
  | finish
  deriving DecidableEq, Repr

structure Outbox where
  queue : List Signal := []
  places : Nat := 1
  /-- Finish requests that wait for a place. -/
  waiting : Nat := 0
  hasReceiver : Bool := true
  /-- Without tasks around nothing can wait, and a finish that finds no place is lost. -/
  canWait : Bool := true
  deriving DecidableEq, Repr, Inhabited

namespace Outbox

def new (places : Nat) (canWait : Bool) : Outbox := { places := max places 1, canWait }

/-- Places that come free while something waits are taken at once, so a waiting finish means that
the queue is full. -/
def hasPlace (o : Outbox) : Bool := o.queue.length < o.places

def push (o : Outbox) (s : Signal) : Outbox := { o with queue := o.queue ++ [s] }

def offer? (o : Outbox) (s : Signal) : Option Outbox :=
  if o.hasReceiver && o.hasPlace then some (o.push s) else none

def finish (o : Outbox) : Outbox :=
  if !o.hasReceiver then o
  else if o.hasPlace then o.push .finish
  else if o.canWait then { o with waiting := o.waiting + 1 }
  else o

def refill (o : Outbox) : Outbox :=
  if 0 < o.waiting ∧ o.hasPlace then { o.push .finish with waiting := o.waiting - 1 } else o

def take? (o : Outbox) : Option (Signal × Outbox) :=
  match o.queue with
  | s :: r => some (s, { o with queue := r }.refill)
  | [] => none

/-- The writer goes away, and with it all that is queued or waiting. -/
def dropReceiver (o : Outbox) : Outbox := { o with queue := [], waiting := 0, hasReceiver := false }

end Outbox

end PushGateway
