import PushGateway.Node.Task

/-!
Waiting inside a node. Whoever runs the node may call the control plane and wait for the answer;
while it waits the clock goes from one deadline of the background work to the next, and the work
runs at each. At the end of the wait the caller goes first.
-/

namespace PushGateway

def Ticker.deadline : Ticker → Option Nanos
  | .idle next => some next
  | .calling _ until' => some until'
  | .crashed => none

def Reader.deadline : Reader → Option Nanos
  | .connecting until' => some until'
  | .calling _ _ until' => some until'
  | .leaving _ until' => some until'
  | _ => none

namespace Node

def deadlines (n : Node) : List Nanos :=
  n.timers.toList.filterMap (·.heap.peek?) ++ n.tickers.toList.filterMap Ticker.deadline ++
    n.connections.toList.filterMap (·.reader.deadline)

def nextDeadline (n : Node) (t : Nanos) : Option Nanos :=
  (n.deadlines.filter fun d => n.now < d ∧ d < t).min?

def waitUntil (t : Nanos) : Nat → Node → Node
  | 0, n => { n with now := t }
  | fuel + 1, n =>
    match n.nextDeadline t with
    | none => { n with now := t }
    | some d => waitUntil t fuel { n with now := d }.settle

/-- Waits for a while. Every deadline is at least one tick of the clock after the one before. -/
def wait (n : Node) (d : Nanos) : Node := waitUntil (n.now + d) d n.settle

/-- Waits for an answer. One that never comes is waited for as long as a call may take. -/
def await {α : Type} (r : Answer α × Node) : Except GatewayError α × Node :=
  match r with
  | (.ready r, n) => (r, n)
  | (.never, n) => (.error .timeout, n.wait n.config.rpcTimeout)

end Node

end PushGateway
