import PushGateway.Node.Writer

/-!
The background work of a node: the timer tasks, the tasks that renew online counts, the two tasks of
every connection and the workers of every bucket. `Node.step` is one step of one task and says
nothing about which task goes next. `Node.settle` is one order among all: round after round every
task runs until it has to wait, timers before readers and readers before writers.
-/

namespace PushGateway

inductive Task
  | timer (t : Nat)
  | ticker (k : Nat)
  | reader (i : Nat)
  | worker (b w : Nat)
  | writer (i : Nat)
  deriving DecidableEq, Repr

namespace Node

/-- The timer fires by giving the close signal of the connection that the callback names. -/
def timerStep (n : Node) (t : Nat) : Option Node :=
  (n.timers[t]?.bind (·.step n.now)).map fun (callback, s) =>
    let n := n.setTimer t s
    match callback with
    | some i => n.close i
    | none => n

/-- A tick that was missed is made up for at once. -/
def tickerStep (n : Node) (k : Nat) : Option Node :=
  let put (n : Node) (t : Ticker) : Node := { n with tickers := n.tickers.setIfInBounds k t }
  match n.tickers[k]? with
  | some (.idle next) =>
    if n.now < next then none
    else match n.callRenewOnline with
      | (.ready _, n) => some (put n (.idle (next + n.config.onlineTick)))
      | (.never, n) => some (put n (.calling (next + n.config.onlineTick) n.giveUp))
  | some (.calling next until') => if until' ≤ n.now then some (put n (.idle next)) else none
  | some .crashed | none => none

/-- One step of a task, `none` if it has to wait or has ended. -/
def step (n : Node) : Task → Option Node
  | .timer t => n.timerStep t
  | .ticker k => n.tickerStep k
  | .reader i => n.readerStep i
  | .worker b w => (n.directory.workerStep b w).map fun directory => { n with directory }
  | .writer i => n.writerStep i

def tasks (n : Node) : List Task :=
  (List.range n.timers.size).map .timer ++ (List.range n.tickers.size).map .ticker ++
    (List.range n.connections.size).map .reader ++
    (List.range n.directory.buckets.size).flatMap (fun b =>
      (List.range (n.directory.bucket b).workers.size).map (.worker b)) ++
    (List.range n.connections.size).map .writer

def Settled (n : Node) : Prop := ∀ t, n.step t = none

/-- Runs a task until it has to wait; true if it moved at all. -/
def runTask (t : Task) : Nat → Bool × Node → Bool × Node
  | 0, s => s
  | fuel + 1, (moved, n) =>
    match n.step t with
    | none => (moved, n)
    | some n => runTask t fuel (true, n)

def rounds (fuel : Nat) : Nat → Node → Node
  | 0, n => n
  | more + 1, n =>
    match n.tasks.foldl (fun s t => runTask t fuel s) (false, n) with
    | (true, n) => rounds fuel more n
    | (false, n) => n

end Node

/-! What there is to do yet, at most, while nothing comes in from outside. With the prices 1 and 0 a
load bounds the steps of the timers, readers and writers, with 0 and 1 the places that the rooms
will ever have. A signal takes the writer four steps at most, a reply in the ring two. -/

def total {α : Type} (size : α → Nat) (xs : Array α) : Nat := (xs.toList.map size).foldr (· + ·) 0

def Channel.load (step : Nat) (c : Channel) : Nat :=
  4 * step * (c.outbox.queue.length + c.outbox.waiting) + 2 * step * c.inbound.size

def Lobby.load (step seat : Nat) (l : Lobby) : Nat :=
  total (Channel.load step) l.channels + total (fun r => seat * r.slots.size) l.rooms

def Reader.load (step seat : Nat) : Reader → Nat
  | .returned | .crashed => 0
  | .leaving .. | .connecting _ => step
  | .serving _ => 6 * step
  | .calling .. => 13 * step
  | .greeted _ => 15 * step + seat
  | .greeting .. => 16 * step + seat
  | .awaitingAuth => 17 * step + seat

def Writer.load (step : Nat) : Writer → Nat
  | .writing .. => 3 * step
  | .draining _ => 2 * step
  | .flushing _ => step
  | .absent | .waiting _ | .discarding _ | .gone => 0

/-- A frame that has arrived may move the deadline, move the channel and put a call in the way. -/
def Connection.load (step seat : Nat) (c : Connection) : Nat :=
  c.reader.load step seat + c.writer.load step + (12 * step + seat) * c.wire.incoming.length

/-- The steps for the ticks that were missed, at most two each. -/
def Ticker.load (now tick : Nanos) (t : Ticker) : Nat :=
  let missed (next : Nanos) : Nat := if next ≤ now then (now - next) / tick + 1 else 0
  match t with
  | .idle next => 2 * missed next
  | .calling next _ => 2 * missed next + 1
  | .crashed => 0

def Directory.pushes (d : Directory) : Nat := total (fun b => total List.length b.workers) d.buckets

namespace Node

def load (step seat : Nat) (n : Node) : Nat :=
  total (fun s => step * s.todo n.now) n.timers + total (Connection.load step seat) n.connections +
    n.directory.lobby.load step seat

/-- The steps that the tasks can take before all of them wait, at most. A push to a room may be a
signal to everybody in it. -/
def work (n : Node) : Nat :=
  n.load 1 0 + total (Ticker.load n.now n.config.onlineTick) n.tickers +
    n.directory.pushes * (4 * n.load 0 1 + 1)

def settle (n : Node) : Node := n.rounds n.work n.work

end Node

end PushGateway
