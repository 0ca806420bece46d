import PushGateway.Config

/-!
Connections take turns: each accepted one gets the next index, and with it a read pool, a write pool
and a timer.
-/

namespace PushGateway

structure Rotation where
  readers : Nat
  writers : Nat
  timers : Nat
  count : Nat := 0
  deriving DecidableEq, Repr

namespace Rotation

def new (c : Config) : Rotation where
  readers := max c.readerPools 1
  writers := max c.writerPools 1
  timers := max c.timerShards 1

def next (r : Rotation) : Nat × Rotation := (r.count, { r with count := r.count + 1 })

def reader (r : Rotation) (index : Nat) : Nat := index % r.readers
def writer (r : Rotation) (index : Nat) : Nat := index % r.writers
def timer (r : Rotation) (index : Nat) : Nat := index % r.timers

end Rotation

end PushGateway
