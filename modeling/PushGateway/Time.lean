/-!
Durations and clock readings are whole nanoseconds. The clock has a last reading: a deadline past
it cannot be represented.
-/

namespace PushGateway

abbrev Nanos := Nat

namespace Nanos

def ofMicros (n : Nat) : Nanos := n * 1_000
def ofMillis (n : Nat) : Nanos := n * 1_000_000
def ofSeconds (n : Nat) : Nanos := n * 1_000_000_000

def parts (n : Nanos) : Nat × Nat := (n / 1_000_000_000, n % 1_000_000_000)

/-- The clock counts seconds in 63 bits, and has counted at least one when a node starts. -/
def clockEnd : Nanos := ofSeconds 0x7fffffffffffffff

/-- The reading `delay` after `now`, if the clock can show it. -/
def after? (now delay : Nanos) : Option Nanos :=
  if now + delay < clockEnd then some (now + delay) else none

end Nanos

end PushGateway
