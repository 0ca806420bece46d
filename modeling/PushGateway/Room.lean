import PushGateway.Error

/-!
The member list of a room: a doubly linked list through numbered slots that are used again. Members
come in at the head, and go out by the slot they remember. A room that empties is dropped and takes
nobody in again.
-/

namespace PushGateway

structure Member where
  channel : Nat
  before : Option Nat
  behind : Option Nat
  deriving DecidableEq, Repr

structure Room where
  id : String := ""
  slots : Array (Option Member) := #[]
  free : List Nat := []
  head : Option Nat := none
  /-- Members here. The gateway keeps this count in 32 bits with a sign; the two differ from
  `2 ^ 31` members on, and what is reported of it is in 32 bits. -/
  online : Nat := 0
  dropped : Bool := false
  /-- Members in the whole cluster, zero while unknown. -/
  allOnline : Int32 := 0
  deriving Repr, Inhabited

namespace Room

def new (id : String) : Room := { id }

def member? (r : Room) (slot : Nat) : Option Member := r.slots.getD slot none

def modify (r : Room) (slot : Option Nat) (f : Member → Member) : Room :=
  match slot with
  | some s => { r with slots := r.slots.modify s (·.map f) }
  | none => r

def allocate (r : Room) (m : Member) : Nat × Room :=
  match r.free with
  | slot :: free => (slot, { r with free, slots := r.slots.setIfInBounds slot (some m) })
  | [] => (r.slots.size, { r with slots := r.slots.push (some m) })

/-- Links a channel at the head; its slot. A dropped room refuses. -/
def link (r : Room) (channel : Nat) : Except GatewayError (Nat × Room) :=
  if r.dropped then .error .roomDropped
  else
    let (slot, r') := r.allocate { channel, before := none, behind := r.head }
    let r' := r'.modify r.head fun m => { m with before := some slot }
    .ok (slot, { r' with head := some slot, online := r.online + 1 })

/-- Takes the member out of a slot; `none` if the slot is vacant. -/
def unlink (r : Room) (slot : Nat) : Option Room :=
  (r.member? slot).map fun m =>
    let r' := { r with slots := r.slots.setIfInBounds slot none }
    let r' := r'.modify m.behind fun n => { n with before := m.before }
    let r' := match m.before with
      | some p => r'.modify (some p) fun n => { n with behind := m.behind }
      | none => { r' with head := m.behind }
    { r' with free := slot :: r.free, online := r.online - 1, dropped := r.online ≤ 1 }

/-- The slots from `at'` on. No walk visits more slots than there are. -/
def walk (r : Room) : Nat → Option Nat → List Nat
  | 0, _ => []
  | _ + 1, none => []
  | fuel + 1, some slot =>
    match r.member? slot with
    | some m => slot :: walk r fuel m.behind
    | none => []

def linked (r : Room) : List Nat := r.walk r.slots.size r.head

def members (r : Room) : List Nat := r.linked.filterMap fun slot => (r.member? slot).map (·.channel)

/-- Counts the slots from `at'` on. None if one of them names another slot before it than the walk
came from, or if there is no end. -/
def countLinked? (r : Room) : Nat → Option Nat → Option Nat → Option Nat
  | _, _, none => some 0
  | 0, _, some _ => none
  | fuel + 1, before, some slot =>
    match r.member? slot with
    | none => some 0
    | some m =>
      if m.before = before then (countLinked? r fuel (some slot) m.behind).map (· + 1) else none

def linkedLength? (r : Room) : Option Nat := r.countLinked? r.slots.size none r.head

/-- The count reported to clients: that of the cluster when it is known. -/
def onlineNum (r : Room) : Int32 := if 0 < r.allOnline then r.allOnline else .ofNat r.online

end Room

end PushGateway
