import PushGateway.Channel
import PushGateway.Room

/-!
All channels and rooms there are, by number. Joining and leaving keep the member list of a room and
the seats of the channels in step; pushes are offered to whoever watches for them.
-/

namespace PushGateway

structure Lobby where
  channels : Array Channel := #[]
  rooms : Array Room := #[]
  deriving Repr

namespace Lobby

def channel (l : Lobby) (c : Nat) : Channel := l.channels.getD c default

def room (l : Lobby) (r : Nat) : Room := l.rooms.getD r default

def modify (l : Lobby) (c : Nat) (f : Channel → Channel) : Lobby :=
  { l with channels := l.channels.modify c f }

def setRoom (l : Lobby) (r : Nat) (room : Room) : Lobby :=
  { l with rooms := l.rooms.setIfInBounds r room }

def addChannel (l : Lobby) (c : Channel) : Nat × Lobby :=
  (l.channels.size, { l with channels := l.channels.push c })

def addRoom (l : Lobby) (id : String) : Nat × Lobby :=
  (l.rooms.size, { l with rooms := l.rooms.push (.new id) })

def roomOf (l : Lobby) (c : Nat) : Option Nat := (l.channel c).seat.map (·.room)

def join (l : Lobby) (r c : Nat) : Except GatewayError Lobby := do
  let (slot, room) ← (l.room r).link c
  return (l.setRoom r room).modify c fun ch => { ch with seat := some ⟨r, slot⟩ }

/-- Unseats a channel that sits in this very room; true if that emptied the room. -/
def leave (l : Lobby) (r c : Nat) : Bool × Lobby :=
  match (l.channel c).seat with
  | none => (false, l)
  | some seat =>
    if seat.room ≠ r then (false, l)
    else
      let l := l.modify c fun ch => { ch with seat := none }
      match (l.room r).unlink seat.slot with
      | none => (false, l)
      | some room => (room.dropped, l.setRoom r room)

def members (l : Lobby) (r : Nat) : List Nat :=
  (l.room r).members.filter fun c => (l.channel c).exists?

def deliver (l : Lobby) (c : Nat) (f : Frame) : Bool × Lobby :=
  let (ok, ch) := (l.channel c).deliver f
  (ok, l.modify c fun _ => ch)

def offer (l : Lobby) (op : Int32) (f : Frame) (c : Nat) : Bool × Lobby :=
  if (l.channel c).needsPush op then l.deliver c f else (false, l)

def offerAll (op : Int32) (f : Frame) (l : Lobby) : List Nat → Nat × Lobby
  | [] => (0, l)
  | c :: cs =>
    let (ok, l) := l.offer op f c
    let (n, l) := offerAll op f l cs
    (n + ok.toNat, l)

def broadcast (l : Lobby) (r : Nat) (f : Frame) : Nat × Lobby := offerAll f.op f l (l.members r)

def closeRoom (l : Lobby) (r : Nat) : Lobby :=
  (l.members r).foldl (fun l c => l.modify c Channel.close) l

def setAllOnline (l : Lobby) (r : Nat) (count : Int32) : Lobby :=
  { l with rooms := l.rooms.modify r fun room => { room with allOnline := count } }

end Lobby

end PushGateway
