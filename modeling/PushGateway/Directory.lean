import PushGateway.Hash
import PushGateway.Lobby
import PushGateway.Table
import PushGateway.Text.Utf8

/-!
The directory of sessions and rooms, spread over buckets by the hash of the session key. A bucket
maps keys to channels, ids to rooms and addresses to the number of their connections; what it holds
is checked by identity before it is taken out, so that a late removal never hits a successor. Each
bucket has workers for pushes to rooms, served in turn, with a bounded queue each.
-/

namespace PushGateway

/-- A push on its way to whatever room has the id when a worker comes to it. -/
structure RoomPush where
  room : String
  frame : Frame
  deriving DecidableEq, Repr

structure Bucket where
  sessions : Table String Nat := []
  rooms : Table String Nat := []
  /-- Connections of an address. These counts too the gateway keeps in 32 bits with a sign, which
  differ from `2 ^ 31` connections of one address on. -/
  ips : Table String Nat := []
  workers : Array (List RoomPush) := #[[]]
  depth : Nat := 1
  /-- Pushes offered so far. -/
  turn : Nat := 0
  deriving Repr, Inhabited

namespace Bucket

def new (workers depth : Nat) : Bucket :=
  { workers := .replicate (max workers 1) [], depth := max depth 1 }

/-- Queues a push with the worker whose turn it is; false, and the push is lost, if it has no
place. -/
def enqueue (b : Bucket) (p : RoomPush) : Bool × Bucket :=
  let w := b.turn % b.workers.size
  let queue := b.workers.getD w []
  let b := { b with turn := b.turn + 1 }
  if queue.length < b.depth then (true,
    { b with workers := b.workers.setIfInBounds w (queue ++ [p]) })
  else (false, b)

def dropIp (b : Bucket) (ip : String) : Bucket :=
  match b.ips.get? ip with
  | none => b
  | some n => { b with ips := if n ≤ 1 then b.ips.erase ip else b.ips.insert ip (n - 1) }

def ipCount (b : Bucket) (ip : String) : Nat := (b.ips.get? ip).getD 0

end Bucket

structure Directory where
  lobby : Lobby := {}
  buckets : Array Bucket := #[]
  deriving Repr

namespace Directory

def new (buckets workers depth : Nat) : Directory :=
  { buckets := .replicate (max buckets 1) (.new workers depth) }

def bucket (d : Directory) (b : Nat) : Bucket := d.buckets.getD b default

def setBucket (d : Directory) (b : Nat) (bucket : Bucket) : Directory :=
  { d with buckets := d.buckets.setIfInBounds b bucket }

def withLobby (d : Directory) (lobby : Lobby) : Directory := { d with lobby }

def bucketOf (d : Directory) (key : String) : Nat :=
  (Hash.murmur3 (Text.Utf8.encode key.toList) 0).toNat % d.buckets.size

def session? (d : Directory) (b : Nat) (key : String) : Option Nat := (d.bucket b).sessions.get? key

def room? (d : Directory) (b : Nat) (id : String) : Option Nat := (d.bucket b).rooms.get? id

def roomOrCreate (d : Directory) (b : Nat) (id : String) : Nat × Directory :=
  match d.room? b id with
  | some r => (r, d)
  | none =>
    let (r, lobby) := d.lobby.addRoom id
    let bucket := d.bucket b
    (r, (d.withLobby lobby).setBucket b { bucket with rooms := bucket.rooms.insert id r })

/-- The room to use instead of a dropped one: the one the directory has by now, or a fresh one. -/
def replaceDropped (d : Directory) (b r : Nat) : Nat × Directory :=
  let id := (d.lobby.room r).id
  match (d.room? b id).filter (· ≠ r) with
  | some current => (current, d)
  | none =>
    let (fresh, lobby) := d.lobby.addRoom id
    let bucket := d.bucket b
    (fresh, (d.withLobby lobby).setBucket b { bucket with rooms := bucket.rooms.insert id fresh })

/-- Takes a room out of the directory unless its id stands for another room now. -/
def delRoom (d : Directory) (b r : Nat) : Directory :=
  let bucket := d.bucket b
  let id := (d.lobby.room r).id
  if bucket.rooms.get? id = some r then
    d.setBucket b { bucket with rooms := bucket.rooms.erase id }
  else d

def joinRetry (b c : Nat) : Nat → Nat → Directory → Except GatewayError Unit × Directory
  | 0, _, d => (.error .roomDropped, d)
  | attempts + 1, r, d =>
    match d.lobby.join r c with
    | .ok lobby => (.ok (), d.withLobby lobby)
    | .error .roomDropped =>
      let (r, d) := d.replaceDropped b r
      joinRetry b c attempts r d
    | .error e => (.error e, d)

def joinAttempts : Nat := 3

def joinRoom (d : Directory) (b : Nat) (id : String) (c : Nat) :
    Except GatewayError Unit × Directory :=
  let (r, d) := d.roomOrCreate b id
  joinRetry b c joinAttempts r d

def leaveRoom (d : Directory) (b r c : Nat) : Directory :=
  let (emptied, lobby) := d.lobby.leave r c
  let d := d.withLobby lobby
  if emptied then d.delRoom b r else d

def changeRoom (d : Directory) (b : Nat) (id : String) (c : Nat) :
    Except GatewayError Unit × Directory :=
  let enter (d : Directory) := if id = "" then (.ok (), d) else d.joinRoom b id c
  match d.lobby.roomOf c with
  | none => enter d
  | some old => if (d.lobby.room old).id = id then (.ok (), d) else enter (d.leaveRoom b old c)

/-- Takes a room out of the directory and asks its members to finish; they keep their seats. -/
def closeRoom (d : Directory) (b : Nat) (id : String) : Bool × Directory :=
  let bucket := d.bucket b
  match bucket.rooms.get? id with
  | none => (false, d)
  | some r =>
    (true, (d.withLobby (d.lobby.closeRoom r)).setBucket b
      { bucket with rooms := bucket.rooms.erase id })

/-- Puts a channel under its key. A different channel found there is asked to finish. -/
def register (d : Directory) (b c : Nat) : Directory :=
  let ch := d.lobby.channel c
  let bucket := d.bucket b
  let lobby := d.lobby.modify c Channel.hold
  let lobby := match bucket.sessions.get? ch.key with
    | none => lobby
    | some old => lobby.modify old fun o => if old = c then o.release else o.close.release
  (d.withLobby lobby).setBucket b
    { bucket with
      sessions := bucket.sessions.insert ch.key c
      ips := bucket.ips.insert ch.ip (bucket.ipCount ch.ip + 1) }

def put (d : Directory) (b : Nat) (id : String) (c : Nat) : Except GatewayError Unit × Directory :=
  let d := d.register b c
  if id = "" then (.ok (), d) else d.joinRoom b id c

def unregister (d : Directory) (b c : Nat) : Directory :=
  let ch := d.lobby.channel c
  let bucket := d.bucket b
  let here := bucket.sessions.get? ch.key = some c
  let bucket := if here then { bucket with sessions := bucket.sessions.erase ch.key } else bucket
  let d := if here then d.withLobby (d.lobby.modify c Channel.release) else d
  d.setBucket b (bucket.dropIp ch.ip)

def del (d : Directory) (b c : Nat) : Directory :=
  let d := d.unregister b c
  match d.lobby.roomOf c with
  | none => d
  | some r => d.leaveRoom b r c

def broadcastIn (d : Directory) (b : Nat) (op : Int32) (f : Frame) : Nat × Directory :=
  let (n, lobby) := Lobby.offerAll op f d.lobby (d.bucket b).sessions.values
  (n, d.withLobby lobby)

def broadcast (d : Directory) (op : Int32) (f : Frame) : Nat × Directory :=
  (List.range d.buckets.size).foldl
    (fun (n, d) b => let (m, d) := d.broadcastIn b op f; (n + m, d)) (0, d)

def pushKeys (d : Directory) (keys : List String) (op : Int32) (f : Frame) : Nat × Directory :=
  let (n, lobby) := Lobby.offerAll op f d.lobby
    (keys.filterMap fun k => d.session? (d.bucketOf k) k)
  (n, d.withLobby lobby)

def broadcastRoomIn (d : Directory) (b : Nat) (p : RoomPush) : Bool × Directory :=
  let (ok, bucket) := (d.bucket b).enqueue p
  (ok, d.setBucket b bucket)

def broadcastRoom (d : Directory) (p : RoomPush) : Nat × Directory :=
  (List.range d.buckets.size).foldl
    (fun (n, d) b => let (ok, d) := d.broadcastRoomIn b p; (n + ok.toNat, d)) (0, d)

def workerStep (d : Directory) (b w : Nat) : Option Directory :=
  let bucket := d.bucket b
  match bucket.workers.getD w [] with
  | [] => none
  | p :: queue =>
    let d := d.setBucket b { bucket with workers := bucket.workers.setIfInBounds w queue }
    match bucket.rooms.get? p.room with
    | none => some d
    | some r => some (d.withLobby (d.lobby.broadcast r p.frame).2)

def workerRun (b w : Nat) : Nat → Directory → Directory
  | 0, d => d
  | fuel + 1, d =>
    match d.workerStep b w with
    | none => d
    | some d => workerRun b w fuel d

def serve (d : Directory) (b : Nat) : Directory :=
  (List.range (d.bucket b).workers.size).foldl
    (fun d w => workerRun b w (d.bucket b).depth d) d

def channelCount (d : Directory) : Nat :=
  d.buckets.foldl (fun n bucket => n + bucket.sessions.length) 0

def roomsCountIn (d : Directory) (b : Nat) : Table String Nat :=
  (d.bucket b).rooms.filterMap fun (id, r) =>
    let online := (d.lobby.room r).online
    if 0 < online then some (id, online) else none

def roomCounts (d : Directory) : Table String Int32 :=
  (List.range d.buckets.size).foldl
    (fun t b => t.addAll ((d.roomsCountIn b).map fun (id, n) => (id, .ofNat n))) []

def roomIds (d : Directory) : List String :=
  ((List.range d.buckets.size).flatMap fun b => (d.roomsCountIn b).keys).eraseDups

/-- Tells the rooms of a bucket the counts of the cluster; a room without one is told zero. -/
def updateCountsIn (d : Directory) (b : Nat) (counts : Table String Int32) : Directory :=
  d.withLobby ((d.bucket b).rooms.foldl
    (fun l (id, r) => l.setAllOnline r ((counts.get? id).getD 0)) d.lobby)

def updateCounts (d : Directory) (counts : Table String Int32) : Directory :=
  (List.range d.buckets.size).foldl (fun d b => d.updateCountsIn b counts) d

def ips (d : Directory) : Table String Nat :=
  d.buckets.toList.foldl (fun t bucket => t.addAll bucket.ips) []

end Directory

end PushGateway
