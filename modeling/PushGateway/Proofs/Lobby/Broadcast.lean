import PushGateway.Proofs.Lobby.Fanout
import PushGateway.Proofs.Lobby.Roster

/-!
A push to a room. Whatever joins and leaves have made of the room, the walk along its members meets
each of them once, so each takes the push once if it can, and what one of them cannot take is no
matter to the others. Of several pushes a member takes the first, as many as it has places for.
-/

namespace PushGateway

/-- A push of this code that a room passes on would be queued: somebody holds the channel, the code
is watched for, somebody reads and there is a place. -/
def Channel.takes (ch : Channel) (op : Int32) : Bool := ch.exists? && ch.accepts op

def Outbox.vacant (o : Outbox) : Nat := if o.hasReceiver then o.places - o.queue.length else 0

def Channel.offered (ch : Channel) (fs : List Frame) : Channel :=
  fs.foldl (fun ch f => if ch.takes f.op then ch.queued f else ch) ch

def Lobby.pass (l : Lobby) (f : Frame) : Option Nat → Lobby
  | none => l
  | some r => (l.broadcast r f).2

namespace Outbox

variable {o : Outbox}

theorem vacant_push (hp : (o.hasReceiver && o.hasPlace) = true) (s : Signal) :
    o.vacant = (o.push s).vacant + 1 := by
  have hplace := Bool.and_eq_true_iff.1 hp
  have hlt : o.queue.length < o.places := of_decide_eq_true hplace.2
  simp only [vacant, push, hplace.1, if_true, List.length_append, List.length_singleton]
  omega

theorem vacant_eq_zero (hp : (o.hasReceiver && o.hasPlace) = false) : o.vacant = 0 := by
  rw [vacant]
  split_ifs with hr
  · rw [hr, Bool.true_and] at hp
    exact Nat.sub_eq_zero_of_le (by simpa [hasPlace] using hp)
  · rfl

end Outbox

namespace Channel

variable {ch : Channel}

theorem takes_watched {op : Int32} (he : ch.exists? = true) (hw : ch.needsPush op = true) :
    ch.takes op = (ch.outbox.hasReceiver && ch.outbox.hasPlace) := by
  rw [takes, accepts, he, hw, Bool.true_and, Bool.true_and]

theorem offered_append (ch : Channel) (fs gs : List Frame) :
    ch.offered (fs ++ gs) = (ch.offered fs).offered gs :=
  List.foldl_append

theorem offered_queue {fs : List Frame} (hw : ∀ f ∈ fs, ch.needsPush f.op = true)
    (he : ch.exists? = true) :
    (ch.offered fs).outbox.queue = ch.outbox.queue ++ (fs.take ch.outbox.vacant).map .data := by
  induction fs generalizing ch with
  | nil => simp [offered]
  | cons f fs ih =>
    have hrest := fun g hg => hw g (List.mem_cons_of_mem f hg)
    change (Channel.offered (if ch.takes f.op then ch.queued f else ch) fs).outbox.queue = _
    rw [takes_watched he (hw f List.mem_cons_self)]
    cases hp : ch.outbox.hasReceiver && ch.outbox.hasPlace with
    | true =>
      have hqueued : ((ch.queued f).offered fs).outbox.queue = _ := ih hrest he
      have hvacant : ch.outbox.vacant = (ch.queued f).outbox.vacant + 1 := Outbox.vacant_push hp _
      rw [if_pos rfl, hqueued, hvacant, List.take_succ_cons, List.map_cons]
      exact List.append_assoc ..
    | false =>
      rw [if_neg Bool.false_ne_true, ih hrest he, Outbox.vacant_eq_zero hp]
      rfl

end Channel

namespace Lobby

variable {l : Lobby}

/-- A push to the room with these members has gone to all who take it, and changed nothing else. -/
structure DeliversToTakers (l : Lobby) (members : List Nat) (f : Frame) (sent : Nat) (l' : Lobby) :
    Prop where
  sent : sent = members.countP fun c => (l.channel c).takes f.op
  channel : ∀ c, l'.channel c =
    if c ∈ members ∧ (l.channel c).takes f.op then (l.channel c).queued f else l.channel c
  channels : l'.channels.size = l.channels.size
  rooms : l'.rooms = l.rooms
  watched : ∀ c, (l'.channel c).watched = (l.channel c).watched

theorem SeatsAgree.broadcast_deliversToTakers (hs : l.SeatsAgree) (r : Nat) (f : Frame) :
    l.DeliversToTakers (l.room r).members f (l.broadcast r f).1 (l.broadcast r f).2 := by
  have hn : (l.members r).Nodup := (hs.members_nodup r).filter _
  have hchannel (c : Nat) : (l.broadcast r f).2.channel c =
      if c ∈ (l.room r).members ∧ (l.channel c).takes f.op then (l.channel c).queued f
      else l.channel c := by
    rw [broadcast, offerAll_channel hn]
    simp only [members, List.mem_filter, Channel.takes, Bool.and_eq_true, and_assoc]
  constructor
  · rw [broadcast, offerAll_count hn, members, List.countP_filter]
    simp only [Channel.takes, Bool.and_comm]
  · exact hchannel
  · exact offerAll_size l f.op f (l.members r)
  · exact offerAll_rooms l f.op f (l.members r)
  · intro c
    rw [hchannel]
    split_ifs <;> rfl

theorem pass_equalButQueues (l : Lobby) (f : Frame) (r : Option Nat) :
    l.EqualButQueues (l.pass f r) := by
  cases r with
  | none => exact .refl l
  | some r => exact l.offerAll_equalButQueues f.op f _

theorem SeatsAgree.pass_channel (hs : l.SeatsAgree) (f : Frame) (r : Option Nat) (c : Nat) :
    (l.pass f r).channel c = (l.channel c).offered (if (l.roomOf c).any (r = some ·) then [f]
      else []) := by
  cases r with
  | none => simp [pass, Channel.offered]
  | some r =>
    refine ((hs.broadcast_deliversToTakers r f).channel c).trans ?_
    simp only [hs.mem_members]
    by_cases hc : l.roomOf c = some r
    · simp [hc, Channel.offered]
    · have hany : (l.roomOf c).any (some r = some ·) = false := by
        cases hr : l.roomOf c with
        | none => rfl
        | some r' => simpa [hr, eq_comm] using hc
      rw [if_neg fun h => hc h.1, hany]
      rfl

end Lobby

namespace RoomOp

variable {l l' : Lobby} {h : List RoomOp} {rooms channels r c : Nat}

theorem Legal.roster_eq (hl : Legal rooms channels h) (hr : rooms ≤ r) : roster r h = {} := by
  induction hl with
  | nil => rfl
  | join _ hr' _ _ ih =>
    rw [roster, if_neg (by omega)]
    exact ih
  | leave _ ih =>
    rw [roster, ih]
    split_ifs <;> rfl

theorem Legal.join_among (hl : Legal rooms channels h) (hr : r < rooms) (hc : c < channels)
    (hn : ∀ r' < rooms, c ∉ (roster r' h).members) : Legal rooms channels (.join r c :: h) := by
  refine .join hl hr hc fun r' => ?_
  by_cases hr' : r' < rooms
  · exact hn r' hr'
  · rw [hl.roster_eq (by omega)]
    exact List.not_mem_nil

/-- After any legal history, and whatever has come of queues, watched codes and holders meanwhile, a
push to a room reaches those on its roster who take it. -/
theorem after_deliversToTakers (hf : l.Fresh) (hl : Legal l.rooms.size l.channels.size h)
    (ha : (after l h).EqualButQueues l') (r : Nat) (f : Frame) :
    l'.DeliversToTakers (roster r h).members f (l'.broadcast r f).1 (l'.broadcast r f).2 := by
  have ht := matchesRosters hf hl
  have hm : (l'.room r).members = (roster r h).members := by rw [ha.room,
    (ht.matchesRoster r).members]
  rw [← hm]
  exact (ha.seatsAgree ht.seatsAgree).broadcast_deliversToTakers r f

/-- A channel with a place, one whose place is taken with a finish waiting for it, one that nobody
reads, one that watches for nothing, one that nobody holds, and one that stays outside. -/
def channelsOfEveryKind : Lobby :=
  ⟨#[{ watched := [5] }, { watched := [5], outbox := { queue := [.ready], waiting := 1 } },
    { watched := [5], outbox := { hasReceiver := false } }, {}, { watched := [5], holders := 0 },
    { watched := [5] }], #[.new "r"]⟩

/-- All but the last come in, and the first goes out and in again. -/
def joinsAndRejoin : List RoomOp :=
  [.join 0 0, .leave 0 0, .join 0 4, .join 0 3, .join 0 2, .join 0 1, .join 0 0]

theorem channelsOfEveryKind_fresh : channelsOfEveryKind.Fresh where
  room
    | 0 => ⟨"r", rfl⟩
    | _ + 1 => ⟨"", rfl⟩
  seat
    | 0 | 1 | 2 | 3 | 4 | 5 => rfl
    | _ + 6 => rfl

theorem joinsAndRejoin_legal : Legal 1 6 joinsAndRejoin := by
  have h0 : Legal 1 6 [.join 0 0] := .join_among .nil (by decide) (by decide) (by decide)
  have h1 : Legal 1 6 [.join 0 1, .join 0 0] := .join_among h0 (by decide) (by decide) (by decide)
  have h2 := h1.join_among (r := 0) (c := 2) (by decide) (by decide) (by decide)
  have h3 := h2.join_among (r := 0) (c := 3) (by decide) (by decide) (by decide)
  have h4 := h3.join_among (r := 0) (c := 4) (by decide) (by decide) (by decide)
  exact .join_among (.leave h4) (by decide) (by decide) (by decide)

/-- The fourth channel watches for the code by the time the push comes, so it and the first take
it. -/
theorem after_deliversToTakers_channelsOfEveryKind : channelsOfEveryKind.Fresh ∧
    Legal 1 6 joinsAndRejoin ∧ (after channelsOfEveryKind joinsAndRejoin).EqualButQueues
    ((after channelsOfEveryKind joinsAndRejoin).modify 3 (·.watch [5])) ∧
    (((after channelsOfEveryKind joinsAndRejoin).modify 3 (·.watch [5])).broadcast 0 ⟨1, 5, 9,
    [1]⟩).1 = 2 := by
  have ha : (after channelsOfEveryKind joinsAndRejoin).EqualButQueues
    ((after channelsOfEveryKind joinsAndRejoin).modify 3 (·.watch [5])) :=
    Lobby.modify_equalButQueues _ 3 ⟨rfl, rfl, rfl⟩
  have hr := after_deliversToTakers channelsOfEveryKind_fresh joinsAndRejoin_legal ha 0
    ⟨1, 5, 9, [1]⟩
  exact ⟨channelsOfEveryKind_fresh, joinsAndRejoin_legal, ha, hr.sent.trans (by decide)⟩

end RoomOp

end PushGateway
