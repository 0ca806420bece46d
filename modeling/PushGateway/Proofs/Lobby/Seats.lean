import PushGateway.Lobby
import PushGateway.Proofs.Room.Chain

/-!
Seats and member lists say the same: a channel sits in a slot of a room exactly when the slot is its
own. Joining and leaving keep that, and move one channel; the rest of what a channel is, and what a
room is called, stays.
-/

namespace PushGateway

structure Channel.KeepsIdentity (ch ch' : Channel) : Prop where
  key : ch'.key = ch.key
  ip : ch'.ip = ch.ip
  seat : ch'.seat = ch.seat

namespace Lobby

structure SeatsAgree (l : Lobby) : Prop where
  chain : ∀ r, ∃ slots, (l.room r).Chain slots
  seat : ∀ c r slot, (l.channel c).seat = some ⟨r, slot⟩ ↔ (l.room r).owner? slot = some c

structure KeepsNames (l l' : Lobby) : Prop where
  channels : l'.channels.size = l.channels.size
  key : ∀ c, (l'.channel c).key = (l.channel c).key
  ip : ∀ c, (l'.channel c).ip = (l.channel c).ip
  rooms : l.rooms.size ≤ l'.rooms.size
  id : ∀ r, r < l.rooms.size → (l'.room r).id = (l.room r).id

/-- Nothing has changed but room `r` and the seat of channel `c`. -/
structure OnlyReseats (l : Lobby) (r c : Nat) (l' : Lobby) : Prop where
  rooms : l'.rooms.size = l.rooms.size
  channels : l'.channels.size = l.channels.size
  room : ∀ r', r' ≠ r → l'.room r' = l.room r'
  channel : ∀ c', c' ≠ c → l'.channel c' = l.channel c'
  rest : ∃ seat, l'.channel c = { l.channel c with seat }

/-- Nothing has changed but what channels have to send and who holds them. -/
structure EqualButQueues (l l' : Lobby) : Prop where
  rooms : l'.rooms = l.rooms
  channels : l'.channels.size = l.channels.size
  key : ∀ c, (l'.channel c).key = (l.channel c).key
  ip : ∀ c, (l'.channel c).ip = (l.channel c).ip
  seat : ∀ c, (l'.channel c).seat = (l.channel c).seat

section
variable {l l' l'' : Lobby}

theorem channel_modify (l : Lobby) (c : Nat) (f : Channel → Channel) (c' : Nat) :
    (l.modify c f).channel c' =
      if c' = c ∧ c < l.channels.size then f (l.channel c) else l.channel c' := by
  simp only [channel, modify, Array.getD_eq_getD_getElem?, Array.getElem?_modify]
  by_cases hc : c = c'
  · subst hc
    by_cases hlt : c < l.channels.size
    · simp [hlt]
    · simp [hlt]
  · simp [hc, Ne.symm hc]

theorem room_setRoom (l : Lobby) (r : Nat) (room : Room) (r' : Nat) :
    (l.setRoom r room).room r' = if r' = r ∧ r < l.rooms.size then room else l.room r' := by
  simp only [Lobby.room, setRoom, Array.getD_eq_getD_getElem?, Array.getElem?_setIfInBounds]
  by_cases hr : r = r'
  · subst hr
    by_cases hlt : r < l.rooms.size
    · simp [hlt]
    · simp [hlt]
  · simp [hr, Ne.symm hr]

theorem room_addRoom (l : Lobby) (id : String) (r : Nat) :
    (l.addRoom id).2.room r = if r = l.rooms.size then .new id else l.room r := by
  simp only [Lobby.room, addRoom, Array.getD_eq_getD_getElem?, Array.getElem?_push]
  split_ifs <;> rfl

theorem KeepsNames.refl (l : Lobby) : l.KeepsNames l :=
  ⟨rfl, fun _ => rfl, fun _ => rfl, Nat.le_refl _, fun _ _ => rfl⟩

theorem KeepsNames.trans (h : l.KeepsNames l') (h' : l'.KeepsNames l'') : l.KeepsNames l'' :=
  ⟨h'.channels.trans h.channels, fun c => (h'.key c).trans (h.key c),
    fun c => (h'.ip c).trans (h.ip c), Nat.le_trans h.rooms h'.rooms,
    fun r hr => (h'.id r (Nat.lt_of_lt_of_le hr h.rooms)).trans (h.id r hr)⟩

theorem EqualButQueues.refl (l : Lobby) : l.EqualButQueues l :=
  ⟨rfl, rfl, fun _ => rfl, fun _ => rfl, fun _ => rfl⟩

theorem EqualButQueues.trans (h : l.EqualButQueues l') (h' : l'.EqualButQueues l'') :
    l.EqualButQueues l'' :=
  ⟨h'.rooms.trans h.rooms, h'.channels.trans h.channels, fun c => (h'.key c).trans (h.key c),
    fun c => (h'.ip c).trans (h.ip c), fun c => (h'.seat c).trans (h.seat c)⟩

theorem EqualButQueues.room (h : l.EqualButQueues l') (r : Nat) : l'.room r = l.room r := by
  rw [Lobby.room, h.rooms]
  rfl

theorem EqualButQueues.roomOf (h : l.EqualButQueues l') (c : Nat) : l'.roomOf c = l.roomOf c := by
  rw [Lobby.roomOf, h.seat]
  rfl

theorem EqualButQueues.keepsNames (h : l.EqualButQueues l') : l.KeepsNames l' :=
  ⟨h.channels, h.key, h.ip, Nat.le_of_eq (congrArg Array.size h.rooms.symm),
    fun r _ => by rw [h.room]⟩

theorem EqualButQueues.seatsAgree (h : l.EqualButQueues l') (hs : l.SeatsAgree) :
    l'.SeatsAgree := by
  constructor
  · intro r
    rw [h.room]
    exact hs.chain r
  · intro c r slot
    rw [h.room, h.seat]
    exact hs.seat c r slot

theorem modify_equalButQueues (l : Lobby) (c : Nat) {f : Channel → Channel}
    (h : (l.channel c).KeepsIdentity (f (l.channel c))) : l.EqualButQueues (l.modify c f) := by
  refine ⟨rfl, Array.size_modify, ?_, ?_, ?_⟩
  · intro c'
    rw [channel_modify]
    split_ifs with hc
    · rw [h.key, hc.1]
    · rfl
  · intro c'
    rw [channel_modify]
    split_ifs with hc
    · rw [h.ip, hc.1]
    · rfl
  · intro c'
    rw [channel_modify]
    split_ifs with hc
    · rw [h.seat, hc.1]
    · rfl

theorem closeRoom_equalButQueues (l : Lobby) (r : Nat) : l.EqualButQueues (l.closeRoom r) := by
  rw [closeRoom]
  generalize l.members r = cs
  induction cs generalizing l with
  | nil => exact .refl l
  | cons c cs ih =>
    have hc := modify_equalButQueues l c (f := Channel.close) ⟨rfl, rfl, rfl⟩
    exact hc.trans (ih _)

theorem addRoom_keepsNames (l : Lobby) (id : String) : l.KeepsNames (l.addRoom id).2 := by
  refine ⟨rfl, fun _ => rfl, fun _ => rfl, ?_, ?_⟩
  · simp [addRoom]
  · intro r hr
    rw [room_addRoom, if_neg (by omega)]

theorem SeatsAgree.addRoom (hs : l.SeatsAgree) (id : String) : (l.addRoom id).2.SeatsAgree := by
  have hn : l.room l.rooms.size = default := by simp [Lobby.room]
  constructor
  · intro r
    rw [room_addRoom]
    split_ifs
    · exact ⟨[], Room.new_chain id⟩
    · exact hs.chain r
  · intro c r slot
    rw [room_addRoom]
    split_ifs with hr
    · refine (hs.seat c r slot).trans ?_
      rw [hr, hn]
      rfl
    · exact hs.seat c r slot

theorem SeatsAgree.roomOf_iff (hs : l.SeatsAgree) (c r : Nat) :
    l.roomOf c = some r ↔ ∃ slot, (l.room r).owner? slot = some c := by
  simp only [← hs.seat, roomOf, Option.map_eq_some_iff]
  constructor
  · rintro ⟨⟨r, slot⟩, hc, rfl⟩
    exact ⟨slot, hc⟩
  · rintro ⟨slot, hc⟩
    exact ⟨⟨r, slot⟩, hc, rfl⟩

theorem SeatsAgree.lt (hs : l.SeatsAgree) {c r : Nat} (hc : l.roomOf c = some r) :
    r < l.rooms.size := by
  obtain ⟨slot, ho⟩ := (hs.roomOf_iff c r).1 hc
  by_contra hn
  have hr : l.room r = default := by simp [Lobby.room, hn]
  rw [hr] at ho
  cases ho

theorem channel_lt {c r : Nat} (hc : l.roomOf c = some r) : c < l.channels.size := by
  by_contra hn
  have hd : l.channel c = default := by simp [Lobby.channel, hn]
  rw [roomOf, hd] at hc
  cases hc

theorem SeatsAgree.mem_members (hs : l.SeatsAgree) (c r : Nat) :
    c ∈ (l.room r).members ↔ l.roomOf c = some r := by
  obtain ⟨slots, hc⟩ := hs.chain r
  rw [hc.mem_members, hs.roomOf_iff]

theorem SeatsAgree.owner?_inj (hs : l.SeatsAgree) (r s t c : Nat)
    (hos : (l.room r).owner? s = some c) (hot : (l.room r).owner? t = some c) : s = t := by
  rw [← hs.seat] at hos hot
  rw [hos] at hot
  cases hot
  rfl

theorem SeatsAgree.members_nodup (hs : l.SeatsAgree) (r : Nat) : (l.room r).members.Nodup := by
  obtain ⟨slots, hc⟩ := hs.chain r
  exact hc.members_nodup (hs.owner?_inj r)

theorem SeatsAgree.not_dropped (hs : l.SeatsAgree) {c r : Nat} (hc : l.roomOf c = some r) :
    (l.room r).dropped = false := by
  obtain ⟨slots, hch⟩ := hs.chain r
  obtain ⟨slot, ho⟩ := (hs.roomOf_iff c r).1 hc
  by_contra hd
  have hn := hch.eq_nil_iff.1 (hch.dropped (Bool.not_eq_false _ ▸ hd)) slot
  rw [hn] at ho
  cases ho

theorem SeatsAgree.online_eq (hs : l.SeatsAgree) (r : Nat) {cs : List Nat} (hn : cs.Nodup)
    (hm : ∀ c, l.roomOf c = some r → c ∈ cs) :
    (l.room r).online = cs.countP fun c => l.roomOf c = some r := by
  obtain ⟨slots, hc⟩ := hs.chain r
  have hp : (l.room r).members.Perm (cs.filter fun c => l.roomOf c = some r) := by
    rw [List.perm_ext_iff_of_nodup (hs.members_nodup r) (hn.filter _)]
    intro c
    simp only [hs.mem_members, List.mem_filter, decide_eq_true_eq]
    exact ⟨fun h => ⟨hm c h, h⟩, fun h => h.2⟩
  rw [← hc.length_members, hp.length_eq, List.countP_eq_length_filter]

def reseat (l : Lobby) (r : Nat) (room : Room) (c : Nat) (seat : Option Seat) : Lobby :=
  (l.setRoom r room).modify c fun ch => { ch with seat }

section
variable {r c : Nat} {room : Room} {seat : Option Seat}

theorem room_reseat (hr : r < l.rooms.size) (r' : Nat) :
    (l.reseat r room c seat).room r' = if r' = r then room else l.room r' := by
  refine (room_setRoom l r room r').trans ?_
  simp only [hr, and_true]

theorem channel_reseat (hc : c < l.channels.size) (c' : Nat) :
    (l.reseat r room c seat).channel c' =
      if c' = c then { l.channel c with seat } else l.channel c' := by
  refine (channel_modify (l.setRoom r room) c _ c').trans ?_
  have hc' : c < (l.setRoom r room).channels.size := hc
  simp only [hc', and_true]
  rfl

theorem reseat_rooms :
    (l.reseat r room c seat).rooms.size = l.rooms.size := Array.size_setIfInBounds

theorem reseat_keepsNames (hr : r < l.rooms.size) (hc : c < l.channels.size)
    (hid : room.id = (l.room r).id) : l.KeepsNames (l.reseat r room c seat) := by
  refine ⟨Array.size_modify, ?_, ?_, Nat.le_of_eq reseat_rooms.symm, ?_⟩
  · intro c'
    rw [channel_reseat hc]
    split_ifs with hcc
    · rw [hcc]
    · rfl
  · intro c'
    rw [channel_reseat hc]
    split_ifs with hcc
    · rw [hcc]
    · rfl
  · intro r' hr'
    rw [room_reseat hr]
    split_ifs with hrr
    · rw [hid, hrr]
    · rfl

theorem roomOf_reseat (hc : c < l.channels.size) (c' : Nat) :
    (l.reseat r room c seat).roomOf c' = if c' = c then seat.map (·.room) else l.roomOf c' := by
  rw [roomOf, channel_reseat hc]
  split_ifs <;> rfl

theorem SeatsAgree.reseat (hs : l.SeatsAgree) (hr : r < l.rooms.size) (hc : c < l.channels.size)
    (hch : ∃ slots, room.Chain slots)
    (hseat : ∀ c' r' s, (if c' = c then seat else (l.channel c').seat) = some ⟨r', s⟩ ↔
      (if r' = r then room else l.room r').owner? s = some c') :
    (l.reseat r room c seat).SeatsAgree := by
  constructor
  · intro r'
    rw [room_reseat hr]
    split_ifs
    · exact hch
    · exact hs.chain r'
  · intro c' r' s
    rw [room_reseat hr, channel_reseat hc, ← hseat]
    split_ifs <;> rfl

end

theorem reseat_onlyReseats (l : Lobby) (r : Nat) (room : Room) (c : Nat) (seat : Option Seat) :
    l.OnlyReseats r c (l.reseat r room c seat) := by
  refine ⟨reseat_rooms, Array.size_modify, ?_, ?_, ?_⟩
  · intro r' hr'
    exact (room_setRoom l r room r').trans (if_neg fun h => hr' h.1)
  · intro c' hc'
    exact (channel_modify (l.setRoom r room) c _ c').trans (if_neg fun h => hc' h.1)
  · by_cases hc : c < l.channels.size
    · exact ⟨seat, (channel_reseat hc c).trans (if_pos rfl)⟩
    · exact ⟨(l.channel c).seat,
        (channel_modify (l.setRoom r room) c _ c).trans (if_neg fun h => hc h.2)⟩

theorem join_onlyReseats {r c : Nat} (h : l.join r c = .ok l') : l.OnlyReseats r c l' := by
  simp only [Lobby.join, bind, Except.bind, pure, Except.pure] at h
  split at h
  · cases h
  · cases h
    exact reseat_onlyReseats ..

theorem leave_onlyReseats (l : Lobby) (r c : Nat) : l.OnlyReseats r c (l.leave r c).2 := by
  have hsame (seat : Option Seat) : l.OnlyReseats r c (l.modify c fun ch => { ch with seat }) :=
    ⟨rfl, Array.size_modify, fun _ _ => rfl, (reseat_onlyReseats l r (l.room r) c seat).channel,
      (reseat_onlyReseats l r (l.room r) c seat).rest⟩
  simp only [Lobby.leave]
  split
  · exact ⟨rfl, rfl, fun _ _ => rfl, fun _ _ => rfl, _, rfl⟩
  · split
    · exact ⟨rfl, rfl, fun _ _ => rfl, fun _ _ => rfl, _, rfl⟩
    · split
      · exact hsame none
      · exact reseat_onlyReseats ..

theorem join_dropped {r : Nat} (hd : (l.room r).dropped = true) (c : Nat) :
    l.join r c = .error .roomDropped := by
  rw [Lobby.join, Room.link, if_pos hd]
  rfl

theorem join_reseat {r : Nat} {slots : List Nat} (hch : (l.room r).Chain slots)
    (hd : (l.room r).dropped = false) (c : Nat) :
    ∃ slot room, l.join r c = .ok (l.reseat r room c (some ⟨r, slot⟩)) ∧
      room.Chain (slot :: slots) ∧
      (l.room r).Joined c slot room := by
  obtain ⟨slot, room, hl, hch', hj⟩ := hch.link hd c
  refine ⟨slot, room, ?_, hch', hj⟩
  rw [Lobby.join, hl]
  rfl

theorem SeatsAgree.leave_reseat (hs : l.SeatsAgree) {r c : Nat} {slots : List Nat}
    (hch : (l.room r).Chain slots) (hc : l.roomOf c = some r) :
    ∃ slot room, l.leave r c = (room.dropped, l.reseat r room c none) ∧
      room.Chain (slots.erase slot) ∧
      (l.room r).Left slot room ∧ (l.room r).owner? slot = some c := by
  obtain ⟨slot, ho⟩ := (hs.roomOf_iff c r).1 hc
  obtain ⟨room, hu, hch', hleft⟩ := hch.unlink (hch.mem_of_owner ho)
  refine ⟨slot, room, ?_, hch', hleft, ho⟩
  have hroom : (l.modify c fun ch => { ch with seat := none }).room r = l.room r := rfl
  simp only [Lobby.leave, (hs.seat c r slot).2 ho, ne_eq, not_true_eq_false, if_false, hroom, hu]
  rfl

theorem SeatsAgree.join (hs : l.SeatsAgree) {r c : Nat} (hr : r < l.rooms.size)
    (hd : (l.room r).dropped = false) (hc : c < l.channels.size) (hn : l.roomOf c = none) :
    ∃ l', l.join r c = .ok l' ∧ l'.SeatsAgree ∧ l.KeepsNames l' ∧ l'.rooms.size = l.rooms.size ∧
      ∀ c', l'.roomOf c' = if c' = c then some r else l.roomOf c' := by
  obtain ⟨slots, hch⟩ := hs.chain r
  obtain ⟨slot, room, hj', hch', hj⟩ := join_reseat hch hd c
  have hn' : (l.channel c).seat = none := Option.map_eq_none_iff.1 hn
  refine ⟨_, hj', hs.reseat hr hc ⟨_, hch'⟩ ?_, reseat_keepsNames hr hc hj.id, reseat_rooms,
    roomOf_reseat hc⟩
  intro c' r' s
  have ho := hs.seat c' r' s
  have hoj := hj.owner? s
  have hov := hj.vacant
  -- Only `c` and the slot it got are new; nobody had either before.
  split_ifs with hcc hrr hrr
  · grind
  · grind
  · grind
  · exact ho

theorem SeatsAgree.leave (hs : l.SeatsAgree) {r c : Nat} (hc : l.roomOf c = some r) :
    (l.leave r c).2.SeatsAgree ∧ l.KeepsNames (l.leave r c).2 ∧
      (l.leave r c).2.rooms.size = l.rooms.size ∧
      (∀ c', (l.leave r c).2.roomOf c' = if c' = c then none else l.roomOf c') ∧
      ((l.leave r c).1 = true ↔ ∀ c', (l.leave r c).2.roomOf c' ≠ some r) := by
  obtain ⟨slots, hch⟩ := hs.chain r
  obtain ⟨slot, room, hl, hch', hleft, ho⟩ := hs.leave_reseat hch hc
  have hseat := (hs.seat c r slot).2 ho
  have hr := hs.lt hc
  have hlt := channel_lt hc
  have hs' : (l.reseat r room c none).SeatsAgree := by
    apply hs.reseat hr hlt ⟨_, hch'⟩
    intro c' r' s
    have hown := hs.seat c' r' s
    have hoj := hleft.owner? s
    split_ifs with hcc hrr hrr
    · grind
    · grind
    · grind
    · exact hown
  rw [hl]
  refine ⟨hs', reseat_keepsNames hr hlt hleft.id, reseat_rooms, roomOf_reseat hlt,
    hleft.dropped.trans ?_⟩
  have hroom : (l.reseat r room c none).room r = room := (room_reseat hr r).trans (if_pos rfl)
  constructor
  · intro hn c' hc'
    obtain ⟨s, hos⟩ := (hs'.roomOf_iff c' r).1 hc'
    rw [hroom, hn] at hos
    cases hos
  · intro hn s
    rw [Option.eq_none_iff_forall_ne_some]
    intro c' hos
    exact hn c' ((hs'.roomOf_iff c' r).2 ⟨s, by rw [hroom]; exact hos⟩)

end

end Lobby

end PushGateway
