import Mathlib.Data.List.Nodup
import Mathlib.Tactic.Common
import PushGateway.Proofs.Lobby.Seats

/-!
What a room has been told is a plain list: those who joined and did not leave, the latest first,
until nobody is left, which ends it. Over any joins of channels that sit nowhere and any leaves, the
slots and links of a room spell out that list, and the channels' seats agree with it.
-/

namespace PushGateway

/-- A room as a plain list; whether it has had a member. -/
structure Roster where
  members : List Nat := []
  seen : Bool := false
  deriving DecidableEq, Repr

namespace Roster

def emptied (s : Roster) : Bool := s.seen && s.members.isEmpty

def join (s : Roster) (c : Nat) : Roster :=
  if s.emptied then s else { members := c :: s.members, seen := true }

def leave (s : Roster) (c : Nat) : Roster := { s with members := s.members.erase c }

theorem emptied_iff (s : Roster) : s.emptied ↔ s.seen ∧ s.members = [] := by
  rw [emptied, Bool.and_eq_true, List.isEmpty_iff]

end Roster

inductive RoomOp
  | join (r c : Nat)
  | leave (r c : Nat)
  deriving DecidableEq, Repr

namespace RoomOp

/-- A refused join leaves the lobby as it is. -/
def apply (l : Lobby) : RoomOp → Lobby
  | .join r c => match l.join r c with
    | .ok l' => l'
    | .error _ => l
  | .leave r c => (l.leave r c).2

def after (l : Lobby) : List RoomOp → Lobby
  | [] => l
  | op :: h => op.apply (after l h)

def roster (r : Nat) : List RoomOp → Roster
  | [] => {}
  | .join r' c :: h => if r' = r then (roster r h).join c else roster r h
  | .leave r' c :: h => if r' = r then (roster r h).leave c else roster r h

/-- The histories in which only channels that sit in no room join one. -/
inductive Legal (rooms channels : Nat) : List RoomOp → Prop
  | nil : Legal rooms channels []
  | join {h : List RoomOp} {r c : Nat} : Legal rooms channels h → r < rooms → c < channels →
      (∀ r', c ∉ (roster r' h).members) → Legal rooms channels (.join r c :: h)
  | leave {h : List RoomOp} {r c : Nat} : Legal rooms channels h →
      Legal rooms channels (.leave r c :: h)

end RoomOp

namespace Lobby

structure Fresh (l : Lobby) : Prop where
  room : ∀ r, ∃ id, l.room r = .new id
  seat : ∀ c, (l.channel c).seat = none

structure MatchesRoster (l : Lobby) (r : Nat) (s : Roster) : Prop where
  members : (l.room r).members = s.members
  dropped : (l.room r).dropped = s.emptied
  seen : s.members ≠ [] → s.seen

/-- The slots of room `r` spell out a list, and the channels' seats agree with it. -/
structure ListsMembers (l : Lobby) (r : Nat) (s : Roster) : Prop where
  nodup : s.members.Nodup
  members : (l.room r).members = s.members
  ends : ∀ fuel, (l.room r).slots.size ≤ fuel →
    (l.room r).walk fuel (l.room r).head = (l.room r).linked
  links : ∀ a b, (∃ m, (l.room r).member? a = some m ∧ m.behind = some b) ↔
    ∃ m, (l.room r).member? b = some m ∧ m.before = some a
  linkedLength : (l.room r).linkedLength? = some s.members.length
  online : (l.room r).online = s.members.length
  seat : ∀ c slot, (l.channel c).seat = some ⟨r, slot⟩ ↔ (l.room r).owner? slot = some c
  roomOf : ∀ c, l.roomOf c = some r ↔ c ∈ s.members
  free_nodup : (l.room r).free.Nodup
  free : ∀ slot, slot ∈ (l.room r).free ↔
    slot < (l.room r).slots.size ∧ (l.room r).member? slot = none
  dropped : (l.room r).dropped = true ↔ s.seen ∧ s.members = []

variable {l l' : Lobby} {r c : Nat} {s : Roster}

theorem SeatsAgree.listsMembers (hs : l.SeatsAgree) (hf : l.MatchesRoster r s) :
    l.ListsMembers r s := by
  obtain ⟨slots, hc⟩ := hs.chain r
  have hlen : (l.room r).online = s.members.length := by rw [← hc.length_members, hf.members]
  have hnode {a : Nat} {m : Member} (hm : (l.room r).member? a = some m) :
      ∃ i, slots[i]? = some a ∧ m.before = Room.prior slots i ∧ m.behind = slots[i + 1]? := by
    obtain ⟨i, hi⟩ := List.mem_iff_getElem?.1 ((hc.mem_iff a).2 (hm ▸ rfl))
    obtain ⟨c, hm'⟩ := hc.node i a hi
    cases hm.symm.trans hm'
    exact ⟨i, hi, rfl, rfl⟩
  constructor
  · exact hf.members ▸ hs.members_nodup r
  · exact hf.members
  · intro fuel hfuel
    have hw := hc.walk_eq fuel 0 (Nat.le_trans hc.length_le hfuel)
    rw [hc.head, hw, hc.linked_eq, List.drop_zero]
  · intro a b
    constructor
    · rintro ⟨m, hm, hb⟩
      obtain ⟨i, hi, -, hbehind⟩ := hnode hm
      obtain ⟨c, hn⟩ := hc.node (i + 1) b (hbehind ▸ hb)
      exact ⟨_, hn, hi⟩
    · rintro ⟨m, hm, ha⟩
      obtain ⟨i, hi, hbefore, -⟩ := hnode hm
      rw [hbefore] at ha
      cases i with
      | zero => cases ha
      | succ i =>
        obtain ⟨c, hn⟩ := hc.node i a ha
        exact ⟨_, hn, hi⟩
  · rw [hc.linkedLength?_eq, hlen]
  · exact hlen
  · exact fun c slot => hs.seat c r slot
  · intro c
    rw [← hs.mem_members, hf.members]
  · exact hc.free_nodup
  · exact hc.free
  · rw [hf.dropped, s.emptied_iff]

theorem Fresh.seatsAgree (hf : l.Fresh) : l.SeatsAgree := by
  constructor
  · intro r
    obtain ⟨id, hr⟩ := hf.room r
    exact ⟨[], hr ▸ Room.new_chain id⟩
  · intro c r slot
    obtain ⟨id, hr⟩ := hf.room r
    rw [hf.seat, hr]
    exact ⟨nofun, fun h => by cases h⟩

theorem Fresh.matchesRoster (hf : l.Fresh) (r : Nat) : l.MatchesRoster r {} := by
  obtain ⟨id, hr⟩ := hf.room r
  constructor
  · rw [hr, (Room.new_chain id).members_eq]
    rfl
  · rw [hr]
    rfl
  · exact fun h => absurd rfl h

theorem SeatsAgree.join_members (hs : l.SeatsAgree) (hr : r < l.rooms.size)
    (hd : (l.room r).dropped = false) (hc : c < l.channels.size) (hn : l.roomOf c = none) :
    ∃ l', l.join r c = .ok l' ∧ l'.SeatsAgree ∧ l.OnlyReseats r c l' ∧ l'.roomOf c = some r ∧
      (l'.room r).members = c :: (l.room r).members ∧ (l'.room r).dropped = false := by
  obtain ⟨l', hj, hs', -, -, hroom⟩ := hs.join hr hd hc hn
  obtain ⟨slots, hch⟩ := hs.chain r
  obtain ⟨slot, room, hj', hch', hjoined⟩ := join_reseat hch hd c
  obtain rfl : l' = l.reseat r room c (some ⟨r, slot⟩) := by
    rw [hj] at hj'
    exact Except.ok.inj hj'
  have hc' : (l.reseat r room c (some ⟨r, slot⟩)).roomOf c = some r := (hroom c).trans (if_pos rfl)
  refine ⟨_, hj, hs', join_onlyReseats hj, hc', ?_, hs'.not_dropped hc'⟩
  rw [room_reseat hr, if_pos rfl]
  exact hch.members_link hch' hjoined

theorem SeatsAgree.leave_members (hs : l.SeatsAgree) (hc : l.roomOf c = some r) :
    (l.leave r c).2.SeatsAgree ∧ l.OnlyReseats r c (l.leave r c).2 ∧
      (l.leave r c).2.roomOf c = none ∧
      ((l.leave r c).2.room r).members = (l.room r).members.erase c ∧
      (l.leave r c).1 = ((l.room r).members.erase c).isEmpty ∧
      ((l.leave r c).2.room r).dropped = ((l.room r).members.erase c).isEmpty := by
  obtain ⟨hs', -, -, hroom, -⟩ := hs.leave hc
  obtain ⟨slots, hch⟩ := hs.chain r
  obtain ⟨slot, room, hl, hch', hleft, ho⟩ := hs.leave_reseat hch hc
  have hr := hs.lt hc
  have hlt := channel_lt hc
  have hmem : room.members = (l.room r).members.erase c :=
    hch.members_unlink hch' hleft ho (hs.owner?_inj r)
  have hdrop : room.dropped = ((l.room r).members.erase c).isEmpty := by
    rw [← hmem, Bool.eq_iff_iff, hleft.dropped, ← hch'.eq_nil_iff, List.isEmpty_iff,
      ← List.length_eq_zero_iff, ← List.length_eq_zero_iff, hch'.length_members, hch'.online]
  have hc' := (hroom c).trans (if_pos rfl)
  have hreseats := l.leave_onlyReseats r c
  rw [hl] at hs' hc' hreseats ⊢
  refine ⟨hs', hreseats, hc', ?_, hdrop, ?_⟩
  · rw [room_reseat hr, if_pos rfl]
    exact hmem
  · rw [room_reseat hr, if_pos rfl]
    exact hdrop

theorem leave_stranger (hc : l.roomOf c ≠ some r) : l.leave r c = (false, l) := by
  rw [leave]
  cases hseat : (l.channel c).seat with
  | none => rfl
  | some seat =>
    have hne : seat.room ≠ r := fun he => hc (by rw [roomOf, hseat, ← he]; rfl)
    dsimp only
    rw [if_pos hne]

theorem MatchesRoster.other (hf : l.MatchesRoster r s) (hr : l'.room r = l.room r) :
    l'.MatchesRoster r s :=
  ⟨hr ▸ hf.members, hr ▸ hf.dropped, hf.seen⟩

theorem MatchesRoster.join (hf : l.MatchesRoster r s) (hd : (l.room r).dropped = false)
    (hm : (l'.room r).members = c :: (l.room r).members) (hd' : (l'.room r).dropped = false) :
    l'.MatchesRoster r (s.join c) := by
  rw [Roster.join, if_neg (by rw [← hf.dropped, hd]; exact Bool.false_ne_true)]
  exact ⟨by rw [hm, hf.members], hd', fun _ => rfl⟩

theorem MatchesRoster.leave (hf : l.MatchesRoster r s) (hc : c ∈ s.members)
    (hm : (l'.room r).members = (l.room r).members.erase c)
    (hd : (l'.room r).dropped = ((l.room r).members.erase c).isEmpty) :
    l'.MatchesRoster r (s.leave c) := by
  have hseen := hf.seen (List.ne_nil_of_mem hc)
  refine ⟨by rw [hm, hf.members]; rfl, ?_, fun _ => hseen⟩
  rw [hd, hf.members, Roster.emptied]
  change _ = (s.seen && _)
  rw [hseen]
  rfl

end Lobby

namespace RoomOp

open Lobby (ListsMembers Fresh SeatsAgree OnlyReseats MatchesRoster)

variable {l : Lobby} {h : List RoomOp}

structure MatchesRosters (l : Lobby) (h : List RoomOp) : Prop where
  seatsAgree : (after l h).SeatsAgree
  rooms : (after l h).rooms.size = l.rooms.size
  channels : (after l h).channels.size = l.channels.size
  matchesRoster : ∀ r, (after l h).MatchesRoster r (roster r h)

theorem MatchesRosters.roomOf (ht : MatchesRosters l h) (r c : Nat) :
    (after l h).roomOf c = some r ↔ c ∈ (roster r h).members := by
  rw [← ht.seatsAgree.mem_members, (ht.matchesRoster r).members]

theorem MatchesRosters.roomOf_none (ht : MatchesRosters l h) {c : Nat}
    (hc : ∀ r, c ∉ (roster r h).members) : (after l h).roomOf c = none := by
  rw [Option.eq_none_iff_forall_ne_some]
  intro r hr
  exact hc r ((ht.roomOf r c).1 hr)

theorem MatchesRosters.join (ht : MatchesRosters l h) {r c : Nat} (hr : r < l.rooms.size)
    (hc : c < l.channels.size) (hn : ∀ r', c ∉ (roster r' h).members) :
    MatchesRosters l (.join r c :: h) := by
  have hf := ht.matchesRoster r
  cases hd : ((after l h).room r).dropped with
  | true =>
    have hl : after l (.join r c :: h) = after l h := by
      rw [after, apply, Lobby.join_dropped hd]
    have hs (r' : Nat) : roster r' (.join r c :: h) = roster r' h := by
      rw [roster]
      split_ifs with he
      · subst he
        rw [Roster.join, if_pos (hf.dropped.symm.trans hd)]
      · rfl
    exact ⟨hl ▸ ht.seatsAgree, hl ▸ ht.rooms, hl ▸ ht.channels,
      fun r' => by rw [hl, hs]; exact ht.matchesRoster r'⟩
  | false =>
    obtain ⟨l', hj, hs', hres, -, hm, hd'⟩ :=
      ht.seatsAgree.join_members (ht.rooms.symm ▸ hr) hd (ht.channels.symm ▸ hc) (ht.roomOf_none hn)
    have hl : after l (.join r c :: h) = l' := by rw [after, apply, hj]
    refine ⟨hl ▸ hs', hl ▸ hres.rooms.trans ht.rooms, hl ▸ hres.channels.trans ht.channels, ?_⟩
    intro r'
    rw [hl, roster]
    split_ifs with he
    · subst he
      exact hf.join hd hm hd'
    · exact (ht.matchesRoster r').other (hres.room r' (Ne.symm he))

theorem MatchesRosters.leave (ht : MatchesRosters l h) (r c : Nat) :
    MatchesRosters l (.leave r c :: h) := by
  by_cases hc : c ∈ (roster r h).members
  · obtain ⟨hs', hres, -, hm, -, hd⟩ := ht.seatsAgree.leave_members ((ht.roomOf r c).2 hc)
    refine ⟨hs', hres.rooms.trans ht.rooms, hres.channels.trans ht.channels, ?_⟩
    intro r'
    rw [roster]
    split_ifs with he
    · subst he
      exact (ht.matchesRoster r).leave hc hm hd
    · exact (ht.matchesRoster r').other (hres.room r' (Ne.symm he))
  · have hl : after l (.leave r c :: h) = after l h := by
      rw [after, apply, Lobby.leave_stranger (mt (ht.roomOf r c).1 hc)]
    have hs (r' : Nat) : roster r' (.leave r c :: h) = roster r' h := by
      rw [roster]
      split_ifs with he
      · subst he
        rw [Roster.leave, List.erase_of_not_mem hc]
      · rfl
    exact ⟨hl ▸ ht.seatsAgree, hl ▸ ht.rooms, hl ▸ ht.channels,
      fun r' => by rw [hl, hs]; exact ht.matchesRoster r'⟩

theorem matchesRosters (hf : l.Fresh) (hl : Legal l.rooms.size l.channels.size h) :
    MatchesRosters l h := by
  induction hl with
  | nil => exact ⟨hf.seatsAgree, rfl, rfl, hf.matchesRoster⟩
  | join hl hr hc hn ih => exact ih.join hr hc hn
  | leave hl ih => exact ih.leave _ _

/-- After any legal history every room lists its roster, and the next join or leave does to the room
what it does to the list: a join conses or is refused, a leave erases and tells whether nobody is
left, or does nothing. Other rooms and channels stay. -/
theorem after_listsMembers (hf : l.Fresh) (hl : Legal l.rooms.size l.channels.size h) :
    (∀ r, (after l h).ListsMembers r (roster r h)) ∧
      (∀ r c, r < l.rooms.size → c < l.channels.size → (∀ r', c ∉ (roster r' h).members) →
        if (roster r h).seen ∧ (roster r h).members = [] then
          (after l h).join r c = .error .roomDropped
        else ∃ l', (after l h).join r c = .ok l' ∧ (after l h).OnlyReseats r c l' ∧
          l'.roomOf c = some r ∧ (l'.room r).members = c :: (roster r h).members) ∧
      ∀ r c, if c ∈ (roster r h).members then
          (after l h).OnlyReseats r c ((after l h).leave r c).2 ∧
          ((after l h).leave r c).2.roomOf c = none ∧
          (((after l h).leave r c).2.room r).members = (roster r h).members.erase c ∧
          (((after l h).leave r c).1 = true ↔ (roster r h).members.erase c = [])
        else (after l h).leave r c = (false, after l h) := by
  have ht := matchesRosters hf hl
  refine ⟨fun r => ht.seatsAgree.listsMembers (ht.matchesRoster r), ?_, ?_⟩
  · intro r c hr hc hn
    have hd := (ht.matchesRoster r).dropped
    split_ifs with he
    · exact Lobby.join_dropped (hd.trans ((roster r h).emptied_iff.2 he)) c
    · have hd' : ((after l h).room r).dropped = false :=
        hd.trans (Bool.eq_false_iff.2 (mt (roster r h).emptied_iff.1 he))
      obtain ⟨l', hj, -, hres, hroom, hm, -⟩ :=
        ht.seatsAgree.join_members (ht.rooms.symm ▸ hr) hd' (ht.channels.symm ▸ hc)
          (ht.roomOf_none hn)
      exact ⟨l', hj, hres, hroom, by rw [hm, (ht.matchesRoster r).members]⟩
  · intro r c
    have hm := (ht.matchesRoster r).members
    split_ifs with hc
    · obtain ⟨-, hres, hroom, hm', he, -⟩ := ht.seatsAgree.leave_members ((ht.roomOf r c).2 hc)
      rw [hm] at hm' he
      exact ⟨hres, hroom, hm', by rw [he, List.isEmpty_iff]⟩
    · exact Lobby.leave_stranger (mt (ht.roomOf r c).1 hc)

def twoRooms : Lobby := ⟨#[{}, {}, {}], #[.new "a", .new "b"]⟩

/-- Two channels meet in a room and a third in the other; the first to come leaves from the tail,
and once more, and then the other from the head, and nobody gets in again. -/
def joinsAndLeaves : List RoomOp :=
  [.join 0 0, .leave 0 1, .leave 0 0, .leave 0 0, .join 1 2, .join 0 1, .join 0 0]

theorem twoRooms_fresh : twoRooms.Fresh where
  room
    | 0 => ⟨"a", rfl⟩
    | 1 => ⟨"b", rfl⟩
    | _ + 2 => ⟨"", rfl⟩
  seat
    | 0 | 1 | 2 => rfl
    | _ + 3 => rfl

theorem joinsAndLeaves_legal : Legal 2 3 joinsAndLeaves := by
  have h0 : Legal 2 3 [.join 0 0] := .join .nil (by decide) (by decide) fun r => List.not_mem_nil
  have h1 : Legal 2 3 [.join 0 1, .join 0 0] := .join h0 (by decide) (by decide) fun r => by
    rcases eq_or_ne 0 r with rfl | hr
    · decide
    · simp [roster, hr]
  have h2 : Legal 2 3 [.join 1 2, .join 0 1, .join 0 0] :=
    .join h1 (by decide) (by decide) fun r => by
    rcases eq_or_ne 0 r with rfl | hr
    · decide
    · simp [roster, hr]
  refine .join (.leave (.leave (.leave h2))) (by decide) (by decide) fun r => ?_
  rcases eq_or_ne 0 r with rfl | hr
  · decide
  · rcases eq_or_ne 1 r with rfl | hr'
    · decide
    · simp [roster, hr, hr']

theorem after_listsMembers_joinsAndLeaves : twoRooms.Fresh ∧ Legal 2 3 joinsAndLeaves ∧
    (after twoRooms joinsAndLeaves).ListsMembers 0 ⟨[], true⟩ ∧
    (after twoRooms joinsAndLeaves).ListsMembers 1 ⟨[2], true⟩ := by
  have hs := (after_listsMembers twoRooms_fresh joinsAndLeaves_legal).1
  exact ⟨twoRooms_fresh, joinsAndLeaves_legal, hs 0, hs 1⟩

end RoomOp

end PushGateway
