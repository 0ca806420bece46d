import PushGateway.Proofs.Directory.Operations

/-!
Coming into the room of an id. Whatever stands in the directory for it, a room with members, a
dropped one that nobody took out or nothing, a channel that asks ends up at the head of a room that
is not dropped and that the directory has for the id. A dropped room is replaced by a fresh one,
which the next attempt gets.
-/

namespace PushGateway

namespace Directory

def opened (d : Directory) (b : Nat) (id : String) : Directory :=
  (d.withLobby (d.lobby.addRoom id).2).setBucket b
    { d.bucket b with rooms := (d.bucket b).rooms.insert id d.lobby.rooms.size }

/-- Channel `c` has come to the head of room `r`, which takes members in and which the bucket has
for the id. Other ids stand for what they stood for, and other rooms are as they were. -/
structure JoinsHead (d : Directory) (b : Nat) (id : String) (c r : Nat)
    (done : Except GatewayError Unit × Directory) : Prop where
  ok : done.1 = .ok ()
  wellFormed : done.2.WellFormed
  undropped : (d.lobby.room r).dropped = false
  room : b < d.buckets.size → done.2.room? b id = some r
  roomOf : done.2.lobby.roomOf c = some r
  head : (done.2.lobby.room r).members.head? = some c
  others : ∀ id', id' ≠ id → done.2.room? b id' = d.room? b id'
  kept : ∀ r', r' ≠ r → done.2.lobby.room r' = d.lobby.room r'

/-- Channel `c` has landed in the room that the directory has for `id` in bucket `b`, and nowhere
else. -/
structure InListedRoom (d : Directory) (b : Nat) (id : String) (c : Nat)
    (done : Except GatewayError Unit × Directory) : Prop where
  ok : done.1 = .ok ()
  room : ∃ r, done.2.room? b id = some r ∧ (done.2.lobby.room r).id = id ∧
    (done.2.lobby.room r).dropped = false ∧ done.2.lobby.roomOf c = some r ∧
    (done.2.lobby.room r).members.head? = some c ∧ ∀ r', r' ≠ r → c ∉ (done.2.lobby.room r').members
  /-- The room that it was the last of is done with. -/
  last : ∀ old, d.lobby.roomOf c = some old → (d.lobby.room old).members = [c] →
    (done.2.lobby.room old).dropped = true ∧ ∀ id', done.2.room? b id' ≠ some old

variable {d : Directory} {b c r : Nat} {id : String} {done : Except GatewayError Unit × Directory}

theorem joinRetry_joinsHead (attempts : Nat) (ho : d.WellFormed) (hr : d.Offers id r)
    (hroom : b < d.buckets.size → d.room? b id = some r) (hd : (d.lobby.room r).dropped = false)
    (hc : c < d.lobby.channels.size) (hn : d.lobby.roomOf c = none) :
    d.JoinsHead b id c r (joinRetry b c (attempts + 1) r d) := by
  obtain ⟨l, hj, hs, hk, -⟩ := ho.seatsAgree.join hr.1 hd hc hn
  obtain ⟨l', hj', -, hres, hof, hm, -⟩ := ho.seatsAgree.join_members hr.1 hd hc hn
  obtain rfl : l' = l := Except.ok.inj (hj'.symm.trans hj)
  simp only [joinRetry, hj]
  exact ⟨rfl, ho.mono hs hk fun _ _ _ h => h, hd, hroom, hof, congrArg List.head? hm,
    fun _ _ => rfl, hres.room⟩

theorem opened_room (d : Directory) (b : Nat) (id : String) (r : Nat) :
    (d.opened b id).lobby.room r = if r = d.lobby.rooms.size then .new id else d.lobby.room r :=
  Lobby.room_addRoom d.lobby id r

theorem opened_room? (d : Directory) (b : Nat) (id id' : String) : (d.opened b id).room? b id' =
    if b < d.buckets.size ∧ id = id' then some d.lobby.rooms.size else d.room? b id' := by
  have hset := room?_setBucket (d.withLobby (d.lobby.addRoom id).2) b
    { d.bucket b with rooms := (d.bucket b).rooms.insert id d.lobby.rooms.size } b id'
  have hsize : (d.withLobby (d.lobby.addRoom id).2).buckets.size = d.buckets.size := rfl
  rw [Table.get?_insert, hsize] at hset
  refine hset.trans ?_
  by_cases hb : b < d.buckets.size
  · simp only [hb, and_self, if_true, true_and]
    rfl
  · simp only [hb, and_false, false_and, if_false]
    rfl

theorem opened_joinsHead (attempts : Nat) (ho : d.WellFormed) (b : Nat) (id : String)
    (hc : c < d.lobby.channels.size) (hn : d.lobby.roomOf c = none) :
    d.JoinsHead b id c d.lobby.rooms.size
      (joinRetry b c (attempts + 1) d.lobby.rooms.size (d.opened b id)) := by
  have hnew : ((d.opened b id).lobby.room d.lobby.rooms.size).dropped = false := by
    rw [opened_room, if_pos rfl]
    rfl
  have hroom (hb : b < (d.opened b id).buckets.size) :
      (d.opened b id).room? b id = some d.lobby.rooms.size := by
    rw [opened, setBucket_size] at hb
    rw [opened_room?, if_pos ⟨hb, rfl⟩]
  have ho' : (d.opened b id).WellFormed := ho.opened b id
  have hj := joinRetry_joinsHead attempts ho' (d.opened_offers b id) hroom hnew hc hn
  have hsize : (d.opened b id).buckets.size = d.buckets.size := setBucket_size _
  refine ⟨hj.ok, hj.wellFormed, ?_, hsize ▸ hj.room, hj.roomOf, hj.head, ?_, ?_⟩
  · have hd : d.lobby.room d.lobby.rooms.size = default := by simp [Lobby.room]
    rw [hd]
    rfl
  · intro id' hne
    rw [hj.others id' hne, opened_room?, if_neg fun h => hne h.2.symm]
  · intro r' hne
    rw [hj.kept r' hne, opened_room, if_neg hne]

/-- A dropped room that still stands under its id is replaced by a new one, so the second attempt is
the last. -/
theorem joinRoom_joinsHead (ho : d.WellFormed) (b : Nat) (id : String)
    (hc : c < d.lobby.channels.size) (hn : d.lobby.roomOf c = none) :
    ∃ r, d.JoinsHead b id c r (d.joinRoom b id c) := by
  cases hroom : d.room? b id with
  | none =>
    refine ⟨d.lobby.rooms.size, ?_⟩
    simp only [joinRoom, roomOrCreate, hroom]
    exact opened_joinsHead 2 ho b id hc hn
  | some r =>
    have hr : d.Offers id r := ho.room b id r hroom
    simp only [joinRoom, roomOrCreate, hroom]
    cases hd : (d.lobby.room r).dropped with
    | false => exact ⟨r, joinRetry_joinsHead 2 ho hr (fun _ => hroom) hd hc hn⟩
    | true =>
      have hgone : (d.room? b id).filter (· ≠ r) = none := by
        rw [hroom]
        simp
      refine ⟨d.lobby.rooms.size, ?_⟩
      rw [joinAttempts, joinRetry]
      simp only [Lobby.join_dropped hd, replaceDropped, hr.2, hgone]
      exact opened_joinsHead 1 ho b id hc hn

theorem put_joinsHead (ho : d.WellFormed) (b : Nat) (hid : id ≠ "") (hc : c < d.lobby.channels.size)
    (hn : d.lobby.roomOf c = none) : ∃ r, (d.register b c).JoinsHead b id c r (d.put b id c) := by
  have hl := register_lobby d b c
  simp only [put, if_neg hid]
  exact joinRoom_joinsHead (ho.register b c) b id (hl.channels.symm ▸ hc) ((hl.roomOf c).trans hn)

theorem put_ok (ho : d.WellFormed) (b : Nat) (id : String) (hc : c < d.lobby.channels.size)
    (hn : d.lobby.roomOf c = none) : (d.put b id c).1 = .ok () := by
  by_cases hid : id = ""
  · rw [put, if_pos hid]
  · obtain ⟨r, hj⟩ := put_joinsHead ho b hid hc hn
    exact hj.ok

theorem JoinsHead.room_eq (hj : d.JoinsHead b id c r done) (hb : b < d.buckets.size) :
    done.2.room? b id = some r ∧ (done.2.lobby.room r).id = id ∧
      (done.2.lobby.room r).dropped = false ∧ done.2.lobby.roomOf c = some r ∧
      (done.2.lobby.room r).members.head? = some c ∧ ∀ r', r' ≠ r →
      c ∉ (done.2.lobby.room r').members := by
  have hs := hj.wellFormed.seatsAgree
  refine ⟨hj.room hb, (hj.wellFormed.room b id r (hj.room hb)).2, hs.not_dropped hj.roomOf,
    hj.roomOf, hj.head, ?_⟩
  intro r' hne hmem
  have hr := ((hs.mem_members c r').1 hmem).symm.trans hj.roomOf
  exact hne (Option.some.inj hr)

theorem put_inListedRoom (ho : d.WellFormed) (hb : b < d.buckets.size) (hid : id ≠ "")
    (hc : c < d.lobby.channels.size) (hn : d.lobby.roomOf c = none) :
    d.InListedRoom b id c (d.put b id c) := by
  obtain ⟨r, hj⟩ := put_joinsHead ho b hid hc hn
  refine ⟨hj.ok, ⟨r, hj.room_eq ((register_buckets d b c).symm ▸ hb)⟩, ?_⟩
  intro old hold
  rw [hn] at hold
  cases hold

theorem leaveRoom_last (ho : d.WellFormed) (hb : b < d.buckets.size)
    (hc : d.lobby.roomOf c = some r) (hm : (d.lobby.room r).members = [c]) :
    ((d.leaveRoom b r c).lobby.room r).dropped = true ∧
      ∀ id, (d.leaveRoom b r c).room? b id ≠ some r := by
  obtain ⟨-, hk, -⟩ := ho.seatsAgree.leave hc
  obtain ⟨-, -, -, -, hempty, hdrop⟩ := ho.seatsAgree.leave_members hc
  rw [hm, List.erase_cons_head, List.isEmpty_nil] at hempty hdrop
  refine ⟨by rw [leaveRoom_lobby]; exact hdrop, fun id hr => ?_⟩
  rw [leaveRoom_eq, if_pos hempty, room?_delRoom (d := d.withLobby (d.lobby.leave r c).2) hb] at hr
  split_ifs at hr with hg
  have hroom := ho.room b id r hr
  exact hg ⟨(hk.id r hroom.1).trans hroom.2, hr⟩

theorem changeRoom_inListedRoom (ho : d.WellFormed) (hb : b < d.buckets.size) (hid : id ≠ "")
    (hc : c < d.lobby.channels.size)
    (hne : ∀ old, d.lobby.roomOf c = some old → (d.lobby.room old).id ≠ id) :
    d.InListedRoom b id c (d.changeRoom b id c) := by
  cases hold : d.lobby.roomOf c with
  | none =>
    obtain ⟨r, hj⟩ := joinRoom_joinsHead ho b id hc hold
    simp only [changeRoom, hold, if_neg hid]
    refine ⟨hj.ok, ⟨r, hj.room_eq hb⟩, fun old h => ?_⟩
    rw [hold] at h
    cases h
  | some old =>
    obtain ⟨ho', hn⟩ := ho.leaveRoom b hold
    have hleave := d.leaveRoom_onlyReseats b old c
    obtain ⟨r, hj⟩ := joinRoom_joinsHead ho' b id (hleave.channels.symm ▸ hc) hn
    simp only [changeRoom, hold, if_neg (hne old hold), if_neg hid]
    have hroom := hj.room_eq (hleave.buckets.symm ▸ hb)
    refine ⟨hj.ok, ⟨r, hroom⟩, fun old' h hm => ?_⟩
    obtain rfl : old = old' := Option.some.inj (hold.symm.trans h)
    obtain ⟨hdrop, hgone⟩ := leaveRoom_last ho hb hold hm
    -- The room it comes into has taken members in all along, so it is not the one that is dropped
    -- now.
    have hrr : old ≠ r := by
      rintro rfl
      rw [hj.undropped] at hdrop
      cases hdrop
    rw [hj.kept old hrr]
    refine ⟨hdrop, fun id' hr => ?_⟩
    by_cases hi : id' = id
    · rw [hi, hroom.1] at hr
      exact hrr (Option.some.inj hr).symm
    · exact hgone id' ((hj.others id' hi).symm.trans hr)

end Directory

namespace DirectoryOp

variable {b buckets workers depth c : Nat} {id : String} {h : List DirectoryOp}

/-- Whatever has happened to a bucket, and whatever room objects somebody still holds, a channel
that asks for the room of an id comes into it: when it is put, being in no room, and when it moves
from a room of another id. -/
theorem after_inListedRoom (hb : b < max buckets 1) (hl : Legal b (.new buckets workers depth) h)
    (hc : c < (after b (.new buckets workers depth) h).lobby.channels.size) (hid : id ≠ "") :
    let d := after b (.new buckets workers depth) h
    (d.lobby.roomOf c = none → d.InListedRoom b id c (d.put b id c)) ∧
      ((∀ old, d.lobby.roomOf c = some old → (d.lobby.room old).id ≠ id) →
        d.InListedRoom b id c (d.changeRoom b id c)) := by
  intro d
  have ho : d.WellFormed := after_wellFormed (Directory.new_wellFormed ..) hl
  have hb' : b < d.buckets.size := by
    rw [after_buckets]
    exact Nat.lt_of_lt_of_eq hb Array.size_replicate.symm
  exact ⟨Directory.put_inListedRoom ho hb' hid hc, Directory.changeRoom_inListedRoom ho hb' hid hc⟩

/-- The only member of a room has left it behind the back of the bucket, so the room stands in the
directory and takes nobody in. A second channel has been in no room, and a third is alone in
another. -/
def emptyRoomListed : List DirectoryOp :=
  [.leave 0 0, .put "hall" 2, .put "den" 0, .create { key := "c" }, .create { key := "b" },
    .create { key := "a" }]

theorem after_inListedRoom_emptyRoomListed :
    let d := after 0 (.new 1 1 1) emptyRoomListed
    Legal 0 (.new 1 1 1) emptyRoomListed ∧ d.room? 0 "den" = some 0 ∧
    (d.lobby.room 0).dropped = true ∧
      d.InListedRoom 0 "den" 1 (d.put 0 "den" 1) ∧
      d.InListedRoom 0 "den" 2 (d.changeRoom 0 "den" 2) := by
  intro d
  have hl : Legal 0 (.new 1 1 1) emptyRoomListed :=
    ⟨trivial, ⟨by decide, .inr (by decide)⟩, ⟨by decide, .inr (by decide)⟩, trivial, trivial,
      trivial, trivial⟩
  have hden : "den" ≠ "" := by decide
  have hlisted {c : Nat} (hc : c < d.lobby.channels.size) :=
    after_inListedRoom (by decide) hl hc hden
  refine ⟨hl, by decide, by decide, (hlisted (by decide)).1 (by decide), (hlisted (by decide)).2 ?_⟩
  have hold : d.lobby.roomOf 2 = some 1 := by decide
  rw [hold]
  rintro old ⟨⟩
  decide

end DirectoryOp

end PushGateway
