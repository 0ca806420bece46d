import PushGateway.Directory
import PushGateway.Proofs.Lobby.Seats

/-!
The rooms of one bucket. A room in the directory has somebody in it, so it is not dropped, and
joining the room of an id succeeds at the first attempt. A room goes out of the directory with its
last member or when it is closed; closed rooms live on until they empty, and take nothing with
them then.
-/

namespace PushGateway.Directory

structure RoomsInOrder (d : Directory) (b : Nat) : Prop where
  lt : b < d.buckets.size
  seatsAgree : d.lobby.SeatsAgree
  room : ∀ id r, d.room? b id = some r →
    r < d.lobby.rooms.size ∧ (d.lobby.room r).id = id ∧ ∃ c, d.lobby.roomOf c = some r

structure KeepsSessions (d : Directory) (b : Nat) (d' : Directory) : Prop where
  buckets : d'.buckets.size = d.buckets.size
  sessions : (d'.bucket b).sessions = (d.bucket b).sessions
  ips : (d'.bucket b).ips = (d.bucket b).ips
  lobby : d.lobby.KeepsNames d'.lobby

structure EntersRoom (d : Directory) (b : Nat) (id : String) (c r : Nat) (d' : Directory) :
    Prop where
  keepsSessions : d.KeepsSessions b d'
  roomsInOrder : d'.RoomsInOrder b
  roomOf : ∀ c', d'.lobby.roomOf c' = if c' = c then some r else d.lobby.roomOf c'
  room? : ∀ id', d'.room? b id' = if id' = id then some r else d.room? b id'
  named : (d'.lobby.room r).id = id
  chosen : d.room? b id = some r ∨ d.room? b id = none ∧ r = d.lobby.rooms.size

/-- Channel `c` has left room `r`, which is out of the directory if nobody is left in it. -/
structure LeavesRoom (d : Directory) (b r c : Nat) (d' : Directory) : Prop where
  keepsSessions : d.KeepsSessions b d'
  roomsInOrder : d'.RoomsInOrder b
  roomOf : ∀ c', d'.lobby.roomOf c' = if c' = c then none else d.lobby.roomOf c'
  room? : ∀ id' r', d'.room? b id' = some r' ↔
    d.room? b id' = some r' ∧ ∃ c', d'.lobby.roomOf c' = some r'

section
variable {d d' d'' : Directory} {b c : Nat} {id : String}

theorem KeepsSessions.refl (d : Directory) (b : Nat) : d.KeepsSessions b d :=
  ⟨rfl, rfl, rfl, .refl _⟩

theorem KeepsSessions.trans (h : d.KeepsSessions b d') (h' : d'.KeepsSessions b d'') :
    d.KeepsSessions b d'' :=
  ⟨h'.buckets.trans h.buckets, h'.sessions.trans h.sessions, h'.ips.trans h.ips,
    h.lobby.trans h'.lobby⟩

theorem getBucket_setBucket (d : Directory) (b : Nat) (bucket : Bucket) (b' : Nat) :
    (d.setBucket b bucket).bucket b' = if b' = b ∧ b < d.buckets.size then bucket
      else d.bucket b' := by
  simp only [setBucket, Directory.bucket, Array.getD_eq_getD_getElem?, Array.getElem?_setIfInBounds]
  by_cases hb : b = b'
  · subst hb
    by_cases hlt : b < d.buckets.size <;> simp [hlt]
  · simp [hb, Ne.symm hb]

theorem bucket_setBucket (hb : b < d.buckets.size) (bucket : Bucket) :
    (d.setBucket b bucket).bucket b = bucket := by
  rw [getBucket_setBucket, if_pos ⟨rfl, hb⟩]

@[simp] theorem setBucket_size (bucket : Bucket) :
    (d.setBucket b bucket).buckets.size = d.buckets.size :=
  Array.size_setIfInBounds

theorem room?_setRooms (hb : b < d.buckets.size) (rooms : Table String Nat) (id : String) :
    (d.setBucket b { d.bucket b with rooms }).room? b id = rooms.get? id := by
  rw [Directory.room?, bucket_setBucket hb]

theorem setRooms_keepsSessions (hb : b < d.buckets.size) (rooms : Table String Nat) :
    d.KeepsSessions b (d.setBucket b { d.bucket b with rooms }) := by
  refine ⟨setBucket_size _, ?_, ?_, .refl _⟩
  · rw [bucket_setBucket hb]
  · rw [bucket_setBucket hb]

theorem withLobby_keepsSessions {lobby : Lobby} (hl : d.lobby.KeepsNames lobby) :
    d.KeepsSessions b (d.withLobby lobby) :=
  ⟨rfl, rfl, rfl, hl⟩

/-- Room `r` is there for `id` and can be joined. Nobody need be in it yet. -/
structure Joinable (d : Directory) (b : Nat) (id : String) (r : Nat) (d' : Directory) : Prop where
  keepsSessions : d.KeepsSessions b d'
  seatsAgree : d'.lobby.SeatsAgree
  roomOf : ∀ c, d'.lobby.roomOf c = d.lobby.roomOf c
  room? : ∀ id', d'.room? b id' = if id' = id then some r else d.room? b id'
  lt : r < d'.lobby.rooms.size
  named : (d'.lobby.room r).id = id
  dropped : (d'.lobby.room r).dropped = false
  chosen : d.room? b id = some r ∨ d.room? b id = none ∧ r = d.lobby.rooms.size

theorem roomOrCreate_joinable (hd : d.RoomsInOrder b) (id : String) :
    d.Joinable b id (d.roomOrCreate b id).1 (d.roomOrCreate b id).2 := by
  cases hr : d.room? b id with
  | some r =>
    obtain ⟨hlt, hid, c, hc⟩ := hd.room id r hr
    have he : d.roomOrCreate b id = (r, d) := by simp only [roomOrCreate, hr]
    rw [he]
    refine ⟨.refl d b, hd.seatsAgree, fun _ => rfl, ?_, hlt, hid, hd.seatsAgree.not_dropped hc,
      .inl hr⟩
    intro id'
    split_ifs with hi
    · rw [hi, hr]
    · rfl
  | none =>
    have he : d.roomOrCreate b id = (d.lobby.rooms.size,
        (d.withLobby (d.lobby.addRoom id).2).setBucket b
          { d.bucket b with rooms := (d.bucket b).rooms.insert id d.lobby.rooms.size }) := by
      simp only [roomOrCreate, hr]
      rfl
    rw [he]
    have hroom : (d.lobby.addRoom id).2.room d.lobby.rooms.size = .new id := by
      rw [Lobby.room_addRoom, if_pos rfl]
    have hst := (withLobby_keepsSessions (b := b) (Lobby.addRoom_keepsNames d.lobby id)).trans
      (setRooms_keepsSessions (d := d.withLobby (d.lobby.addRoom id).2) hd.lt
        ((d.bucket b).rooms.insert id d.lobby.rooms.size))
    refine ⟨hst, hd.seatsAgree.addRoom id, fun _ => rfl, ?_, ?_, congrArg Room.id hroom,
      congrArg Room.dropped hroom, .inr ⟨hr, rfl⟩⟩
    · intro id'
      refine (room?_setRooms (d := d.withLobby (d.lobby.addRoom id).2) hd.lt _ id').trans ?_
      rw [Table.get?_insert]
      by_cases hi : id = id'
      · rw [if_pos hi, if_pos hi.symm]
      · rw [if_neg hi, if_neg (Ne.symm hi)]
        rfl
    · exact (Array.size_push ..).symm ▸ Nat.lt_succ_self _

theorem joinRoom_entersRoom (hd : d.RoomsInOrder b) (hc : c < d.lobby.channels.size)
    (hn : d.lobby.roomOf c = none) (id : String) :
    ∃ r d', d.joinRoom b id c = (.ok (), d') ∧ d.EntersRoom b id c r d' := by
  have hr := roomOrCreate_joinable hd id
  rcases hrc : d.roomOrCreate b id with ⟨r, d₁⟩
  rw [hrc] at hr
  dsimp only at hr
  have hc₁ : c < d₁.lobby.channels.size := by rw [hr.keepsSessions.lobby.channels]; exact hc
  obtain ⟨lobby, hj, hs, hk, hsize, hroomOf⟩ :=
    hr.seatsAgree.join hr.lt hr.dropped hc₁ ((hr.roomOf c).trans hn)
  have hjr : d.joinRoom b id c = (.ok (), d₁.withLobby lobby) := by
    simp only [joinRoom, hrc, joinAttempts, joinRetry, hj]
  have hof (c' : Nat) : lobby.roomOf c' = if c' = c then some r else d.lobby.roomOf c' := by
    rw [hroomOf, hr.roomOf]
  have hid : (lobby.room r).id = id := (hk.id r hr.lt).trans hr.named
  have hst : d.KeepsSessions b (d₁.withLobby lobby) :=
    hr.keepsSessions.trans (withLobby_keepsSessions hk)
  refine ⟨r, _, hjr, hst, ⟨?_, hs, ?_⟩, hof, hr.room?, hid, hr.chosen⟩
  · rw [hst.buckets]
    exact hd.lt
  · intro id' r' hr'
    have hr' := (hr.room? id').symm.trans hr'
    split_ifs at hr' with hi
    · cases hr'
      exact ⟨Nat.lt_of_lt_of_eq hr.lt hsize.symm, hi ▸ hid, c, (hof c).trans (if_pos rfl)⟩
    · obtain ⟨hlt, hid', c', hc'⟩ := hd.room id' r' hr'
      have hne : c' ≠ c := fun he => by
        rw [he, hn] at hc'
        cases hc'
      exact ⟨Nat.lt_of_lt_of_le hlt hst.lobby.rooms, (hst.lobby.id r' hlt).trans hid', c',
        ((hof c').trans (if_neg hne)).trans hc'⟩

theorem delRoom_keepsSessions (hb : b < d.buckets.size) (r : Nat) :
    d.KeepsSessions b (d.delRoom b r) := by
  rw [delRoom]
  split_ifs
  · exact setRooms_keepsSessions hb _
  · exact .refl d b

@[simp] theorem delRoom_lobby (d : Directory) (b r : Nat) : (d.delRoom b r).lobby = d.lobby := by
  rw [delRoom]
  split_ifs <;> rfl

theorem room?_delRoom (hb : b < d.buckets.size) (r : Nat) (id : String) :
    (d.delRoom b r).room? b id =
    if (d.lobby.room r).id = id ∧ d.room? b id = some r then none else d.room? b id := by
  by_cases hg : (d.bucket b).rooms.get? (d.lobby.room r).id = some r
  · simp only [delRoom, if_pos hg]
    rw [room?_setRooms hb, Table.get?_erase]
    by_cases hi : (d.lobby.room r).id = id
    · rw [if_pos hi, if_pos ⟨hi, hi ▸ hg⟩]
    · rw [if_neg hi, if_neg fun h => hi h.1]
      rfl
  · simp only [delRoom, if_neg hg]
    rw [if_neg]
    rintro ⟨rfl, h⟩
    exact hg h

theorem leaveRoom_eq (d : Directory) (b r c : Nat) : d.leaveRoom b r c =
    if (d.lobby.leave r c).1 then (d.withLobby (d.lobby.leave r c).2).delRoom b r
    else d.withLobby (d.lobby.leave r c).2 := rfl

theorem leaveRoom_lobby (d : Directory) (b r c : Nat) :
    (d.leaveRoom b r c).lobby = (d.lobby.leave r c).2 := by
  rw [leaveRoom_eq]
  split_ifs
  · exact delRoom_lobby ..
  · rfl

theorem leaveRoom_keepsSessions (hd : d.RoomsInOrder b) {r : Nat} (hc : d.lobby.roomOf c = some r) :
    d.KeepsSessions b (d.leaveRoom b r c) := by
  obtain ⟨-, hk, -⟩ := hd.seatsAgree.leave hc
  have hst : d.KeepsSessions b (d.withLobby (d.lobby.leave r c).2) := withLobby_keepsSessions hk
  rw [leaveRoom_eq]
  split_ifs
  · exact hst.trans (delRoom_keepsSessions (d := d.withLobby (d.lobby.leave r c).2) hd.lt r)
  · exact hst

theorem RoomsInOrder.stays (hd : d.RoomsInOrder b) {r : Nat} (hc : d.lobby.roomOf c = some r)
    {id' : String} {r' : Nat} (hr' : d.room? b id' = some r') (hne : r' ≠ r) :
    ∃ c', (d.lobby.leave r c).2.roomOf c' = some r' := by
  obtain ⟨-, -, -, hof, -⟩ := hd.seatsAgree.leave hc
  obtain ⟨-, -, c', hc'⟩ := hd.room id' r' hr'
  refine ⟨c', ?_⟩
  rw [hof, if_neg]
  · exact hc'
  · rintro rfl
    exact hne (Option.some.inj (hc'.symm.trans hc))

theorem room?_leaveRoom (hd : d.RoomsInOrder b) {r : Nat} (hc : d.lobby.roomOf c = some r)
    (id' : String) (r' : Nat) : (d.leaveRoom b r c).room? b id' = some r' ↔
      d.room? b id' = some r' ∧ ∃ c', (d.lobby.leave r c).2.roomOf c' = some r' := by
  obtain ⟨-, hk, -, -, hempty⟩ := hd.seatsAgree.leave hc
  have hid := hk.id r (hd.seatsAgree.lt hc)
  rw [leaveRoom_eq]
  by_cases he : (d.lobby.leave r c).1 = true
  · have hno := hempty.1 he
    rw [if_pos he, room?_delRoom (d := d.withLobby (d.lobby.leave r c).2) hd.lt r]
    change (if ((d.lobby.leave r c).2.room r).id = id' ∧ d.room? b id' = some r then none
      else d.room? b id') = some r' ↔ _
    constructor
    · intro hr'
      split_ifs at hr' with hi
      refine ⟨hr', hd.stays hc hr' ?_⟩
      intro hrr
      exact hi ⟨hid.trans (hd.room id' r (hrr ▸ hr')).2.1, hrr ▸ hr'⟩
    · rintro ⟨hr', c', hc'⟩
      rw [if_neg]
      · exact hr'
      · rintro ⟨-, hr⟩
        exact hno c' (Option.some.inj (hr.symm.trans hr') ▸ hc')
  · rw [if_neg he]
    refine (and_iff_left_of_imp ?_).symm
    intro hr'
    by_cases hne : r' = r
    · by_contra hno
      exact he (hempty.2 fun c' hc' => hno ⟨c', hne ▸ hc'⟩)
    · exact hd.stays hc hr' hne

theorem leaveRoom_leavesRoom (hd : d.RoomsInOrder b) {r : Nat} (hc : d.lobby.roomOf c = some r) :
    d.LeavesRoom b r c (d.leaveRoom b r c) := by
  obtain ⟨hs, hk, hsize, hof, -⟩ := hd.seatsAgree.leave hc
  have hst := leaveRoom_keepsSessions hd hc
  have hroom := room?_leaveRoom hd hc
  have hl := leaveRoom_lobby d b r c
  rw [← hl] at hs hk hsize hof hroom
  refine ⟨hst, ⟨?_, hs, ?_⟩, hof, hroom⟩
  · rw [hst.buckets]
    exact hd.lt
  · intro id' r' hr'
    obtain ⟨hr, hin⟩ := (hroom id' r').1 hr'
    obtain ⟨hlt, hid', -⟩ := hd.room id' r' hr
    exact ⟨Nat.lt_of_lt_of_eq hlt hsize.symm, (hk.id r' hlt).trans hid', hin⟩

theorem RoomsInOrder.of_equalButQueues (hd : d.RoomsInOrder b)
    (hb : d'.buckets.size = d.buckets.size) (hl : d.lobby.EqualButQueues d'.lobby)
    (hr : ∀ id r, d'.room? b id = some r → d.room? b id = some r) : d'.RoomsInOrder b := by
  refine ⟨hb ▸ hd.lt, hl.seatsAgree hd.seatsAgree, ?_⟩
  intro id r h
  obtain ⟨hlt, hid, c, hc⟩ := hd.room id r (hr id r h)
  rw [hl.rooms, hl.room]
  exact ⟨hlt, hid, c, (hl.roomOf c).trans hc⟩

structure RoomClosed (d : Directory) (b : Nat) (id : String) (d' : Directory) : Prop where
  keepsSessions : d.KeepsSessions b d'
  roomsInOrder : d'.RoomsInOrder b
  equalButQueues : d.lobby.EqualButQueues d'.lobby
  room? : ∀ id', d'.room? b id' = if id' = id then none else d.room? b id'

theorem closeRoom_roomClosed (hd : d.RoomsInOrder b) (id : String) :
    d.RoomClosed b id (d.closeRoom b id).2 := by
  cases hr : (d.bucket b).rooms.get? id with
  | none =>
    simp only [closeRoom, hr]
    refine ⟨.refl d b, hd, .refl _, ?_⟩
    intro id'
    split_ifs with hi
    · rw [hi]
      exact hr
    · rfl
  | some r =>
    let l := d.lobby.closeRoom r
    let rooms := (d.bucket b).rooms.erase id
    have hl : d.lobby.EqualButQueues l := Lobby.closeRoom_equalButQueues d.lobby r
    have he : (d.closeRoom b id).2 =
        (d.withLobby l).setBucket b { (d.withLobby l).bucket b with rooms } := by
      simp only [closeRoom, hr]
      rfl
    have hroom (id' : String) :
        ((d.withLobby l).setBucket b { (d.withLobby l).bucket b with rooms }).room? b id' =
          if id' = id then none else d.room? b id' := by
      refine (room?_setRooms (d := d.withLobby l) hd.lt rooms id').trans ?_
      rw [Table.get?_erase]
      by_cases hi : id = id'
      · rw [if_pos hi, if_pos hi.symm]
      · rw [if_neg hi, if_neg (Ne.symm hi)]
        rfl
    rw [he]
    refine ⟨(withLobby_keepsSessions hl.keepsNames).trans
      (setRooms_keepsSessions (d := d.withLobby l) hd.lt rooms),
      hd.of_equalButQueues (setBucket_size _) hl ?_, hl, hroom⟩
    intro id' r' h
    rw [hroom] at h
    split_ifs at h
    exact h

end

end PushGateway.Directory
