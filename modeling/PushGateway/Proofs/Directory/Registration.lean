import Mathlib.Data.List.Count
import PushGateway.Proofs.Directory.Names

/-!
Who is in the directory, over all buckets. A registered channel has been put and not deleted: it is
counted with its address in the bucket of its key, and only registered channels stand under keys or
sit in rooms. What is done for one channel leaves all others as they were, but for one that stands
under its key when it is put: that one is asked to finish and loses the key.
-/

namespace PushGateway.Directory

/-- Seats and member lists agree, and the rooms in the directory bear the ids they stand under. -/
structure WellFormed (d : Directory) : Prop where
  seatsAgree : d.lobby.SeatsAgree
  room : ∀ b id r, d.room? b id = some r → r < d.lobby.rooms.size ∧ (d.lobby.room r).id = id

/-- Sessions and addresses are as before, and so are the names of the channels. -/
structure KeepsAllSessions (d d' : Directory) : Prop where
  buckets : d'.buckets.size = d.buckets.size
  sessions : ∀ b, (d'.bucket b).sessions = (d.bucket b).sessions
  ips : ∀ b, (d'.bucket b).ips = (d.bucket b).ips
  channels : d'.lobby.channels.size = d.lobby.channels.size
  key : ∀ c, (d'.lobby.channel c).key = (d.lobby.channel c).key
  ip : ∀ c, (d'.lobby.channel c).ip = (d.lobby.channel c).ip

structure KeepsNames (d d' : Directory) : Prop where
  channels : d'.lobby.channels.size = d.lobby.channels.size
  key : ∀ c, (d'.lobby.channel c).key = (d.lobby.channel c).key
  ip : ∀ c, (d'.lobby.channel c).ip = (d.lobby.channel c).ip

structure NobodyMoves (d d' : Directory) : Prop extends KeepsAllSessions d d' where
  roomOf : ∀ c, d'.lobby.roomOf c = d.lobby.roomOf c
  id : ∀ r, (d'.lobby.room r).id = (d.lobby.room r).id
  wellFormed : d.WellFormed → d'.WellFormed

structure OnlyChanges (d : Directory) (c : Nat) (d' : Directory) :
    Prop extends KeepsAllSessions d d' where
  others : ∀ c', c' ≠ c → d'.lobby.channel c' = d.lobby.channel c'

structure OnlyReseats (d : Directory) (c : Nat) (d' : Directory) :
    Prop extends OnlyChanges d c d' where
  rest : ∃ seat, d'.lobby.channel c = { d.lobby.channel c with seat }

structure OnlyMoves (d : Directory) (c : Nat) (d' : Directory) :
    Prop extends OnlyChanges d c d' where
  wellFormed : d.WellFormed → d'.WellFormed

structure OnlyTouches (d : Directory) (c : Nat) (d' : Directory) :
    Prop extends NobodyMoves d d' where
  others : ∀ c', c' ≠ c → d'.lobby.channel c' = d.lobby.channel c'

/-- Every channel but `c` is as it was, and stands where it stood, unless it is `lost`. -/
structure KeepsOthers (d : Directory) (c : Nat) (lost : Option Nat) (d' : Directory) : Prop where
  channel : ∀ c', c' ≠ c → d'.lobby.channel c' =
    if lost = some c' then (d.lobby.channel c').close.release else d.lobby.channel c'
  session : ∀ c', c' ≠ c → ∀ b key, d'.session? b key = some c' ↔ d.session? b key = some c' ∧
    lost ≠ some c'

def countAt (d : Directory) (ts : List Nat) (b : Nat) (ip : String) : Nat :=
  ts.countP fun c => d.bucketOf (d.lobby.channel c).key = b ∧ (d.lobby.channel c).ip = ip

/-- The channels `ts` are those that have been put and not deleted. -/
structure Registers (d : Directory) (ts : List Nat) : Prop where
  nodup : ts.Nodup
  lt : ∀ c ∈ ts, c < d.lobby.channels.size
  session : ∀ b key c, d.session? b key = some c →
    c ∈ ts ∧ (d.lobby.channel c).key = key ∧ d.bucketOf key = b
  ips : ∀ b, (d.bucket b).Counts (d.countAt ts b)
  roomOf : ∀ c r, d.lobby.roomOf c = some r → c ∈ ts

variable {d d' d'' : Directory} {b c r : Nat} {id : String} {ts : List Nat}

theorem KeepsAllSessions.refl (d : Directory) : d.KeepsAllSessions d :=
  ⟨rfl, fun _ => rfl, fun _ => rfl, rfl, fun _ => rfl, fun _ => rfl⟩

theorem KeepsAllSessions.trans (h : d.KeepsAllSessions d') (h' : d'.KeepsAllSessions d'') :
    d.KeepsAllSessions d'' :=
  ⟨h'.buckets.trans h.buckets, fun b => (h'.sessions b).trans (h.sessions b),
    fun b => (h'.ips b).trans (h.ips b), h'.channels.trans h.channels,
    fun c => (h'.key c).trans (h.key c), fun c => (h'.ip c).trans (h.ip c)⟩

theorem KeepsNames.trans (h : d.KeepsNames d') (h' : d'.KeepsNames d'') : d.KeepsNames d'' :=
  ⟨h'.channels.trans h.channels, fun c => (h'.key c).trans (h.key c),
    fun c => (h'.ip c).trans (h.ip c)⟩

theorem KeepsAllSessions.keepsNames (h : d.KeepsAllSessions d') : d.KeepsNames d' :=
  ⟨h.channels, h.key, h.ip⟩

theorem NobodyMoves.refl (d : Directory) : d.NobodyMoves d :=
  ⟨.refl d, fun _ => rfl, fun _ => rfl, fun h => h⟩

theorem NobodyMoves.trans (h : d.NobodyMoves d') (h' : d'.NobodyMoves d'') : d.NobodyMoves d'' :=
  ⟨h.toKeepsAllSessions.trans h'.toKeepsAllSessions, fun c => (h'.roomOf c).trans (h.roomOf c),
    fun r => (h'.id r).trans (h.id r), fun ho => h'.wellFormed (h.wellFormed ho)⟩

theorem OnlyChanges.refl (d : Directory) (c : Nat) : d.OnlyChanges c d := ⟨.refl d, fun _ _ => rfl⟩

theorem OnlyChanges.trans (h : d.OnlyChanges c d') (h' : d'.OnlyChanges c d'') :
    d.OnlyChanges c d'' :=
  ⟨h.toKeepsAllSessions.trans h'.toKeepsAllSessions,
    fun c' hc => (h'.others c' hc).trans (h.others c' hc)⟩

theorem OnlyReseats.refl (d : Directory) (c : Nat) : d.OnlyReseats c d := ⟨.refl d c, _, rfl⟩

theorem OnlyReseats.trans (h : d.OnlyReseats c d') (h' : d'.OnlyReseats c d'') :
    d.OnlyReseats c d'' := by
  obtain ⟨seat, hs⟩ := h.rest
  obtain ⟨seat', hs'⟩ := h'.rest
  exact ⟨h.toOnlyChanges.trans h'.toOnlyChanges, seat', by rw [hs', hs]⟩

theorem OnlyMoves.refl (d : Directory) (c : Nat) : d.OnlyMoves c d := ⟨.refl d c, fun h => h⟩

theorem OnlyMoves.trans (h : d.OnlyMoves c d') (h' : d'.OnlyMoves c d'') : d.OnlyMoves c d'' :=
  ⟨h.toOnlyChanges.trans h'.toOnlyChanges, fun ho => h'.wellFormed (h.wellFormed ho)⟩

theorem OnlyTouches.refl (d : Directory) (c : Nat) : d.OnlyTouches c d := ⟨.refl d, fun _ _ => rfl⟩

theorem OnlyTouches.trans (h : d.OnlyTouches c d') (h' : d'.OnlyTouches c d'') :
    d.OnlyTouches c d'' :=
  ⟨h.toNobodyMoves.trans h'.toNobodyMoves, fun c' hc => (h'.others c' hc).trans (h.others c' hc)⟩

theorem OnlyTouches.onlyMoves (h : d.OnlyTouches c d') : d.OnlyMoves c d' :=
  ⟨⟨h.toKeepsAllSessions, h.others⟩, h.wellFormed⟩

theorem KeepsOthers.trans {lost : Option Nat} (h : d.KeepsOthers c lost d')
    (h' : d'.KeepsOthers c none d'') : d.KeepsOthers c lost d'' := by
  refine ⟨fun c' hc => ?_, fun c' hc b key => ?_⟩
  · rw [h'.channel c' hc, if_neg nofun, h.channel c' hc]
  · rw [h'.session c' hc, h.session c' hc]
    exact and_iff_left nofun

theorem KeepsOthers.names {lost : Option Nat} {c' : Nat} (h : d.KeepsOthers c lost d')
    (hc : c' ≠ c) :
    (d'.lobby.channel c').key = (d.lobby.channel c').key ∧
      (d'.lobby.channel c').ip = (d.lobby.channel c').ip := by
  rw [h.channel c' hc]
  split_ifs <;> exact ⟨rfl, rfl⟩

theorem KeepsOthers.roomOf {lost : Option Nat} {c' : Nat} (h : d.KeepsOthers c lost d')
    (hc : c' ≠ c) : d'.lobby.roomOf c' = d.lobby.roomOf c' := by
  rw [Lobby.roomOf, h.channel c' hc]
  split_ifs <;> rfl

theorem OnlyChanges.keepsOthers (h : d.OnlyChanges c d') : d.KeepsOthers c none d' := by
  refine ⟨fun c' hc => (h.others c' hc).trans (if_neg nofun).symm, fun c' hc b key => ?_⟩
  rw [session?, h.sessions]
  exact (and_iff_left nofun).symm

theorem KeepsAllSessions.bucketOf (h : d.KeepsAllSessions d') (key : String) :
    d'.bucketOf key = d.bucketOf key :=
  bucketOf_congr h.buckets key

theorem KeepsAllSessions.countAt (h : d.KeepsAllSessions d') (ts : List Nat) (b : Nat)
    (ip : String) : d'.countAt ts b ip = d.countAt ts b ip := by
  simp only [Directory.countAt, h.bucketOf, h.key, h.ip]

theorem Registers.retained (ht : d.Registers ts) (h : d.KeepsAllSessions d')
    (hr : ∀ c r, d'.lobby.roomOf c = some r → c ∈ ts) : d'.Registers ts := by
  refine ⟨ht.nodup, ?_, ?_, ?_, hr⟩
  · rw [h.channels]
    exact ht.lt
  · intro b key c
    rw [session?, h.sessions, h.key, h.bucketOf]
    exact ht.session b key c
  · intro b x
    rw [h.ips, h.countAt]
    exact ht.ips b x

theorem Registers.nobodyMoves (ht : d.Registers ts) (h : d.NobodyMoves d') : d'.Registers ts := by
  refine ht.retained h.toKeepsAllSessions ?_
  intro c r
  rw [h.roomOf]
  exact ht.roomOf c r

theorem Registers.onlyChanges (ht : d.Registers ts) (h : d.OnlyChanges c d') (hc : c ∈ ts) :
    d'.Registers ts := by
  refine ht.retained h.toKeepsAllSessions ?_
  intro c' r hr
  by_cases he : c' = c
  · rw [he]
    exact hc
  · rw [Lobby.roomOf, h.others c' he] at hr
    exact ht.roomOf c' r hr

/-! Rooms that come and go -/

theorem room?_setBucket (d : Directory) (b : Nat) (bucket : Bucket) (b' : Nat) (id : String) :
    (d.setBucket b bucket).room? b' id =
      if b' = b ∧ b < d.buckets.size then bucket.rooms.get? id else d.room? b' id := by
  rw [Directory.room?, getBucket_setBucket]
  split_ifs <;> rfl

theorem setBucket_keepsAllSessions {bucket : Bucket} (hs : bucket.sessions = (d.bucket b).sessions)
    (hi : bucket.ips = (d.bucket b).ips) : d.KeepsAllSessions (d.setBucket b bucket) := by
  refine ⟨setBucket_size _, ?_, ?_, rfl, fun _ => rfl,
    fun _ => rfl⟩ <;> intro b' <;> rw [getBucket_setBucket]
  · split_ifs with hb
    · rw [hs, hb.1]
    · rfl
  · split_ifs with hb
    · rw [hi, hb.1]
    · rfl

theorem WellFormed.mono (ho : d.WellFormed) (hs : d'.lobby.SeatsAgree)
    (hk : d.lobby.KeepsNames d'.lobby)
    (hr : ∀ b id r, d'.room? b id = some r → d.room? b id = some r) : d'.WellFormed := by
  refine ⟨hs, ?_⟩
  intro b id r h
  obtain ⟨hlt, hid⟩ := ho.room b id r (hr b id r h)
  exact ⟨Nat.lt_of_lt_of_le hlt hk.rooms, (hk.id r hlt).trans hid⟩

theorem WellFormed.opened (ho : d.WellFormed) (b : Nat) (id : String) :
    ((d.withLobby (d.lobby.addRoom id).2).setBucket b
      { d.bucket b with rooms := (d.bucket b).rooms.insert id d.lobby.rooms.size }).WellFormed := by
  refine ⟨ho.seatsAgree.addRoom id, ?_⟩
  intro b' id' r hr
  rw [room?_setBucket] at hr
  change r < (d.lobby.addRoom id).2.rooms.size ∧ ((d.lobby.addRoom id).2.room r).id = id'
  have hkeeps := d.lobby.addRoom_keepsNames id
  have hold (h : d.room? b' id' = some r) := ho.room b' id' r h
  have hstays (h : d.room? b' id' = some r) :
      r < (d.lobby.addRoom id).2.rooms.size ∧ ((d.lobby.addRoom id).2.room r).id = id' :=
    ⟨Nat.lt_of_lt_of_le (hold h).1 hkeeps.rooms, (hkeeps.id r (hold h).1).trans (hold h).2⟩
  split_ifs at hr with hb
  · rw [Table.get?_insert] at hr
    split_ifs at hr with hi
    · cases hr
      refine ⟨(Array.size_push ..).symm ▸ Nat.lt_succ_self _, ?_⟩
      rw [Lobby.room_addRoom, if_pos rfl]
      exact hi
    · exact hstays (hb.1 ▸ hr)
  · exact hstays hr

theorem opened_onlyReseats (d : Directory) (b c : Nat) (id id' : String) (r : Nat) :
    d.OnlyReseats c ((d.withLobby (d.lobby.addRoom id).2).setBucket b
      { d.bucket b with rooms := (d.bucket b).rooms.insert id' r }) := by
  have hadd : d.OnlyReseats c (d.withLobby (d.lobby.addRoom id).2) :=
    ⟨⟨⟨rfl, fun _ => rfl, fun _ => rfl, rfl, fun _ => rfl, fun _ => rfl⟩, fun _ _ => rfl⟩, _, rfl⟩
  exact hadd.trans ⟨⟨setBucket_keepsAllSessions rfl rfl, fun _ _ => rfl⟩, _, rfl⟩

theorem withLobby_onlyReseats {l : Lobby} (h : d.lobby.OnlyReseats r c l) :
    d.OnlyReseats c (d.withLobby l) := by
  obtain ⟨seat, hseat⟩ := h.rest
  have hall (c' : Nat) : ∃ seat, l.channel c' = { d.lobby.channel c' with seat } := by
    by_cases hc : c' = c
    · rw [hc]
      exact ⟨seat, hseat⟩
    · rw [h.channel c' hc]
      exact ⟨_, rfl⟩
  refine ⟨⟨⟨rfl, fun _ => rfl, fun _ => rfl, h.channels, fun c' => ?_, fun c' => ?_⟩, h.channel⟩,
    h.rest⟩
  · obtain ⟨seat, hs⟩ := hall c'
    exact (congrArg Channel.key hs :)
  · obtain ⟨seat, hs⟩ := hall c'
    exact (congrArg Channel.ip hs :)

/-! Moving between rooms -/

def Offers (d : Directory) (id : String) (r : Nat) : Prop :=
  r < d.lobby.rooms.size ∧ (d.lobby.room r).id = id

theorem roomOrCreate_onlyReseats (d : Directory) (b c : Nat) (id : String) :
    d.OnlyReseats c (d.roomOrCreate b id).2 := by
  rw [roomOrCreate]
  split
  · exact .refl d c
  · exact d.opened_onlyReseats ..

theorem replaceDropped_onlyReseats (d : Directory) (b c r : Nat) :
    d.OnlyReseats c (d.replaceDropped b r).2 := by
  simp only [replaceDropped]
  split
  · exact .refl d c
  · exact d.opened_onlyReseats ..

theorem opened_offers (d : Directory) (b : Nat) (id : String) :
    ((d.withLobby (d.lobby.addRoom id).2).setBucket b
      { d.bucket b with rooms := (d.bucket b).rooms.insert id d.lobby.rooms.size }).Offers id
        d.lobby.rooms.size := by
  refine ⟨(Array.size_push ..).symm ▸ Nat.lt_succ_self _, ?_⟩
  change ((d.lobby.addRoom id).2.room d.lobby.rooms.size).id = id
  rw [Lobby.room_addRoom, if_pos rfl]
  rfl

theorem WellFormed.roomOrCreate (ho : d.WellFormed) (b : Nat) (id : String) :
    (d.roomOrCreate b id).2.WellFormed ∧
      (d.roomOrCreate b id).2.Offers id (d.roomOrCreate b id).1 := by
  rw [Directory.roomOrCreate]
  split
  · rename_i r hr
    exact ⟨ho, ho.room b id r hr⟩
  · exact ⟨ho.opened b id, d.opened_offers b id⟩

theorem WellFormed.replaceDropped (ho : d.WellFormed) (b : Nat) (h : d.Offers id r) :
    (d.replaceDropped b r).2.WellFormed ∧
      (d.replaceDropped b r).2.Offers id (d.replaceDropped b r).1 := by
  simp only [Directory.replaceDropped, h.2]
  split
  · rename_i current hc
    exact ⟨ho, ho.room b id current (Option.filter_eq_some_iff.1 hc).1⟩
  · exact ⟨ho.opened b id, d.opened_offers b id⟩

theorem joinRetry_onlyReseats (b c attempts r : Nat) (d : Directory) :
    d.OnlyReseats c (joinRetry b c attempts r d).2 := by
  induction attempts generalizing r d with
  | zero => exact .refl d c
  | succ attempts ih =>
    rw [joinRetry]
    split
    · rename_i hj
      exact withLobby_onlyReseats (Lobby.join_onlyReseats hj)
    · exact (d.replaceDropped_onlyReseats b c r).trans (ih _ _)
    · exact .refl d c

theorem joinRoom_onlyReseats (d : Directory) (b : Nat) (id : String) (c : Nat) :
    d.OnlyReseats c (d.joinRoom b id c).2 :=
      (d.roomOrCreate_onlyReseats b c id).trans (joinRetry_onlyReseats b c _ _ _)

structure SeatsIfOk (id : String) (c : Nat) (result : Except GatewayError Unit) (d : Directory) :
    Prop where
  wellFormed : d.WellFormed
  room : result = .ok () → ∃ r, d.lobby.roomOf c = some r ∧ (d.lobby.room r).id = id

theorem joinRetry_seatsIfOk (b attempts : Nat) (ho : d.WellFormed) (hr : d.Offers id r)
    (hc : c < d.lobby.channels.size) (hn : d.lobby.roomOf c = none) :
    SeatsIfOk id c (joinRetry b c attempts r d).1 (joinRetry b c attempts r d).2 := by
  induction attempts generalizing r d with
  | zero => exact ⟨ho, nofun⟩
  | succ attempts ih =>
    cases hd : (d.lobby.room r).dropped with
    | false =>
      obtain ⟨l, hj, hs, hk, -, hof⟩ := ho.seatsAgree.join hr.1 hd hc hn
      simp only [joinRetry, hj]
      refine ⟨ho.mono hs hk fun _ _ _ h => h, fun _ => ⟨r, (hof c).trans (if_pos rfl), ?_⟩⟩
      exact (hk.id r hr.1).trans hr.2
    | true =>
      obtain ⟨ho', hr'⟩ := ho.replaceDropped b hr
      have hreseats := d.replaceDropped_onlyReseats b c r
      have hsize := hreseats.channels
      have hnew : (d.replaceDropped b r).2.lobby.roomOf c = none := by
        rw [← hn]
        simp only [Directory.replaceDropped]
        split <;> rfl
      simp only [joinRetry, Lobby.join_dropped hd]
      exact ih ho' hr' (hsize ▸ hc) hnew

theorem joinRoom_seatsIfOk (ho : d.WellFormed) (b : Nat) (id : String)
    (hc : c < d.lobby.channels.size) (hn : d.lobby.roomOf c = none) :
    SeatsIfOk id c (d.joinRoom b id c).1 (d.joinRoom b id c).2 := by
  obtain ⟨ho', hr⟩ := ho.roomOrCreate b id
  have hsize := (d.roomOrCreate_onlyReseats b c id).channels
  have hnew : (d.roomOrCreate b id).2.lobby.roomOf c = none := by
    rw [← hn, Directory.roomOrCreate]
    split <;> rfl
  exact joinRetry_seatsIfOk b joinAttempts ho' hr (hsize ▸ hc) hnew

theorem delRoom_keepsAllSessions (d : Directory) (b r : Nat) :
    d.KeepsAllSessions (d.delRoom b r) := by
  rw [delRoom]
  split_ifs
  · exact setBucket_keepsAllSessions rfl rfl
  · exact .refl d

theorem delRoom_room? {id' : String} {b' r' : Nat} (h : (d.delRoom b r).room? b' id' = some r') :
    d.room? b' id' = some r' := by
  rw [delRoom] at h
  split_ifs at h
  · rw [room?_setBucket] at h
    split_ifs at h with hb
    · rw [Table.get?_erase] at h
      split_ifs at h
      rw [hb.1]
      exact h
    · exact h
  · exact h

theorem leaveRoom_onlyReseats (d : Directory) (b r c : Nat) :
    d.OnlyReseats c (d.leaveRoom b r c) := by
  have hl : d.OnlyReseats c (d.withLobby (d.lobby.leave r c).2) :=
    withLobby_onlyReseats (d.lobby.leave_onlyReseats r c)
  rw [leaveRoom_eq]
  split_ifs
  · refine hl.trans ⟨⟨delRoom_keepsAllSessions _ b r, ?_⟩, ?_⟩ <;> rw [delRoom_lobby]
    · exact fun _ _ => rfl
    · exact ⟨_, rfl⟩
  · exact hl

theorem leaveRoom_room? {id' : String} {b' r' : Nat}
    (h : (d.leaveRoom b r c).room? b' id' = some r') : d.room? b' id' = some r' := by
  rw [leaveRoom_eq] at h
  split_ifs at h
  · exact delRoom_room? (d := d.withLobby (d.lobby.leave r c).2) h
  · exact h

theorem WellFormed.leaveRoom (ho : d.WellFormed) (b : Nat) (hc : d.lobby.roomOf c = some r) :
    (d.leaveRoom b r c).WellFormed ∧ (d.leaveRoom b r c).lobby.roomOf c = none := by
  obtain ⟨hs, hk, -, hof, -⟩ := ho.seatsAgree.leave hc
  have hl := leaveRoom_lobby d b r c
  rw [← hl] at hs hk hof
  exact ⟨ho.mono hs hk fun _ _ _ => leaveRoom_room?, (hof c).trans (if_pos rfl)⟩

theorem enter_onlyReseats (d : Directory) (b : Nat) (id : String) (c : Nat) : d.OnlyReseats c
    (if id = "" then (.ok (), d)
      else d.joinRoom b id c : Except GatewayError Unit × Directory).2 := by
  split_ifs
  · exact .refl d c
  · exact d.joinRoom_onlyReseats b id c

theorem WellFormed.enter (ho : d.WellFormed) (b : Nat) (id : String)
    (hc : c < d.lobby.channels.size) (hn : d.lobby.roomOf c = none) :
    (if id = "" then (.ok (), d)
      else d.joinRoom b id c : Except GatewayError Unit × Directory).2.WellFormed := by
  split_ifs
  · exact ho
  · exact (joinRoom_seatsIfOk ho b id hc hn).wellFormed

theorem changeRoom_onlyMoves (b : Nat) (id : String) (hc : c < d.lobby.channels.size) :
    d.OnlyMoves c (d.changeRoom b id c).2 := by
  simp only [changeRoom]
  split
  · rename_i hn
    exact ⟨(d.enter_onlyReseats b id c).toOnlyChanges, fun ho => ho.enter b id hc hn⟩
  · rename_i old hold
    split_ifs
    · exact .refl d c
    · exact ⟨(d.leaveRoom_onlyReseats b old c).toOnlyChanges, fun ho => (ho.leaveRoom b hold).1⟩
    · have hleave := d.leaveRoom_onlyReseats b old c
      refine ⟨(hleave.trans (joinRoom_onlyReseats _ b id c)).toOnlyChanges, fun ho => ?_⟩
      obtain ⟨ho', hn⟩ := ho.leaveRoom b hold
      exact (joinRoom_seatsIfOk ho' b id (hleave.channels ▸ hc) hn).wellFormed

/-! Coming in -/

theorem register_bucket_of_ne {b' : Nat} (hne : b' ≠ b) (c : Nat) :
    (d.register b c).bucket b' = d.bucket b' :=
  (getBucket_setBucket (d.withLobby _) b _ b').trans (if_neg fun h => hne h.1)

theorem unregister_bucket_of_ne {b' : Nat} (hne : b' ≠ b) (c : Nat) :
    (d.unregister b c).bucket b' = d.bucket b' := by
  simp only [unregister]
  split_ifs <;> exact (getBucket_setBucket _ b _ b').trans (if_neg fun h => hne h.1)

theorem countAt_congr (hb : d'.buckets.size = d.buckets.size) (hl : d.lobby.KeepsNames d'.lobby)
    (ts : List Nat) (b : Nat) (ip : String) : d'.countAt ts b ip = d.countAt ts b ip := by
  simp only [Directory.countAt, bucketOf_congr hb, hl.key, hl.ip]

theorem countAt_cons (d : Directory) (c : Nat) (ts : List Nat) (b : Nat) (ip : String) :
    d.countAt (c :: ts) b ip = d.countAt ts b ip +
      if d.bucketOf (d.lobby.channel c).key = b ∧ (d.lobby.channel c).ip = ip then 1 else 0 := by
  simp only [countAt, List.countP_cons, decide_eq_true_eq]

theorem countAt_erase (hc : c ∈ ts) (b : Nat) (ip : String) :
    d.countAt (ts.erase c) b ip = d.countAt ts b ip -
      if d.bucketOf (d.lobby.channel c).key = b ∧ (d.lobby.channel c).ip = ip then 1 else 0 := by
  simp [countAt, List.countP_erase, hc]

theorem register_channel (ht : d.Registers ts) (b : Nat) {c' : Nat} (hne : c' ≠ c) :
    (d.register b c).lobby.channel c' = if d.session? b (d.lobby.channel c).key = some c' then
      (d.lobby.channel c').close.release else d.lobby.channel c' := by
  have hhold : (d.lobby.modify c Channel.hold).channel c' = d.lobby.channel c' := by
    rw [Lobby.channel_modify, if_neg fun h => hne h.1]
  cases hs : (d.bucket b).sessions.get? (d.lobby.channel c).key with
  | none =>
    simp only [register, hs]
    rw [session?, hs, if_neg (Option.some_ne_none c').symm]
    exact hhold
  | some old =>
    have hlt : old < (d.lobby.modify c Channel.hold).channels.size := by
      rw [Lobby.modify_channels_size]
      exact ht.lt old (ht.session b _ old hs).1
    simp only [register, hs]
    refine (Lobby.channel_modify _ old _ c').trans ?_
    rw [session?, hs]
    by_cases ho : c' = old
    · subst ho
      rw [if_pos ⟨rfl, hlt⟩, if_pos rfl, if_neg hne, hhold]
    · rw [if_neg fun h => ho h.1, if_neg fun h => ho (Option.some.inj h).symm, hhold]

theorem register_session? (hb : b < d.buckets.size) (c b' : Nat) (key : String) :
    (d.register b c).session? b' key =
      if b' = b ∧ key = (d.lobby.channel c).key then some c else d.session? b' key := by
  rw [session?, register_sessions]
  by_cases hbb : b' = b
  · rw [if_pos ⟨hbb, hb⟩, Table.get?_insert]
    by_cases hk : key = (d.lobby.channel c).key
    · rw [if_pos hk.symm, if_pos ⟨hbb, hk⟩]
    · rw [if_neg (Ne.symm hk), if_neg fun h => hk h.2, hbb]
      rfl
  · rw [if_neg fun h => hbb h.1, if_neg fun h => hbb h.1]
    rfl

theorem register_keepsOthers (ht : d.Registers ts) (hb : b < d.buckets.size) (c : Nat) :
    d.KeepsOthers c (d.session? b (d.lobby.channel c).key) (d.register b c) := by
  refine ⟨fun c' hne => register_channel ht b hne, fun c' hne b' key => ?_⟩
  rw [register_session? hb]
  split_ifs with hk
  · obtain ⟨rfl, rfl⟩ := hk
    constructor
    · intro h
      exact absurd (Option.some.inj h).symm hne
    · rintro ⟨h, hlost⟩
      exact absurd h hlost
  · refine (and_iff_left_of_imp ?_).symm
    intro h hlost
    -- A channel stands under its own key alone, and in one bucket.
    have ⟨_, hkey, hbucket⟩ := ht.session b' key c' h
    have ⟨_, hkey', hbucket'⟩ := ht.session b _ c' hlost
    rw [hkey] at hkey'
    exact hk ⟨by rw [← hbucket, hkey', hbucket'], hkey'⟩

theorem Registers.register (ht : d.Registers ts) (hc : c < d.lobby.channels.size) (hn : c ∉ ts)
    (hb : 0 < d.buckets.size) :
    (d.register (d.bucketOf (d.lobby.channel c).key) c).Registers (c :: ts) := by
  have hlt := bucketOf_lt hb (d.lobby.channel c).key
  generalize hbk : d.bucketOf (d.lobby.channel c).key = b at hlt
  have hl := register_lobby d b c
  have hsize := register_buckets d b c
  refine ⟨List.nodup_cons.2 ⟨hn, ht.nodup⟩, ?_, ?_, ?_, ?_⟩
  · intro c' hc'
    rw [hl.channels]
    rcases List.mem_cons.1 hc' with rfl | hc'
    · exact hc
    · exact ht.lt c' hc'
  · intro b' key c' h
    rw [register_session? hlt] at h
    rw [hl.key, bucketOf_congr hsize]
    split_ifs at h with hk
    · cases h
      exact ⟨List.mem_cons_self, hk.2.symm, by rw [hk.1, hk.2, hbk]⟩
    · obtain ⟨hmem, hkey, hbucket⟩ := ht.session b' key c' h
      exact ⟨List.mem_cons_of_mem c hmem, hkey, hbucket⟩
  · intro b' x
    rw [countAt_congr hsize hl.keepsNames, countAt_cons, hbk]
    by_cases hbb : b' = b
    · subst hbb
      have hcount := Bucket.Counts.insert (ht.ips b') (d.lobby.channel c).ip x
      rw [register_bucket hlt]
      simpa only [true_and] using hcount
    · have hno : ¬ (b = b' ∧ (d.lobby.channel c).ip = x) := fun h => hbb h.1.symm
      rw [register_bucket_of_ne hbb, if_neg hno]
      exact ht.ips b' x
  · intro c' r
    rw [hl.roomOf]
    exact fun h => List.mem_cons_of_mem c (ht.roomOf c' r h)

theorem put_keepsOthers (ht : d.Registers ts) (hb : b < d.buckets.size) (id : String) (c : Nat) :
    d.KeepsOthers c (d.session? b (d.lobby.channel c).key) (d.put b id c).2 :=
  (register_keepsOthers ht hb c).trans ((d.register b c).enter_onlyReseats b id c).keepsOthers

theorem put_keepsNames (d : Directory) (b : Nat) (id : String) (c : Nat) :
    d.KeepsNames (d.put b id c).2 := by
  have hl := register_lobby d b c
  have hreg : d.KeepsNames (d.register b c) := ⟨hl.channels, hl.key, hl.ip⟩
  exact hreg.trans ((d.register b c).enter_onlyReseats b id c).keepsNames

theorem Registers.put (ht : d.Registers ts) (hc : c < d.lobby.channels.size) (hn : c ∉ ts)
    (hb : 0 < d.buckets.size) (id : String) :
    (d.put (d.bucketOf (d.lobby.channel c).key) id c).2.Registers (c :: ts) :=
  (ht.register hc hn hb).onlyChanges (enter_onlyReseats _ _ id c).toOnlyChanges List.mem_cons_self

theorem WellFormed.register (ho : d.WellFormed) (b c : Nat) : (d.register b c).WellFormed := by
  have hl := register_lobby d b c
  refine ho.mono (hl.seatsAgree ho.seatsAgree) hl.keepsNames ?_
  intro b' id r h
  by_cases hb : b' = b ∧ b < d.buckets.size
  · rw [hb.1, Directory.room?, register_bucket hb.2] at h
    rw [hb.1]
    exact h
  · have he : (d.register b c).bucket b' = d.bucket b' :=
      (getBucket_setBucket (d.withLobby _) b _ b').trans (if_neg hb)
    rw [Directory.room?, he] at h
    exact h

theorem put_seatsIfOk (ho : d.WellFormed) (b : Nat) (id : String) (hc : c < d.lobby.channels.size)
    (hn : d.lobby.roomOf c = none) : (d.put b id c).2.WellFormed ∧
      (id = "" → (d.put b id c).2.lobby.roomOf c = none) ∧
      (id ≠ "" → (d.put b id c).1 = .ok () → ∃ r, (d.put b id c).2.lobby.roomOf c = some r ∧
        ((d.put b id c).2.lobby.room r).id = id) := by
  have hl := register_lobby d b c
  have ho' := ho.register b c
  have hn' := (hl.roomOf c).trans hn
  have hc' : c < (d.register b c).lobby.channels.size := hl.channels.symm ▸ hc
  simp only [put]
  by_cases hid : id = ""
  · rw [if_pos hid]
    exact ⟨ho', fun _ => hn', fun h => absurd hid h⟩
  · rw [if_neg hid]
    have hs := joinRoom_seatsIfOk ho' b id hc' hn'
    exact ⟨hs.wellFormed, fun h => absurd h hid, fun _ => hs.room⟩

theorem watched_modify (l : Lobby) (c : Nat) {f : Channel → Channel}
    (hf : ∀ ch, (f ch).watched = ch.watched) (c' : Nat) :
    ((l.modify c f).channel c').watched = (l.channel c').watched := by
  rw [Lobby.channel_modify]
  split_ifs with hc
  · rw [hf, hc.1]
  · rfl

theorem put_watched (d : Directory) (b : Nat) (id : String) (c : Nat) :
    ((d.put b id c).2.lobby.channel c).watched = (d.lobby.channel c).watched := by
  have hreg : ((d.register b c).lobby.channel c).watched = (d.lobby.channel c).watched := by
    have hhold := watched_modify d.lobby c (f := Channel.hold) (fun _ => rfl) c
    cases hs : (d.bucket b).sessions.get? (d.lobby.channel c).key with
    | none =>
      simp only [register, hs]
      exact hhold
    | some old =>
      simp only [register, hs]
      refine (watched_modify (d.lobby.modify c Channel.hold) old (fun ch => ?_) c).trans hhold
      split_ifs <;> rfl
  obtain ⟨seat, hseat⟩ := ((d.register b c).enter_onlyReseats b id c).rest
  exact (congrArg Channel.watched hseat :).trans hreg

/-! A new channel -/

section

variable {ch : Channel}

theorem WellFormed.addChannel (ho : d.WellFormed) (hs : ch.seat = none) :
    (d.withLobby (d.lobby.addChannel ch).2).WellFormed := by
  refine ⟨⟨ho.seatsAgree.chain, ?_⟩, ho.room⟩
  intro c r slot
  change ((d.lobby.addChannel ch).2.channel c).seat = _ ↔ (d.lobby.room r).owner? slot = _
  rw [← ho.seatsAgree.seat, Lobby.channel_addChannel]
  split_ifs with hc
  · have hd : d.lobby.channel c = default := by simp [Lobby.channel, hc]
    rw [hs, hd]
    exact Iff.rfl
  · exact Iff.rfl

theorem addChannel_keepsOthers (d : Directory) (ch : Channel) :
    d.KeepsOthers d.lobby.channels.size none (d.withLobby (d.lobby.addChannel ch).2) := by
  refine ⟨fun c' hne => ?_, fun c' _ b key => (and_iff_left nofun).symm⟩
  rw [if_neg nofun]
  exact (d.lobby.channel_addChannel ch c').trans (if_neg hne)

theorem Registers.addChannel (ht : d.Registers ts) (hs : ch.seat = none) :
    (d.withLobby (d.lobby.addChannel ch).2).Registers ts := by
  have hsize : (d.lobby.addChannel ch).2.channels.size = d.lobby.channels.size + 1 :=
    Array.size_push ..
  have hold (c : Nat) (hc : c ∈ ts) : (d.lobby.addChannel ch).2.channel c = d.lobby.channel c := by
    rw [Lobby.channel_addChannel, if_neg (Nat.ne_of_lt (ht.lt c hc))]
  refine ⟨ht.nodup, ?_, ?_, ?_, ?_⟩
  · intro c hc
    change c < (d.lobby.addChannel ch).2.channels.size
    rw [hsize]
    exact Nat.lt_succ_of_lt (ht.lt c hc)
  · intro b key c h
    obtain ⟨hc, hkey, hbucket⟩ := ht.session b key c h
    exact ⟨hc, (congrArg Channel.key (hold c hc)).trans hkey, hbucket⟩
  · intro b x
    have hcount : (d.withLobby (d.lobby.addChannel ch).2).countAt ts b x = d.countAt ts b x := by
      refine List.countP_congr fun c hc => ?_
      change decide (d.bucketOf ((d.lobby.addChannel ch).2.channel c).key = b ∧
        ((d.lobby.addChannel ch).2.channel c).ip = x) = true ↔ _
      rw [hold c hc]
    rw [hcount]
    exact ht.ips b x
  · intro c r hr
    change ((d.lobby.addChannel ch).2.channel c).seat.map (·.room) = some r at hr
    rw [Lobby.channel_addChannel] at hr
    split_ifs at hr
    · rw [hs] at hr
      cases hr
    · exact ht.roomOf c r hr

theorem put_new_names (d : Directory) (ch : Channel) (b : Nat) (id : String) :
    let c := d.lobby.channels.size
    let done := (d.withLobby (d.lobby.addChannel ch).2).put b id c
    done.2.buckets.size = d.buckets.size ∧ done.2.lobby.channels.size = c + 1 ∧
      (done.2.lobby.channel c).key = ch.key ∧ (done.2.lobby.channel c).ip = ch.ip := by
  intro c done
  have hnames := (d.withLobby (d.lobby.addChannel ch).2).put_keepsNames b id c
  have hch : (d.withLobby (d.lobby.addChannel ch).2).lobby.channel c = ch :=
    (d.lobby.channel_addChannel ch c).trans (if_pos rfl)
  refine ⟨put_buckets .., hnames.channels.trans (Array.size_push ..), ?_, ?_⟩
  · rw [hnames.key, hch]
  · rw [hnames.ip, hch]

theorem put_new (ho : d.WellFormed) (ht : d.Registers ts) (hb : 0 < d.buckets.size)
    (hs : ch.seat = none) (id : String) :
    let c := d.lobby.channels.size
    let done := (d.withLobby (d.lobby.addChannel ch).2).put (d.bucketOf ch.key) id c
    done.2.WellFormed ∧ done.2.Registers (c :: ts) ∧ d.KeepsOthers c (d.find? ch.key) done.2 ∧
      (done.2.lobby.channel c).watched = ch.watched ∧ (id = "" → done.2.lobby.roomOf c = none) ∧
      (id ≠ "" → done.1 = .ok () → ∃ r, done.2.lobby.roomOf c = some r ∧
      (done.2.lobby.room r).id = id) := by
  intro c done
  have hlt : c < (d.withLobby (d.lobby.addChannel ch).2).lobby.channels.size :=
    Nat.lt_of_lt_of_eq (Nat.lt_succ_self c) (Array.size_push ..).symm
  have hch : (d.withLobby (d.lobby.addChannel ch).2).lobby.channel c = ch :=
    (d.lobby.channel_addChannel ch c).trans (if_pos rfl)
  have hn : (d.withLobby (d.lobby.addChannel ch).2).lobby.roomOf c = none := by
    rw [Lobby.roomOf, hch, hs]
    rfl
  have hadd := d.addChannel_keepsOthers ch
  have ht' : (d.withLobby (d.lobby.addChannel ch).2).Registers ts := ht.addChannel hs
  have hput := put_seatsIfOk (ho.addChannel hs) (d.bucketOf ch.key) id hlt hn
  have hten := ht'.put hlt (fun hmem => Nat.lt_irrefl c (ht.lt c hmem)) hb id
  have hby := put_keepsOthers ht' (bucketOf_lt (d := d) hb ch.key) id c
  rw [hch] at hten hby
  have hwatch := put_watched (d.withLobby (d.lobby.addChannel ch).2) (d.bucketOf ch.key) id c
  rw [hch] at hwatch
  refine ⟨hput.1, hten, ⟨fun c' hne => ?_, fun c' hne b key => ?_⟩, hwatch, hput.2⟩
  · rw [hby.channel c' hne, hadd.channel c' hne, if_neg (Option.some_ne_none c').symm]
    rfl
  · rw [hby.session c' hne]
    rfl

end

/-! Going out -/

theorem unregister_others (d : Directory) (b : Nat) {c' : Nat} (hne : c' ≠ c) :
    (d.unregister b c).lobby.channel c' = d.lobby.channel c' := by
  simp only [unregister]
  split_ifs
  · exact (Lobby.channel_modify _ c _ c').trans (if_neg fun h => hne h.1)
  · rfl

theorem unregister_session? (hb : b < d.buckets.size) (c b' : Nat) (key : String) :
    (d.unregister b c).session? b' key =
      if b' = b ∧ key = (d.lobby.channel c).key ∧ d.session? b' key = some c then none
      else d.session? b' key := by
  rw [session?, unregister_sessions]
  by_cases hs : b' = b ∧ b < d.buckets.size ∧
    (d.bucket b).sessions.get? (d.lobby.channel c).key = some c
  · rw [if_pos hs, Table.get?_erase]
    obtain ⟨rfl, -, hs⟩ := hs
    by_cases hk : key = (d.lobby.channel c).key
    · subst hk
      rw [if_pos rfl, if_pos ⟨rfl, rfl, hs⟩]
    · rw [if_neg (Ne.symm hk), if_neg fun h => hk h.2.1]
      rfl
  · rw [if_neg hs, if_neg]
    · rfl
    · rintro ⟨rfl, rfl, h⟩
      exact hs ⟨rfl, hb, h⟩

theorem unregister_keepsOthers (hb : b < d.buckets.size) (c : Nat) :
    d.KeepsOthers c none (d.unregister b c) := by
  refine ⟨fun c' hne => (d.unregister_others b hne).trans (if_neg nofun).symm,
    fun c' hne b' key => ?_⟩
  refine Iff.trans ?_ (and_iff_left nofun).symm
  rw [unregister_session? hb]
  split_ifs with hk
  · rw [hk.2.2]
    exact ⟨nofun, fun h => absurd (Option.some.inj h).symm hne⟩
  · exact Iff.rfl

theorem del_onlyChanges (d : Directory) (b c : Nat) :
    (d.unregister b c).OnlyChanges c (d.del b c) := by
  rw [del]
  split
  · exact .refl _ c
  · exact (leaveRoom_onlyReseats ..).toOnlyChanges

theorem del_keepsNames (d : Directory) (b c : Nat) : d.KeepsNames (d.del b c) := by
  have hl := unregister_lobby d b c
  have hunreg : d.KeepsNames (d.unregister b c) := ⟨hl.channels, hl.key, hl.ip⟩
  exact hunreg.trans (d.del_onlyChanges b c).keepsNames

theorem del_keepsOthers (hb : b < d.buckets.size) (c : Nat) : d.KeepsOthers c none (d.del b c) :=
  (unregister_keepsOthers hb c).trans (d.del_onlyChanges b c).keepsOthers

theorem WellFormed.unregister (ho : d.WellFormed) (b c : Nat) : (d.unregister b c).WellFormed := by
  have hl := unregister_lobby d b c
  refine ho.mono (hl.seatsAgree ho.seatsAgree) hl.keepsNames ?_
  intro b' id r h
  by_cases hb : b' = b ∧ b < d.buckets.size
  · rw [hb.1, Directory.room?, unregister_bucket hb.2, dropIp_rooms] at h
    rw [hb.1]
    split_ifs at h <;> exact h
  · have he : (d.unregister b c).bucket b' = d.bucket b' := by
      simp only [Directory.unregister]
      split_ifs <;> exact (getBucket_setBucket _ b _ b').trans (if_neg hb)
    rw [Directory.room?, he] at h
    exact h

theorem WellFormed.del (ho : d.WellFormed) (b c : Nat) :
    (d.del b c).WellFormed ∧ (d.del b c).lobby.roomOf c = none := by
  have ho' := ho.unregister b c
  rw [Directory.del]
  split
  · rename_i hn
    exact ⟨ho', hn⟩
  · rename_i r hr
    exact ho'.leaveRoom b hr

theorem Registers.unregister_ips (ht : d.Registers ts) (hb : 0 < d.buckets.size) (hc : c ∈ ts)
    (b : Nat) : ((d.unregister (d.bucketOf (d.lobby.channel c).key) c).bucket b).Counts
      (d.countAt (ts.erase c) b) := by
  have hlt := bucketOf_lt hb (d.lobby.channel c).key
  intro x
  rw [countAt_erase hc]
  generalize hbk : d.bucketOf (d.lobby.channel c).key = b' at hlt
  by_cases hbb : b = b'
  · subst hbb
    have hpos : 0 < d.countAt ts b (d.lobby.channel c).ip :=
      List.countP_pos_iff.2 ⟨c, hc, decide_eq_true ⟨hbk, rfl⟩⟩
    have hcount := Bucket.Counts.dropIp (ht.ips b) hpos x
    have hips : (if (d.bucket b).sessions.get? (d.lobby.channel c).key = some c then
        { d.bucket b with sessions := (d.bucket b).sessions.erase (d.lobby.channel c).key }
        else d.bucket b).ips = (d.bucket b).ips := by
      split_ifs <;> rfl
    rw [Bucket.get?_dropIp] at hcount
    rw [unregister_bucket hlt, Bucket.get?_dropIp, hips]
    simpa only [true_and] using hcount
  · have hno : ¬ (b' = b ∧ (d.lobby.channel c).ip = x) := fun h => hbb h.1.symm
    rw [unregister_bucket_of_ne hbb, if_neg hno]
    exact ht.ips b x

theorem Registers.del (ht : d.Registers ts) (ho : d.WellFormed) (hb : 0 < d.buckets.size)
    (hc : c ∈ ts) : (d.del (d.bucketOf (d.lobby.channel c).key) c).Registers (ts.erase c) := by
  have hlt := bucketOf_lt hb (d.lobby.channel c).key
  have hips := ht.unregister_ips hb hc
  have hnone := (ho.del (d.bucketOf (d.lobby.channel c).key) c).2
  generalize hbk : d.bucketOf (d.lobby.channel c).key = b at hlt hips hnone
  have hl := unregister_lobby d b c
  have hreseats := d.del_onlyChanges b c
  have hmem (c' : Nat) : c' ∈ ts.erase c ↔ c' ≠ c ∧ c' ∈ ts := ht.nodup.mem_erase_iff
  refine ⟨ht.nodup.erase c, ?_, ?_, ?_, ?_⟩
  · intro c' hc'
    rw [hreseats.channels, hl.channels]
    exact ht.lt c' ((hmem c').1 hc').2
  · intro b' key c' h
    rw [session?, hreseats.sessions] at h
    change (d.unregister b c).session? b' key = some c' at h
    rw [unregister_session? hlt] at h
    split_ifs at h with hk
    obtain ⟨hc', hkey, hbucket⟩ := ht.session b' key c' h
    rw [hreseats.key, hl.key, hreseats.bucketOf, bucketOf_congr (unregister_buckets ..), hmem]
    refine ⟨⟨?_, hc'⟩, hkey, hbucket⟩
    rintro rfl
    exact hk ⟨by rw [← hbucket, ← hkey, hbk], hkey.symm, h⟩
  · intro b' x
    rw [hreseats.ips, hreseats.countAt, countAt_congr (unregister_buckets ..) hl.keepsNames]
    exact hips b' x
  · intro c' r hr
    rw [hmem]
    have hne : c' ≠ c := by
      rintro rfl
      rw [hnone] at hr
      cases hr
    rw [Lobby.roomOf, hreseats.others c' hne] at hr
    exact ⟨hne, ht.roomOf c' r ((hl.roomOf c').symm.trans hr)⟩

/-! Nobody moves -/

theorem NobodyMoves.of_equalButQueues (hl : d.lobby.EqualButQueues d'.lobby)
    (hb : d'.buckets.size = d.buckets.size)
    (hs : ∀ b, (d'.bucket b).sessions = (d.bucket b).sessions)
    (hi : ∀ b, (d'.bucket b).ips = (d.bucket b).ips)
    (hr : ∀ b id r, d'.room? b id = some r → d.room? b id = some r) : d.NobodyMoves d' :=
  ⟨⟨hb, hs, hi, hl.channels, hl.key, hl.ip⟩, hl.roomOf, fun r => by rw [hl.room],
    fun ho => ho.mono (hl.seatsAgree ho.seatsAgree) hl.keepsNames hr⟩

theorem withLobby_nobodyMoves {l : Lobby} (hl : d.lobby.EqualButQueues l) :
    d.NobodyMoves (d.withLobby l) :=
  .of_equalButQueues hl rfl (fun _ => rfl) (fun _ => rfl) fun _ _ _ h => h

theorem setBucket_nobodyMoves {bucket : Bucket} (hs : bucket.sessions = (d.bucket b).sessions)
    (hi : bucket.ips = (d.bucket b).ips)
    (hr : ∀ id r, bucket.rooms.get? id = some r → d.room? b id = some r) :
    d.NobodyMoves (d.setBucket b bucket) := by
  have hk := setBucket_keepsAllSessions hs hi
  refine .of_equalButQueues (.refl _) hk.buckets hk.sessions hk.ips ?_
  intro b' id r h
  rw [room?_setBucket] at h
  split_ifs at h with hb
  · rw [hb.1]
    exact hr id r h
  · exact h

theorem modify_onlyTouches {f : Channel → Channel}
    (h : (d.lobby.channel c).KeepsIdentity (f (d.lobby.channel c))) :
    d.OnlyTouches c (d.withLobby (d.lobby.modify c f)) := by
  refine ⟨withLobby_nobodyMoves (d.lobby.modify_equalButQueues c h), fun c' hne => ?_⟩
  exact (d.lobby.channel_modify c f c').trans (if_neg fun he => hne he.1)

/-! The start -/

theorem new_bucket (buckets workers depth b : Nat) :
    ((new buckets workers depth).bucket b).sessions = [] ∧
      ((new buckets workers depth).bucket b).rooms = [] ∧
      ((new buckets workers depth).bucket b).ips = [] := by
  rw [bucket, new, Array.getD_eq_getD_getElem?, Array.getElem?_replicate]
  split_ifs <;> exact ⟨rfl, rfl, rfl⟩

theorem new_wellFormed (buckets workers depth : Nat) : (new buckets workers depth).WellFormed := by
  refine ⟨⟨fun r => ⟨[], Room.new_chain ""⟩, fun c r slot => ⟨nofun, nofun⟩⟩, fun b id r h => ?_⟩
  rw [Directory.room?, (new_bucket ..).2.1] at h
  cases h

theorem new_registers (buckets workers depth : Nat) : (new buckets workers depth).Registers [] := by
  refine ⟨.nil, nofun, fun b key c h => ?_, fun b x => ?_, nofun⟩
  · rw [session?, (new_bucket ..).1] at h
    cases h
  · rw [(new_bucket ..).2.2]
    rfl

end PushGateway.Directory
