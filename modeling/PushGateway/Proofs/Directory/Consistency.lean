import PushGateway.Proofs.Directory.Sessions

/-!
A bucket agrees with its history. A key names the channel put last under it while that one is
there, an address counts the channels that are there, a room in the directory has the channels
that sit in it, and a channel sits where it asked to be; its room is the one in the directory
unless it was closed.
-/

namespace PushGateway

namespace BucketOp

/-- Channel `c` sits in a room called `id`, in none if that is empty. `home` says whether the
directory has this very room for the id. -/
def Sits (b : Nat) (d : Directory) (c : Nat) (id : String) (home : Bool) : Prop :=
  if id = "" then d.lobby.roomOf c = none
  else ∃ r, d.lobby.roomOf c = some r ∧ (d.lobby.room r).id = id ∧
    (d.room? b id = some r ↔ home = true)

/-- Nobody but `c` has moved, and no other channel has lost its home. -/
structure OnlyMoved (b : Nat) (d : Directory) (c : Nat) (d' : Directory) : Prop where
  keepsSessions : d.KeepsSessions b d'
  roomsInOrder : d'.RoomsInOrder b
  roomOf : ∀ c', c' ≠ c → d'.lobby.roomOf c' = d.lobby.roomOf c'
  sits : ∀ c' id home, c' ≠ c → Sits b d c' id home → Sits b d' c' id home

section
variable {b c r : Nat} {d d' d'' : Directory} {id : String} {home : Bool}

theorem OnlyMoved.refl (hd : d.RoomsInOrder b) (c : Nat) : OnlyMoved b d c d :=
  ⟨.refl d b, hd, fun _ _ => rfl, fun _ _ _ _ h => h⟩

theorem OnlyMoved.trans (h : OnlyMoved b d c d') (h' : OnlyMoved b d' c d'') :
    OnlyMoved b d c d'' :=
  ⟨h.keepsSessions.trans h'.keepsSessions, h'.roomsInOrder,
    fun c' hc => (h'.roomOf c' hc).trans (h.roomOf c' hc),
    fun c' id home hc hs => h'.sits c' id home hc (h.sits c' id home hc hs)⟩

theorem entersRoom_onlyMoved (hd : d.RoomsInOrder b) (he : d.EntersRoom b id c r d') :
    OnlyMoved b d c d' := by
  have hof (c' : Nat) (hc : c' ≠ c) : d'.lobby.roomOf c' = d.lobby.roomOf c' := by
    rw [he.roomOf, if_neg hc]
  refine ⟨he.keepsSessions, he.roomsInOrder, hof, ?_⟩
  intro c' id' home hc hs
  rw [Sits] at hs ⊢
  rw [hof c' hc]
  split_ifs at hs ⊢
  · exact hs
  · obtain ⟨r', hr', hid, hiff⟩ := hs
    have hlt := hd.seatsAgree.lt hr'
    refine ⟨r', hr', (he.keepsSessions.lobby.id r' hlt).trans hid, ?_⟩
    rw [he.room?]
    split_ifs with hi
    · -- A room made just now is nobody's yet, so it cannot be that of `c'`.
      rcases he.chosen with hch | ⟨hch, hfresh⟩
      · rw [hi, hch] at hiff
        exact hiff
      · rw [hi, hch] at hiff
        have hne : r ≠ r' := by omega
        simpa [hne] using hiff
    · exact hiff

theorem leavesRoom_onlyMoved (hd : d.RoomsInOrder b) (he : d.LeavesRoom b r c d') :
    OnlyMoved b d c d' := by
  have hof (c' : Nat) (hc : c' ≠ c) : d'.lobby.roomOf c' = d.lobby.roomOf c' := by
    rw [he.roomOf, if_neg hc]
  refine ⟨he.keepsSessions, he.roomsInOrder, hof, ?_⟩
  intro c' id' home hc hs
  rw [Sits] at hs ⊢
  rw [hof c' hc]
  split_ifs at hs ⊢
  · exact hs
  · obtain ⟨r', hr', hid, hiff⟩ := hs
    refine ⟨r', hr', (he.keepsSessions.lobby.id r' (hd.seatsAgree.lt hr')).trans hid, ?_⟩
    -- The room of `c'` still has `c'` in it, so it is not the one that went out of the directory.
    rw [he.room?, and_iff_left ⟨c', (hof c' hc).trans hr'⟩]
    exact hiff

theorem keepsRooms_sits (hr : d.KeepsRooms b d') (hs : Sits b d c id home) :
    Sits b d' c id home := by
  rw [Sits, hr.equalButQueues.roomOf, hr.room?]
  simp only [hr.equalButQueues.room]
  exact hs

theorem roomClosed_sits (hc : d.RoomClosed b id d') {id' : String} (hs : Sits b d c id' home) :
    Sits b d' c id' (home && id' ≠ id) := by
  rw [Sits, hc.equalButQueues.roomOf, hc.room?]
  simp only [hc.equalButQueues.room]
  rw [Sits] at hs
  split_ifs at hs ⊢ with h0 hi
  · exact hs
  · obtain ⟨r, hr, hid, -⟩ := hs
    exact ⟨r, hr, hid, by simp [hi]⟩
  · obtain ⟨r, hr, hid, hiff⟩ := hs
    exact ⟨r, hr, hid, by simpa [hi] using hiff⟩

def enter (b : Nat) (id : String) (c : Nat) (d : Directory) : Directory :=
  (if id = "" then (.ok (), d) else d.joinRoom b id c : Except GatewayError Unit × Directory).2

theorem enter_onlyMoved (hd : d.RoomsInOrder b) (hc : c < d.lobby.channels.size)
    (hn : d.lobby.roomOf c = none)
    (id : String) : OnlyMoved b d c (enter b id c d) ∧ Sits b (enter b id c d) c id true := by
  rw [enter, Sits]
  split_ifs with h0
  · exact ⟨.refl hd c, hn⟩
  · obtain ⟨r, d', hj, he⟩ := Directory.joinRoom_entersRoom hd hc hn id
    rw [hj]
    refine ⟨entersRoom_onlyMoved hd he, r, (he.roomOf c).trans (if_pos rfl), he.named, ?_⟩
    simp [he.room?]

theorem changeRoom_onlyMoved (hd : d.RoomsInOrder b) (hc : c < d.lobby.channels.size) {old : String}
    (hs : Sits b d c old home) (id : String) : OnlyMoved b d c (d.changeRoom b id c).2 ∧
      Sits b (d.changeRoom b id c).2 c id (if id = old then home else true) := by
  -- Only a channel that sits somewhere can already be where it asks to be.
  by_cases h0 : old = ""
  · have hn : d.lobby.roomOf c = none := by
      rw [Sits, if_pos h0] at hs
      exact hs
    have hcr : (d.changeRoom b id c).2 = enter b id c d := by
      simp only [Directory.changeRoom, hn]
      rfl
    obtain ⟨hm, hsits⟩ := enter_onlyMoved hd hc hn id
    rw [hcr]
    refine ⟨hm, ?_⟩
    split_ifs with hi
    · have hi0 : id = "" := hi.trans h0
      rw [Sits, if_pos hi0] at hsits ⊢
      exact hsits
    · exact hsits
  · have hs' := hs
    rw [Sits, if_neg h0] at hs'
    obtain ⟨r, hr, hid, -⟩ := hs'
    have hcr : (d.changeRoom b id c).2 =
        if old = id then d else enter b id c (d.leaveRoom b r c) := by
      simp only [Directory.changeRoom, hr, hid]
      rw [apply_ite Prod.snd]
      rfl
    rw [hcr]
    by_cases hi : old = id
    · rw [if_pos hi, if_pos hi.symm, ← hi]
      exact ⟨.refl hd c, hs⟩
    · have he := Directory.leaveRoom_leavesRoom hd hr
      have hc' : c < (d.leaveRoom b r c).lobby.channels.size := by
        rw [he.keepsSessions.lobby.channels]
        exact hc
      obtain ⟨hm, hsits⟩ := enter_onlyMoved he.roomsInOrder hc' ((he.roomOf c).trans (if_pos rfl))
        id
      rw [if_neg hi, if_neg (Ne.symm hi)]
      exact ⟨(leavesRoom_onlyMoved hd he).trans hm, hsits⟩

end

structure Fresh (b : Nat) (d : Directory) : Prop where
  lt : b < d.buckets.size
  sessions : (d.bucket b).sessions = []
  ips : (d.bucket b).ips = []
  rooms : (d.bucket b).rooms = []
  lobby : d.lobby.rooms = #[]
  seat : ∀ c, (d.lobby.channel c).seat = none

structure MatchesHistory (b : Nat) (d₀ : Directory) (h : List BucketOp) (d : Directory) : Prop where
  roomsInOrder : d.RoomsInOrder b
  keepsNames : d₀.lobby.KeepsNames d.lobby
  sessionsMatch : SessionsMatch (fun c => (d₀.lobby.channel c).key)
    (fun c => (d₀.lobby.channel c).ip) h (d.bucket b)
  seatedLive : ∀ c r, d.lobby.roomOf c = some r → c ∈ live h
  sits : ∀ c ∈ live h, Sits b d c (asked c h) (!abandoned c h)

section
variable {b : Nat} {d₀ d d' : Directory} {h : List BucketOp}

theorem Fresh.matchesHistory (hf : Fresh b d₀) : MatchesHistory b d₀ [] d₀ := by
  have hroom (r : Nat) : d₀.lobby.room r = default := by simp [Lobby.room, hf.lobby]
  have hnone (c : Nat) : d₀.lobby.roomOf c = none := by rw [Lobby.roomOf, hf.seat]; rfl
  refine ⟨⟨hf.lt, ⟨?_, ?_⟩, ?_⟩, .refl _, ⟨?_, ?_⟩, ?_, ?_⟩
  · intro r
    rw [hroom]
    exact ⟨[], Room.new_chain ""⟩
  · intro c r slot
    rw [hroom, hf.seat]
    constructor
    · intro hs
      cases hs
    · intro ho
      cases ho
  · intro id r hr
    rw [Directory.room?, hf.rooms] at hr
    cases hr
  · intro k
    rw [hf.sessions]
    rfl
  · intro x
    rw [hf.ips]
    rfl
  · intro c r hc
    rw [hnone] at hc
    cases hc
  · intro c hc
    cases hc

theorem SessionsMatch.congr {key ip : Nat → String} {bucket bucket' : Bucket}
    (hf : SessionsMatch key ip h bucket) (hs : bucket'.sessions = bucket.sessions)
    (hi : bucket'.ips = bucket.ips) : SessionsMatch key ip h bucket' := by
  constructor
  · intro k
    rw [hs]
    exact hf.session k
  · intro x
    rw [hi]
    exact hf.ips x

theorem MatchesHistory.put (ht : MatchesHistory b d₀ h d) {c : Nat}
    (hc : c < d₀.lobby.channels.size) (hn : ∀ id, BucketOp.put id c ∉ h) (id : String) :
    MatchesHistory b d₀ (.put id c :: h) (d.put b id c).2 := by
  have hnl : c ∉ live h := fun hl => by
    obtain ⟨id', hi⟩ := put_of_mem_live hl
    exact hn id' hi
  have hr := Directory.register_keepsRooms ht.roomsInOrder c
  have hnone : d.lobby.roomOf c = none := by
    rw [Option.eq_none_iff_forall_ne_some]
    intro r hr
    exact hnl (ht.seatedLive c r hr)
  obtain ⟨hm, hs⟩ := enter_onlyMoved hr.roomsInOrder (c := c)
    (by rw [hr.equalButQueues.channels, ht.keepsNames.channels]; exact hc)
    ((hr.equalButQueues.roomOf c).trans hnone) id
  change MatchesHistory b d₀ (.put id c :: h) (enter b id c (d.register b c))
  refine ⟨hm.roomsInOrder, ht.keepsNames.trans
    (hr.equalButQueues.keepsNames.trans hm.keepsSessions.lobby), ?_, ?_, ?_⟩
  · have hf := ht.sessionsMatch.put id c
    rw [← ht.keepsNames.key c, ← ht.keepsNames.ip c] at hf
    refine hf.congr (hm.keepsSessions.sessions.trans ?_) (hm.keepsSessions.ips.trans ?_)
    · rw [Directory.register_bucket ht.roomsInOrder.lt]
    · rw [Directory.register_bucket ht.roomsInOrder.lt]
  · intro c' r hc'
    by_cases hcc : c' = c
    · exact hcc ▸ List.mem_cons_self
    · rw [hm.roomOf c' hcc, hr.equalButQueues.roomOf] at hc'
      exact List.mem_cons_of_mem c (ht.seatedLive c' r hc')
  · intro c' hc'
    by_cases hcc : c' = c
    · subst hcc
      simpa [asked, abandoned] using hs
    · have hl := (List.mem_cons.1 hc').resolve_left hcc
      simp only [asked, abandoned, if_neg (Ne.symm hcc)]
      exact hm.sits c' _ _ hcc (keepsRooms_sits hr (ht.sits c' hl))

theorem MatchesHistory.changeRoom (ht : MatchesHistory b d₀ h d) {c : Nat}
    (hc : c < d₀.lobby.channels.size) (hl : c ∈ live h) (id : String) :
    MatchesHistory b d₀ (.changeRoom id c :: h) (d.changeRoom b id c).2 := by
  have hc' : c < d.lobby.channels.size := by
    rw [ht.keepsNames.channels]
    exact hc
  obtain ⟨hm, hs⟩ := changeRoom_onlyMoved ht.roomsInOrder hc' (ht.sits c hl) id
  have hf := (ht.sessionsMatch.changeRoom id c).congr hm.keepsSessions.sessions hm.keepsSessions.ips
  refine ⟨hm.roomsInOrder, ht.keepsNames.trans hm.keepsSessions.lobby, hf, ?_, ?_⟩
  · intro c' r hc'
    by_cases hcc : c' = c
    · exact hcc ▸ hl
    · rw [hm.roomOf c' hcc] at hc'
      exact ht.seatedLive c' r hc'
  · intro c' hc'
    by_cases hcc : c' = c
    · subst hcc
      by_cases hi : id = asked c' h
      · simpa [asked, abandoned, hi] using hs
      · simpa [asked, abandoned, hi] using hs
    · have hne : ¬c = c' := Ne.symm hcc
      simp only [asked, abandoned, hne, false_and, if_false]
      exact hm.sits c' _ _ hcc (ht.sits c' hc')

theorem MatchesHistory.closeRoom (ht : MatchesHistory b d₀ h d) (id : String) :
    MatchesHistory b d₀ (.closeRoom id :: h) (d.closeRoom b id).2 := by
  have hc := Directory.closeRoom_roomClosed ht.roomsInOrder id
  have hf := (ht.sessionsMatch.closeRoom id).congr hc.keepsSessions.sessions hc.keepsSessions.ips
  refine ⟨hc.roomsInOrder, ht.keepsNames.trans hc.keepsSessions.lobby, hf, ?_, ?_⟩
  · intro c' r hc'
    rw [hc.equalButQueues.roomOf] at hc'
    exact ht.seatedLive c' r hc'
  · intro c' hc'
    have hs := roomClosed_sits hc (ht.sits c' hc')
    have he : (!abandoned c' h && decide (asked c' h ≠ id)) =
        !abandoned c' (.closeRoom id :: h) := by
      simp only [abandoned, Bool.not_or, Bool.and_comm, eq_comm, ne_eq, decide_not]
    rw [he] at hs
    exact hs

theorem del_onlyMoved (hd : d.RoomsInOrder b) (c : Nat) :
    OnlyMoved b (d.unregister b c) c (d.del b c) ∧ (d.del b c).lobby.roomOf c = none := by
  have hr := Directory.unregister_keepsRooms hd c
  cases hc : (d.unregister b c).lobby.roomOf c with
  | none =>
    simp only [Directory.del, hc]
    exact ⟨.refl hr.roomsInOrder c, trivial⟩
  | some r =>
    have he := Directory.leaveRoom_leavesRoom hr.roomsInOrder hc
    simp only [Directory.del, hc]
    exact ⟨leavesRoom_onlyMoved hr.roomsInOrder he, (he.roomOf c).trans (if_pos rfl)⟩

theorem MatchesHistory.del (ht : MatchesHistory b d₀ h d) (hn : (live h).Nodup) {c : Nat}
    (hl : c ∈ live h) : MatchesHistory b d₀ (.del c :: h) (d.del b c) := by
  have hr := Directory.unregister_keepsRooms ht.roomsInOrder c
  have hmem (c' : Nat) : c' ∈ (live h).erase c ↔ c' ≠ c ∧ c' ∈ live h := hn.mem_erase_iff
  have hf := ht.sessionsMatch.del hn hl
  rw [← ht.keepsNames.key c, ← ht.keepsNames.ip c,
    ← Directory.unregister_bucket ht.roomsInOrder.lt c] at hf
  obtain ⟨hm, hnone⟩ := del_onlyMoved ht.roomsInOrder c
  refine ⟨hm.roomsInOrder, ht.keepsNames.trans
    (hr.equalButQueues.keepsNames.trans hm.keepsSessions.lobby),
    hf.congr hm.keepsSessions.sessions hm.keepsSessions.ips, ?_, ?_⟩
  · intro c' r hc'
    by_cases hcc : c' = c
    · rw [hcc, hnone] at hc'
      cases hc'
    · rw [hm.roomOf c' hcc, hr.equalButQueues.roomOf] at hc'
      exact (hmem c').2 ⟨hcc, ht.seatedLive c' r hc'⟩
  · intro c' hc'
    obtain ⟨hcc, hl'⟩ := (hmem c').1 hc'
    exact hm.sits c' _ _ hcc (keepsRooms_sits hr (ht.sits c' hl'))

theorem after_matchesHistory (hf : Fresh b d₀) (hl : Legal d₀.lobby.channels.size h) :
    MatchesHistory b d₀ h (after b d₀ h) := by
  induction hl with
  | nil => exact hf.matchesHistory
  | put _ hc hn ih => exact ih.put hc hn _
  | changeRoom hl hc ih => exact ih.changeRoom (hl.live_lt hc) hc _
  | closeRoom _ ih => exact ih.closeRoom _
  | del hl hc ih => exact ih.del hl.live_nodup hc

structure Consistent (b : Nat) (d₀ : Directory) (h : List BucketOp) (d : Directory) : Prop where
  nodup : (live h).Nodup
  /-- A key names the channel put last under it, if that was not deleted, and nothing otherwise. -/
  session : ∀ k, d.session? b k =
    (latest (fun c => (d₀.lobby.channel c).key) k h).filter (· ∈ live h)
  ipCount : ∀ ip, (d.bucket b).ipCount ip = (live h).countP fun c => (d₀.lobby.channel c).ip = ip
  ips : ∀ ip, ip ∈ (d.bucket b).ips.keys ↔ 0 < (live h).countP fun c => (d₀.lobby.channel c).ip = ip
  /-- A room in the directory is linked soundly and has the channels that sit in it, at least
  one. -/
  room : ∀ id r, d.room? b id = some r → (d.lobby.room r).dropped = false ∧
    (d.lobby.room r).linkedLength? = some (d.lobby.room r).online ∧
    (d.lobby.room r).online = (live h).countP (fun c => d.lobby.roomOf c = some r) ∧
    0 < (d.lobby.room r).online
  seat_none : ∀ c ∈ live h, asked c h = "" → d.lobby.roomOf c = none
  /-- A channel sits in a room of the id it asked for, and this is the one in the directory unless
  it was closed since. -/
  seat_some : ∀ c ∈ live h, asked c h ≠ "" → ∃ r, d.lobby.roomOf c = some r ∧
    (d.lobby.room r).id = asked c h ∧ (d.room? b (asked c h) = some r ↔ abandoned c h = false)

theorem MatchesHistory.consistent (ht : MatchesHistory b d₀ h d) (hn : (live h).Nodup) :
    Consistent b d₀ h d := by
  have hs := ht.roomsInOrder.seatsAgree
  refine ⟨hn, ht.sessionsMatch.session, ht.sessionsMatch.ipCount, ht.sessionsMatch.mem_ips,
    ?_, ?_, ?_⟩
  · intro id r hr
    obtain ⟨-, -, c, hc⟩ := ht.roomsInOrder.room id r hr
    obtain ⟨slots, hch⟩ := hs.chain r
    have ho := hs.online_eq r hn fun c' hc' => ht.seatedLive c' r hc'
    refine ⟨hs.not_dropped hc, hch.linkedLength?_eq, ho, ?_⟩
    rw [ho]
    exact List.countP_pos_iff.2 ⟨c, ht.seatedLive c r hc, by simpa using hc⟩
  · intro c hc h0
    have hsits := ht.sits c hc
    rw [Sits, if_pos h0] at hsits
    exact hsits
  · intro c hc h0
    have hsits := ht.sits c hc
    rw [Sits, if_neg h0] at hsits
    obtain ⟨r, hr, hid, hiff⟩ := hsits
    exact ⟨r, hr, hid, by simpa using hiff⟩

theorem after_consistent (hf : Fresh b d₀) (hl : Legal d₀.lobby.channels.size h) :
    Consistent b d₀ h (after b d₀ h) :=
  (after_matchesHistory hf hl).consistent hl.live_nodup

def sameKeyPair : Directory :=
  { Directory.new 1 1 1 with
    lobby := { channels := #[{ key := "k", ip := "10.0.0.1" }, { key := "k", ip := "10.0.0.2" }] } }

/-- The second channel takes over from the first, whose deletion comes last. Their room is closed in
between, and the second moves on. -/
def keyTakenOver : List BucketOp :=
  [.del 0, .changeRoom "r2" 1, .closeRoom "r1", .put "r1" 1, .put "r1" 0]

theorem keyTakenOver_consistent : Fresh 0 sameKeyPair ∧
    Legal sameKeyPair.lobby.channels.size keyTakenOver ∧
    Consistent 0 sameKeyPair keyTakenOver (after 0 sameKeyPair keyTakenOver) := by
  have hf : Fresh 0 sameKeyPair := by
    refine ⟨by decide, rfl, rfl, rfl, rfl, ?_⟩
    intro c
    match c with
    | 0 => rfl
    | 1 => rfl
    | n + 2 => rfl
  have hl : Legal sameKeyPair.lobby.channels.size keyTakenOver :=
    .del (.changeRoom (.closeRoom (.put (.put .nil (by decide) (by simp)) (by decide) (by simp)))
      (by decide)) (by decide)
  exact ⟨hf, hl, after_consistent hf hl⟩

end

end BucketOp

end PushGateway
