import PushGateway.Proofs.Directory.Consistency
import PushGateway.Proofs.Directory.Spread

/-!
Where a channel is. It comes into a room when it is put there or moves there, as often as it likes,
and goes out when it moves on or is deleted; asking for a room of the id it is in changes nothing.
Pushes to the id get to it from then on, unless the room it is in was closed since it came: then the
directory has another room for the id or none, and asking for the id again does not help.
-/

namespace PushGateway.BucketOp

def place (c : Nat) : List BucketOp → String
  | [] => ""
  | .put id c' :: h => if c' = c ∧ id ≠ "" then id else place c h
  | .changeRoom id c' :: h => if c' = c then id else place c h
  | .closeRoom _ :: h => place c h
  | .del c' :: h => if c' = c then "" else place c h

/-- Whether the room that a channel is in has been closed since the channel came into it. -/
def evicted (c : Nat) : List BucketOp → Bool
  | [] => false
  | .put id c' :: h => if c' = c ∧ id ≠ "" then false else evicted c h
  | .changeRoom id c' :: h => if c' = c ∧ id ≠ place c h then false else evicted c h
  | .closeRoom id :: h => id = place c h || evicted c h
  | .del c' :: h => if c' = c then false else evicted c h

/-- The histories in which no channel is put into a room while it is in one. -/
def PutsUnseated (channels : Nat) : List BucketOp → Prop
  | [] => True
  | .put id c :: h => c < channels ∧ (id = "" ∨ place c h = "") ∧ PutsUnseated channels h
  | .changeRoom _ c :: h => c < channels ∧ PutsUnseated channels h
  | .closeRoom _ :: h => PutsUnseated channels h
  | .del _ :: h => PutsUnseated channels h

structure PlacesMatch (b : Nat) (d₀ : Directory) (h : List BucketOp) (d : Directory) : Prop where
  roomsInOrder : d.RoomsInOrder b
  channels : d.lobby.channels.size = d₀.lobby.channels.size
  sits : ∀ c < d₀.lobby.channels.size, Sits b d c (place c h) (!evicted c h)

variable {b c : Nat} {d₀ d : Directory} {h : List BucketOp} {id : String}

theorem PlacesMatch.roomOf (hl : PlacesMatch b d₀ h d) (hc : c < d₀.lobby.channels.size)
    (hp : place c h = "") : d.lobby.roomOf c = none := by
  have hs := hl.sits c hc
  rwa [Sits, if_pos hp] at hs

theorem PlacesMatch.put (hl : PlacesMatch b d₀ h d) (hc : c < d₀.lobby.channels.size)
    (hid : id = "" ∨ place c h = "") : PlacesMatch b d₀ (.put id c :: h) (d.put b id c).2 := by
  have hr := Directory.register_keepsRooms hl.roomsInOrder c
  have hsize : (d.register b c).lobby.channels.size = d₀.lobby.channels.size :=
    hr.equalButQueues.channels.trans hl.channels
  by_cases h0 : id = ""
  · have he : (d.put b id c).2 = d.register b c := by rw [Directory.put, if_pos h0]
    rw [he]
    refine ⟨hr.roomsInOrder, hsize, fun c' hc' => ?_⟩
    simp only [place, evicted, h0, ne_eq, not_true_eq_false, and_false, if_false]
    exact keepsRooms_sits hr (hl.sits c' hc')
  · have hn := (hr.equalButQueues.roomOf c).trans (hl.roomOf hc (hid.resolve_left h0))
    obtain ⟨hm, hs⟩ := enter_onlyMoved hr.roomsInOrder (hsize.symm ▸ hc) hn id
    change PlacesMatch b d₀ (.put id c :: h) (enter b id c (d.register b c))
    refine ⟨hm.roomsInOrder, hm.keepsSessions.lobby.channels.trans hsize, fun c' hc' => ?_⟩
    by_cases hcc : c' = c
    · subst hcc
      simpa [place, evicted, h0] using hs
    · simp only [place, evicted, Ne.symm hcc, false_and, if_false]
      exact hm.sits c' _ _ hcc (keepsRooms_sits hr (hl.sits c' hc'))

theorem PlacesMatch.changeRoom (hl : PlacesMatch b d₀ h d) (hc : c < d₀.lobby.channels.size)
    (id : String) : PlacesMatch b d₀ (.changeRoom id c :: h) (d.changeRoom b id c).2 := by
  obtain ⟨hm, hs⟩ := changeRoom_onlyMoved hl.roomsInOrder (hl.channels.symm ▸ hc) (hl.sits c hc) id
  refine ⟨hm.roomsInOrder, hm.keepsSessions.lobby.channels.trans hl.channels, fun c' hc' => ?_⟩
  by_cases hcc : c' = c
  · subst hcc
    by_cases hi : id = place c' h
    · simpa [place, evicted, hi] using hs
    · simpa [place, evicted, hi] using hs
  · simp only [place, evicted, Ne.symm hcc, false_and, if_false]
    exact hm.sits c' _ _ hcc (hl.sits c' hc')

theorem PlacesMatch.closeRoom (hl : PlacesMatch b d₀ h d) (id : String) :
    PlacesMatch b d₀ (.closeRoom id :: h) (d.closeRoom b id).2 := by
  have hclosed := Directory.closeRoom_roomClosed hl.roomsInOrder id
  refine ⟨hclosed.roomsInOrder, hclosed.equalButQueues.channels.trans hl.channels, fun c' hc' => ?_⟩
  have hs := roomClosed_sits hclosed (hl.sits c' hc')
  have he : (!evicted c' h && decide (place c' h ≠ id)) = !evicted c' (.closeRoom id :: h) := by
    simp only [evicted, Bool.not_or, Bool.and_comm, eq_comm, ne_eq, decide_not]
  rwa [he] at hs

theorem PlacesMatch.del (hl : PlacesMatch b d₀ h d) (c : Nat) :
    PlacesMatch b d₀ (.del c :: h) (d.del b c) := by
  have hr := Directory.unregister_keepsRooms hl.roomsInOrder c
  obtain ⟨hm, hnone⟩ := del_onlyMoved hl.roomsInOrder c
  refine ⟨hm.roomsInOrder, (hm.keepsSessions.lobby.channels.trans hr.equalButQueues.channels).trans
    hl.channels, fun c' hc' => ?_⟩
  by_cases hcc : c' = c
  · subst hcc
    simpa [place, evicted, Sits] using hnone
  · simp only [place, evicted, Ne.symm hcc, if_false]
    exact hm.sits c' _ _ hcc (keepsRooms_sits hr (hl.sits c' hc'))

theorem after_placesMatch (hf : Fresh b d₀) (hs : PutsUnseated d₀.lobby.channels.size h) :
    PlacesMatch b d₀ h (after b d₀ h) := by
  induction h with
  | nil =>
    refine ⟨hf.matchesHistory.roomsInOrder, rfl, fun c _ => ?_⟩
    rw [place, Sits, if_pos rfl, Lobby.roomOf, after, hf.seat]
    rfl
  | cons op h ih =>
    cases op with
    | put id c => exact (ih hs.2.2).put hs.1 hs.2.1
    | changeRoom id c => exact (ih hs.2).changeRoom hs.1 id
    | closeRoom id => exact (ih hs).closeRoom id
    | del c => exact (ih hs).del c

theorem enter_ok (hd : d.RoomsInOrder b) (hc : c < d.lobby.channels.size)
    (hn : d.lobby.roomOf c = none) (id : String) :
    (if id = "" then (.ok (), d) else d.joinRoom b id c : Except GatewayError Unit × Directory).1 =
      .ok () := by
  split_ifs
  · rfl
  · obtain ⟨r, d', hj, -⟩ := Directory.joinRoom_entersRoom hd hc hn id
    rw [hj]

theorem changeRoom_ok (hd : d.RoomsInOrder b) (hc : c < d.lobby.channels.size) (id : String) :
    (d.changeRoom b id c).1 = .ok () := by
  simp only [Directory.changeRoom]
  split
  · rename_i hn
    exact enter_ok hd hc hn id
  · rename_i old hold
    have he := Directory.leaveRoom_leavesRoom hd hold
    have hjoin := enter_ok he.roomsInOrder (he.keepsSessions.lobby.channels.symm ▸ hc)
      ((he.roomOf c).trans (if_pos rfl)) id
    split_ifs with hi h0
    · rfl
    · rfl
    · rwa [if_neg h0] at hjoin

/-- A move succeeds, and the channel is in a room of the id it asked for, in none if that is empty.
The directory has this room for the id, and pushes to the id are offered to the channel, unless it
was in a room of that id already and the room has been closed since it came. -/
theorem after_changeRoom (hf : Fresh b d₀) (hs : PutsUnseated d₀.lobby.channels.size h)
    (hc : c < d₀.lobby.channels.size) (id : String) :
    let done := (after b d₀ h).changeRoom b id c
    done.1 = .ok () ∧ (id = "" → done.2.lobby.roomOf c = none) ∧
      (id ≠ "" → ∃ r, done.2.lobby.roomOf c = some r ∧ (done.2.lobby.room r).id = id ∧
        (done.2.room? b id = some r ↔ ¬ (id = place c h ∧ evicted c h = true)) ∧
        ∀ w s, done.2.serving b w = some s → s.1.room = id →
          ((DirectoryOp.work w).apply b done.2).lobby.channel c = (done.2.lobby.channel c).offered
            (if id = place c h ∧ evicted c h = true then [] else [s.1.frame])) := by
  intro done
  have hl := after_placesMatch hf hs
  have hl' := hl.changeRoom hc id
  have hsits := hl'.sits c hc
  simp only [place, evicted, true_and, if_true] at hsits
  refine ⟨changeRoom_ok hl.roomsInOrder (hl.channels.symm ▸ hc) id, fun h0 => ?_, fun h0 => ?_⟩
  · rwa [Sits, if_pos h0] at hsits
  · rw [Sits, if_neg h0] at hsits
    obtain ⟨r, hr, hid, hiff⟩ := hsits
    have hroom : done.2.room? b id = some r ↔ ¬ (id = place c h ∧ evicted c h = true) := by
      rw [hiff]
      by_cases hi : id = place c h <;> simp [hi]
    refine ⟨r, hr, hid, hroom, fun w s hw hsid => ?_⟩
    have hoffers := DirectoryOp.work_offers hl'.roomsInOrder.lt hl'.roomsInOrder.seatsAgree hr hw
    rw [hsid] at hoffers
    exact hoffers.trans (congrArg _ ((if_congr hroom rfl rfl).trans (ite_not ..)))

def unplacedChannel : Directory :=
  { Directory.new 1 1 1 with lobby := { channels := #[{ key := "k", ip := "10.0.0.1" }] } }

theorem unplacedChannel_fresh : Fresh 0 unplacedChannel where
  lt := by decide
  sessions := rfl
  ips := rfl
  rooms := rfl
  lobby := rfl
  seat
    | 0 => rfl
    | _ + 1 => rfl

theorem after_changeRoom_unplacedChannel :
    Fresh 0 unplacedChannel ∧ PutsUnseated 1 [.closeRoom "r", .put "r" 0] ∧
      ∃ r,
        ((after 0 unplacedChannel [.closeRoom "r", .put "r" 0]).changeRoom 0 "s" 0).2.room? 0 "s" =
          some r ∧
        ((after 0 unplacedChannel [.closeRoom "r", .put "r" 0]).changeRoom 0 "s" 0).2.lobby.roomOf
          0 = some r := by
  have hs : PutsUnseated 1 [.closeRoom "r", .put "r" 0] := ⟨by decide, .inr rfl, trivial⟩
  obtain ⟨-, -, hmoved⟩ := after_changeRoom unplacedChannel_fresh hs (c := 0) (by decide) "s"
  obtain ⟨r, hr, -, hiff, -⟩ := hmoved (by decide)
  exact ⟨unplacedChannel_fresh, hs, r, hiff.2 (by decide), hr⟩

/-- Asking for the same again it is told that it is there, and the directory has no such room. -/
theorem closedRoom_unreached :
    let d := after 0 unplacedChannel [.closeRoom "r", .put "r" 0]
    d.session? 0 "k" = some 0 ∧ (d.changeRoom 0 "r" 0).1 = .ok () ∧
      ¬ ∃ r, (d.changeRoom 0 "r" 0).2.room? 0 "r" = some r ∧
        (d.changeRoom 0 "r" 0).2.lobby.roomOf 0 = some r := by
  intro d
  have hnone : (d.changeRoom 0 "r" 0).2.room? 0 "r" = none := by decide
  refine ⟨by decide, by rfl, ?_⟩
  rintro ⟨r, hr, -⟩
  rw [hnone] at hr
  cases hr

end PushGateway.BucketOp
