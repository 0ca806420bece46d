import PushGateway.Proofs.Directory.Registration

/-!
What concerns nobody's place. Pushes, counts and closing a room leave every session where it stands
and every channel where it sits; a room that is closed only goes out of the directory.
-/

namespace PushGateway

theorem Lobby.room_setAllOnline (l : Lobby) (r : Nat) (count : Int32) (r' : Nat) :
    ∃ told, (l.setAllOnline r count).room r' = { l.room r' with allOnline := told } := by
  simp only [Lobby.room, Lobby.setAllOnline, Array.getD_eq_getD_getElem?, Array.getElem?_modify]
  split_ifs
  · cases l.rooms[r']? with
    | none => exact ⟨_, rfl⟩
    | some room => exact ⟨count, rfl⟩
  · exact ⟨_, rfl⟩

namespace Directory

variable {d d' : Directory} {b : Nat}

theorem closeRoom_nobodyMoves (d : Directory) (b : Nat) (id : String) :
    d.NobodyMoves (d.closeRoom b id).2 := by
  simp only [closeRoom]
  split
  · exact .refl d
  · rename_i r _
    refine (withLobby_nobodyMoves (d.lobby.closeRoom_equalButQueues r)).trans
      (setBucket_nobodyMoves rfl rfl ?_)
    intro id' r' h
    rw [Table.get?_erase] at h
    split_ifs at h
    exact h

theorem broadcastIn_nobodyMoves (d : Directory) (b : Nat) (op : Int32) (f : Frame) :
    d.NobodyMoves (d.broadcastIn b op f).2 :=
      withLobby_nobodyMoves (d.lobby.offerAll_equalButQueues op f _)

theorem broadcast_nobodyMoves (d : Directory) (op : Int32) (f : Frame) :
    d.NobodyMoves (d.broadcast op f).2 := by
  rw [broadcast]
  generalize List.range d.buckets.size = bs
  generalize 0 = n
  induction bs generalizing d n with
  | nil => exact .refl d
  | cons b bs ih => exact (d.broadcastIn_nobodyMoves b op f).trans (ih (d.broadcastIn b op f).2 _)

theorem pushKeys_nobodyMoves (d : Directory) (keys : List String) (op : Int32) (f : Frame) :
    d.NobodyMoves (d.pushKeys keys op f).2 :=
      withLobby_nobodyMoves (d.lobby.offerAll_equalButQueues op f _)

theorem broadcastRoomIn_nobodyMoves (d : Directory) (b : Nat) (p : RoomPush) :
    d.NobodyMoves (d.broadcastRoomIn b p).2 := by
  have hq : ((d.bucket b).enqueue p).2.sessions = (d.bucket b).sessions ∧
      ((d.bucket b).enqueue p).2.ips = (d.bucket b).ips ∧
      ((d.bucket b).enqueue p).2.rooms = (d.bucket b).rooms := by
    simp only [Bucket.enqueue]
    split <;> exact ⟨rfl, rfl, rfl⟩
  exact setBucket_nobodyMoves hq.1 hq.2.1 fun id r h => (congrArg (·.get? id) hq.2.2).symm.trans h

theorem broadcastRoom_nobodyMoves (d : Directory) (p : RoomPush) :
    d.NobodyMoves (d.broadcastRoom p).2 := by
  rw [broadcastRoom]
  generalize List.range d.buckets.size = bs
  generalize 0 = n
  induction bs generalizing d n with
  | nil => exact .refl d
  | cons b bs ih => exact (d.broadcastRoomIn_nobodyMoves b p).trans (ih (d.broadcastRoomIn b p).2 _)

theorem workerStep_nobodyMoves {w : Nat} (h : d.workerStep b w = some d') : d.NobodyMoves d' := by
  simp only [workerStep] at h
  split at h
  · cases h
  · rename_i queue _
    have hs : d.NobodyMoves
        (d.setBucket b { d.bucket b with workers := (d.bucket b).workers.setIfInBounds w queue }) :=
      setBucket_nobodyMoves rfl rfl fun _ _ h => h
    split at h
    · cases h
      exact hs
    · cases h
      exact hs.trans (withLobby_nobodyMoves (Lobby.offerAll_equalButQueues _ _ _ _))

theorem setAllOnline_nobodyMoves (d : Directory) (r : Nat) (count : Int32) :
    d.NobodyMoves (d.withLobby (d.lobby.setAllOnline r count)) := by
  have hroom := d.lobby.room_setAllOnline r count
  refine ⟨⟨rfl, fun _ => rfl, fun _ => rfl, rfl, fun _ => rfl, fun _ => rfl⟩, fun _ => rfl,
    fun r' => ?_, fun ho => ?_⟩
  · obtain ⟨told, hr⟩ := hroom r'
    exact (congrArg Room.id hr :)
  refine ⟨⟨fun r' => ?_, fun c r' slot => ?_⟩, fun b id r' h => ?_⟩
  · obtain ⟨told, hr⟩ := hroom r'
    obtain ⟨slots, hch⟩ := ho.seatsAgree.chain r'
    refine ⟨slots, ?_⟩
    change ((d.lobby.setAllOnline r count).room r').Chain slots
    rw [hr]
    exact hch.allOnline told
  · obtain ⟨told, hr⟩ := hroom r'
    change (d.lobby.channel c).seat = _ ↔ ((d.lobby.setAllOnline r count).room r').owner? slot = _
    rw [hr]
    exact ho.seatsAgree.seat c r' slot
  · obtain ⟨told, hr⟩ := hroom r'
    obtain ⟨hlt, hid⟩ := ho.room b id r' h
    exact ⟨Nat.lt_of_lt_of_eq hlt Array.size_modify.symm, (congrArg Room.id hr).trans hid⟩

theorem updateCountsIn_nobodyMoves (d : Directory) (b : Nat) (counts : Table String Int32) :
    d.NobodyMoves (d.updateCountsIn b counts) := by
  rw [updateCountsIn]
  generalize (d.bucket b).rooms = rooms
  have hall : ∀ l, (d.withLobby l).NobodyMoves (d.withLobby (rooms.foldl
      (fun l p => l.setAllOnline p.2 ((counts.get? p.1).getD 0)) l)) := by
    induction rooms with
    | nil => exact fun l => .refl _
    | cons p rooms ih =>
      exact fun l => ((d.withLobby l).setAllOnline_nobodyMoves p.2 _).trans (ih _)
  exact hall d.lobby

theorem updateCounts_nobodyMoves (d : Directory) (counts : Table String Int32) :
    d.NobodyMoves (d.updateCounts counts) := by
  rw [updateCounts]
  generalize List.range d.buckets.size = bs
  induction bs generalizing d with
  | nil => exact .refl d
  | cons b bs ih => exact (d.updateCountsIn_nobodyMoves b counts).trans (ih _)

end Directory

end PushGateway
