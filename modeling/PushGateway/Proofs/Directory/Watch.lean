import PushGateway.Proofs.Directory.Unmoved

/-!
What a channel watches for is up to its own frames: whatever is put, moved, deleted, pushed or
counted in the directory, every channel there was still watches for the same codes.
-/

namespace PushGateway

structure Lobby.SameWatch (l l' : Lobby) : Prop where
  size : l.channels.size ≤ l'.channels.size
  watched : ∀ c < l.channels.size, (l'.channel c).watched = (l.channel c).watched

namespace Lobby

variable {l l' l'' : Lobby}

theorem SameWatch.refl (l : Lobby) : l.SameWatch l := ⟨Nat.le_refl _, fun _ _ => rfl⟩

theorem SameWatch.trans (h : l.SameWatch l') (h' : l'.SameWatch l'') : l.SameWatch l'' :=
  ⟨Nat.le_trans h.size h'.size,
    fun c hc => (h'.watched c (Nat.lt_of_lt_of_le hc h.size)).trans (h.watched c hc)⟩

theorem SameWatch.needsPush (h : l.SameWatch l') {c : Nat} (hc : c < l.channels.size) (op : Int32) :
    (l'.channel c).needsPush op = (l.channel c).needsPush op := by
  rw [Channel.needsPush, h.watched c hc, Channel.needsPush]

theorem SameWatch.of_channels (h : l'.channels = l.channels) : l.SameWatch l' := by
  have hch (c : Nat) : l'.channel c = l.channel c := by rw [channel, h, channel]
  exact ⟨Nat.le_of_eq (congrArg Array.size h.symm), fun c _ => congrArg Channel.watched (hch c)⟩

theorem modify_sameWatch (l : Lobby) (c : Nat) {f : Channel → Channel}
    (hf : (f (l.channel c)).watched = (l.channel c).watched) : l.SameWatch (l.modify c f) := by
  refine ⟨Nat.le_of_eq (modify_channels_size l c f).symm, fun c' _ => ?_⟩
  rw [channel_modify]
  split_ifs with hc
  · rw [hf, hc.1]
  · rfl

theorem addChannel_sameWatch (l : Lobby) (ch : Channel) : l.SameWatch (l.addChannel ch).2 := by
  refine ⟨?_, fun c hc => ?_⟩
  · simp [addChannel]
  · rw [channel_addChannel, if_neg (Nat.ne_of_lt hc)]

theorem deliver_watched (ch : Channel) (f : Frame) : (ch.deliver f).2.watched = ch.watched := by
  rw [Channel.deliver]
  split <;> rfl

theorem offer_sameWatch (l : Lobby) (op : Int32) (f : Frame) (c : Nat) :
    l.SameWatch (l.offer op f c).2 := by
  rw [offer]
  split_ifs
  · exact l.modify_sameWatch c (deliver_watched _ f)
  · exact .refl l

theorem offerAll_sameWatch (op : Int32) (f : Frame) (l : Lobby) (cs : List Nat) :
    l.SameWatch (offerAll op f l cs).2 := by
  induction cs generalizing l with
  | nil => exact .refl l
  | cons c cs ih => exact (l.offer_sameWatch op f c).trans (ih _)

theorem closeRoom_sameWatch (l : Lobby) (r : Nat) : l.SameWatch (l.closeRoom r) := by
  rw [closeRoom]
  generalize l.members r = cs
  induction cs generalizing l with
  | nil => exact .refl l
  | cons c cs ih => exact (l.modify_sameWatch c rfl).trans (ih _)

end Lobby

namespace Directory

variable {d d' : Directory} {b c : Nat}

theorem OnlyReseats.sameWatch (h : d.OnlyReseats c d') : d.lobby.SameWatch d'.lobby := by
  refine ⟨Nat.le_of_eq h.channels.symm, fun c' _ => ?_⟩
  by_cases hc : c' = c
  · obtain ⟨seat, hs⟩ := h.rest
    rw [hc, hs]
  · rw [h.others c' hc]

theorem register_sameWatch (d : Directory) (b c : Nat) :
    d.lobby.SameWatch (d.register b c).lobby := by
  have hhold : d.lobby.SameWatch (d.lobby.modify c Channel.hold) := d.lobby.modify_sameWatch c rfl
  simp only [register]
  split
  · exact hhold
  · refine hhold.trans (Lobby.modify_sameWatch _ _ ?_)
    split_ifs <;> rfl

theorem put_sameWatch (d : Directory) (b : Nat) (id : String) (c : Nat) :
    d.lobby.SameWatch (d.put b id c).2.lobby :=
  (d.register_sameWatch b c).trans ((d.register b c).enter_onlyReseats b id c).sameWatch

theorem unregister_sameWatch (d : Directory) (b c : Nat) :
    d.lobby.SameWatch (d.unregister b c).lobby := by
  simp only [unregister]
  split_ifs
  · exact d.lobby.modify_sameWatch c rfl
  · exact .refl d.lobby

theorem del_sameWatch (d : Directory) (b c : Nat) : d.lobby.SameWatch (d.del b c).lobby := by
  have hun := d.unregister_sameWatch b c
  simp only [del]
  split
  · exact hun
  · exact hun.trans ((d.unregister b c).leaveRoom_onlyReseats b _ c).sameWatch

theorem changeRoom_sameWatch (d : Directory) (b : Nat) (id : String) (c : Nat) :
    d.lobby.SameWatch (d.changeRoom b id c).2.lobby := by
  simp only [changeRoom]
  split
  · exact (d.enter_onlyReseats b id c).sameWatch
  · rename_i old _
    split_ifs
    · exact .refl d.lobby
    · exact (d.leaveRoom_onlyReseats b old c).sameWatch
    · exact ((d.leaveRoom_onlyReseats b old c).trans (joinRoom_onlyReseats _ b id c)).sameWatch

theorem closeRoom_sameWatch (d : Directory) (b : Nat) (id : String) :
    d.lobby.SameWatch (d.closeRoom b id).2.lobby := by
  simp only [closeRoom]
  split
  · exact .refl d.lobby
  · exact d.lobby.closeRoom_sameWatch _

theorem broadcast_sameWatch (d : Directory) (op : Int32) (f : Frame) :
    d.lobby.SameWatch (d.broadcast op f).2.lobby := by
  rw [broadcast]
  generalize List.range d.buckets.size = bs
  generalize 0 = n
  induction bs generalizing d n with
  | nil => exact .refl d.lobby
  | cons b bs ih =>
    exact (Lobby.offerAll_sameWatch op f d.lobby _).trans (ih (d.broadcastIn b op f).2 _)

theorem broadcastRoom_lobby (d : Directory) (p : RoomPush) :
    (d.broadcastRoom p).2.lobby = d.lobby := by
  rw [broadcastRoom]
  generalize List.range d.buckets.size = bs
  generalize 0 = n
  induction bs generalizing d n with
  | nil => rfl
  | cons b bs ih => exact ih (d.broadcastRoomIn b p).2 _

theorem workerStep_sameWatch {w : Nat} (h : d.workerStep b w = some d') :
    d.lobby.SameWatch d'.lobby := by
  simp only [workerStep] at h
  split at h
  · cases h
  · split at h
    · cases h
      exact .refl d.lobby
    · cases h
      exact Lobby.offerAll_sameWatch _ _ d.lobby _

theorem updateCountsIn_channels (d : Directory) (b : Nat) (counts : Table String Int32) :
    (d.updateCountsIn b counts).lobby.channels = d.lobby.channels := by
  rw [updateCountsIn]
  generalize (d.bucket b).rooms = rooms
  change (rooms.foldl _ d.lobby).channels = _
  generalize d.lobby = l
  induction rooms generalizing l with
  | nil => rfl
  | cons p rooms ih => exact ih (l.setAllOnline p.2 _)

theorem updateCounts_channels (d : Directory) (counts : Table String Int32) :
    (d.updateCounts counts).lobby.channels = d.lobby.channels := by
  rw [updateCounts]
  generalize List.range d.buckets.size = bs
  induction bs generalizing d with
  | nil => rfl
  | cons b bs ih => exact (ih _).trans (d.updateCountsIn_channels b counts)

end Directory

end PushGateway
