import PushGateway.Proofs.Directory.Unmoved
import PushGateway.Proofs.Lobby.Roster

/-!
Whatever may happen to a bucket. Channels come up, are put, moved and deleted; rooms are closed,
taken out of the directory or left behind its back by whoever still holds them, so a dropped room
may stand in the directory and a room may outlive its entry there. Pushes to rooms are queued and
served, and the channels live lives of their own. Through all of it seats and member lists agree.
-/

namespace PushGateway

inductive DirectoryOp
  | create (ch : Channel)
  | put (id : String) (c : Nat)
  | changeRoom (id : String) (c : Nat)
  | del (c : Nat)
  | closeRoom (id : String)
  /-- Takes a room that somebody holds out of the directory. -/
  | delRoom (r : Nat)
  /-- Leaves a room that somebody holds, and does not look whether that empties it. -/
  | leave (r c : Nat)
  | tell (counts : Table String Int32)
  | push (p : RoomPush)
  | work (w : Nat)
  /-- Changes anything of a channel but what it is called and where it sits. -/
  | edit (c : Nat) (f : Channel → Channel)

namespace DirectoryOp

def apply (b : Nat) (d : Directory) : DirectoryOp → Directory
  | .create ch => d.withLobby (d.lobby.addChannel { ch with seat := none }).2
  | .put id c => (d.put b id c).2
  | .changeRoom id c => (d.changeRoom b id c).2
  | .del c => d.del b c
  | .closeRoom id => (d.closeRoom b id).2
  | .delRoom r => d.delRoom b r
  | .leave r c => d.withLobby (d.lobby.leave r c).2
  | .tell counts => d.updateCountsIn b counts
  | .push p => (d.broadcastRoomIn b p).2
  | .work w => (d.workerStep b w).getD d
  | .edit c f => d.withLobby (d.lobby.modify c fun ch =>
      { f ch with key := ch.key, ip := ch.ip, seat := ch.seat })

/-- Only channels that there are get into rooms, and none is put into a room while it sits in
one. -/
def Allowed (d : Directory) : DirectoryOp → Prop
  | .put id c => c < d.lobby.channels.size ∧ (id = "" ∨ d.lobby.roomOf c = none)
  | .changeRoom _ c => c < d.lobby.channels.size
  | _ => True

def after (b : Nat) (d : Directory) : List DirectoryOp → Directory
  | [] => d
  | x :: h => x.apply b (after b d h)

def Legal (b : Nat) (d : Directory) : List DirectoryOp → Prop
  | [] => True
  | x :: h => x.Allowed (after b d h) ∧ Legal b d h

variable {b : Nat} {d : Directory} {x : DirectoryOp} {h : List DirectoryOp}

theorem apply_wellFormed (ho : d.WellFormed) (hx : x.Allowed d) : (x.apply b d).WellFormed := by
  cases x with
  | create ch => exact ho.addChannel rfl
  | put id c =>
    by_cases hid : id = ""
    · simp only [apply, Directory.put, if_pos hid]
      exact ho.register b c
    · exact (Directory.put_seatsIfOk ho b id hx.1 (hx.2.resolve_left hid)).1
  | changeRoom id c => exact (Directory.changeRoom_onlyMoves b id hx).wellFormed ho
  | del c => exact (ho.del b c).1
  | closeRoom id => exact (d.closeRoom_nobodyMoves b id).wellFormed ho
  | delRoom r =>
    have hl := Directory.delRoom_lobby d b r
    exact ho.mono (hl ▸ ho.seatsAgree) (hl ▸ .refl _) fun _ _ _ => Directory.delRoom_room?
  | leave r c =>
    by_cases hc : d.lobby.roomOf c = some r
    · obtain ⟨hs, hk, -⟩ := ho.seatsAgree.leave hc
      exact ho.mono hs hk fun _ _ _ h => h
    · rw [apply, Lobby.leave_stranger hc]
      exact ho
  | tell counts => exact (d.updateCountsIn_nobodyMoves b counts).wellFormed ho
  | push p => exact (d.broadcastRoomIn_nobodyMoves b p).wellFormed ho
  | work w =>
    rw [apply]
    cases hw : d.workerStep b w with
    | none => exact ho
    | some d' => exact (Directory.workerStep_nobodyMoves hw).wellFormed ho
  | edit c f => exact (Directory.modify_onlyTouches ⟨rfl, rfl, rfl⟩).wellFormed ho

theorem apply_buckets (b : Nat) (d : Directory) (x : DirectoryOp) :
    (x.apply b d).buckets.size = d.buckets.size := by
  cases x with
  | create ch => rfl
  | put id c => exact Directory.put_buckets d b id c
  | changeRoom id c => exact (d.changeRoom_deliversNothing b id c).buckets
  | del c => exact Directory.del_buckets d b c
  | closeRoom id => exact (d.closeRoom_nobodyMoves b id).buckets
  | delRoom r => exact (d.delRoom_keepsAllSessions b r).buckets
  | leave r c => rfl
  | tell counts => rfl
  | push p => exact (d.broadcastRoomIn_nobodyMoves b p).buckets
  | work w =>
    rw [apply]
    cases hw : d.workerStep b w with
    | none => rfl
    | some d' => exact (Directory.workerStep_nobodyMoves hw).buckets
  | edit c f => rfl

theorem after_wellFormed (ho : d.WellFormed) (hl : Legal b d h) : (after b d h).WellFormed := by
  induction h with
  | nil => exact ho
  | cons x h ih => exact apply_wellFormed (ih hl.2) hl.1

theorem after_buckets (b : Nat) (d : Directory) (h : List DirectoryOp) :
    (after b d h).buckets.size = d.buckets.size := by
  induction h with
  | nil => rfl
  | cons x h ih => exact (apply_buckets b _ x).trans ih

end DirectoryOp

end PushGateway
