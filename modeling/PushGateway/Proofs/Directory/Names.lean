import PushGateway.Proofs.Directory.Sessions
import PushGateway.Proofs.Lobby.Offers

/-!
Which channel a key names, over all buckets. Only putting a channel under its key and taking it off
change that; pushes, moves between rooms and counts leave every key with the channel it named. Each
bucket is asked for the keys that hash to it alone.
-/

namespace PushGateway.Directory

def find? (d : Directory) (key : String) : Option Nat := d.session? (d.bucketOf key) key

/-- The keys name what they named, and the channels have taken the pushes `ps`. -/
structure Delivers (d : Directory) (ps : Nat → List Frame) (d' : Directory) : Prop where
  buckets : d'.buckets.size = d.buckets.size
  sessions : ∀ b, (d'.bucket b).sessions = (d.bucket b).sessions
  lobby : d.lobby.Delivers ps d'.lobby

abbrev DeliversNothing (d d' : Directory) : Prop := d.Delivers (fun _ => []) d'

variable {d d' d'' : Directory} {ps ps' : Nat → List Frame}

theorem new_find? (buckets workers depth : Nat) (key : String) :
    (new buckets workers depth).find? key = none := by
  rw [find?, session?, bucket, new, Array.getD_eq_getD_getElem?, Array.getElem?_replicate]
  split_ifs <;> rfl

theorem DeliversNothing.refl (d : Directory) : d.DeliversNothing d :=
  ⟨rfl, fun _ => rfl, Lobby.NobodyReceives.refl _⟩

theorem Delivers.trans (h : d.Delivers ps d') (h' : d'.Delivers ps' d'') :
    d.Delivers (fun c => ps c ++ ps' c) d'' :=
  ⟨h'.buckets.trans h.buckets, fun b => (h'.sessions b).trans (h.sessions b),
    h.lobby.trans h'.lobby⟩

theorem DeliversNothing.trans (h : d.DeliversNothing d') (h' : d'.Delivers ps d'') :
    d.Delivers ps d'' := by
  have ht := Delivers.trans h h'
  simpa only [List.nil_append] using ht

theorem Delivers.bucketOf (h : d.Delivers ps d') (key : String) :
    d'.bucketOf key = d.bucketOf key := by
  rw [Directory.bucketOf, h.buckets]
  rfl

theorem Delivers.find? (h : d.Delivers ps d') (key : String) : d'.find? key = d.find? key := by
  rw [Directory.find?, session?, h.bucketOf, h.sessions]
  rfl

theorem withLobby_delivers {lobby : Lobby} (hl : d.lobby.Delivers ps lobby) :
    d.Delivers ps (d.withLobby lobby) := ⟨rfl, fun _ => rfl, hl⟩

theorem setBucket_sessions (d : Directory) (b : Nat) (bucket : Bucket) (b' : Nat) :
    ((d.setBucket b bucket).bucket b').sessions =
      if b' = b ∧ b < d.buckets.size then bucket.sessions else (d.bucket b').sessions := by
  rw [getBucket_setBucket]
  split_ifs <;> rfl

theorem setBucket_deliversNothing {b : Nat} {bucket : Bucket}
    (hs : bucket.sessions = (d.bucket b).sessions) : d.DeliversNothing (d.setBucket b bucket) := by
  refine ⟨setBucket_size _, ?_, Lobby.NobodyReceives.refl _⟩
  intro b'
  rw [setBucket_sessions]
  split_ifs with hb
  · rw [hs, hb.1]
  · rfl

theorem addRoom_deliversNothing (d : Directory) (b : Nat) (id id' : String) (r : Nat) :
    d.DeliversNothing ((d.withLobby (d.lobby.addRoom id).2).setBucket b
      { d.bucket b with rooms := (d.bucket b).rooms.insert id' r }) := by
  have hl : d.DeliversNothing (d.withLobby (d.lobby.addRoom id).2) :=
    withLobby_delivers (Lobby.NobodyReceives.of_channels rfl)
  exact hl.trans (setBucket_deliversNothing rfl)

theorem roomOrCreate_deliversNothing (d : Directory) (b : Nat) (id : String) :
    d.DeliversNothing (d.roomOrCreate b id).2 := by
  rw [roomOrCreate]
  split
  · exact .refl d
  · exact addRoom_deliversNothing ..

theorem replaceDropped_deliversNothing (d : Directory) (b r : Nat) :
    d.DeliversNothing (d.replaceDropped b r).2 := by
  simp only [replaceDropped]
  split
  · exact .refl d
  · exact addRoom_deliversNothing ..

theorem delRoom_deliversNothing (d : Directory) (b r : Nat) :
    d.DeliversNothing (d.delRoom b r) := by
  rw [delRoom]
  split_ifs
  · exact setBucket_deliversNothing rfl
  · exact .refl d

theorem joinRetry_deliversNothing (b c attempts r : Nat) (d : Directory) :
    d.DeliversNothing (joinRetry b c attempts r d).2 := by
  induction attempts generalizing r d with
  | zero => exact .refl d
  | succ attempts ih =>
    rw [joinRetry]
    split
    · rename_i hj
      exact withLobby_delivers (Lobby.join_nobodyReceives hj)
    · exact (d.replaceDropped_deliversNothing b r).trans (ih _ _)
    · exact .refl d

theorem joinRoom_deliversNothing (d : Directory) (b : Nat) (id : String) (c : Nat) :
    d.DeliversNothing (d.joinRoom b id c).2 :=
      (d.roomOrCreate_deliversNothing b id).trans (joinRetry_deliversNothing b c _ _ _)

theorem leaveRoom_deliversNothing (d : Directory) (b r c : Nat) :
    d.DeliversNothing (d.leaveRoom b r c) := by
  have hl : d.DeliversNothing (d.withLobby (d.lobby.leave r c).2) :=
    withLobby_delivers (d.lobby.leave_nobodyReceives r c)
  rw [leaveRoom_eq]
  split_ifs
  · exact hl.trans (delRoom_deliversNothing ..)
  · exact hl

theorem enter_deliversNothing (d : Directory) (b : Nat) (id : String) (c : Nat) :
    d.DeliversNothing (if id = "" then (.ok (), d)
      else d.joinRoom b id c : Except GatewayError Unit × Directory).2 := by
  split_ifs
  · exact .refl d
  · exact d.joinRoom_deliversNothing b id c

theorem changeRoom_deliversNothing (d : Directory) (b : Nat) (id : String) (c : Nat) :
    d.DeliversNothing (d.changeRoom b id c).2 := by
  simp only [changeRoom]
  split
  · exact d.enter_deliversNothing b id c
  · split
    · exact .refl d
    · exact (d.leaveRoom_deliversNothing b _ c).trans (enter_deliversNothing ..)

theorem closeRoom_deliversNothing (d : Directory) (b : Nat) (id : String) :
    d.DeliversNothing (d.closeRoom b id).2 := by
  simp only [closeRoom]
  split
  · exact .refl d
  · rename_i r _
    have hl : d.DeliversNothing (d.withLobby (d.lobby.closeRoom r)) :=
      withLobby_delivers (d.lobby.closeRoom_nobodyReceives r)
    exact hl.trans (setBucket_deliversNothing rfl)

def takenIn (op : Int32) (f : Frame) (c : Nat) (d : Directory) : List Nat → List Frame
  | [] => []
  | b :: bs => d.lobby.taken op f c (d.bucket b).sessions.values ++ takenIn op f c
      (d.broadcastIn b op f).2 bs

theorem broadcastIn_delivers (d : Directory) (b : Nat) (op : Int32) (f : Frame) :
    d.Delivers (fun c => d.lobby.taken op f c (d.bucket b).sessions.values)
      (d.broadcastIn b op f).2 :=
  withLobby_delivers (d.lobby.offerAll_delivers op f _)

theorem broadcast_delivers (d : Directory) (op : Int32) (f : Frame) :
    d.Delivers (fun c => d.takenIn op f c (List.range d.buckets.size)) (d.broadcast op f).2 := by
  rw [broadcast]
  generalize List.range d.buckets.size = bs
  generalize 0 = n
  induction bs generalizing d n with
  | nil => exact DeliversNothing.refl d
  | cons b bs ih => exact (d.broadcastIn_delivers b op f).trans (ih (d.broadcastIn b op f).2 _)

theorem pushKeys_delivers (d : Directory) (keys : List String) (op : Int32) (f : Frame) :
    d.Delivers (fun c => d.lobby.taken op f c (keys.filterMap d.find?)) (d.pushKeys keys op f).2 :=
  withLobby_delivers (d.lobby.offerAll_delivers op f _)

theorem enqueue_sessions (b : Bucket) (p : RoomPush) : (b.enqueue p).2.sessions = b.sessions := by
  simp only [Bucket.enqueue]
  split <;> rfl

theorem broadcastRoomIn_deliversNothing (d : Directory) (b : Nat) (p : RoomPush) :
    d.DeliversNothing (d.broadcastRoomIn b p).2 := setBucket_deliversNothing (enqueue_sessions _ p)

theorem broadcastRoom_deliversNothing (d : Directory) (p : RoomPush) :
    d.DeliversNothing (d.broadcastRoom p).2 := by
  rw [broadcastRoom]
  generalize List.range d.buckets.size = bs
  generalize 0 = n
  induction bs generalizing d n with
  | nil => exact .refl d
  | cons b bs ih =>
    exact (d.broadcastRoomIn_deliversNothing b p).trans (ih (d.broadcastRoomIn b p).2 _)

def takenFrom (b w c : Nat) (d : Directory) : List Frame :=
  match (d.bucket b).workers.getD w [] with
  | [] => []
  | p :: _ =>
    match (d.bucket b).rooms.get? p.room with
    | none => []
    | some r => d.lobby.taken p.frame.op p.frame c (d.lobby.members r)

theorem takenFrom_none {b w : Nat} (h : d.workerStep b w = none) (c : Nat) :
    d.takenFrom b w c = [] := by
  have hq : (d.bucket b).workers.getD w [] = [] := by
    simp only [workerStep] at h
    split at h
    · assumption
    · split at h <;> cases h
  rw [takenFrom, hq]

theorem workerStep_delivers {b w : Nat} (h : d.workerStep b w = some d') :
    d.Delivers (fun c => d.takenFrom b w c) d' := by
  simp only [workerStep] at h
  split at h
  · cases h
  · rename_i p queue hq
    have hs : d.DeliversNothing
        (d.setBucket b { d.bucket b with workers := (d.bucket b).workers.setIfInBounds w queue }) :=
      setBucket_deliversNothing rfl
    split at h
    · rename_i hr
      cases h
      have ht (c : Nat) : d.takenFrom b w c = [] := by simp only [takenFrom, hq, hr]
      simpa only [ht] using hs
    · rename_i r hr
      cases h
      have ht (c : Nat) : d.takenFrom b w c = d.lobby.taken p.frame.op p.frame c
          (d.lobby.members r) := by
        simp only [takenFrom, hq, hr]
      simp only [ht]
      exact hs.trans (withLobby_delivers (d.lobby.broadcast_delivers r p.frame))

theorem updateCountsIn_deliversNothing (d : Directory) (b : Nat) (counts : Table String Int32) :
    d.DeliversNothing (d.updateCountsIn b counts) := by
  apply withLobby_delivers
  generalize d.lobby = l
  induction (d.bucket b).rooms generalizing l with
  | nil => exact Lobby.NobodyReceives.refl l
  | cons p rooms ih =>
    have hq : l.NobodyReceives (l.setAllOnline p.2 ((counts.get? p.1).getD 0)) :=
      Lobby.NobodyReceives.of_channels rfl
    exact hq.trans (ih _)

theorem updateCounts_deliversNothing (d : Directory) (counts : Table String Int32) :
    d.DeliversNothing (d.updateCounts counts) := by
  rw [updateCounts]
  generalize List.range d.buckets.size = bs
  induction bs generalizing d with
  | nil => exact .refl d
  | cons b bs ih => exact (d.updateCountsIn_deliversNothing b counts).trans (ih _)

theorem register_nobodyReceives (d : Directory) (b c : Nat) :
    d.lobby.NobodyReceives (d.register b c).lobby := by
  have hold := d.lobby.modify_nobodyReceives c (Channel.hold_receives _)
  simp only [register]
  change d.lobby.NobodyReceives (match (d.bucket b).sessions.get? (d.lobby.channel c).key with
    | none => d.lobby.modify c Channel.hold
    | some old => (d.lobby.modify c Channel.hold).modify old fun o =>
        if old = c then o.release else o.close.release)
  split
  · exact hold
  · refine hold.trans (Lobby.modify_nobodyReceives _ _ ?_)
    split_ifs
    · exact Channel.release_receives _
    · exact (Channel.close_receives _).trans (Channel.release_receives _)

theorem register_sessions (d : Directory) (b c b' : Nat) : ((d.register b c).bucket b').sessions =
    if b' = b ∧ b < d.buckets.size then (d.bucket b).sessions.insert (d.lobby.channel c).key c
    else (d.bucket b').sessions := setBucket_sessions (d.withLobby _) b _ b'

theorem unregister_nobodyReceives (d : Directory) (b c : Nat) :
    d.lobby.NobodyReceives (d.unregister b c).lobby := by
  simp only [unregister]
  split_ifs
  · exact d.lobby.modify_nobodyReceives c (Channel.release_receives _)
  · exact .refl _

theorem unregister_sessions (d : Directory) (b c b' : Nat) :
    ((d.unregister b c).bucket b').sessions =
      if b' = b ∧ b < d.buckets.size ∧
          (d.bucket b).sessions.get? (d.lobby.channel c).key = some c then
      (d.bucket b).sessions.erase (d.lobby.channel c).key
      else (d.bucket b').sessions := by
  simp only [unregister]
  by_cases hs : (d.bucket b).sessions.get? (d.lobby.channel c).key = some c
  · rw [if_pos hs, if_pos hs, setBucket_sessions, dropIp_sessions]
    simp only [hs, and_true]
    rfl
  · rw [if_neg hs, if_neg hs, setBucket_sessions, dropIp_sessions]
    simp only [hs, and_false, if_false]
    split_ifs with hb
    · rw [hb.1]
    · rfl

variable {key : String} {c : Nat}

theorem bucketOf_lt (h : 0 < d.buckets.size) (key : String) : d.bucketOf key < d.buckets.size :=
  Nat.mod_lt _ h

theorem bucketOf_congr (h : d'.buckets.size = d.buckets.size) (k : String) :
    d'.bucketOf k = d.bucketOf k := by
  rw [Directory.bucketOf, h]
  rfl

theorem register_buckets (d : Directory) (b c : Nat) :
    (d.register b c).buckets.size = d.buckets.size := setBucket_size _

theorem unregister_buckets (d : Directory) (b c : Nat) :
    (d.unregister b c).buckets.size = d.buckets.size := by
  simp only [unregister]
  split_ifs <;> exact setBucket_size _

theorem register_find? (h : 0 < d.buckets.size) (hk : (d.lobby.channel c).key = key) (k : String) :
    (d.register (d.bucketOf key) c).find? k = if k = key then some c else d.find? k := by
  rw [find?, session?, bucketOf_congr (register_buckets ..), register_sessions, hk]
  by_cases he : k = key
  · rw [if_pos he, he, if_pos ⟨rfl, bucketOf_lt h key⟩, Table.get?_insert, if_pos rfl]
  · rw [if_neg he]
    split_ifs with hb
    · rw [Table.get?_insert, if_neg (Ne.symm he), ← hb.1]
      rfl
    · rfl

theorem unregister_find? (h : 0 < d.buckets.size) (hk : (d.lobby.channel c).key = key)
    (k : String) :
    (d.unregister (d.bucketOf key) c).find? k =
      if k = key ∧ d.find? key = some c then none else d.find? k := by
  rw [find?, session?, bucketOf_congr (unregister_buckets ..), unregister_sessions, hk]
  by_cases hf : d.find? key = some c
  · have hs : (d.bucket (d.bucketOf key)).sessions.get? key = some c := hf
    simp only [hs, hf, bucketOf_lt h key, and_true]
    by_cases he : k = key
    · rw [he, if_pos rfl, if_pos rfl, Table.get?_erase, if_pos rfl]
    · rw [if_neg he]
      split_ifs with hb
      · rw [Table.get?_erase, if_neg (Ne.symm he), ← hb]
        rfl
      · rfl
  · have hs : (d.bucket (d.bucketOf key)).sessions.get? key ≠ some c := hf
    simp only [hs, hf, and_false, if_false]
    rfl

theorem put_deliversNothing (d : Directory) (b : Nat) (id : String) (c : Nat) :
    (d.register b c).DeliversNothing (d.put b id c).2 :=
    (d.register b c).enter_deliversNothing b id c

theorem del_deliversNothing (d : Directory) (b c : Nat) : (d.unregister b c).DeliversNothing
    (d.del b c) := by
  rw [del]
  split
  · exact .refl _
  · exact leaveRoom_deliversNothing ..

theorem put_nobodyReceives (d : Directory) (b : Nat) (id : String) (c : Nat) :
    d.lobby.NobodyReceives (d.put b id c).2.lobby :=
  (d.register_nobodyReceives b c).trans (d.put_deliversNothing b id c).lobby

theorem del_nobodyReceives (d : Directory) (b c : Nat) : d.lobby.NobodyReceives (d.del b c).lobby :=
  (d.unregister_nobodyReceives b c).trans (d.del_deliversNothing b c).lobby

theorem put_buckets (d : Directory) (b : Nat) (id : String) (c : Nat) :
    (d.put b id c).2.buckets.size = d.buckets.size :=
  (d.put_deliversNothing b id c).buckets.trans (d.register_buckets b c)

theorem del_buckets (d : Directory) (b c : Nat) : (d.del b c).buckets.size = d.buckets.size :=
  (d.del_deliversNothing b c).buckets.trans (d.unregister_buckets b c)

theorem put_find? (h : 0 < d.buckets.size) (hk : (d.lobby.channel c).key = key) (id k : String) :
    (d.put (d.bucketOf key) id c).2.find? k = if k = key then some c else d.find? k := by
  rw [(d.put_deliversNothing (d.bucketOf key) id c).find? k, register_find? h hk]

theorem del_find? (h : 0 < d.buckets.size) (hk : (d.lobby.channel c).key = key) (k : String) :
    (d.del (d.bucketOf key) c).find? k = if k = key ∧ d.find? key = some c then none
      else d.find? k := by
  rw [(d.del_deliversNothing (d.bucketOf key) c).find? k, unregister_find? h hk]

end PushGateway.Directory
