import Mathlib.Data.Int.CardIntervalMod
import PushGateway.Proofs.Directory.Operations
import PushGateway.Proofs.Lobby.Broadcast

/-!
The workers of a bucket. Pushes to rooms go to them in turn, and each of them has a queue that holds
so many. A worker takes the pushes out of its queue from the front and passes each to the room that
the directory has for it then. Nothing else that happens to a bucket touches the queues.
-/

namespace PushGateway

namespace Bucket

def pending (b : Bucket) : List RoomPush := b.workers.toList.flatten

def enqueueAll (b : Bucket) : List RoomPush → List Bool × Bucket
  | [] => ([], b)
  | p :: ps =>
    let (ok, b) := b.enqueue p
    let (oks, b) := b.enqueueAll ps
    (ok :: oks, b)

/-- How many of the first `k` turns from turn `t` on are those of worker `w`, one of `n`. -/
def turns (n t w k : Nat) : Nat := Nat.count (fun j => (t + j) % n = w) k

/-- Since the queues were empty, at turn `t`, `k` pushes have been offered to `n` workers in turn.
Each has as many as it has had turns, or as many as its queue holds, which is `m`. -/
structure RoundRobinLoad (b : Bucket) (n m t k : Nat) : Prop where
  size : b.workers.size = n
  depth : b.depth = m
  turn : b.turn = t + k
  length : ∀ w < n, (b.workers.getD w []).length = min m (turns n t w k)

variable {b : Bucket} {n m t k w : Nat}

theorem turns_succ (n t w k : Nat) :
    turns n t w (k + 1) = turns n t w k + if (t + k) % n = w then 1 else 0 :=
  Nat.count_succ ..

theorem turns_own (hs : 0 < n) (t k : Nat) : turns n t ((t + k) % n) k = k / n := by
  have hmod (j : Nat) : (t + j) % n = (t + k) % n ↔ j ≡ k [MOD n] :=
    ⟨fun h => Nat.ModEq.add_left_cancel' t h, fun h => h.add_left t⟩
  simp only [turns, hmod]
  rw [Nat.count_modEq_card k hs, if_neg (Nat.lt_irrefl _), Nat.add_zero]

theorem getD_workers_set (b : Bucket) (w : Nat) (queue : List RoomPush) (w' : Nat) :
    (b.workers.setIfInBounds w queue).getD w' [] =
      if w' = w ∧ w < b.workers.size then queue else b.workers.getD w' [] := by
  simp only [Array.getD_eq_getD_getElem?, Array.getElem?_setIfInBounds]
  by_cases hw : w = w'
  · subst hw
    by_cases hlt : w < b.workers.size <;> simp [hlt]
  · simp [hw, Ne.symm hw]

theorem RoundRobinLoad.enqueue (hb : b.RoundRobinLoad n m t k) (hs : 0 < n) (p : RoomPush) :
    (b.enqueue p).1 = decide (k < n * m) ∧ (b.enqueue p).2.RoundRobinLoad n m t (k + 1) := by
  have hw : (t + k) % n < n := Nat.mod_lt _ hs
  have hlength := hb.length _ hw
  rw [turns_own hs] at hlength
  -- The worker has had a turn in each of the `k / n` rounds so far, and one place went with each.
  have hplace : (b.workers.getD ((t + k) % n) []).length < m ↔ k < n * m := by
    rw [hlength, min_lt_iff, Nat.div_lt_iff_lt_mul hs, Nat.mul_comm]
    exact or_iff_right (Nat.lt_irrefl _)
  simp only [Bucket.enqueue, hb.turn, hb.size, hb.depth]
  split_ifs with hlt
  · refine ⟨(decide_eq_true (hplace.1 hlt)).symm, ?_, rfl, rfl, fun w' hw' => ?_⟩
    · exact Array.size_setIfInBounds.trans hb.size
    · change ((b.workers.setIfInBounds _ _).getD w' []).length = _
      rw [getD_workers_set, turns_succ]
      by_cases he : w' = (t + k) % n
      · rw [if_pos ⟨he, hb.size.symm ▸ hw⟩, if_pos he.symm, List.length_append,
          List.length_singleton, he, turns_own hs]
        omega
      · rw [if_neg fun h => he h.1, if_neg (Ne.symm he)]
        exact hb.length w' hw'
  · refine ⟨(decide_eq_false (mt hplace.2 hlt)).symm, hb.size, rfl, rfl, fun w' hw' => ?_⟩
    have hl := hb.length w' hw'
    rw [turns_succ]
    split_ifs with he
    · subst he
      rw [turns_own hs] at hl ⊢
      change (b.workers.getD _ []).length = _
      omega
    · exact hl

section
variable {α : Type} {queues : List (List α)} {queue queue' : List α} {a : α}

theorem flatten_set (hw : queues[w]? = some queue) (hq : queue'.Perm (a :: queue)) :
    (queues.set w queue').flatten.Perm (a :: queues.flatten) := by
  induction queues generalizing w with
  | nil => cases hw
  | cons q queues ih =>
    cases w with
    | zero =>
      cases hw
      exact hq.append_right queues.flatten
    | succ w =>
      simp only [List.set_cons_succ, List.flatten_cons]
      exact ((ih hw).append_left q).trans List.perm_middle

theorem flatten_set_tail (hw : queues[w]? = some (a :: queue)) :
    queues.flatten.Perm (a :: (queues.set w queue).flatten) := by
  obtain ⟨hlt, he⟩ := List.getElem?_eq_some_iff.1 hw
  have hset : (queues.set w queue)[w]? = some queue := List.getElem?_set_self hlt
  have hback := flatten_set hset (.refl (a :: queue))
  rwa [List.set_set, ← he, List.set_getElem_self] at hback

end

theorem workers_getElem? (hw : w < b.workers.size) :
    b.workers.toList[w]? = some (b.workers.getD w []) := by
  rw [Array.getElem?_toList, Array.getD_eq_getD_getElem?, Array.getElem?_eq_getElem hw]
  rfl

theorem enqueue_rooms (b : Bucket) (p : RoomPush) : (b.enqueue p).2.rooms = b.rooms := by
  simp only [Bucket.enqueue]
  split <;> rfl

theorem enqueue_workers_size (b : Bucket) (p : RoomPush) :
    (b.enqueue p).2.workers.size = b.workers.size ∧ (b.enqueue p).2.depth = b.depth := by
  simp only [Bucket.enqueue]
  split
  · exact ⟨Array.size_setIfInBounds, rfl⟩
  · exact ⟨rfl, rfl⟩

theorem enqueue_pending (hn : 0 < b.workers.size) (p : RoomPush) :
    (b.enqueue p).2.pending.Perm (if (b.enqueue p).1 then p :: b.pending else b.pending) := by
  simp only [Bucket.enqueue]
  by_cases hlt : (b.workers.getD (b.turn % b.workers.size) []).length < b.depth
  · simp only [if_pos hlt, if_true, pending, Array.toList_setIfInBounds]
    exact flatten_set (workers_getElem? (Nat.mod_lt _ hn)) (List.perm_append_singleton ..)
  · simp only [if_neg hlt]
    exact .refl _

/-- As many pushes are taken as there are places from here on, the first ones. -/
theorem RoundRobinLoad.enqueueAll (hb : b.RoundRobinLoad n m t k) (hn : 0 < n)
    (ps : List RoomPush) :
    (b.enqueueAll ps).1 =
      List.replicate (min ps.length (n * m - k)) true ++ List.replicate
      (ps.length - (n * m - k)) false ∧
      (b.enqueueAll ps).2.pending.Perm (b.pending ++ ps.take (n * m - k)) ∧
      (b.enqueueAll ps).2.RoundRobinLoad n m t (k + ps.length) := by
  induction ps generalizing b k with
  | nil => simpa [Bucket.enqueueAll] using hb
  | cons p ps ih =>
    obtain ⟨hok, hb'⟩ := hb.enqueue hn p
    have hpending := enqueue_pending (hb.size.symm ▸ hn) p
    obtain ⟨hanswers, hperm, hlast⟩ := ih hb'
    rw [Nat.add_assoc, Nat.add_comm 1] at hlast
    simp only [Bucket.enqueueAll, hok, hanswers, List.length_cons]
    rw [hok] at hpending
    refine ⟨?_, hperm.trans ?_, hlast⟩
    · by_cases hk : k < n * m
      · obtain ⟨r, hr⟩ : ∃ r, n * m - k = r + 1 := ⟨n * m - k - 1, by omega⟩
        have hr' : n * m - (k + 1) = r := by omega
        rw [hr, hr', decide_eq_true hk, Nat.add_min_add_right, Nat.add_sub_add_right,
          List.replicate_succ]
        rfl
      · have hr : n * m - k = 0 := by omega
        have hr' : n * m - (k + 1) = 0 := by omega
        simp [hr, hr', hk, List.replicate_succ]
    · by_cases hk : k < n * m
      · obtain ⟨r, hr⟩ : ∃ r, n * m - k = r + 1 := ⟨n * m - k - 1, by omega⟩
        have hr' : n * m - (k + 1) = r := by omega
        rw [if_pos (decide_eq_true hk)] at hpending
        rw [hr, hr', List.take_succ_cons]
        exact (hpending.append_right _).trans List.perm_middle.symm
      · have hr : n * m - k = 0 := by omega
        have hr' : n * m - (k + 1) = 0 := by omega
        rw [if_neg (by simpa using hk)] at hpending
        rw [hr, hr', List.take_zero, List.take_zero]
        exact hpending.append_right []

theorem RoundRobinLoad.idle (hs : b.workers.size = n) (hd : b.depth = m) (hp : b.pending = []) :
    b.RoundRobinLoad n m b.turn 0 := by
  refine ⟨hs, hd, rfl, fun w hw => ?_⟩
  have hmem := List.mem_of_getElem? (workers_getElem? (hs.symm ▸ hw))
  rw [List.flatten_eq_nil_iff.1 hp _ hmem]
  exact (Nat.min_zero m).symm

end Bucket

namespace Directory

def pushAll (d : Directory) (b : Nat) : List RoomPush → List Bool × Directory
  | [] => ([], d)
  | p :: ps =>
    let (ok, d) := d.broadcastRoomIn b p
    let (oks, d) := d.pushAll b ps
    (ok :: oks, d)

structure KeepsQueues (d d' : Directory) : Prop where
  workers : ∀ b, (d'.bucket b).workers = (d.bucket b).workers
  depth : ∀ b, (d'.bucket b).depth = (d.bucket b).depth

structure KeepsWorkers (d d' : Directory) : Prop where
  size : ∀ b, (d'.bucket b).workers.size = (d.bucket b).workers.size
  depth : ∀ b, (d'.bucket b).depth = (d.bucket b).depth

def serving (d : Directory) (b w : Nat) : Option (RoomPush × Option Nat) :=
  ((d.bucket b).workers.getD w []).head?.map fun p => (p, d.room? b p.room)

def hears (d : Directory) (b : Nat) (id : String) (c : Nat) : Bool :=
  (d.lobby.roomOf c).any fun r => d.room? b id = some r

variable {d d' d'' : Directory} {b c w : Nat} {id : String}

theorem pushAll_bucket (hb : b < d.buckets.size) (ps : List RoomPush) :
    (d.pushAll b ps).1 = ((d.bucket b).enqueueAll ps).1 ∧
      (d.pushAll b ps).2.bucket b = ((d.bucket b).enqueueAll ps).2 := by
  induction ps generalizing d with
  | nil => exact ⟨rfl, rfl⟩
  | cons p ps ih =>
    have hbucket : (d.broadcastRoomIn b p).2.bucket b = ((d.bucket b).enqueue p).2 :=
      bucket_setBucket hb _
    have hrest := ih (d := (d.broadcastRoomIn b p).2)
      ((d.broadcastRoomIn_nobodyMoves b p).buckets.symm ▸ hb)
    rw [hbucket] at hrest
    exact ⟨congrArg _ hrest.1, hrest.2⟩

theorem pushAll_lobby (d : Directory) (b : Nat) (ps : List RoomPush) :
    (d.pushAll b ps).2.lobby = d.lobby := by
  induction ps generalizing d with
  | nil => rfl
  | cons p ps ih => exact ih (d.broadcastRoomIn b p).2

theorem pushAll_buckets (d : Directory) (b : Nat) (ps : List RoomPush) :
    (d.pushAll b ps).2.buckets.size = d.buckets.size := by
  induction ps generalizing d with
  | nil => rfl
  | cons p ps ih =>
    exact (ih (d.broadcastRoomIn b p).2).trans (d.broadcastRoomIn_nobodyMoves b p).buckets

theorem setBucket_same {α : Type} (f : Bucket → α) {bucket : Bucket} (h : f bucket = f (d.bucket b))
    (b' : Nat) : f ((d.setBucket b bucket).bucket b') = f (d.bucket b') := by
  rw [getBucket_setBucket]
  split_ifs with hb
  · rw [h, hb.1]
  · rfl

theorem setBucket_room? {bucket : Bucket} (h : bucket.rooms = (d.bucket b).rooms) (b' : Nat)
    (id : String) : (d.setBucket b bucket).room? b' id = d.room? b' id :=
  congrArg (·.get? id) (setBucket_same Bucket.rooms h b')

theorem pushAll_room? (d : Directory) (b : Nat) (ps : List RoomPush) (b' : Nat) (id : String) :
    (d.pushAll b ps).2.room? b' id = d.room? b' id := by
  induction ps generalizing d with
  | nil => rfl
  | cons p ps ih =>
    exact (ih (d.broadcastRoomIn b p).2).trans (setBucket_room? (Bucket.enqueue_rooms _ p) b' id)

theorem KeepsQueues.refl (d : Directory) : d.KeepsQueues d := ⟨fun _ => rfl, fun _ => rfl⟩

theorem KeepsQueues.trans (h : d.KeepsQueues d') (h' : d'.KeepsQueues d'') : d.KeepsQueues d'' :=
  ⟨fun b => (h'.workers b).trans (h.workers b), fun b => (h'.depth b).trans (h.depth b)⟩

theorem KeepsWorkers.refl (d : Directory) : d.KeepsWorkers d := ⟨fun _ => rfl, fun _ => rfl⟩

theorem KeepsWorkers.trans (h : d.KeepsWorkers d') (h' : d'.KeepsWorkers d'') :
    d.KeepsWorkers d'' :=
  ⟨fun b => (h'.size b).trans (h.size b), fun b => (h'.depth b).trans (h.depth b)⟩

theorem KeepsQueues.keepsWorkers (h : d.KeepsQueues d') : d.KeepsWorkers d' :=
  ⟨fun b => congrArg Array.size (h.workers b), h.depth⟩

theorem setBucket_queues {bucket : Bucket} (hw : bucket.workers = (d.bucket b).workers)
    (hd : bucket.depth = (d.bucket b).depth) : d.KeepsQueues (d.setBucket b bucket) :=
  ⟨setBucket_same Bucket.workers hw, setBucket_same Bucket.depth hd⟩

theorem setBucket_keepsWorkers {bucket : Bucket}
    (hw : bucket.workers.size = (d.bucket b).workers.size)
    (hd : bucket.depth = (d.bucket b).depth) : d.KeepsWorkers (d.setBucket b bucket) :=
  ⟨setBucket_same (·.workers.size) hw, setBucket_same Bucket.depth hd⟩

theorem withLobby_queues (d : Directory) (l : Lobby) : d.KeepsQueues (d.withLobby l) :=
  ⟨fun _ => rfl, fun _ => rfl⟩

theorem opened_queues (d : Directory) (b : Nat) (id id' : String) (r : Nat) :
    d.KeepsQueues ((d.withLobby (d.lobby.addRoom id).2).setBucket b
      { d.bucket b with rooms := (d.bucket b).rooms.insert id' r }) :=
  (d.withLobby_queues _).trans (setBucket_queues rfl rfl)

theorem joinRetry_queues (b c attempts r : Nat) (d : Directory) :
    d.KeepsQueues (joinRetry b c attempts r d).2 := by
  induction attempts generalizing r d with
  | zero => exact .refl d
  | succ attempts ih =>
    rw [joinRetry]
    split
    · exact d.withLobby_queues _
    · have hreplace : d.KeepsQueues (d.replaceDropped b r).2 := by
        simp only [replaceDropped]
        split
        · exact .refl d
        · exact d.opened_queues ..
      exact hreplace.trans (ih _ _)
    · exact .refl d

theorem joinRoom_queues (d : Directory) (b : Nat) (id : String) (c : Nat) :
    d.KeepsQueues (d.joinRoom b id c).2 := by
  have hroom : d.KeepsQueues (d.roomOrCreate b id).2 := by
    rw [roomOrCreate]
    split
    · exact .refl d
    · exact d.opened_queues ..
  exact hroom.trans (joinRetry_queues b c _ _ _)

theorem enter_queues (d : Directory) (b : Nat) (id : String) (c : Nat) : d.KeepsQueues
    (if id = "" then (.ok (), d)
      else d.joinRoom b id c : Except GatewayError Unit × Directory).2 := by
  split_ifs
  · exact .refl d
  · exact d.joinRoom_queues b id c

theorem delRoom_queues (d : Directory) (b r : Nat) : d.KeepsQueues (d.delRoom b r) := by
  rw [delRoom]
  split_ifs
  · exact setBucket_queues rfl rfl
  · exact .refl d

theorem leaveRoom_queues (d : Directory) (b r c : Nat) : d.KeepsQueues (d.leaveRoom b r c) := by
  have hl := d.withLobby_queues (d.lobby.leave r c).2
  rw [leaveRoom_eq]
  split_ifs
  · exact hl.trans (delRoom_queues _ b r)
  · exact hl

theorem changeRoom_queues (d : Directory) (b : Nat) (id : String) (c : Nat) :
    d.KeepsQueues (d.changeRoom b id c).2 := by
  simp only [changeRoom]
  split
  · exact d.enter_queues b id c
  · rename_i old _
    split_ifs
    · exact .refl d
    · exact d.leaveRoom_queues b old c
    · exact (d.leaveRoom_queues b old c).trans (joinRoom_queues _ b id c)

theorem register_queues (d : Directory) (b c : Nat) : d.KeepsQueues (d.register b c) :=
  (d.withLobby_queues _).trans (setBucket_queues rfl rfl)

theorem dropIp_queues (b : Bucket) (ip : String) : (b.dropIp ip).workers = b.workers ∧
    (b.dropIp ip).depth = b.depth := by
  rw [Bucket.dropIp]
  split <;> exact ⟨rfl, rfl⟩

theorem unregister_queues (d : Directory) (b c : Nat) : d.KeepsQueues (d.unregister b c) := by
  simp only [unregister]
  split_ifs
  · exact (d.withLobby_queues _).trans
      (setBucket_queues (dropIp_queues _ _).1 (dropIp_queues _ _).2)
  · exact setBucket_queues (dropIp_queues _ _).1 (dropIp_queues _ _).2

theorem del_queues (d : Directory) (b c : Nat) : d.KeepsQueues (d.del b c) := by
  rw [del]
  split
  · exact d.unregister_queues b c
  · exact (d.unregister_queues b c).trans (leaveRoom_queues ..)

theorem closeRoom_queues (d : Directory) (b : Nat) (id : String) :
    d.KeepsQueues (d.closeRoom b id).2 := by
  simp only [closeRoom]
  split
  · exact .refl d
  · exact (d.withLobby_queues _).trans (setBucket_queues rfl rfl)

end Directory

end PushGateway
