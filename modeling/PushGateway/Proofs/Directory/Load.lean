import Mathlib.Algebra.Order.BigOperators.Group.List
import Mathlib.Algebra.Order.Ring.Nat
import PushGateway.Node.Task
import PushGateway.Proofs.Directory.Workers
import PushGateway.Proofs.Ring

/-!
What the operations of the directory add to the work there is to do. A request to finish is one more
signal, and whoever joins a room takes up at most one more slot of it; who leaves adds nothing, and
no operation of a session queues a push for a worker.
-/

namespace PushGateway

section

variable {α : Type} (f : α → Nat) {g : α → α} {xs : Array α} {x : α} {i k : Nat}

theorem total_eq_sum (xs : Array α) : total f xs = (xs.toList.map f).sum := rfl

theorem total_push (xs : Array α) (x : α) : total f (xs.push x) = total f xs + f x := by
  simp [total_eq_sum]

theorem total_set (hi : i < xs.size) (x : α) :
    total f (xs.setIfInBounds i x) + f xs[i] = total f xs + f x := by
  obtain ⟨xs⟩ := xs
  simp only [total_eq_sum, List.setIfInBounds_toArray, List.getElem_toArray]
  have hi : i < xs.length := hi
  induction xs generalizing i with
  | nil => cases hi
  | cons y xs ih =>
    cases i with
    | zero =>
      simp only [List.set_cons_zero, List.map_cons, List.sum_cons, List.getElem_cons_zero]
      omega
    | succ i =>
      have hrest := ih (i := i) (by simpa using hi) (by simpa using hi)
      simp only [List.set_cons_succ, List.map_cons, List.sum_cons, List.getElem_cons_succ]
      omega

theorem modify_eq_set (hi : i < xs.size) (g : α → α) :
    xs.modify i g = xs.setIfInBounds i (g xs[i]) := by
  refine Array.ext_getElem? fun j => ?_
  rw [Array.getElem?_modify, Array.getElem?_setIfInBounds]
  split_ifs with hj
  · subst hj
    rw [Array.getElem?_eq_getElem hi, Option.map_some]
  · rfl

theorem modify_of_le (hi : xs.size ≤ i) (g : α → α) : xs.modify i g = xs := by
  refine Array.ext_getElem? fun j => ?_
  rw [Array.getElem?_modify]
  split_ifs with hj
  · rw [← hj, Array.getElem?_eq_none hi, Option.map_none]
  · rfl

theorem total_modify (hi : i < xs.size) (g : α → α) :
    total f (xs.modify i g) + f xs[i] = total f xs + f (g xs[i]) := by
  rw [modify_eq_set hi, total_set f hi]

theorem total_set_eq {d : α} (h : f x = f (xs.getD i d)) :
    total f (xs.setIfInBounds i x) = total f xs := by
  by_cases hi : i < xs.size
  · have hset := total_set f hi x
    rw [Array.getD_eq_getD_getElem?, Array.getElem?_eq_getElem hi, Option.getD_some] at h
    omega
  · rw [Array.setIfInBounds_eq_of_size_le (Nat.not_lt.1 hi)]

theorem total_set_le {d : α} (h : f x ≤ f (xs.getD i d) + k) :
    total f (xs.setIfInBounds i x) ≤ total f xs + k := by
  by_cases hi : i < xs.size
  · have hset := total_set f hi x
    rw [Array.getD_eq_getD_getElem?, Array.getElem?_eq_getElem hi, Option.getD_some] at h
    omega
  · rw [Array.setIfInBounds_eq_of_size_le (Nat.not_lt.1 hi)]
    exact Nat.le_add_right _ _

theorem total_modify_le {d : α} (h : f (g (xs.getD i d)) ≤ f (xs.getD i d) + k) :
    total f (xs.modify i g) ≤ total f xs + k := by
  by_cases hi : i < xs.size
  · have hmodify := total_modify f hi g
    rw [Array.getD_eq_getD_getElem?, Array.getElem?_eq_getElem hi, Option.getD_some] at h
    omega
  · rw [modify_of_le (Nat.not_lt.1 hi)]
    exact Nat.le_add_right _ _

theorem le_total (hi : i < xs.size) : f xs[i] ≤ total f xs := by
  refine List.single_le_sum (fun _ _ => Nat.zero_le _) _ ?_
  exact List.mem_map_of_mem (Array.getElem_mem_toList hi)

end

namespace Outbox

variable {o o' : Outbox} {s : Signal}

theorem offer?_length (h : o.offer? s = some o') :
    o'.queue.length + o'.waiting = o.queue.length + o.waiting + 1 := by
  rw [offer?] at h
  split_ifs at h
  cases h
  simp only [push, List.length_append, List.length_singleton]
  omega

theorem finish_length (o : Outbox) :
    o.finish.queue.length + o.finish.waiting ≤ o.queue.length + o.waiting + 1 := by
  rw [finish]
  split_ifs
  · exact Nat.le_succ _
  · simp only [push, List.length_append, List.length_singleton]
    omega
  · exact Nat.le_refl _
  · exact Nat.le_succ _

theorem take?_length (h : o.take? = some (s, o')) :
    o'.queue.length + o'.waiting + 1 = o.queue.length + o.waiting := by
  rw [take?] at h
  split at h
  · rename_i s' r hq
    cases h
    rw [hq, refill, List.length_cons]
    split_ifs with hw
    · have hpos : 0 < o.waiting := hw.1
      simp only [push, List.length_append, List.length_singleton]
      omega
    · exact Nat.add_right_comm _ _ _
  · cases h

end Outbox

namespace Channel

variable {c c' : Channel} {s : Signal} {f : Frame} {xs : List Frame} (x : Nat)

theorem load_of_outbox {o : Outbox} {k : Nat}
    (h : o.queue.length + o.waiting ≤ c.outbox.queue.length + c.outbox.waiting + k) :
    ({ c with outbox := o } : Channel).load x ≤ c.load x + 4 * x * k := by
  have hmul := Nat.mul_le_mul_left (4 * x) h
  rw [Nat.mul_add _ _ k] at hmul
  rw [load, load]
  dsimp only
  omega

theorem load_of_offer {o : Outbox} (h : c.outbox.offer? s = some o) :
    ({ c with outbox := o } : Channel).load x ≤ c.load x + 4 * x :=
  (load_of_outbox x (Nat.le_of_eq (Outbox.offer?_length h))).trans (by rw [Nat.mul_one])

theorem deliver_load (c : Channel) (f : Frame) :
    (c.deliver f).2.load x ≤ c.load x + 4 * x := by
  rw [deliver]
  split
  · exact load_of_offer x ‹_›
  · exact Nat.le_add_right _ _

theorem wake_load (c : Channel) : c.wake.load x ≤ c.load x + 4 * x := by
  rw [wake]
  split_ifs
  · exact Nat.le_add_right _ _
  · split
    · exact load_of_offer x ‹_›
    · exact Nat.le_add_right _ _

theorem close_load (c : Channel) : c.close.load x ≤ c.load x + 4 * x :=
  (load_of_outbox x c.outbox.finish_length).trans (by rw [Nat.mul_one])

theorem dropReceiver_load (c : Channel) : c.dropReceiver.load x ≤ c.load x :=
  load_of_outbox (o := c.outbox.dropReceiver) (k := 0) x (Nat.zero_le _)

theorem receive_load (h : c.receive = some (s, c')) : c'.load x + 4 * x = c.load x := by
  obtain ⟨⟨s', outbox⟩, ht, he⟩ := Option.map_eq_some_iff.1 h
  cases he
  rw [load, load, ← Outbox.take?_length ht, Nat.mul_succ]
  exact Nat.add_right_comm _ _ _

theorem pushInbound_load (h : c.pushInbound f = .ok c') :
    c'.load x ≤ c.load x + 2 * x := by
  rw [pushInbound] at h
  split at h
  · rename_i inbound hp
    cases h
    obtain ⟨-, -, rfl⟩ := Option.map_eq_some_iff.1 hp
    have hsize : ((c.inbound.fill f).commitWrite).size ≤ c.inbound.size + 1 := by
      simp only [Ring.size, Ring.commitWrite, Ring.fill]
      omega
    have hmul := Nat.mul_le_mul_left (2 * x) hsize
    rw [Nat.mul_succ] at hmul
    rw [load, load, Nat.add_assoc]
    exact Nat.add_le_add_left hmul _
  · cases h

theorem popInbound_load (hc : c.inbound.Holds xs) (h : c.popInbound = some (f, c')) :
    c'.load x + 2 * x = c.load x := by
  obtain ⟨⟨f', inbound⟩, hp, he⟩ := Option.map_eq_some_iff.1 h
  cases he
  obtain ⟨ys, rfl, hys⟩ := hc.of_pop? hp
  rw [load, load, hc.size, hys.size, List.length_cons, Nat.mul_succ, Nat.add_assoc]

theorem new_load (mid : Int64) (key ip : String) (cli svr : Nat) (canWait : Bool) :
    (new mid key ip cli svr canWait).load x = 0 := by
  simp [load, new, Outbox.new, Ring.new, Ring.size]

end Channel

namespace Room

variable {r r' : Room} {c slot : Nat}

theorem link_slots (h : r.link c = .ok (slot, r')) : r'.slots.size ≤ r.slots.size + 1 := by
  rw [link] at h
  split_ifs at h
  cases h
  simp only [modify_size]
  split
  · rw [Array.size_setIfInBounds]
    exact Nat.le_succ _
  · exact Nat.le_of_eq (Array.size_push _)

theorem unlink_slots (h : r.unlink slot = some r') : r'.slots.size = r.slots.size := by
  obtain ⟨m, -, rfl⟩ := Option.map_eq_some_iff.1 h
  dsimp only
  split <;> simp

theorem walk_length (r : Room) (fuel : Nat) (slot : Option Nat) :
    (r.walk fuel slot).length ≤ fuel := by
  induction fuel generalizing slot with
  | zero => exact Nat.le_refl _
  | succ fuel ih =>
    cases slot with
    | none => exact Nat.zero_le _
    | some slot =>
      rw [walk]
      split
      · exact Nat.succ_le_succ (ih _)
      · exact Nat.zero_le _

theorem members_length (r : Room) : r.members.length ≤ r.slots.size :=
  (List.length_filterMap_le _ _).trans (r.walk_length _ _)

end Room

namespace Lobby

variable {l l' : Lobby} {x y : Nat}

theorem modify_load {f : Channel → Channel} {c k : Nat}
    (h : (f (l.channel c)).load x ≤ (l.channel c).load x + k) :
    (l.modify c f).load x y ≤ l.load x y + k := by
  have hle : total (Channel.load x) (l.modify c f).channels ≤ total (Channel.load x)
    l.channels + k :=
    total_modify_le _ h
  rw [load, load]
  change _ + total _ l.rooms ≤ _
  omega

theorem setRoom_load {r k : Nat} {room : Room} (h : room.slots.size ≤ (l.room r).slots.size + k) :
    (l.setRoom r room).load x y ≤ l.load x y + y * k := by
  have hmul := Nat.mul_le_mul_left y h
  rw [Nat.mul_add] at hmul
  have hle : total (fun r => y * r.slots.size) (l.setRoom r room).rooms ≤
    total _ l.rooms + y * k :=
    total_set_le _ hmul
  rw [load, load]
  change total _ l.channels + _ ≤ _
  omega

theorem addRoom_load (l : Lobby) (id : String) :
    (l.addRoom id).2.load x y = l.load x y := by
  rw [load, load, addRoom, total_push]
  rfl

theorem addChannel_load (l : Lobby) (c : Channel) :
    (l.addChannel c).2.load x y = l.load x y + c.load x := by
  rw [load, load, addChannel, total_push]
  dsimp only
  omega

theorem join_load {r c : Nat} (h : l.join r c = .ok l') :
    l'.load x y ≤ l.load x y + y := by
  cases hlink : (l.room r).link c with
  | error e =>
    rw [join, hlink] at h
    cases h
  | ok linked =>
    obtain ⟨slot, room⟩ := linked
    rw [join, hlink] at h
    cases h
    have hroom := setRoom_load (l := l) (r := r) (x := x) (y := y) (Room.link_slots hlink)
    have hseat := modify_load (l := l.setRoom r room) (c := c) (k := 0) (x := x) (y := y)
      (f := fun ch => { ch with seat := some ⟨r, slot⟩ }) (Nat.le_refl _)
    rw [Nat.mul_one] at hroom
    exact hseat.trans hroom

theorem leave_load (l : Lobby) (r c : Nat) : (l.leave r c).2.load x y ≤ l.load x y := by
  rw [leave]
  split
  · exact Nat.le_refl _
  · rename_i seat' _
    split_ifs
    · exact Nat.le_refl _
    · have hseat : (l.modify c fun ch => { ch with seat := none }).load x y ≤
        l.load x y :=
        modify_load (k := 0) (Nat.le_refl _)
      dsimp only
      split
      · exact hseat
      · rename_i room hu
        have hroom := setRoom_load (k := 0) (x := x) (y := y) (Nat.le_of_eq (Room.unlink_slots hu))
        exact hroom.trans hseat

theorem offerAll_load (l : Lobby) (op : Int32) (f : Frame) (cs : List Nat) :
    (offerAll op f l cs).2.load x y ≤ l.load x y + 4 * x * cs.length := by
  induction cs generalizing l with
  | nil => exact Nat.le_refl _
  | cons c cs ih =>
    have hoffer : (l.offer op f c).2.load x y ≤ l.load x y + 4 * x := by
      rw [offer]
      split_ifs
      · exact modify_load ((l.channel c).deliver_load x f)
      · exact Nat.le_add_right _ _
    have hrest := ih (l.offer op f c).2
    rw [List.length_cons, Nat.mul_succ]
    change (offerAll op f (l.offer op f c).2 cs).2.load x y ≤ _
    omega

theorem broadcast_load (l : Lobby) (r : Nat) (f : Frame) :
    (l.broadcast r f).2.load x y ≤ l.load x y + 4 * x * (l.room r).slots.size := by
  have hlen : (l.members r).length ≤ (l.room r).slots.size :=
    (List.length_filter_le _ _).trans (l.room r).members_length
  have hmul := Nat.mul_le_mul_left (4 * x) hlen
  have hall := l.offerAll_load (x := x) (y := y) f.op f (l.members r)
  rw [broadcast]
  omega

theorem slots_le_load (l : Lobby) (r : Nat) : (l.room r).slots.size ≤ l.load 0 1 := by
  by_cases hr : r < l.rooms.size
  · have hle := le_total (fun r : Room => 1 * r.slots.size) hr
    rw [Lobby.room, Array.getD_eq_getD_getElem?, Array.getElem?_eq_getElem hr,
      Option.getD_some, load]
    omega
  · rw [Lobby.room, Array.getD_eq_getD_getElem?, Array.getElem?_eq_none (Nat.not_lt.1 hr)]
    exact Nat.zero_le _

theorem setAllOnline_load (l : Lobby) (r : Nat) (count : Int32) :
    (l.setAllOnline r count).load x y ≤ l.load x y :=
  Nat.add_le_add_left (total_modify_le (d := default) (k := 0) _ (Nat.le_refl _)) _

end Lobby

namespace Directory

/-- At `x` for a step and `y` for a seat there is at most `k` more to come, and the same pushes wait
for a worker. -/
structure Adds (x y : Nat) (d : Directory) (k : Nat) (d' : Directory) : Prop where
  load : d'.lobby.load x y ≤ d.lobby.load x y + k
  pushes : d'.pushes = d.pushes

variable {d d' d'' : Directory} {x y b c k k' : Nat}

theorem Adds.refl (d : Directory) : d.Adds x y 0 d := ⟨Nat.le_refl _, rfl⟩

theorem Adds.trans (h : d.Adds x y k d') (h' : d'.Adds x y k' d'') :
    d.Adds x y (k + k') d'' := by
  refine ⟨?_, h'.pushes.trans h.pushes⟩
  have hle := h.load
  have hle' := h'.load
  omega

theorem Adds.mono (h : d.Adds x y k d') (hk : k ≤ k') : d.Adds x y k' d' :=
  ⟨h.load.trans (Nat.add_le_add_left hk _), h.pushes⟩

theorem withLobby_adds {l : Lobby} (h : l.load x y ≤ d.lobby.load x y + k) :
    d.Adds x y k (d.withLobby l) := ⟨h, rfl⟩

theorem setBucket_adds {bucket : Bucket} (h : bucket.workers = (d.bucket b).workers) :
    d.Adds x y 0 (d.setBucket b bucket) := by
  refine ⟨Nat.le_refl _, ?_⟩
  exact total_set_eq (d := default) _ (congrArg (total List.length) h)

theorem update_adds {l : Lobby} {bucket : Bucket}
    (hl : l.load x y ≤ d.lobby.load x y + k) (hw : bucket.workers = (d.bucket b).workers) :
    d.Adds x y k ((d.withLobby l).setBucket b bucket) :=
  (withLobby_adds hl).trans (setBucket_adds (d := d.withLobby l) hw)

theorem openRoom_adds (d : Directory) (b : Nat) (id id' : String) (r : Nat) : d.Adds x y 0
    ((d.withLobby (d.lobby.addRoom id).2).setBucket b
      { d.bucket b with rooms := (d.bucket b).rooms.insert id' r }) :=
  update_adds (k := 0) (Nat.le_of_eq (d.lobby.addRoom_load id)) rfl

theorem joinRetry_adds (b c attempts r : Nat) (d : Directory) :
    d.Adds x y y (joinRetry b c attempts r d).2 := by
  induction attempts generalizing r d with
  | zero => exact (Adds.refl d).mono (Nat.zero_le _)
  | succ attempts ih =>
    rw [joinRetry]
    split
    · exact withLobby_adds (Lobby.join_load ‹_›)
    · have hreplace : d.Adds x y 0 (d.replaceDropped b r).2 := by
        simp only [replaceDropped]
        split
        · exact .refl d
        · exact d.openRoom_adds ..
      exact (hreplace.trans (ih _ _)).mono (Nat.le_of_eq (Nat.zero_add _))
    · exact (Adds.refl d).mono (Nat.zero_le _)

theorem joinRoom_adds (d : Directory) (b : Nat) (id : String) (c : Nat) :
    d.Adds x y y (d.joinRoom b id c).2 := by
  have hroom : d.Adds x y 0 (d.roomOrCreate b id).2 := by
    rw [roomOrCreate]
    split
    · exact .refl d
    · exact d.openRoom_adds ..
  exact (hroom.trans (joinRetry_adds b c _ _ _)).mono (Nat.le_of_eq (Nat.zero_add _))

theorem enter_adds (d : Directory) (b : Nat) (id : String) (c : Nat) : d.Adds x y y
    (if id = "" then (.ok (), d)
      else d.joinRoom b id c : Except GatewayError Unit × Directory).2 := by
  split_ifs
  · exact (Adds.refl d).mono (Nat.zero_le _)
  · exact d.joinRoom_adds b id c

theorem leaveRoom_adds (d : Directory) (b r c : Nat) : d.Adds x y 0 (d.leaveRoom b r c) := by
  have hleave : d.Adds x y 0 (d.withLobby (d.lobby.leave r c).2) :=
    withLobby_adds (d.lobby.leave_load r c)
  rw [leaveRoom_eq]
  split_ifs
  · refine hleave.trans (?_ : Adds x y _ 0 _)
    rw [delRoom]
    split_ifs
    · exact setBucket_adds rfl
    · exact .refl _
  · exact hleave

theorem changeRoom_adds (d : Directory) (b : Nat) (id : String) (c : Nat) :
    d.Adds x y y (d.changeRoom b id c).2 := by
  simp only [changeRoom]
  split
  · exact d.enter_adds b id c
  · rename_i old _
    split_ifs
    · exact (Adds.refl d).mono (Nat.zero_le _)
    · exact (d.leaveRoom_adds b old c).mono (Nat.zero_le _)
    · exact ((d.leaveRoom_adds b old c).trans (joinRoom_adds _ b id c)).mono
        (Nat.le_of_eq (Nat.zero_add _))

theorem register_adds (d : Directory) (b c : Nat) :
    d.Adds x y (4 * x) (d.register b c) := by
  have hhold : (d.lobby.modify c Channel.hold).load x y ≤ d.lobby.load x y :=
    Lobby.modify_load (k := 0) (Nat.le_refl _)
  rw [register]
  split
  · exact update_adds (hhold.trans (Nat.le_add_right _ _)) rfl
  · rename_i old _
    refine update_adds ?_ rfl
    refine (Lobby.modify_load ?_).trans (Nat.add_le_add_right hhold _)
    split_ifs
    · exact Nat.le_add_right _ _
    · exact Channel.close_load x _

theorem put_adds (d : Directory) (b : Nat) (id : String) (c : Nat) :
    d.Adds x y (4 * x + y) (d.put b id c).2 :=
  (d.register_adds b c).trans (enter_adds _ b id c)

theorem del_adds (d : Directory) (b c : Nat) : d.Adds x y 0 (d.del b c) := by
  have hrelease : (d.lobby.modify c Channel.release).load x y ≤ d.lobby.load x y :=
    Lobby.modify_load (k := 0) (Nat.le_refl _)
  have hunregister : d.Adds x y 0 (d.unregister b c) := by
    simp only [unregister]
    split_ifs
    · exact update_adds (k := 0) hrelease (dropIp_queues _ _).1
    · exact setBucket_adds (dropIp_queues _ _).1
  rw [del]
  split
  · exact hunregister
  · exact hunregister.trans (leaveRoom_adds ..)

theorem updateCounts_adds (d : Directory) (counts : Table String Int32) :
    d.Adds x y 0 (d.updateCounts counts) := by
  have hin (d : Directory) (b : Nat) : d.Adds x y 0 (d.updateCountsIn b counts) := by
    refine withLobby_adds (k := 0) ?_
    generalize (d.bucket b).rooms = rooms
    generalize d.lobby = l
    induction rooms generalizing l with
    | nil => exact Nat.le_refl _
    | cons p rooms ih => exact (ih _).trans (l.setAllOnline_load ..)
  rw [updateCounts]
  generalize List.range d.buckets.size = bs
  induction bs generalizing d with
  | nil => exact .refl d
  | cons b bs ih => exact (hin d b).trans (ih _)

theorem worker_lt {w : Nat} {p : RoomPush} {queue : List RoomPush}
    (hq : (d.bucket b).workers.getD w [] = p :: queue) : b < d.buckets.size ∧
    w < (d.bucket b).workers.size := by
  have hw : w < (d.bucket b).workers.size := by
    by_contra hw
    rw [Array.getD_eq_getD_getElem?, Array.getElem?_eq_none (Nat.not_lt.1 hw)] at hq
    cases hq
  refine ⟨?_, hw⟩
  by_contra hb
  have hnone : d.bucket b = default := by
    rw [bucket, Array.getD_eq_getD_getElem?, Array.getElem?_eq_none (Nat.not_lt.1 hb),
      Option.getD_none]
  rw [hnone] at hq hw
  obtain rfl : w = 0 := Nat.lt_one_iff.1 hw
  cases hq

theorem workerStep_lt {w : Nat} (h : d.workerStep b w = some d') :
    b < d.buckets.size ∧ w < (d.bucket b).workers.size := by
  simp only [workerStep] at h
  split at h
  · cases h
  · exact worker_lt ‹_›

theorem serve_pushes {w : Nat} {p : RoomPush} {queue : List RoomPush}
    (hq : (d.bucket b).workers.getD w [] = p :: queue) :
    (d.setBucket b { d.bucket b with
      workers := (d.bucket b).workers.setIfInBounds w queue }).pushes + 1 = d.pushes := by
  obtain ⟨hb, hw⟩ := worker_lt hq
  have hbucket : d.buckets[b] = d.bucket b := by
    rw [bucket, Array.getD_eq_getD_getElem?, Array.getElem?_eq_getElem hb, Option.getD_some]
  have hworker : (d.bucket b).workers[w] = p :: queue := by
    rw [← hq, Array.getD_eq_getD_getElem?, Array.getElem?_eq_getElem hw, Option.getD_some]
  have hinner := total_set List.length hw queue
  have houter := total_set (fun b => total List.length b.workers) hb
    { d.bucket b with workers := (d.bucket b).workers.setIfInBounds w queue }
  rw [hworker, List.length_cons] at hinner
  rw [hbucket] at houter
  dsimp only at houter
  rw [pushes, pushes, setBucket]
  dsimp only
  omega

/-- A push to a room may be a signal to everybody in it; it does not wait any more. -/
theorem workerStep_load {w : Nat} (h : d.workerStep b w = some d') :
    d'.lobby.load 1 0 ≤ d.lobby.load 1 0 + 4 * d.lobby.load 0 1 ∧
      d'.lobby.load 0 1 ≤ d.lobby.load 0 1 ∧ d'.pushes + 1 = d.pushes := by
  simp only [workerStep] at h
  split at h
  · cases h
  · rename_i p queue hq
    have hpushes := serve_pushes hq
    split at h
    · cases h
      exact ⟨Nat.le_add_right _ _, Nat.le_refl _, hpushes⟩
    · rename_i r _
      cases h
      have hslots := Nat.mul_le_mul_left 4 (d.lobby.slots_le_load r)
      have hsteps := d.lobby.broadcast_load (x := 1) (y := 0) r p.frame
      have hseats := d.lobby.broadcast_load (x := 0) (y := 1) r p.frame
      rw [Nat.mul_one] at hsteps
      rw [Nat.mul_zero, Nat.zero_mul] at hseats
      exact ⟨hsteps.trans (Nat.add_le_add_left hslots _), hseats, hpushes⟩

end Directory

end PushGateway
