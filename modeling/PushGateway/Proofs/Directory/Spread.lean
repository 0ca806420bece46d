import PushGateway.Proofs.Directory.Workers

/-!
What becomes of pushes to rooms. Those that the workers' queues have places for are taken, whichever
worker comes first. Each of them is passed once to the room that the directory has for its id when a
worker gets to it, whatever has happened to the bucket in between, and the members of the room get
what they have places for.
-/

namespace PushGateway

namespace Directory

structure ServesPush (d : Directory) (b : Nat) (s : RoomPush × Option Nat) (d' : Directory) :
    Prop where
  room : s.2 = d.room? b s.1.room
  lobby : d'.lobby = d.lobby.pass s.1.frame s.2
  room? : ∀ b' id, d'.room? b' id = d.room? b' id
  keepsWorkers : d.KeepsWorkers d'
  pending : (d.bucket b).pending.Perm (s.1 :: (d'.bucket b).pending)

end Directory

namespace DirectoryOp

def serves (b : Nat) (d : Directory) : DirectoryOp → List (RoomPush × Option Nat)
  | .work w => (d.serving b w).toList
  | _ => []

/-- The pushes served in the course of a history, the first of them first, with the rooms that the
directory had for them then. -/
def served (b : Nat) (d : Directory) : List DirectoryOp → List (RoomPush × Option Nat)
  | [] => []
  | x :: h => served b d h ++ x.serves b (after b d h)

section
variable {d : Directory} {b c w : Nat} {x : DirectoryOp} {h : List DirectoryOp} {id : String}

theorem work_idle (hw : d.serving b w = none) : (DirectoryOp.work w).apply b d = d := by
  have hq : (d.bucket b).workers.getD w [] = [] := by simpa [Directory.serving] using hw
  simp only [apply, Directory.workerStep, hq]
  rfl

theorem work_servesPush (hb : b < d.buckets.size) {s : RoomPush × Option Nat}
    (hw : d.serving b w = some s) : d.ServesPush b s ((DirectoryOp.work w).apply b d) := by
  obtain ⟨p, hp, rfl⟩ := Option.map_eq_some_iff.1 hw
  obtain ⟨queue, hq⟩ := List.head?_eq_some_iff.1 hp
  have hwlt : w < (d.bucket b).workers.size := by
    by_contra hn
    have hnil : (d.bucket b).workers.getD w [] = [] := by simp [Array.getD_eq_getD_getElem?, hn]
    rw [hnil] at hq
    cases hq
  let queues := (d.bucket b).workers.setIfInBounds w queue
  have he : (DirectoryOp.work w).apply b d =
      (d.setBucket b { d.bucket b with workers := queues }).withLobby
      (d.lobby.pass p.frame (d.room? b p.room)) := by
    simp only [apply, Directory.workerStep, hq, Directory.room?]
    cases (d.bucket b).rooms.get? p.room <;> rfl
  have hset : d.KeepsWorkers (d.setBucket b { d.bucket b with workers := queues }) :=
    Directory.setBucket_keepsWorkers Array.size_setIfInBounds rfl
  rw [he]
  refine ⟨rfl, rfl, Directory.setBucket_room? rfl, ?_, ?_⟩
  · exact hset.trans (Directory.withLobby_queues _ _).keepsWorkers
  · have hbucket : (d.setBucket b { d.bucket b with workers := queues }).bucket b =
        { d.bucket b with workers := queues } := Directory.bucket_setBucket hb _
    change (d.bucket b).pending.Perm
      (p :: ((d.setBucket b { d.bucket b with workers := queues }).bucket b).pending)
    rw [hbucket]
    have hget := Bucket.workers_getElem? hwlt
    rw [hq] at hget
    exact (Bucket.flatten_set_tail hget).trans (by simp [Bucket.pending, queues])

theorem apply_queues (b : Nat) (d : Directory) (x : DirectoryOp) : (∃ p, x = .push p) ∨
    (∃ w, x = .work w) ∨ x.serves b d = [] ∧ d.KeepsQueues (x.apply b d) := by
  cases x with
  | push p => exact .inl ⟨p, rfl⟩
  | work w => exact .inr (.inl ⟨w, rfl⟩)
  | create ch => exact .inr (.inr ⟨rfl, d.withLobby_queues _⟩)
  | put id c =>
    exact .inr (.inr ⟨rfl, (d.register_queues b c).trans (Directory.enter_queues _ b id c)⟩)
  | changeRoom id c => exact .inr (.inr ⟨rfl, d.changeRoom_queues b id c⟩)
  | del c => exact .inr (.inr ⟨rfl, d.del_queues b c⟩)
  | closeRoom id => exact .inr (.inr ⟨rfl, d.closeRoom_queues b id⟩)
  | delRoom r => exact .inr (.inr ⟨rfl, d.delRoom_queues b r⟩)
  | leave r c => exact .inr (.inr ⟨rfl, d.withLobby_queues _⟩)
  | tell counts => exact .inr (.inr ⟨rfl, d.withLobby_queues _⟩)
  | edit c f => exact .inr (.inr ⟨rfl, d.withLobby_queues _⟩)

theorem apply_keepsWorkers (hb : b < d.buckets.size) (x : DirectoryOp) :
    d.KeepsWorkers (x.apply b d) := by
  rcases apply_queues b d x with ⟨p, rfl⟩ | ⟨w, rfl⟩ | ⟨-, hk⟩
  · have hq := (d.bucket b).enqueue_workers_size p
    exact Directory.setBucket_keepsWorkers hq.1 hq.2
  · cases hs : d.serving b w with
    | none =>
      rw [work_idle hs]
      exact .refl d
    | some s => exact (work_servesPush hb hs).keepsWorkers
  · exact hk.keepsWorkers

theorem after_keepsWorkers (hb : b < d.buckets.size) (h : List DirectoryOp) :
    d.KeepsWorkers (after b d h) := by
  induction h with
  | nil => exact .refl d
  | cons x h ih => exact ih.trans (apply_keepsWorkers ((after_buckets b d h).symm ▸ hb) x)

theorem apply_pending (hb : b < d.buckets.size) (hp : ∀ p, x ≠ .push p) :
    (d.bucket b).pending.Perm
      ((x.serves b d).map Prod.fst ++ ((x.apply b d).bucket b).pending) := by
  rcases apply_queues b d x with ⟨p, rfl⟩ | ⟨w, rfl⟩ | ⟨hnone, hk⟩
  · exact absurd rfl (hp p)
  · rw [serves]
    cases hs : d.serving b w with
    | none =>
      rw [work_idle hs]
      exact .refl _
    | some s => exact (work_servesPush hb hs).pending
  · rw [hnone, Bucket.pending, Bucket.pending, hk.workers]
    exact .refl _

theorem after_pending (hb : b < d.buckets.size) (hp : ∀ p, .push p ∉ h) :
    (d.bucket b).pending.Perm
      ((served b d h).map Prod.fst ++ ((after b d h).bucket b).pending) := by
  induction h with
  | nil => exact .refl _
  | cons x h ih =>
    have hx := apply_pending (x := x) ((after_buckets b d h).symm ▸ hb) fun p he => hp p
      (he ▸ .head _)
    have hh := ih fun p hm => hp p (.tail _ hm)
    rw [served, List.map_append, List.append_assoc]
    exact hh.trans (hx.append_left _)

theorem work_channel (hb : b < d.buckets.size) (hs : d.lobby.SeatsAgree) (w : Nat) :
    let d' := (DirectoryOp.work w).apply b d
    d'.lobby.SeatsAgree ∧ (∀ id c, d'.hears b id c = d.hears b id c) ∧ ∀ c, d'.lobby.channel c =
      (d.lobby.channel c).offered
        ((((DirectoryOp.work w).serves b d).filter fun s => d.hears b s.1.room c).map fun s =>
          s.1.frame) := by
  intro d'
  cases hw : d.serving b w with
  | none =>
    have hd : d' = d := work_idle hw
    simp only [hd, serves, hw]
    exact ⟨hs, fun _ _ => trivial, fun _ => rfl⟩
  | some s =>
    have hserved : d.ServesPush b s d' := work_servesPush hb hw
    have halike := d.lobby.pass_equalButQueues s.1.frame s.2
    rw [← hserved.lobby] at halike
    refine ⟨halike.seatsAgree hs, fun id c => ?_, fun c => ?_⟩
    · simp only [Directory.hears, halike.roomOf, hserved.room?]
    · simp only [serves, hw, Option.toList_some]
      rw [hserved.lobby, hs.pass_channel, hserved.room]
      change (d.lobby.channel c).offered
        (if d.hears b s.1.room c = true then [s.1.frame] else []) = _
      rw [List.filter_singleton]
      cases d.hears b s.1.room c <;> rfl

theorem work_offers {r : Nat} {s : RoomPush × Option Nat} (hb : b < d.buckets.size)
    (hs : d.lobby.SeatsAgree) (hr : d.lobby.roomOf c = some r) (hw : d.serving b w = some s) :
    ((DirectoryOp.work w).apply b d).lobby.channel c =
      (d.lobby.channel c).offered (if d.room? b s.1.room = some r then [s.1.frame] else []) := by
  have hserved := work_servesPush hb hw
  rw [hserved.lobby, hs.pass_channel, hserved.room, hr]
  simp only [Option.any_some, decide_eq_true_eq]

theorem after_work (hb : b < d.buckets.size) (hs : d.lobby.SeatsAgree) (ws : List Nat) :
    let d' := after b d (ws.map .work)
    d'.lobby.SeatsAgree ∧ (∀ id c, d'.hears b id c = d.hears b id c) ∧ ∀ c, d'.lobby.channel c =
      (d.lobby.channel c).offered
        (((served b d (ws.map .work)).filter fun s => d.hears b s.1.room c).map fun s =>
          s.1.frame) := by
  induction ws with
  | nil => exact ⟨hs, fun _ _ => rfl, fun _ => rfl⟩
  | cons w ws ih =>
    obtain ⟨hs', hh', hc'⟩ := ih
    obtain ⟨hs'', hh'', hc''⟩ := work_channel ((after_buckets b d (ws.map .work)).symm ▸ hb) hs' w
    refine ⟨hs'', fun id c => (hh'' id c).trans (hh' id c), fun c => (hc'' c).trans ?_⟩
    simp only [hc', hh', List.map_cons, served, List.filter_append, List.map_append,
      Channel.offered_append]

theorem after_work_queue (hb : b < d.buckets.size) (hs : d.lobby.SeatsAgree) (ws : List Nat)
    (he : (d.lobby.channel c).exists? = true) (hall : ∀ s ∈ served b d (ws.map .work),
      d.hears b s.1.room c = true ∧ (d.lobby.channel c).needsPush s.1.frame.op = true) :
    ((after b d (ws.map .work)).lobby.channel c).outbox.queue = (d.lobby.channel c).outbox.queue ++
      (((served b d (ws.map .work)).map fun s => s.1.frame).take
        (d.lobby.channel c).outbox.vacant).map .data := by
  obtain ⟨-, -, hchannel⟩ := after_work hb hs ws
  rw [hchannel c, List.filter_eq_self.2 fun s hm => (hall s hm).1]
  refine Channel.offered_queue (fun f hf => ?_) he
  obtain ⟨s, hm, rfl⟩ := List.mem_map.1 hf
  exact (hall s hm).2

theorem exists_serving (hp : (d.bucket b).pending ≠ []) : ∃ w s, d.serving b w = some s := by
  obtain ⟨queue, hmem, hne⟩ : ∃ queue ∈ (d.bucket b).workers.toList, queue ≠ [] := by
    by_contra hn
    exact hp (List.flatten_eq_nil_iff.2 fun queue hm => not_not.1 fun h => hn ⟨queue, hm, h⟩)
  obtain ⟨w, hw⟩ := List.mem_iff_getElem?.1 hmem
  obtain ⟨p, queue, rfl⟩ := List.exists_cons_of_ne_nil hne
  refine ⟨w, (p, d.room? b p.room), ?_⟩
  rw [Array.getElem?_toList] at hw
  rw [Directory.serving, Array.getD_eq_getD_getElem?, hw]
  rfl

theorem exists_work (hb : b < d.buckets.size) :
    ∃ ws : List Nat, ((after b d (ws.map .work)).bucket b).pending = [] := by
  -- Each step that finds something to serve leaves one push less.
  have hsteps (k : Nat) : ∃ ws : List Nat, ((after b d (ws.map .work)).bucket b).pending = [] ∨
      ((after b d (ws.map .work)).bucket b).pending.length + k ≤ (d.bucket b).pending.length := by
    induction k with
    | zero => exact ⟨[], .inr (Nat.le_refl _)⟩
    | succ k ih =>
      obtain ⟨ws, hdone | hk⟩ := ih
      · exact ⟨ws, .inl hdone⟩
      · by_cases hp : ((after b d (ws.map .work)).bucket b).pending = []
        · exact ⟨ws, .inl hp⟩
        · obtain ⟨w, s, hw⟩ := exists_serving hp
          have hlen :=
            (work_servesPush ((after_buckets b d (ws.map .work)).symm ▸ hb) hw).pending.length_eq
          refine ⟨w :: ws, .inr ?_⟩
          rw [List.length_cons] at hlen
          simp only [List.map_cons, after]
          omega
  obtain ⟨ws, hdone | hk⟩ := hsteps (d.bucket b).pending.length
  · exact ⟨ws, hdone⟩
  · exact ⟨ws, List.length_eq_zero_iff.1 (by omega)⟩

/-- What becomes of the pushes `ps` when bucket `b` is told them one after the other and there are
`places` of them, all free. -/
structure RoundRobin (d : Directory) (b places : Nat) (ps : List RoomPush) : Prop where
  answers : (d.pushAll b ps).1 =
    List.replicate (min ps.length places) true ++ List.replicate (ps.length - places) false
  finishes : ∃ ws : List Nat, ((after b (d.pushAll b ps).2 (ws.map .work)).bucket b).pending = []
  /-- Whatever happens from then on, once the workers have nothing left to do they have served what
  was taken, each push once, and nothing else. -/
  served : ∀ h, (∀ p, .push p ∉ h) → ((after b (d.pushAll b ps).2 h).bucket b).pending = [] →
    ((served b (d.pushAll b ps).2 h).map Prod.fst).Perm (ps.take places)
  /-- To serve a push is to pass it to the room that the directory has for its id by then. -/
  passed : ∀ h w s, (after b (d.pushAll b ps).2 h).serving b w = some s →
    (after b (d.pushAll b ps).2 h).ServesPush b s (after b (d.pushAll b ps).2 (.work w :: h))
  /-- A member of the room that watches for the pushes gets as many of those taken as it has places
  for. -/
  member : ∀ (ws : List Nat) (id : String) (c : Nat),
    ((after b (d.pushAll b ps).2 (ws.map .work)).bucket b).pending = [] →
    (∀ p ∈ ps, p.room = id ∧ (d.lobby.channel c).needsPush p.frame.op = true) →
    d.hears b id c = true → (d.lobby.channel c).exists? = true →
    ∃ got : List Frame, ((after b (d.pushAll b ps).2 (ws.map .work)).lobby.channel c).outbox.queue =
        (d.lobby.channel c).outbox.queue ++ got.map .data ∧
      got.length = min (min ps.length places) (d.lobby.channel c).outbox.vacant ∧
      got.Subperm ((ps.take places).map (·.frame))

theorem idle_roundRobin {n m : Nat} (hb : b < d.buckets.size) (hs : d.lobby.SeatsAgree) (hn : 0 < n)
    (hsize : (d.bucket b).workers.size = n) (hdepth : (d.bucket b).depth = m)
    (hp : (d.bucket b).pending = []) (ps : List RoomPush) : RoundRobin d b (n * m) ps := by
  obtain ⟨hanswers, hperm, -⟩ := (Bucket.RoundRobinLoad.idle hsize hdepth hp).enqueueAll hn ps
  obtain ⟨hfst, hbucket⟩ := Directory.pushAll_bucket hb ps
  have hlobby := d.pushAll_lobby b ps
  have hb' : b < (d.pushAll b ps).2.buckets.size := (d.pushAll_buckets b ps).symm ▸ hb
  have hhears (id : String) (c : Nat) : (d.pushAll b ps).2.hears b id c = d.hears b id c := by
    simp only [Directory.hears, hlobby, d.pushAll_room? b ps]
  rw [Nat.sub_zero, ← hfst] at hanswers
  rw [Nat.sub_zero, hp, List.nil_append, ← hbucket] at hperm
  generalize hdone : (d.pushAll b ps).2 = done at hperm hlobby hb' hhears
  have hserved : ∀ h, (∀ p, .push p ∉ h) → ((after b done h).bucket b).pending = [] →
      ((served b done h).map Prod.fst).Perm (ps.take (n * m)) := by
    intro h hnone hidle
    have hall := after_pending hb' hnone
    rw [hidle, List.append_nil] at hall
    exact hall.symm.trans hperm
  refine ⟨hanswers, ?_, ?_, ?_, ?_⟩ <;> rw [hdone]
  · exact exists_work hb'
  · exact hserved
  · intro h w s hw
    exact work_servesPush ((after_buckets b done h).symm ▸ hb') hw
  · intro ws id c hidle hps hh he
    have hall := hserved (ws.map .work) (by simp) hidle
    have hqueue := after_work_queue (c := c) hb' (hlobby.symm ▸ hs) ws (hlobby.symm ▸ he)
      fun s hm => by
      have hp := hps s.1 (List.mem_of_mem_take (hall.mem_iff.1 (List.mem_map_of_mem hm)))
      rw [hhears, hlobby, hp.1]
      exact ⟨hh, hp.2⟩
    have hframes : ((served b done (ws.map .work)).map fun s => s.1.frame).Perm
        ((ps.take (n * m)).map (·.frame)) := by
      have hmap := hall.map (·.frame)
      rwa [List.map_map] at hmap
    rw [hlobby] at hqueue
    refine ⟨_, hqueue, ?_, (List.take_sublist _ _).subperm.trans hframes.subperm⟩
    have hlength : ((served b done (ws.map .work)).map fun s => s.1.frame).length =
        min ps.length (n * m) := by
      rw [hframes.length_eq, List.length_map, List.length_take, Nat.min_comm]
    rw [List.length_take, hlength, Nat.min_comm]

theorem new_queues {buckets workers depth : Nat} (hb : b < max buckets 1) :
    (Directory.new buckets workers depth).bucket b = .new workers depth := by
  simp [Directory.bucket, Directory.new, Array.getD_eq_getD_getElem?, hb]

/-- Whatever has happened to a bucket whose workers have nothing to do: of any pushes it takes as
many as its workers' queues hold, whichever worker comes first, and deals with each of them once. -/
theorem after_roundRobin {buckets workers depth : Nat} (hb : b < max buckets 1)
    (hl : Legal b (.new buckets workers depth) h)
    (hp : ((after b (.new buckets workers depth) h).bucket b).pending = []) (ps : List RoomPush) :
    RoundRobin (after b (.new buckets workers depth) h) b (max workers 1 * max depth 1) ps := by
  have hb' : b < (Directory.new buckets workers depth).buckets.size :=
    Nat.lt_of_lt_of_eq hb Array.size_replicate.symm
  have hkeeps := after_keepsWorkers hb' h
  have hnew : (Directory.new buckets workers depth).bucket b = .new workers depth := new_queues hb
  refine idle_roundRobin ((after_buckets ..).symm ▸ hb')
    (after_wellFormed (Directory.new_wellFormed ..) hl).seatsAgree (Nat.le_max_right ..) ?_ ?_ hp ps
  · rw [hkeeps.size, hnew]
    exact Array.size_replicate
  · rw [hkeeps.depth, hnew]
    rfl

/-- Two workers with a place each, one of which has served a push. The member of the room has one
place left. -/
def twoWorkers : List DirectoryOp :=
  [.work 0, .push ⟨"r", 1, 5, 0, []⟩, .put "r" 0,
    .create { watched := [5], outbox := { places := 2 } }]

/-- Of three more pushes the workers take two, beginning with the second worker, and the member
one. -/
theorem after_roundRobin_twoWorkers :
    let d := after 0 (.new 1 2 1) twoWorkers
    let ps := [1, 2, 3].map fun seq => RoomPush.mk "r" ⟨1, 5, seq, []⟩
    Legal 0 (.new 1 2 1) twoWorkers ∧ (d.pushAll 0 ps).1 = [true, true, false] ∧
      ∃ got : List Frame, ((after 0 (d.pushAll 0 ps).2 ([0, 1].map .work)).lobby.channel
      0).outbox.queue =
        [.data ⟨1, 5, 0, []⟩] ++ got.map .data ∧ got.length = 1 := by
  intro d ps
  have hl : Legal 0 (.new 1 2 1) twoWorkers :=
    ⟨trivial, trivial, ⟨by decide, .inr (by decide)⟩, trivial, trivial⟩
  have hs : RoundRobin d 0 (2 * 1) ps := after_roundRobin (by decide) hl (by decide +kernel) ps
  have hqueue : (d.lobby.channel 0).outbox.queue = [.data ⟨1, 5, 0, []⟩] := by decide +kernel
  have hvacant : (d.lobby.channel 0).outbox.vacant = 1 := by decide +kernel
  obtain ⟨got, hq, hn, -⟩ := hs.member [0, 1] "r" 0 (by decide +kernel) (by decide +kernel)
    (by decide +kernel) (by decide +kernel)
  rw [hqueue] at hq
  rw [hvacant] at hn
  exact ⟨hl, hs.answers, got, hq, hn⟩

end

end DirectoryOp

end PushGateway
