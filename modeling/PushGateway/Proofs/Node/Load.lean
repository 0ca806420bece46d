import PushGateway.Proofs.Directory.Load
import PushGateway.Proofs.Node.Deadlines
import PushGateway.Proofs.Node.Authentication
import PushGateway.Proofs.Timer.Driver

/-!
What one step of a task does to the load of a node: a frame that has arrived is worth more than the
signals, the reply and the change of the deadline that it can lead to, and a phase of a reader more
than the phases after it.
-/

namespace PushGateway

namespace Timer

variable {κ : Type}

theorem Heap.unschedule_size (h : Heap κ) (e : Entry κ) : (h.unschedule e).size ≤ h.size := by
  rw [Heap.unschedule]
  split
  · rw [Heap.size, Heap.removeAt_size]
    exact Nat.sub_le _ _
  · exact Nat.le_refl _

theorem Heap.push_size (h : Heap κ) (slot : Nat) : (h.push slot).size = h.size + 1 := by
  rw [Heap.size, Heap.push_eq, Heap.up_size, Heap.append_size]
  rfl

theorem Heap.del_size (h : Heap κ) (a : Handle) : (h.del a).2.size ≤ h.size := by
  rw [Heap.del]
  split
  · exact Nat.le_refl _
  · exact h.unschedule_size _

theorem Heap.set_size (h : Heap κ) (a : Handle) (d : Nanos) : (h.set a d).2.size ≤ h.size + 1 := by
  rw [Heap.set]
  split
  · exact Nat.le_succ _
  · split_ifs
    · exact Nat.le_succ _
    · rw [Heap.push_size]
      exact Nat.succ_le_succ (h.unschedule_size _)

namespace Shard

variable {s s' : Shard κ} {a : Handle} {now : Nanos}

theorem todo_mono (hp : s'.phase = s.phase) (hn : s'.notice = s.notice)
    (hs : s'.heap.size ≤ s.heap.size) : s'.todo now ≤ s.todo now := by
  rw [todo, todo, hp, hn]
  exact Nat.add_le_add_right (Nat.add_le_add_right hs _) _

theorem del_todo (s : Shard κ) (a : Handle) (now : Nanos) : (s.del a).2.todo now ≤ s.todo now :=
  todo_mono rfl rfl (s.heap.del_size a)

theorem setKey_todo (s : Shard κ) (a : Handle) (key : String) (now : Nanos) :
    (s.setKey a key).todo now ≤ s.todo now := by
  refine todo_mono rfl rfl (Nat.le_of_eq ?_)
  rw [Heap.size, Heap.size, setKey, (Heap.setKey_kept s.heap a key).1]

theorem set?_todo {delay : Nanos} {ok : Bool} (h : s.set? now a delay = some (ok, s')) :
    s'.todo now ≤ s.todo now + 4 := by
  have hphase := set?_phase h
  obtain ⟨d, -, he⟩ := Option.map_eq_some_iff.1 h
  have hheap : s'.heap.size ≤ s.heap.size + 1 := by
    have hsize := s.heap.set_size a d
    generalize s.heap.set a d = set at he hsize
    cases he
    split
    · rw [rearm_heap]
      exact hsize
    · exact hsize
  have hnotice := Bool.toNat_le s'.notice
  rw [todo, todo, hphase]
  dsimp only
  omega

end Shard

end Timer

namespace Node

structure KeepsWaiting (n n' : Node) : Prop where
  now : n'.now = n.now
  config : n'.config = n.config
  tickers : n'.tickers = n.tickers
  pushes : n'.directory.pushes = n.directory.pushes

/-- The readers and writers stand where they stood, and at `x` for a step and `y` for a seat there
is at most `k` more to do. -/
structure Adds (x y : Nat) (n : Node) (k : Nat) (n' : Node) :
    Prop extends KeepsWaiting n n' where
  size : n'.connections.size = n.connections.size
  reader : ∀ i, (n'.connection i).reader = (n.connection i).reader
  writer : ∀ i, (n'.connection i).writer = (n.connection i).writer
  load : n'.load x y ≤ n.load x y + k

/-- The phase in which the reader of connection `i` was is over, and has left at most `k` to do. -/
structure Leads (x y : Nat) (n : Node) (i k : Nat) (n' : Node) :
    Prop extends KeepsWaiting n n' where
  load : n'.load x y + (n.connection i).reader.load x y ≤ n.load x y + k

variable {n n' n'' : Node} {x y i c k k' : Nat}

theorem KeepsWaiting.refl (n : Node) : n.KeepsWaiting n := ⟨rfl, rfl, rfl, rfl⟩

theorem KeepsWaiting.trans (h : n.KeepsWaiting n') (h' : n'.KeepsWaiting n'') :
    n.KeepsWaiting n'' :=
  ⟨h'.now.trans h.now, h'.config.trans h.config, h'.tickers.trans h.tickers,
    h'.pushes.trans h.pushes⟩

theorem Adds.refl (n : Node) : n.Adds x y 0 n :=
  ⟨.refl n, rfl, fun _ => rfl, fun _ => rfl, Nat.le_refl _⟩

theorem Adds.trans (h : n.Adds x y k n') (h' : n'.Adds x y k' n'') :
    n.Adds x y (k + k') n'' := by
  refine ⟨h.toKeepsWaiting.trans h'.toKeepsWaiting, h'.size.trans h.size, ?_, ?_, ?_⟩
  · intro i
    rw [h'.reader, h.reader]
  · intro i
    rw [h'.writer, h.writer]
  · have hle := h.load
    have hle' := h'.load
    omega

theorem Adds.leads (h : n.Adds x y k n') (h' : n'.Leads x y i k' n'') :
    n.Leads x y i (k + k') n'' := by
  refine ⟨h.toKeepsWaiting.trans h'.toKeepsWaiting, ?_⟩
  have hle := h.load
  have hle' := h'.load
  rw [h.reader] at hle'
  omega

theorem Leads.mono (h : n.Leads x y i k n') (hk : k ≤ k') : n.Leads x y i k' n' :=
  ⟨h.toKeepsWaiting, h.load.trans (Nat.add_le_add_left hk _)⟩

/-! What the parts of a step add -/

theorem aside_adds (hc : n'.connections = n.connections) (ht : n'.timers = n.timers)
    (hd : n'.directory = n.directory) (hn : n'.now = n.now) (hg : n'.config = n.config)
    (hk : n'.tickers = n.tickers) : n.Adds x y 0 n' := by
  have hcon (i : Nat) : n'.connection i = n.connection i := by rw [Node.connection, hc,
    Node.connection]
  refine ⟨⟨hn, hg, hk, congrArg _ hd⟩, congrArg _ hc, fun i => hcon i ▸ rfl,
    fun i => hcon i ▸ rfl, ?_⟩
  · rw [load, load, hc, ht, hd, hn]
    exact Nat.le_refl _

theorem directory_adds {d : Directory} (h : n.directory.Adds x y k d) :
    n.Adds x y k { n with directory := d } := by
  refine ⟨⟨rfl, rfl, rfl, h.pushes⟩, rfl, fun _ => rfl, fun _ => rfl, ?_⟩
  have hle := h.load
  rw [load, load]
  dsimp only
  omega

theorem modifyChannel_adds {f : Channel → Channel}
    (h : (f (n.channel c)).load x ≤ (n.channel c).load x + k) :
    n.Adds x y k (n.modifyChannel c f) :=
  directory_adds (Directory.withLobby_adds (Lobby.modify_load h))

theorem setTimer_adds {t : Nat} {s : Timer.Shard Nat}
    (h : s.todo n.now ≤ (n.timer t).todo n.now + k) :
    n.Adds x y (x * k) (n.setTimer t s) := by
  refine ⟨⟨rfl, rfl, rfl, rfl⟩, rfl, fun _ => rfl, fun _ => rfl, ?_⟩
  have hmul := Nat.mul_le_mul_left x h
  rw [Nat.mul_add] at hmul
  have hle : total (fun s => x * s.todo n.now) (n.timers.setIfInBounds t s) ≤
      total _ n.timers + x * k := total_set_le _ hmul
  rw [load, load, setTimer]
  dsimp only
  omega

theorem modifyConnection_load (hi : i < n.connections.size) (f : Connection → Connection) :
    (n.modifyConnection i f).load x y + (n.connection i).load x y =
      n.load x y + (f (n.connection i)).load x y := by
  have hsum := total_modify (Connection.load x y) hi f
  have hget : n.connections[i] = n.connection i := by
    rw [Node.connection, Array.getD_eq_getD_getElem?, Array.getElem?_eq_getElem hi,
      Option.getD_some]
  rw [hget] at hsum
  rw [load, load, modifyConnection]
  dsimp only
  omega

theorem modifyConnection_adds {f : Connection → Connection} (n : Node) (i : Nat)
    (hf : ∀ c, (f c).reader = c.reader ∧ (f c).writer = c.writer ∧
      (f c).wire.incoming = c.wire.incoming) : n.Adds x y 0 (n.modifyConnection i f) := by
  refine ⟨⟨rfl, rfl, rfl, rfl⟩, Array.size_modify, fun j => ?_, fun j => ?_, ?_⟩
  · rw [connection_modifyConnection]
    split_ifs with hj
    · rw [(hf _).1, hj.1]
    · rfl
  · rw [connection_modifyConnection]
    split_ifs with hj
    · rw [(hf _).2.1, hj.1]
    · rfl
  · refine Nat.add_le_add_right (Nat.add_le_add_left ?_ _) _
    refine total_modify_le (d := default) (k := 0) _ (Nat.le_of_eq ?_)
    rw [Connection.load, Connection.load, (hf _).1, (hf _).2.1, (hf _).2.2]
    rfl

theorem close_adds (n : Node) (i : Nat) : n.Adds x y 0 (n.close i) :=
  n.modifyConnection_adds i fun _ => ⟨rfl, rfl, rfl⟩

theorem modifyWire_adds {f : Wire → Wire} (n : Node) (i : Nat)
    (hf : ∀ w, (f w).incoming = w.incoming) : n.Adds x y 0 (n.modifyWire i f) :=
  n.modifyConnection_adds i fun c => ⟨rfl, rfl, hf c.wire⟩

theorem dropDeadline_adds (n : Node) (i : Nat) : n.Adds x y 0 (n.dropDeadline i) :=
  setTimer_adds (k := 0) (Timer.Shard.del_todo _ _ _)

theorem moveDeadline_adds {delay : Nanos} (h : n.moveDeadline i delay = some n') :
    n.Adds x y (x * 4) n' := by
  obtain ⟨⟨ok, s⟩, hs, rfl⟩ := Option.map_eq_some_iff.1 h
  exact setTimer_adds (Timer.Shard.set?_todo hs)

theorem answer_adds {α : Type} (n : Node) (m : Method) (r : Except ControlPlane.Refusal α)
    (after : ControlPlane) : n.Adds x y 0 (n.answer m r after).2 := by
  rw [answer]
  split <;> exact aside_adds rfl rfl rfl rfl rfl rfl

theorem record_adds (n : Node) (caller : Option Nat) (call : Call) :
    n.Adds x y 0 (n.record caller call) := aside_adds rfl rfl rfl rfl rfl rfl

theorem callDisconnect_adds (n : Node) (caller : Option Nat) (mid : Int64) (key : String) :
    n.Adds x y 0 (n.callDisconnect caller mid key).2 :=
  (n.record_adds caller _).trans (answer_adds ..)

theorem callHeartbeat_adds (n : Node) (caller : Option Nat) (mid : Int64) (key : String) :
    n.Adds x y 0 (n.callHeartbeat caller mid key).2 :=
  (n.record_adds caller _).trans (answer_adds ..)

theorem callReceive_adds (n : Node) (caller : Option Nat) (mid : Int64) (f : Frame) :
    n.Adds x y 0 (n.callReceive caller mid f).2 :=
  (n.record_adds caller _).trans (answer_adds ..)

theorem nextKey_adds (n : Node) : n.Adds x y 0 n.nextKey.2 := by
  unfold nextKey
  cases n.entropy.uuid
  exact aside_adds rfl rfl rfl rfl rfl rfl

theorem callConnect_adds (n : Node) (caller : Option Nat) (cookie : String) (token : Bytes) :
    n.Adds x y 0 (n.callConnect caller cookie token).2 :=
  (n.nextKey_adds.trans (record_adds _ caller _)).trans (answer_adds ..)

theorem drawInterval_adds (n : Node) : n.Adds x y 0 n.drawInterval.2 := by
  unfold drawInterval
  cases n.entropy.below beatWindow.1 beatWindow.2
  exact aside_adds rfl rfl rfl rfl rfl rfl

/-! The steps of a reader -/

section

variable {s : Session} {f : Frame} {g : ControlPlane.Grant}

theorem Adds.enters {r : Reader} {f : Connection → Connection} (h : n.Adds x y k n')
    (hi : i < n.connections.size) (hr : ∀ c, (f c).reader = r)
    (hw : ∀ c, (f c).writer.load x ≤ c.writer.load x)
    (hin : ∀ c, (f c).wire.incoming = c.wire.incoming) :
    n.Leads x y i (k + r.load x y) (n'.modifyConnection i f) := by
  refine ⟨⟨h.now, h.config, h.tickers, h.pushes⟩, ?_⟩
  have hle := h.load
  have hwriter := hw (n'.connection i)
  have hset := modifyConnection_load (x := x) (y := y) (h.size ▸ hi : i < n'.connections.size) f
  rw [Connection.load, Connection.load, hr, hin, h.reader] at hset
  omega

theorem Adds.setReader (h : n.Adds x y k n') (hi : i < n.connections.size) (r : Reader) :
    n.Leads x y i (k + r.load x y) (n'.setReader i r) :=
  h.enters hi (fun _ => rfl) (fun _ => Nat.le_refl _) fun _ => rfl

theorem release_adds (n : Node) (c : Nat) :
    n.Adds x y 0 (n.modifyChannel c Channel.release) :=
  modifyChannel_adds (Nat.le_refl _)

theorem hold_adds (n : Node) (c : Nat) : n.Adds x y 0 (n.modifyChannel c Channel.hold) :=
  modifyChannel_adds (Nat.le_refl _)

theorem dropReceiver_adds (n : Node) (c : Nat) :
    n.Adds x y 0 (n.modifyChannel c Channel.dropReceiver) :=
  modifyChannel_adds (Channel.dropReceiver_load x _)

theorem reject_leads (hi : i < n.connections.size) : n.Leads x y i 0 (n.reject i) := by
  have hshut := (n.dropDeadline_adds (x := x) (y := y) i).trans (close_adds _ i)
  exact hshut.enters (f := fun c => { c with reader := .returned, wire := c.wire.drop })
    hi (fun _ => rfl) (fun _ => Nat.le_refl _) fun _ => rfl

theorem finishReader_leads (hi : i < n.connections.size) (c : Nat) :
    n.Leads x y i 0 (n.finishReader i c) :=
  (n.release_adds c).setReader hi .returned

theorem crash_leads (hi : i < n.connections.size) (c : Nat) : n.Leads x y i 0 (n.crash i c) :=
  (n.release_adds c).setReader hi .crashed

theorem signOff_leads (hi : i < n.connections.size) (c : Nat) :
    n.Leads x y i x (n.signOff i c) := by
  have hcall := n.callDisconnect_adds (x := x) (y := y) (some i) (n.channel c).mid (n.channel c).key
  rw [signOff]
  generalize n.callDisconnect (some i) (n.channel c).mid (n.channel c).key = called at hcall ⊢
  obtain ⟨r | _, n'⟩ := called
  · exact (hcall.leads (finishReader_leads (hcall.size ▸ hi) c)).mono (Nat.zero_le _)
  · exact (hcall.setReader hi _).mono (Nat.le_of_eq (Nat.zero_add _))

theorem tearDown_leads (hi : i < n.connections.size) (c : Nat) :
    n.Leads x y i (5 * x) (n.tearDown i c) := by
  have hdel := directory_adds (n := n) (x := x) (y := y)
    (n.directory.del_adds (n.directory.bucketOf (n.channel c).key) c)
  have hshut := (hdel.trans (dropDeadline_adds _ i)).trans (close_adds _ i)
  have hclose := hshut.trans (modifyChannel_adds (c := c) (Channel.close_load x _))
  exact (hclose.leads (signOff_leads (hclose.size ▸ hi) c)).mono (by omega)

theorem reply_leads (hi : i < n.connections.size) (s : Session) (f : Frame) :
    n.Leads x y i (12 * x) (n.reply i s f) := by
  rw [reply]
  split
  · exact (tearDown_leads hi s.channel).mono (by omega)
  · rename_i ch hp
    have hpush := Channel.pushInbound_load x hp
    have hwake := ch.wake_load x
    have hch : ch.wake.load x ≤ (n.channel s.channel).load x + 6 * x := by omega
    exact ((modifyChannel_adds (f := fun _ => ch.wake) hch).setReader hi (.serving s)).mono
      (by simp only [Reader.load]; omega)

theorem beat_leads (hi : i < n.connections.size) (s : Session) (f : Frame) :
    n.Leads x y i (17 * x) (n.beat i s f) := by
  rw [beat]
  cases hd : n.moveDeadline i s.grant.heartbeat with
  | none => exact (crash_leads hi s.channel).mono (Nat.zero_le _)
  | some m =>
    have hmove := moveDeadline_adds (x := x) (y := y) hd
    have hi' : i < m.connections.size := hmove.size ▸ hi
    dsimp only
    split_ifs
    · exact (hmove.leads (reply_leads hi' s _)).mono (by omega)
    · have hcall := hmove.trans (m.callHeartbeat_adds (some i) s.grant.mid s.grant.key)
      generalize m.callHeartbeat (some i) s.grant.mid s.grant.key = called at hcall ⊢
      obtain ⟨(e | ⟨⟩) | _, m'⟩ := called
      · exact (hcall.leads (reply_leads (hcall.size ▸ hi) s _)).mono (by omega)
      · exact (hcall.leads (reply_leads (hcall.size ▸ hi) _ _)).mono (by omega)
      · exact (hcall.setReader hi _).mono (by simp only [Reader.load]; omega)

theorem operate_adds (n : Node) (caller : Option Nat) (c b : Nat) (f : Frame) :
    n.Adds x y y (n.operate caller c b f).2 := by
  have hnone {n' : Node} (h : n.Adds x y 0 n') : n.Adds x y y n' :=
    ⟨h.toKeepsWaiting, h.size, h.reader, h.writer,
      h.load.trans (Nat.add_le_add_left (Nat.zero_le _) _)⟩
  have hroom := n.directory.changeRoom_adds (x := x) (y := y) b
    (String.ofList (Text.Utf8.decodeLossy f.body)) c
  have hcall := n.callReceive_adds (x := x) (y := y) caller (n.channel c).mid f
  simp only [operate]
  split_ifs
  · generalize n.directory.changeRoom b _ c = moved at hroom ⊢
    obtain ⟨r, d⟩ := moved
    cases r <;> exact directory_adds hroom
  · exact hnone (modifyChannel_adds (Nat.le_refl _))
  · exact hnone (modifyChannel_adds (Nat.le_refl _))
  · generalize n.callReceive caller (n.channel c).mid f = called at hcall ⊢
    obtain ⟨answer, n'⟩ := called
    cases answer <;> exact hnone hcall
  · exact hnone (.refl n)

theorem serve_leads (hi : i < n.connections.size) (s : Session) (f : Frame) :
    n.Leads x y i (17 * x + y) (n.serve i s f) := by
  rw [serve]
  split_ifs
  · exact (beat_leads hi s f).mono (Nat.le_add_right _ _)
  · have hop := n.operate_adds (x := x) (y := y) (some i) s.channel
      (n.directory.bucketOf s.grant.key) f
    generalize n.operate (some i) s.channel (n.directory.bucketOf s.grant.key) f = done at hop ⊢
    obtain ⟨r | r | e, n'⟩ := done
    · exact (hop.leads (reply_leads (hop.size ▸ hi) s r)).mono (by omega)
    · exact (hop.setReader hi _).mono (by simp only [Reader.load]; omega)
    · exact (hop.leads (tearDown_leads (hop.size ▸ hi) s.channel)).mono (by omega)

theorem authenticate_leads (hi : i < n.connections.size) (f : Frame) :
    n.Leads x y i (16 * x + y) (n.authenticate i f) := by
  rw [authenticate]
  split_ifs
  · exact (reject_leads hi).mono (Nat.zero_le _)
  · have hcall := n.callConnect_adds (x := x) (y := y) (some i)
      (n.connection i).cookie f.body
    generalize n.callConnect (some i) (n.connection i).cookie f.body = called at hcall ⊢
    obtain ⟨(e | g) | _, n'⟩ := called
    · exact (hcall.leads (reject_leads (hcall.size ▸ hi))).mono (Nat.zero_le _)
    · exact (hcall.setReader hi _).mono (by simp only [Reader.load]; omega)
    · exact (hcall.setReader hi _).mono (by simp only [Reader.load]; omega)

theorem putNewChannel_adds (n : Node) (i : Nat) (g : ControlPlane.Grant) :
    n.directory.Adds x y (4 * x + y) (n.putNewChannel i g).2 := by
  have hnew : (n.newChannel i g).load x = 0 :=
    Channel.new_load x g.mid g.key (n.connection i).ip n.config.cliProto n.config.svrProto true
  have hload := n.directory.lobby.addChannel_load (x := x) (y := y) (n.newChannel i g)
  rw [hnew] at hload
  exact ((Directory.withLobby_adds (k := 0) (Nat.le_of_eq hload)).trans
    (Directory.put_adds ..)).mono (Nat.le_of_eq (Nat.zero_add _))

theorem unseat_leads {d : Directory} (hi : i < n.connections.size)
    (hput : n.directory.Adds x y k d) (b c : Nat) : n.Leads x y i (k + x)
      (((((({ n with directory := d.del b c }).dropDeadline i).close i).modifyWire i
        Wire.drop).modifyChannel c Channel.dropReceiver).signOff i c) := by
  have hdel := directory_adds (n := n) (hput.trans (d.del_adds b c))
  have hshut := (hdel.trans (dropDeadline_adds _ i)).trans (close_adds _ i)
  have hdrop := (hshut.trans (modifyWire_adds _ i (f := Wire.drop) fun _ => rfl)).trans
    (dropReceiver_adds _ c)
  exact hdrop.leads (signOff_leads (hdrop.size ▸ hi) c)

theorem overrun_leads (hi : i < n.connections.size) (c : Nat) : n.Leads x y i 0
    (((n.modifyWire i Wire.drop).modifyChannel c Channel.dropReceiver).crash i c) := by
  have hdrop := (n.modifyWire_adds (x := x) (y := y) i (f := Wire.drop) fun _ => rfl).trans
    (dropReceiver_adds _ c)
  exact hdrop.leads (crash_leads (hdrop.size ▸ hi) c)

theorem enroll_leads (hi : i < n.connections.size) (g : ControlPlane.Grant) :
    n.Leads x y i (14 * x + y) (n.enroll i g) := by
  have hput := n.putNewChannel_adds (x := x) (y := y) i g
  have hwelcome : n.putNewChannel i g =
    (n.directory.withLobby (n.directory.lobby.addChannel (n.newChannel i g)).2).put
    (n.directory.bucketOf g.key) g.room n.directory.lobby.channels.size := rfl
  simp only [enroll, Lobby.addChannel]
  simp only [newChannel, Lobby.addChannel] at hwelcome
  rw [← hwelcome]
  rcases hdone : n.putNewChannel i g with ⟨e | u, d⟩
  · rw [hdone] at hput
    exact (unseat_leads hi hput _ _).mono (by omega)
  · rw [hdone] at hput
    have hset := (directory_adds (n := n) hput).trans (setTimer_adds (k := 0)
      (t := (n.connection i).timer) (Timer.Shard.setKey_todo _ (n.connection i).deadline g.key _))
    dsimp only
    generalize Node.setTimer _ _ _ = m at hset ⊢
    have hi' : i < m.connections.size := hset.size ▸ hi
    cases hmove : m.moveDeadline i g.heartbeat with
    | none => exact (hset.leads (overrun_leads hi' _)).mono (by omega)
    | some moved =>
      have hdraw := (hset.trans (moveDeadline_adds hmove)).trans moved.drawInterval_adds
      dsimp only
      generalize moved.drawInterval = drawn at hdraw ⊢
      obtain ⟨interval, n'⟩ := drawn
      have hhold := hdraw.trans (hold_adds _ n.directory.lobby.channels.size)
      exact (hhold.enters (f := fun conn => { conn with
        reader := .serving
          { grant := g, channel := n.directory.lobby.channels.size, interval, lastBeat := n'.now }
        writer := .waiting n.directory.lobby.channels.size })
        hi (fun _ => rfl) (fun _ => Nat.zero_le _) fun _ => rfl).mono
        (by simp only [Reader.load]; omega)

theorem nextIncoming_load {item : Except GatewayError Frame} (hi : i < n.connections.size)
    (h : n.nextIncoming i = some (item, n')) : n.KeepsWaiting n' ∧
      n'.connections.size = n.connections.size ∧
      (n'.connection i).reader = (n.connection i).reader ∧
      n'.load x y + (12 * x + y) = n.load x y := by
  rw [nextIncoming] at h
  split at h
  · cases h
  · rename_i item' rest hin
    cases h
    have hpop := modifyConnection_load (x := x) (y := y) hi
      fun c => { c with wire := { c.wire with incoming := rest } }
    refine ⟨⟨rfl, rfl, rfl, rfl⟩, Array.size_modify, ?_, ?_⟩
    · rw [modifyWire, connection_modifyConnection, if_pos ⟨rfl, hi⟩]
    · rw [Connection.load, Connection.load, hin, List.length_cons, Nat.mul_succ] at hpop
      rw [modifyWire]
      dsimp only at hpop
      omega

/-- The prices of the phases and of a frame leave a step over for every step. -/
theorem readerStep_load (h : n.readerStep i = some n') :
    n.KeepsWaiting n' ∧ n'.load x y + x ≤ n.load x y := by
  have hi := readerStep_lt h
  -- A phase that leads to less than it was worth itself.
  have hphase {k : Nat} (hl : n.Leads x y i k n')
      (hk : k + x ≤ (n.connection i).reader.load x y) :
      n.KeepsWaiting n' ∧ n'.load x y + x ≤ n.load x y := by
    refine ⟨hl.toKeepsWaiting, ?_⟩
    have hle := hl.load
    omega
  -- A phase that leads to less than it and the frame it has taken were worth.
  have hframe {m : Node} {item : Except GatewayError Frame} {k : Nat}
      (hn : n.nextIncoming i = some (item, m)) (hl : i < m.connections.size → m.Leads x y i k n')
      (hk : k + x ≤ (n.connection i).reader.load x y + (12 * x + y)) :
      n.KeepsWaiting n' ∧ n'.load x y + x ≤ n.load x y := by
    obtain ⟨hkeep, hsize, hreader, hpop⟩ := nextIncoming_load (x := x) (y := y) hi hn
    have hl := hl (hsize ▸ hi)
    refine ⟨hkeep.trans hl.toKeepsWaiting, ?_⟩
    have hle := hl.load
    rw [hreader] at hle
    omega
  rw [readerStep] at h
  cases hr : (n.connection i).reader with
  | awaitingAuth =>
    simp only [hr, Reader.load] at h hphase hframe
    split_ifs at h
    · cases h
      exact hphase (reject_leads hi) (by omega)
    · cases hn : n.nextIncoming i with
      | none => simp [hn] at h
      | some next =>
        obtain ⟨item, m⟩ := next
        rw [hn] at h
        cases item with
        | error e =>
          cases h
          exact hframe hn reject_leads (by omega)
        | ok f =>
          cases h
          exact hframe hn (fun hi => authenticate_leads hi f) (by omega)
  | connecting u =>
    simp only [hr, Reader.load] at h hphase
    split_ifs at h
    cases h
    exact hphase (reject_leads hi) (by omega)
  | greeting f g =>
    simp only [hr, Reader.load] at h hphase
    split_ifs at h
    · cases h
      exact hphase (reject_leads hi) (by omega)
    · cases h
      exact hphase (reject_leads hi) (by omega)
    · cases h
      have hwrite := n.modifyWire_adds (x := x) (y := y) i (f := (·.write (.frame f))) fun _ => rfl
      exact hphase (hwrite.setReader hi _) (by simp only [Reader.load]; omega)
  | greeted g =>
    simp only [hr, Reader.load] at h hphase
    split_ifs at h
    · cases h
      exact hphase (reject_leads hi) (by omega)
    · cases h
      exact hphase (reject_leads hi) (by omega)
    · cases h
      have hflush := n.modifyWire_adds (x := x) (y := y) i (f := Wire.flush) fun _ => rfl
      exact hphase (hflush.leads (enroll_leads (hflush.size ▸ hi) g)) (by omega)
  | serving s =>
    simp only [hr, Reader.load] at h hphase hframe
    split_ifs at h
    · cases h
      exact hphase (tearDown_leads hi s.channel) (by omega)
    · cases hn : n.nextIncoming i with
      | none => simp [hn] at h
      | some next =>
        obtain ⟨item, m⟩ := next
        rw [hn] at h
        cases item with
        | error e =>
          cases h
          exact hframe hn (fun hi => tearDown_leads hi s.channel) (by omega)
        | ok f =>
          cases h
          exact hframe hn (fun hi => serve_leads hi s f) (by omega)
  | calling s f u =>
    simp only [hr, Reader.load] at h hphase
    split_ifs at h
    cases h
    exact hphase (reply_leads hi s f) (by omega)
  | leaving c u =>
    simp only [hr, Reader.load] at h hphase
    split_ifs at h
    cases h
    exact hphase (finishReader_leads hi c) (by omega)
  | returned => simp [hr] at h
  | crashed => simp [hr] at h

end

/-! The steps of a writer -/

section

variable {ch : Channel} {s : Signal} {w : Writer}

theorem Adds.setWriter (h : n.Adds x y k n') (hi : i < n.connections.size) (w : Writer) :
    n.KeepsWaiting (n'.setWriter i w) ∧
      (n'.setWriter i w).load x y + (n.connection i).writer.load x ≤
      n.load x y + k + w.load x := by
  refine ⟨⟨h.now, h.config, h.tickers, h.pushes⟩, ?_⟩
  have hle := h.load
  have hset := modifyConnection_load (x := x) (y := y)
    (h.size ▸ hi : i < n'.connections.size) fun c => { c with writer := w }
  simp only [Connection.load, h.writer] at hset
  rw [Node.setWriter]
  omega

theorem modifyChannel_load (hc : c < n.directory.lobby.channels.size) (ch : Channel) :
    (n.modifyChannel c fun _ => ch).load x y + (n.channel c).load x =
      n.load x y + ch.load x := by
  have hsum := total_modify (Channel.load x) hc fun _ => ch
  have hget : n.directory.lobby.channels[c] = n.channel c := by
    rw [Node.channel, Lobby.channel, Array.getD_eq_getD_getElem?, Array.getElem?_eq_getElem hc,
      Option.getD_some]
  rw [hget] at hsum
  rw [load, load, modifyChannel, Lobby.load, Lobby.load]
  dsimp only [Directory.withLobby, Lobby.modify]
  omega

theorem channel_lt_of_load (h : 0 < (n.channel c).load 1) :
    c < n.directory.lobby.channels.size := by
  by_contra hc
  rw [Node.channel, Lobby.channel, Array.getD_eq_getD_getElem?,
    Array.getElem?_eq_none (Nat.not_lt.1 hc)] at h
  cases h

theorem receive_load (h : (n.channel c).receive = some (s, ch)) :
    (n.modifyChannel c fun _ => ch).load x y + 4 * x = n.load x y := by
  have hlt : c < n.directory.lobby.channels.size := by
    have hone := Channel.receive_load 1 h
    exact channel_lt_of_load (by omega)
  have hset := modifyChannel_load (x := x) (y := y) hlt ch
  have htake := Channel.receive_load x h
  omega

theorem popInbound_load {xs : List Frame} {f : Frame} (hx : (n.channel c).inbound.Holds xs)
    (h : (n.channel c).popInbound = some (f, ch)) :
    (n.modifyChannel c fun _ => ch).load x y + 2 * x = n.load x y := by
  have hlt : c < n.directory.lobby.channels.size := by
    have hone := Channel.popInbound_load 1 hx h
    exact channel_lt_of_load (by omega)
  have hset := modifyChannel_load (x := x) (y := y) hlt ch
  have htake := Channel.popInbound_load x hx h
  omega

theorem failWriter_load (hi : i < n.connections.size) (c : Nat) :
    n.KeepsWaiting (n.failWriter i c) ∧
      (n.failWriter i c).load x y + (n.connection i).writer.load x ≤ n.load x y :=
  ((n.close_adds i).trans (modifyWire_adds _ i (f := Wire.drop) fun _ => rfl)).setWriter hi
  (.discarding c)

theorem useWire_load {f : Wire → Wire} (hi : i < n.connections.size)
    (hf : ∀ w, (f w).incoming = w.incoming) (h : n.useWire i c f w = some n') : n.KeepsWaiting n' ∧
      n'.load x y + (n.connection i).writer.load x ≤ n.load x y + w.load x := by
  have hfail := failWriter_load (x := x) (y := y) hi c
  simp only [useWire] at h
  split_ifs at h
  · cases h
    exact ⟨hfail.1, hfail.2.trans (Nat.le_add_right _ _)⟩
  · cases h
    exact ⟨hfail.1, hfail.2.trans (Nat.le_add_right _ _)⟩
  · cases h
    exact (n.modifyWire_adds i hf).setWriter hi w

theorem finishWriter_load (hi : i < n.connections.size) (c : Nat) :
    n.KeepsWaiting (n.finishWriter i c) ∧
      (n.finishWriter i c).load x y ≤ n.load x y := by
  have hdrop : n.Adds x y 0 (n.modifyChannel c fun ch => ch.dropReceiver.release) :=
    modifyChannel_adds (Channel.dropReceiver_load x _)
  obtain ⟨hkeep, hle⟩ := hdrop.setWriter hi .gone
  exact ⟨hkeep, (Nat.le_add_right _ _).trans hle⟩

/-- Taking a signal pays for what the writer does with it. -/
theorem received_load {m : Node} (hr : (n.channel c).receive = some (s, ch))
    (hm : (n.modifyChannel c fun _ => ch).KeepsWaiting m)
    (hle : m.load x y ≤ (n.modifyChannel c fun _ => ch).load x y + 3 * x) :
    n.KeepsWaiting m ∧ m.load x y + x ≤ n.load x y := by
  have htake := receive_load (x := x) (y := y) hr
  exact ⟨⟨hm.now, hm.config, hm.tickers, hm.pushes⟩, by omega⟩

theorem setWriter_load (hi : i < n.connections.size) (w : Writer) :
    n.KeepsWaiting (n.setWriter i w) ∧
      (n.setWriter i w).load x y + (n.connection i).writer.load x ≤
      n.load x y + w.load x := (Adds.refl n).setWriter hi w

theorem writerStep_load (hring : ∀ c, (n.connection i).writer = .draining c →
    ∃ xs, (n.channel c).inbound.Holds xs) (h : n.writerStep i = some n') :
    n.KeepsWaiting n' ∧ n'.load x y + x ≤ n.load x y := by
  have hi := writerStep_lt h
  -- The writer goes on to a phase that is worth less.
  have hphase {k : Nat} (hl : n.KeepsWaiting n' ∧
      n'.load x y + (n.connection i).writer.load x ≤ n.load x y + k)
      (hk : k + x ≤ (n.connection i).writer.load x) :
      n.KeepsWaiting n' ∧ n'.load x y + x ≤ n.load x y := ⟨hl.1, by omega⟩
  rw [writerStep] at h
  generalize hw : (n.connection i).writer = w at h hphase
  cases w with
  | absent => cases h
  | gone => cases h
  | waiting c =>
    obtain ⟨⟨signal, ch⟩, hr, rfl⟩ := Option.map_eq_some_iff.1 h
    cases signal with
    | finish =>
      have hdrop := ((n.modifyChannel c fun _ => ch).close_adds (x := x) (y := y) i).trans
        (modifyWire_adds _ i (f := Wire.drop) fun _ => rfl)
      obtain ⟨hkeep, hle⟩ := finishWriter_load (x := x) (y := y) (hdrop.size ▸ hi) c
      exact received_load hr (hdrop.toKeepsWaiting.trans hkeep)
        ((hle.trans hdrop.load).trans (Nat.le_add_right _ _))
    | ready =>
      have hclear : (n.modifyChannel c fun _ => ch).Adds x y 0
          ((n.modifyChannel c fun _ => ch).modifyChannel c Channel.clearWake) :=
        modifyChannel_adds (Nat.le_refl _)
      obtain ⟨hkeep, hle⟩ := hclear.setWriter hi (.draining c)
      exact received_load hr hkeep (by simp only [Writer.load] at hle ⊢; omega)
    | data f =>
      obtain ⟨hkeep, hle⟩ := setWriter_load (n := n.modifyChannel c fun _ => ch) (x := x) (y := y)
        hi (.writing c (.frame f))
      exact received_load hr hkeep ((Nat.le_add_right _ _).trans hle)
  | writing c item =>
    exact hphase (k := 2 * x) (hw ▸ useWire_load (f := (·.write item)) hi (fun _ => rfl) h)
      (by simp only [Writer.load]; omega)
  | draining c =>
    dsimp only at h
    split_ifs at h
    · cases h
      exact hphase (k := 0) (hw ▸ failWriter_load hi c) (by simp only [Writer.load]; omega)
    · obtain ⟨xs, hx⟩ := hring c hw
      cases hp : (n.channel c).popInbound with
      | none =>
        rw [hp] at h
        cases h
        exact hphase (k := x) (hw ▸ setWriter_load hi _) (by simp only [Writer.load]; omega)
      | some popped =>
        obtain ⟨f, ch⟩ := popped
        rw [hp] at h
        cases h
        have hpop := popInbound_load (x := x) (y := y) hx hp
        obtain ⟨hkeep, hle⟩ := setWriter_load (n := n.modifyChannel c fun _ => ch)
          (x := x) (y := y) hi (.writing c (n.outgoing c f))
        have hwriter : ((n.modifyChannel c fun _ => ch).connection i).writer = .draining c := hw
        simp only [hwriter, Writer.load] at hle
        exact ⟨⟨hkeep.now, hkeep.config, hkeep.tickers, hkeep.pushes⟩, by omega⟩
  | flushing c =>
    exact hphase (k := 0) (hw ▸ useWire_load (f := Wire.flush) hi (fun _ => rfl) h)
      (by simp only [Writer.load]; omega)
  | discarding c =>
    obtain ⟨⟨signal, ch⟩, hr, rfl⟩ := Option.map_eq_some_iff.1 h
    cases signal with
    | finish =>
      obtain ⟨hkeep, hle⟩ := finishWriter_load (n := n.modifyChannel c fun _ => ch)
        (x := x) (y := y) hi c
      exact received_load hr hkeep (hle.trans (Nat.le_add_right _ _))
    | ready => exact received_load hr (.refl _) (Nat.le_add_right _ _)
    | data f => exact received_load hr (.refl _) (Nat.le_add_right _ _)

end

/-! The steps of the other tasks -/

theorem timerStep_load {t : Nat} (hf : (n.timer t).heap.Fit) (h : n.timerStep t = some n') :
    n.KeepsWaiting n' ∧ n'.load x y + x ≤ n.load x y := by
  obtain ⟨⟨callback, s⟩, hs, rfl⟩ := Option.map_eq_some_iff.1 h
  obtain ⟨s₀, hs₀, hstep⟩ := Option.bind_eq_some_iff.1 hs
  obtain ⟨ht, rfl⟩ := Array.getElem?_eq_some_iff.1 hs₀
  have htimer : n.timer t = n.timers[t] := by
    rw [Node.timer, Array.getD_eq_getD_getElem?, hs₀, Option.getD_some]
  have hlt := (Timer.Shard.stepBy_stepped (Timer.Shard.stepBy_false hstep)).todo_lt (htimer ▸ hf)
  have hmul := Nat.mul_le_mul_left x hlt
  rw [Nat.mul_succ] at hmul
  have hset := total_set (fun s => x * s.todo n.now) ht s
  have hle : (n.setTimer t s).load x y + x ≤ n.load x y := by
    rw [load, load, setTimer]
    dsimp only
    omega
  cases callback with
  | none => exact ⟨⟨rfl, rfl, rfl, rfl⟩, hle⟩
  | some i =>
    have hclose := (n.setTimer t s).close_adds (x := x) (y := y) i
    have hle' := hclose.load
    exact ⟨⟨rfl, rfl, rfl, rfl⟩, by dsimp only; omega⟩

theorem callRenewOnline_adds (n : Node) : n.Adds x y 0 n.callRenewOnline.2 := by
  have hrecord := n.record_adds (x := x) (y := y) none
    (.renewOnline n.serverId n.directory.roomCounts)
  simp only [callRenewOnline]
  generalize n.record none (.renewOnline n.serverId n.directory.roomCounts) = asked at hrecord ⊢
  have hcall := hrecord.trans (asked.answer_adds .renewOnline
    (.ok (asked.plane.renewOnline asked.serverId n.directory.roomCounts).1)
    (asked.plane.renewOnline asked.serverId n.directory.roomCounts).2)
  split
  · rename_i ha
    rw [ha] at hcall
    exact hcall.trans (directory_adds (Directory.updateCounts_adds _ _))
  · rename_i ha
    rw [ha] at hcall
    exact hcall
  · rename_i ha
    rw [ha] at hcall
    exact hcall

theorem missed_succ {now tick next : Nat} (htick : 0 < tick) (hnext : next ≤ now) :
    (now - next) / tick + 1 = (if next + tick ≤ now then (now - (next + tick)) / tick + 1
      else 0) + 1 := by
  split_ifs with h
  · rw [← Nat.sub_sub, Nat.div_eq_sub_div htick (by omega)]
  · rw [Nat.div_eq_of_lt (by omega)]

theorem putTicker_load {m : Node} {k : Nat} {t t' : Ticker} (ht : n.tickers[k]? = some t)
    (hm : n.Adds x y 0 m)
    (hlt : t'.load n.now n.config.onlineTick < t.load n.now n.config.onlineTick)
    (he : n' = { m with tickers := m.tickers.setIfInBounds k t' }) :
    n'.load x y ≤ n.load x y ∧ n'.now = n.now ∧ n'.config = n.config ∧
      n'.directory.pushes = n.directory.pushes ∧
      total (Ticker.load n.now n.config.onlineTick) n'.tickers <
        total (Ticker.load n.now n.config.onlineTick) n.tickers := by
  subst he
  obtain ⟨hk, rfl⟩ := Array.getElem?_eq_some_iff.1 ht
  have hset := total_set (Ticker.load n.now n.config.onlineTick) hk t'
  refine ⟨hm.load, hm.now, hm.config, hm.pushes, ?_⟩
  dsimp only
  rw [hm.tickers]
  omega

/-- A tick of no length has killed the tasks that renew the counts. -/
def Ticks (n : Node) : Prop := n.config.onlineTick = 0 → ∀ t ∈ n.tickers, t = .crashed

theorem Ticks.pos {k : Nat} (hn : n.Ticks) (h : n.tickerStep k = some n') :
    0 < n.config.onlineTick := by
  by_contra hzero
  have hcrashed (t : Ticker) (ht : n.tickers[k]? = some t) : t = .crashed :=
    hn (Nat.eq_zero_of_not_pos hzero) t (Array.mem_of_getElem? ht)
  simp only [tickerStep] at h
  split at h
  · cases hcrashed _ ‹_›
  · cases hcrashed _ ‹_›
  · cases h
  · cases h

theorem tickerStep_load {k : Nat} (hpos : 0 < n.config.onlineTick) (h : n.tickerStep k = some n') :
    n'.load x y ≤ n.load x y ∧ n'.now = n.now ∧ n'.config = n.config ∧
      n'.directory.pushes = n.directory.pushes ∧
      total (Ticker.load n.now n.config.onlineTick) n'.tickers <
        total (Ticker.load n.now n.config.onlineTick) n.tickers := by
  simp only [tickerStep] at h
  split at h
  · rename_i next ht
    split_ifs at h with hnow
    have hmissed := missed_succ hpos (Nat.not_lt.1 hnow)
    have hcall := n.callRenewOnline_adds (x := x) (y := y)
    generalize n.callRenewOnline = called at h hcall
    obtain ⟨answer, m⟩ := called
    have hconfig : m.config = n.config := hcall.config
    cases answer <;> cases h <;> refine putTicker_load ht hcall ?_ rfl <;>
      simp only [Ticker.load, if_pos (Nat.not_lt.1 hnow), hmissed, hconfig] <;> omega
  · rename_i next u ht
    split_ifs at h
    cases h
    exact putTicker_load ht (.refl n) (Nat.lt_succ_self _) rfl
  · cases h
  · cases h

end Node

end PushGateway
