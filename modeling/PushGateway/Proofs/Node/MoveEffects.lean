import PushGateway.Proofs.Directory.Unmoved
import PushGateway.Proofs.Node.WriterEffects

/-!
The moves that are no connection's own step: what happens outside, and the work of the node. None of
them moves anybody in the directory, gives a handle back or lets anybody in. With the steps of the
two tasks of each connection these are all moves there are.
-/

namespace PushGateway.Node

/-- What is not a connection's own step: of the connections only transports and close signals have
changed, no handle has been given out or back, and nobody has moved in the directory. -/
structure NoConnectionStep (n n' : Node) : Prop where
  size : n'.connections.size = n.connections.size
  connection : ∀ j, ∃ closed wire, n'.connection j = { n.connection j with closed, wire } ∧
    ((n.connection j).closed → closed)
  rotation : n'.rotation = n.rotation
  timers : n'.timers.size = n.timers.size
  onlyReorders : ∀ t, (n.timer t).heap.OnlyReorders (n'.timer t).heap
  fit : ∀ t, (n.timer t).heap.Fit → (n'.timer t).heap.Fit
  calls : ∀ j, n'.calls j = n.calls j
  directory : n.directory.NobodyMoves n'.directory

/-- A new connection: it has got a handle to the timer whose turn it is, or has died at once. -/
structure OpensConnection (n n' : Node) : Prop where
  size : n'.connections.size = n.connections.size + 1
  others : ∀ j, j ≠ n.connections.size → n'.connection j = n.connection j
  timer : (n'.connection n.connections.size).timer = n.rotation.count % n.rotation.timers
  rotation : n'.rotation.timers = n.rotation.timers
  timers : n'.timers.size = n.timers.size
  outcome : (n'.line n.connections.size).reader = .crashed ∧ n'.timers = n.timers ∨
    (n'.line n.connections.size).reader = .awaitingAuth ∧
      ∃ s, n'.timers = n.timers.setIfInBounds (n.rotation.count % n.rotation.timers) s ∧
        ((n.timer (n.rotation.count % n.rotation.timers)).heap.Fit →
          (n.timer (n.rotation.count % n.rotation.timers)).heap.HandsOut
            (n'.connection n.connections.size).deadline n.connections.size s.heap)
  calls : ∀ j, n'.calls j = n.calls j
  directory : n'.directory = n.directory

def enrolled (n : Node) (i : Nat) : Move → Option ControlPlane.Grant
  | .task (.reader j) => if j = i then n.enrollment? i else none
  | _ => none

inductive MoveEffect (n : Node) (m : Move) (n' : Node) : Prop
  | background : (∀ i, n.enrolled i m = none) → n.NoConnectionStep n' → MoveEffect n m n'
  | opensConnection (ip cookie : String) : m = .event (.open ip cookie) → n.OpensConnection n' →
      MoveEffect n m n'
  | reading (i : Nat) : m = .task (.reader i) → i < n.connections.size → n.ReaderEffect i n' →
      MoveEffect n m n'
  | writing (i c : Nat) : m = .task (.writer i) → (n.line i).writer.channel? = some c →
      n.WriterEffect i c n' → MoveEffect n m n'

variable {n n' n'' : Node} {i c : Nat} {m : Move}

theorem NoConnectionStep.trans (h : n.NoConnectionStep n') (h' : n'.NoConnectionStep n'') :
    n.NoConnectionStep n'' := by
  refine ⟨h'.size.trans h.size, fun j => ?_, h'.rotation.trans h.rotation, h'.timers.trans h.timers,
    fun t => (h.onlyReorders t).trans (h'.onlyReorders t), fun t ht => h'.fit t (h.fit t ht),
    fun j => (h'.calls j).trans (h.calls j), h.directory.trans h'.directory⟩
  obtain ⟨closed, wire, hc, hm⟩ := h.connection j
  obtain ⟨closed', wire', hc', hm'⟩ := h'.connection j
  refine ⟨closed', wire', by rw [hc', hc], fun ho => hm' ?_⟩
  rw [hc]
  exact hm ho

theorem NoConnectionStep.aside (hc : n'.connections = n.connections) (hr : n'.rotation = n.rotation)
    (ht : n'.timers = n.timers) (hl : ∀ j, n'.calls j = n.calls j)
    (hd : n.directory.NobodyMoves n'.directory) : n.NoConnectionStep n' := by
  have htimer (t : Nat) : n'.timer t = n.timer t := by rw [Node.timer, ht, Node.timer]
  refine ⟨congrArg Array.size hc, fun j => ⟨(n.connection j).closed, (n.connection j).wire, ?_,
    fun h => h⟩, hr, congrArg Array.size ht, ?_, ?_, hl, hd⟩
  · rw [Node.connection, hc, Node.connection]
  · intro t
    rw [htimer]
    exact .refl _
  · intro t
    rw [htimer]
    exact fun h => h

theorem NoConnectionStep.refl (n : Node) : n.NoConnectionStep n :=
  .aside rfl rfl rfl (fun _ => rfl) (.refl _)

theorem withDirectory_noConnectionStep {d : Directory} (h : n.directory.NobodyMoves d) :
    n.NoConnectionStep { n with directory := d } :=
  .aside rfl rfl rfl (fun _ => rfl) h

theorem modifyConnection_noConnectionStep (n : Node) (i : Nat) {f : Connection → Connection}
    (hf : ∀ c, ∃ closed wire, f c = { c with closed, wire } ∧ (c.closed → closed)) :
    n.NoConnectionStep (n.modifyConnection i f) := by
  refine ⟨Array.size_modify, fun j => ?_, rfl, rfl, fun _ => .refl _, fun _ h => h, fun _ => rfl,
    .refl _⟩
  rw [connection_modifyConnection]
  split_ifs with hj
  · rw [hj.1]
    exact hf (n.connection i)
  · exact ⟨_, _, rfl, fun h => h⟩

theorem onWire_writerEffect (n : Node) (i c : Nat) (f : Wire → Wire) :
    n.WriterEffect i c (n.onWire i f) := by
  rw [onWire]
  split_ifs
  · exact .refl n i c
  · exact n.wire_writerEffect i c f

theorem onWire_directory (n : Node) (i : Nat) (f : Wire → Wire) :
    (n.onWire i f).directory = n.directory := by
  rw [onWire]
  split_ifs <;> rfl

theorem onWire_noConnectionStep (n : Node) (i : Nat) (f : Wire → Wire) :
    n.NoConnectionStep (n.onWire i f) := by
  rw [onWire]
  split_ifs
  · exact .refl n
  · exact n.modifyConnection_noConnectionStep i fun c => ⟨c.closed, f c.wire, rfl, fun h => h⟩

theorem closeRoom_noConnectionStep (n : Node) (id : String) :
    n.NoConnectionStep (n.closeRoom id).2 := by
  rw [closeRoom]
  generalize List.range n.directory.buckets.size = bs
  generalize 0 = k
  induction bs generalizing n k with
  | nil => exact .refl n
  | cons b bs ih =>
    have hb := withDirectory_noConnectionStep (n.directory.closeRoom_nobodyMoves b id)
    exact hb.trans (ih { n with directory := (n.directory.closeRoom b id).2 } _)

theorem push_opensConnection {c : Connection} {timers : Array (Timer.Shard Nat)}
    {rotation : Rotation}
    (ht : c.timer = n.rotation.count % n.rotation.timers) (hr : rotation.timers = n.rotation.timers)
    (hs : timers.size = n.timers.size)
    (ho : c.reader = .crashed ∧ timers = n.timers ∨ c.reader = .awaitingAuth ∧
      ∃ s, timers = n.timers.setIfInBounds (n.rotation.count % n.rotation.timers) s ∧
        ((n.timer (n.rotation.count % n.rotation.timers)).heap.Fit →
          (n.timer (n.rotation.count % n.rotation.timers)).heap.HandsOut c.deadline
          n.connections.size s.heap)) :
    n.OpensConnection { n with connections := n.connections.push c, timers, rotation } := by
  have hpush (j : Nat) :
      Node.connection { n with connections := n.connections.push c, timers, rotation } j =
        if j = n.connections.size then c else n.connection j := by
    simp only [Node.connection, Array.getD_eq_getD_getElem?, Array.getElem?_push]
    split_ifs <;> rfl
  have hnew := (hpush n.connections.size).trans (if_pos rfl)
  refine ⟨Array.size_push .., fun j hj => (hpush j).trans (if_neg hj), ?_, hr, hs, ?_,
    fun _ => rfl, rfl⟩
  · rw [hnew, ht]
  · rw [line, hnew]
    exact ho

theorem accept_opensConnection (n : Node) (ip cookie : String) :
    n.OpensConnection (n.accept ip cookie) := by
  simp only [accept]
  split
  · exact push_opensConnection rfl rfl rfl (.inl ⟨rfl, rfl⟩)
  · rename_i deadline s hadd
    exact push_opensConnection rfl rfl Array.size_setIfInBounds
      (.inr ⟨rfl, s, rfl, fun hf => Timer.Shard.add?_handsOut hf hadd⟩)

theorem apply_moveEffect (n : Node) (e : Event) : n.MoveEffect (.event e) (e.apply n) := by
  have hbackground {n' : Node} (h : n.NoConnectionStep n') : n.MoveEffect (.event e) n' :=
    .background (fun _ => rfl) h
  cases e with
  | «open» ip cookie => exact .opensConnection ip cookie rfl (n.accept_opensConnection ip cookie)
  | arrive i items => exact hbackground (n.onWire_noConnectionStep i _)
  | stall i => exact hbackground (n.onWire_noConnectionStep i _)
  | resume i => exact hbackground (n.onWire_noConnectionStep i _)
  | failWrites i => exact hbackground (n.onWire_noConnectionStep i _)
  | advance d => exact hbackground (.aside rfl rfl rfl (fun _ => rfl) (.refl _))
  | fault m f => exact hbackground (.aside rfl rfl rfl (fun _ => rfl) (.refl _))
  | startTicker => exact hbackground (.aside rfl rfl rfl (fun _ => rfl) (.refl _))
  | pushKeys keys op f =>
    exact hbackground (withDirectory_noConnectionStep (n.directory.pushKeys_nobodyMoves keys op f))
  | broadcast op f =>
    exact hbackground (withDirectory_noConnectionStep (n.directory.broadcast_nobodyMoves op f))
  | broadcastRoom p =>
    exact hbackground (withDirectory_noConnectionStep (n.directory.broadcastRoom_nobodyMoves p))
  | closeRoom id => exact hbackground (n.closeRoom_noConnectionStep id)

theorem timerStep_noConnectionStep {t : Nat} (h : n.timerStep t = some n') :
    n.NoConnectionStep n' := by
  obtain ⟨⟨callback, s⟩, hs, rfl⟩ := Option.map_eq_some_iff.1 h
  obtain ⟨s₀, hs₀, hstep⟩ := Option.bind_eq_some_iff.1 hs
  have htimer : n.timer t = s₀ := by
    rw [Node.timer, Array.getD_eq_getD_getElem?, hs₀]
    rfl
  have hset : n.NoConnectionStep (n.setTimer t s) := by
    refine ⟨rfl, fun j => ⟨_, _, rfl, fun h => h⟩, rfl, Array.size_setIfInBounds, ?_, ?_,
      fun _ => rfl, .refl _⟩
    · intro t'
      rw [timer_setTimer]
      split_ifs with ht
      · rw [ht.1, htimer]
        exact Timer.Shard.step_onlyReorders hstep
      · exact .refl _
    · intro t'
      rw [timer_setTimer]
      split_ifs with ht
      · rw [ht.1, htimer]
        exact fun hf => Timer.Shard.step_fit hf hstep
      · exact fun hf => hf
  cases callback with
  | none => exact hset
  | some i =>
    exact hset.trans (modifyConnection_noConnectionStep _ i fun c => ⟨true, c.wire, rfl,
      fun _ => rfl⟩)

theorem answer_noConnectionStep {α : Type} (n : Node) (m : Method)
    (r : Except ControlPlane.Refusal α) (after : ControlPlane) :
    n.NoConnectionStep (n.answer m r after).2 := by
  rw [answer]
  split <;> exact .aside rfl rfl rfl (fun _ => rfl) (.refl _)

theorem callRenewOnline_noConnectionStep (n : Node) : n.NoConnectionStep n.callRenewOnline.2 := by
  have hrecord : n.NoConnectionStep
      (n.record none (.renewOnline n.serverId n.directory.roomCounts)) := by
    refine .aside rfl rfl rfl (fun j => ?_) (.refl _)
    rw [calls_record, if_neg nofun, List.append_nil]
  simp only [callRenewOnline]
  generalize n.record none (.renewOnline n.serverId n.directory.roomCounts) = asked at hrecord ⊢
  have hcall := hrecord.trans (asked.answer_noConnectionStep .renewOnline
    (.ok (asked.plane.renewOnline asked.serverId n.directory.roomCounts).1)
    (asked.plane.renewOnline asked.serverId n.directory.roomCounts).2)
  split
  · rename_i ha
    rw [ha] at hcall
    exact hcall.trans (withDirectory_noConnectionStep (Directory.updateCounts_nobodyMoves _ _))
  · rename_i ha
    rw [ha] at hcall
    exact hcall
  · rename_i ha
    rw [ha] at hcall
    exact hcall

theorem tickerStep_noConnectionStep {k : Nat} (h : n.tickerStep k = some n') :
    n.NoConnectionStep n' := by
  have hput (m : Node) (t : Ticker) :
    m.NoConnectionStep { m with tickers := m.tickers.setIfInBounds k t } :=
    .aside rfl rfl rfl (fun _ => rfl) (.refl _)
  have hcall := n.callRenewOnline_noConnectionStep
  simp only [tickerStep] at h
  split at h
  · split_ifs at h
    generalize n.callRenewOnline = called at h hcall
    obtain ⟨answer, m⟩ := called
    cases answer <;> cases h <;> exact hcall.trans (hput m _)
  · split_ifs at h
    cases h
    exact hput n _
  · cases h
  · cases h

theorem deliver_noConnectionStep (n : Node) (c : Nat) (f : Frame) :
    n.NoConnectionStep (n.move (.deliver c f)) :=
  withDirectory_noConnectionStep
    (Directory.withLobby_nobodyMoves
    (n.directory.lobby.modify_equalButQueues c (Channel.deliver_keepsIdentity _ f)))

theorem enrolled_of_stuck {t : Task} (h : n.step t = none) (i : Nat) :
    n.enrolled i (.task t) = none := by
  cases t with
  | reader j =>
    rw [enrolled]
    split_ifs with hj
    · exact enrollment?_of_stuck (hj ▸ h)
    · rfl
  | _ => rfl

theorem Owned.moveEffect (h : n.Owned) (m : Move) : n.MoveEffect m (n.move m) := by
  cases m with
  | event e => exact n.apply_moveEffect e
  | deliver c f => exact .background (fun _ => rfl) (n.deliver_noConnectionStep c f)
  | task t =>
    cases hs : n.step t with
    | none =>
      have hn : n.move (.task t) = n := by rw [Node.move, hs]; rfl
      rw [hn]
      exact .background (enrolled_of_stuck hs) (.refl n)
    | some n' =>
      have hn : n.move (.task t) = n' := by rw [Node.move, hs]; rfl
      rw [hn]
      cases t with
      | timer t => exact .background (fun _ => rfl) (timerStep_noConnectionStep hs)
      | ticker k => exact .background (fun _ => rfl) (tickerStep_noConnectionStep hs)
      | reader i =>
        refine .reading i rfl (readerStep_lt hs) (readerStep_readerEffect (fun s hsession => ?_) hs)
        exact h.lt i _ (.inl (Reader.channel?_of_session? hsession))
      | writer i =>
        obtain ⟨c, hc, hw⟩ := writerStep_writerEffect hs
        exact .writing i c rfl hc hw
      | worker b w =>
        obtain ⟨d, hd, rfl⟩ := Option.map_eq_some_iff.1 hs
        exact .background (fun _ => rfl)
          (withDirectory_noConnectionStep (Directory.workerStep_nobodyMoves hd))

end PushGateway.Node
