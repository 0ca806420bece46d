import PushGateway.Proofs.Node.Readings
import PushGateway.Proofs.Node.Run
import PushGateway.Proofs.Node.Writings

/-!
Every move of a node is a step of the reader or the writer of one connection, or it is none of
these: frames arrive for a connection, a connection opens, channels take pushes and are asked to
finish, and nothing else happens to any connection, nor to who is online.
-/

namespace PushGateway

/-- A connection as it opens, and where there is none. -/
def Line.blank : Line := ⟨.awaitingAuth, .absent, [], [], 0⟩

def Reader.isOver : Reader → Bool
  | .returned | .crashed => true
  | _ => false

namespace Node

def arrived (n : Node) (j : Nat) : Move → List (Except GatewayError Frame)
  | .event (.arrive i items) =>
    if i = j ∧ j < n.connections.size ∧ (n.line j).reader.isOver = false then items else []
  | _ => []

def accepted (n : Node) (c : Nat) : Move → List Frame
  | .event (.pushKeys keys op f) =>
    n.directory.lobby.taken op f c (keys.filterMap n.directory.find?)
  | .event (.broadcast op f) => n.directory.takenIn op f c (List.range n.directory.buckets.size)
  | .task (.worker b w) => n.directory.takenFrom b w c
  | .deliver d f => if (n.directory.lobby.deliver d f).1 ∧ d = c then [f] else []
  | _ => []

structure OnlyArrivals (n : Node) (m : Move) (n' : Node) : Prop where
  line : ∀ j, n'.line j = { n.line j with incoming := (n.line j).incoming ++ n.arrived j m } ∨
    n.line j = .blank ∧ n'.line j = { Line.blank with reader := .crashed }
  serverId : n'.serverId = n.serverId
  buckets : n'.directory.buckets.size = n.directory.buckets.size
  lobby : n.directory.lobby.Delivers (fun c => n.accepted c m) n'.directory.lobby
  presence : n'.presence = n.presence
  online : n'.online? = n.online?
  session : n'.session? = n.session?

variable {n n' : Node} {m : Move} {i : Nat}

theorem OnlyArrivals.of_quiet (h : n.QuietLineChange i (fun l => l) n')
    (ha : ∀ j, n.arrived j m = []) (ht : ∀ c, n.accepted c m = []) : n.OnlyArrivals m n' := by
  refine ⟨?_, h.serverId, h.buckets, ?_, h.presence, h.online, h.session⟩
  · intro j
    left
    rw [ha, List.append_nil]
    by_cases hj : j = i
    · rw [hj]
      exact h.here
    · exact h.elsewhere j hj
  · simp only [ht]
    exact h.lobby

theorem OnlyArrivals.of_directory {d : Directory}
    (h : n.directory.Delivers (fun c => n.accepted c m) d) (ha : ∀ j, n.arrived j m = []) :
    n.OnlyArrivals m { n with directory := d } := by
  refine ⟨?_, rfl, h.buckets, h.lobby, n.withDirectory_presence d, n.withDirectory_online d,
    funext h.find?⟩
  intro j
  left
  rw [ha, List.append_nil]
  rfl

theorem untouched_quiet (n : Node) (i j : Nat) {f : Connection → Connection} {g : Line → Line}
    (hf : ∀ c, (f c).line = g c.line) (hg : i < n.connections.size → g (n.line i) = n.line i) :
    n.QuietLineChange j (fun l => l) (n.modifyConnection i f) := by
  have hl (k : Nat) : (n.modifyConnection i f).line k = n.line k := by
    rw [n.line_modifyConnection i hf]
    split_ifs with hk
    · rw [hg hk.2, hk.1]
    · rfl
  exact ⟨⟨Array.size_modify, hl j, fun k _ => hl k, rfl, rfl⟩, rfl, Lobby.NobodyReceives.refl _,
    rfl, rfl, rfl⟩

theorem onWire_quiet (n : Node) (i j : Nat) {f : Wire → Wire}
    (hi : ∀ w, (f w).incoming = w.incoming) (hw : ∀ w, (f w).written = w.written)
    (hf : ∀ w, (f w).flushed = w.flushed) : n.QuietLineChange j (fun l => l) (n.onWire i f) := by
  rw [onWire]
  split_ifs
  · exact .refl n j
  · refine n.untouched_quiet i j (g := fun l => l) ?_ fun _ => rfl
    intro c
    simp only [Connection.line, hi, hw, hf]

theorem line_of_le (hi : n.connections.size ≤ i) : n.line i = .blank := by
  rw [line, connection_of_le hi]
  rfl

theorem push_onlyArrivals {c : Connection}
    (hc : c.line = .blank ∨ c.line = { Line.blank with reader := .crashed }) (ip cookie : String)
    (t : Array (Timer.Shard Nat)) (r : Rotation) :
    n.OnlyArrivals (.event (.open ip cookie))
      { n with connections := n.connections.push c, timers := t, rotation := r } := by
  refine ⟨?_, rfl, rfl, Lobby.NobodyReceives.refl _, rfl, rfl, rfl⟩
  intro j
  have hl : Node.line { n with connections := n.connections.push c, timers := t, rotation := r } j =
      if j = n.connections.size then c.line else n.line j := by
    simp only [line, Node.connection, Array.getD_eq_getD_getElem?, Array.getElem?_push]
    split_ifs <;> rfl
  rw [hl]
  split_ifs with hj
  · have hb : n.line j = .blank := line_of_le (Nat.le_of_eq hj.symm)
    rcases hc with hc | hc
    · left
      rw [hc, hb]
      rfl
    · exact .inr ⟨hb, hc⟩
  · left
    simp only [arrived, List.append_nil]

theorem accept_onlyArrivals (n : Node) (ip cookie : String) :
    n.OnlyArrivals (.event (.open ip cookie)) (n.accept ip cookie) := by
  simp only [accept]
  split
  · exact push_onlyArrivals (.inr rfl) ip cookie n.timers _
  · exact push_onlyArrivals (.inl rfl) ip cookie _ _

theorem arrive_onlyArrivals (n : Node) (i : Nat) (items : List (Except GatewayError Frame)) :
    n.OnlyArrivals (.event (.arrive i items)) (n.arrive i items) := by
  have hover : (n.connection i).isOver = (n.line i).reader.isOver := by
    rw [Connection.isOver, line, Connection.line]
    cases (n.connection i).reader <;> rfl
  by_cases hi : i < n.connections.size ∧ (n.line i).reader.isOver = false
  · have hq : n.QuietLineChange i (fun l => { l with incoming := l.incoming ++ items })
      (n.arrive i items) := by
      rw [arrive, onWire, hover, hi.2, if_neg Bool.false_ne_true]
      exact modifyConnection_quiet hi.1 fun _ => rfl
    refine ⟨?_, hq.serverId, hq.buckets, hq.lobby, hq.presence, hq.online, hq.session⟩
    intro j
    left
    simp only [arrived]
    by_cases hj : i = j
    · subst hj
      rw [if_pos ⟨rfl, hi⟩]
      exact hq.here
    · rw [if_neg fun h => hj h.1, hq.elsewhere j (Ne.symm hj), List.append_nil]
  · have ha (j : Nat) : n.arrived j (.event (.arrive i items)) = [] := by
      simp only [arrived]
      rw [if_neg]
      rintro ⟨rfl, h⟩
      exact hi h
    refine OnlyArrivals.of_quiet (i := i) ?_ ha fun _ => rfl
    rw [arrive, onWire, hover]
    split_ifs with ho
    · exact .refl n i
    · refine n.untouched_quiet i i (g := fun l => { l with incoming := l.incoming ++ items })
        (fun _ => rfl) ?_
      intro h
      exact absurd ⟨h, Bool.eq_false_iff.2 ho⟩ hi

theorem aside_onlyArrivals (hc : n'.connections = n.connections) (hs : n'.serverId = n.serverId)
    (hd : n'.directory = n.directory) (hp : n'.presence = n.presence) (ho : n'.online? = n.online?)
    (ha : ∀ j, n.arrived j m = []) (ht : ∀ c, n.accepted c m = []) : n.OnlyArrivals m n' := by
  refine ⟨?_, hs, congrArg (·.buckets.size) hd, ?_, hp, ho, congrArg Directory.find? hd⟩
  · intro j
    left
    rw [ha, List.append_nil, line, Node.connection, hc, line, Node.connection]
  · rw [hd]
    simp only [ht]
    exact Lobby.NobodyReceives.refl _

theorem closeRoom_quiet (n : Node) (j : Nat) (id : String) :
    n.QuietLineChange j (fun l => l) (n.closeRoom id).2 := by
  rw [closeRoom]
  generalize List.range n.directory.buckets.size = bs
  generalize 0 = k
  induction bs generalizing n k with
  | nil => exact .refl n j
  | cons b bs ih =>
    have hq := withDirectory_quiet (i := j) (n.directory.closeRoom_deliversNothing b id)
    exact hq.trans (ih { n with directory := (n.directory.closeRoom b id).2 } _)

theorem apply_onlyArrivals (n : Node) (e : Event) : n.OnlyArrivals (.event e) (e.apply n) := by
  cases e with
  | «open» ip cookie => exact n.accept_onlyArrivals ip cookie
  | arrive i items => exact n.arrive_onlyArrivals i items
  | stall i =>
    exact .of_quiet (n.onWire_quiet i i (fun _ => rfl) (fun _ => rfl) fun _ => rfl) (fun _ => rfl)
      fun _ => rfl
  | resume i =>
    exact .of_quiet (n.onWire_quiet i i (fun _ => rfl) (fun _ => rfl) fun _ => rfl) (fun _ => rfl)
      fun _ => rfl
  | failWrites i =>
    exact .of_quiet (n.onWire_quiet i i (fun _ => rfl) (fun _ => rfl) fun _ => rfl) (fun _ => rfl)
      fun _ => rfl
  | advance d => exact aside_onlyArrivals rfl rfl rfl rfl rfl (fun _ => rfl) fun _ => rfl
  | fault m f => exact aside_onlyArrivals rfl rfl rfl rfl rfl (fun _ => rfl) fun _ => rfl
  | startTicker => exact aside_onlyArrivals rfl rfl rfl rfl rfl (fun _ => rfl) fun _ => rfl
  | pushKeys keys op f => exact .of_directory (n.directory.pushKeys_delivers keys op f) fun _ => rfl
  | broadcast op f => exact .of_directory (n.directory.broadcast_delivers op f) fun _ => rfl
  | broadcastRoom p =>
    exact .of_directory (n.directory.broadcastRoom_deliversNothing p) fun _ => rfl
  | closeRoom id => exact .of_quiet (n.closeRoom_quiet 0 id) (fun _ => rfl) fun _ => rfl

theorem timerStep_quiet {t : Nat} (h : n.timerStep t = some n') (j : Nat) :
    n.QuietLineChange j (fun l => l) n' := by
  obtain ⟨⟨callback, s⟩, -, rfl⟩ := Option.map_eq_some_iff.1 h
  have hset := n.setTimer_quiet j t s
  cases callback with
  | none => exact hset
  | some i => exact hset.trans (untouched_quiet _ i j (g := fun l => l) (fun _ => rfl) fun _ => rfl)

theorem tickerStep_quiet {k : Nat} (h : n.tickerStep k = some n') (j : Nat) :
    n.QuietLineChange j (fun l => l) n' := by
  have hput (m : Node) (t : Ticker) :
      m.QuietLineChange j (fun l => l) { m with tickers := m.tickers.setIfInBounds k t } :=
    ⟨.aside rfl rfl rfl, rfl, Lobby.NobodyReceives.refl _, rfl, rfl, rfl⟩
  have hcall := n.callRenewOnline_quiet j
  simp only [tickerStep] at h
  split at h
  · split_ifs at h
    generalize n.callRenewOnline = called at h hcall
    obtain ⟨answer, m⟩ := called
    cases answer <;> cases h <;> exact hcall.trans (hput m _)
  · split_ifs at h
    cases h
    exact hput n _
  · cases h
  · cases h

theorem deliver_delivers (n : Node) (d : Nat) (f : Frame) : n.directory.lobby.Delivers
    (fun c => n.accepted c (.deliver d f))
    (n.modifyChannel d fun ch => (ch.deliver f).2).directory.lobby := by
  refine ⟨Nat.le_of_eq (n.modifyChannel_size d _).symm, ?_⟩
  intro c hc
  change (n.channel c).Receives _ ((n.modifyChannel d _).channel c)
  rw [channel_modifyChannel]
  simp only [accepted, Lobby.deliver]
  by_cases hd : c = d
  · subst hd
    simp only [hc, and_self, and_true, if_true]
    exact (n.channel c).deliver_receives f
  · simp only [hd, Ne.symm hd, false_and, and_false, if_false]
    exact .refl _

theorem deliver_onlyArrivals (n : Node) (d : Nat) (f : Frame) :
    n.OnlyArrivals (.deliver d f) (n.move (.deliver d f)) :=
  .of_directory ⟨rfl, fun _ => rfl, n.deliver_delivers d f⟩ fun _ => rfl

inductive MoveCases (n : Node) (m : Move) (n' : Node) : Prop
  | onlyArrivals : (∀ i, m = .task (.reader i) → n.readerStep i = none) → n.OnlyArrivals m n' →
      MoveCases n m n'
  | reading (i : Nat) : m = .task (.reader i) → n.Reading i n' → MoveCases n m n'
  | writing (i : Nat) : m = .task (.writer i) → n.Writing i n' → MoveCases n m n'

theorem move_cases (hb : 0 < n.directory.buckets.size)
    (hr : ∀ i s, (n.line i).reader.session? = some s → s.channel < n.directory.lobby.channels.size)
    (hw : ∀ i c, (n.line i).writer.channel? = some c → c < n.directory.lobby.channels.size)
    (m : Move) : n.MoveCases m (n.move m) := by
  cases m with
  | event e => exact .onlyArrivals nofun (n.apply_onlyArrivals e)
  | deliver d f => exact .onlyArrivals nofun (n.deliver_onlyArrivals d f)
  | task t =>
    cases hs : n.step t with
    | none =>
      have hn : n.move (.task t) = n := by rw [move, hs]; rfl
      rw [hn]
      refine .onlyArrivals ?_ (.of_quiet (.refl n 0) (fun _ => rfl) ?_)
      · rintro i he
        cases he
        exact hs
      · intro c
        cases t with
        | worker b w => exact Directory.takenFrom_none (Option.map_eq_none_iff.1 hs) c
        | timer t => rfl
        | ticker k => rfl
        | reader i => rfl
        | writer i => rfl
    | some n' =>
      have hn : n.move (.task t) = n' := by rw [move, hs]; rfl
      rw [hn]
      cases t with
      | timer t =>
        exact .onlyArrivals nofun (.of_quiet (timerStep_quiet hs 0) (fun _ => rfl) fun _ => rfl)
      | ticker k =>
        exact .onlyArrivals nofun (.of_quiet (tickerStep_quiet hs 0) (fun _ => rfl) fun _ => rfl)
      | reader i => exact .reading i rfl (readerStep_reading hb (hr i) hs)
      | writer i => exact .writing i rfl (writerStep_writing (hw i) hs)
      | worker b w =>
        obtain ⟨d, hd, rfl⟩ := Option.map_eq_some_iff.1 hs
        exact .onlyArrivals nofun (.of_directory (Directory.workerStep_delivers hd) fun _ => rfl)

end Node

end PushGateway
