import PushGateway.Proofs.Directory.Registration
import PushGateway.Proofs.Node.Ownership
import PushGateway.Proofs.Timer.Handles

/-!
What the tasks of a connection touch. Of the connections it is their own alone, of the timers the
entry of its handle, and of the calls those made in its name; in the directory it is nothing until
the connection is let in, and its own channel from then on. When it is seen off, the channel is
taken out of the directory, the handle given back and the close signal given.
-/

namespace PushGateway

def Reader.hasLeft : Reader → Bool
  | .leaving .. | .returned => true
  | _ => false

def Call.isConnect : Call → Bool
  | .connect .. => true
  | _ => false

namespace Node

def ownHeap (n : Node) (i : Nat) : Timer.Heap Nat := (n.timer (n.connection i).timer).heap

def calls (n : Node) (i : Nat) : List Call := (n.log.filter (·.caller = some i)).map (·.call)

structure HasTimer (n : Node) (i : Nat) : Prop where
  lt : (n.connection i).timer < n.timers.size
  fit : (n.ownHeap i).Fit

/-- Nothing outside the directory has changed but what is connection `i`'s own. -/
structure OnlyConnection (n : Node) (i : Nat) (n' : Node) : Prop where
  size : n'.connections.size = n.connections.size
  others : ∀ j, j ≠ i → n'.connection j = n.connection j
  ip : (n'.connection i).ip = (n.connection i).ip
  timer : (n'.connection i).timer = (n.connection i).timer
  deadline : (n'.connection i).deadline = (n.connection i).deadline
  closed : (n.connection i).closed → (n'.connection i).closed
  rotation : n'.rotation = n.rotation
  timers : n'.timers.size = n.timers.size
  elsewhere : ∀ t, t ≠ (n.connection i).timer → n'.timer t = n.timer t
  heap : n.HasTimer i → (n.ownHeap i).HolderUses (n.connection i).deadline (n'.ownHeap i)
  calls : ∀ j, j ≠ i → n'.calls j = n.calls j

structure KeepsDeadline (n : Node) (i : Nat) (n' : Node) : Prop extends OnlyConnection n i n' where
  armed : n.HasTimer i → ∀ x, (n.ownHeap i).Armed (n.connection i).deadline x →
    (n'.ownHeap i).Armed (n.connection i).deadline x

structure DropsDeadline (n : Node) (i : Nat) (n' : Node) : Prop extends OnlyConnection n i n' where
  shut : (n'.connection i).closed
  spent : n.HasTimer i → ∀ x, (n.ownHeap i).Armed (n.connection i).deadline x →
    (n'.ownHeap i).Spent (n.connection i).deadline

/-- In the directory channel `c` has changed at most, and where it is. -/
structure OnlyConnectionAndChannel (n : Node) (i c : Nat) (n' : Node) :
    Prop extends KeepsDeadline n i n' where
  directory : n.directory.OnlyMoves c n'.directory

structure OnlyConnectCalls (n : Node) (i : Nat) (n' : Node) : Prop where
  directory : n'.directory = n.directory
  calls : ∃ calls, n'.calls i = n.calls i ++ calls ∧ ∀ call ∈ calls, call.isConnect

structure DeletesChannel (n : Node) (i c : Nat) (n' : Node) :
    Prop extends DropsDeadline n i n' where
  directory :
    (n.directory.del (n.directory.bucketOf (n.channel c).key) c).OnlyTouches c n'.directory
  reader : (n'.line i).reader.MayFollowLastCall c

def newChannel (n : Node) (i : Nat) (g : ControlPlane.Grant) : Channel :=
  (Channel.new g.mid g.key (n.connection i).ip n.config.cliProto n.config.svrProto true).watch
    g.accepts

def putNewChannel (n : Node) (i : Nat) (g : ControlPlane.Grant) :
    Except GatewayError Unit × Directory :=
  (n.directory.withLobby (n.directory.lobby.addChannel (n.newChannel i g)).2).put
  (n.directory.bucketOf g.key)
    g.room n.directory.lobby.channels.size

/-- Nothing has changed but what is connection `i`'s own, and channel `c`, from directory `d` on. -/
structure OnlyConnectionFrom (n : Node) (i c : Nat) (d : Directory) (n' : Node) :
    Prop extends KeepsDeadline n i n' where
  directory : d.OnlyTouches c n'.directory
  watched : (n'.channel c).watched = (d.lobby.channel c).watched

/-- How it ends when connection `i` is let in: it is served, or its task dies, or its channel goes
out as it came in. -/
inductive EnrollEffect (n : Node) (i : Nat) (g : ControlPlane.Grant) (n' : Node) : Prop
  | seated : (n.putNewChannel i g).1 = .ok () →
      n.OnlyConnectionFrom i n.directory.lobby.channels.size (n.putNewChannel i g).2 n' →
      ((n'.line i).reader = .crashed ∨
        ∃ s, (n'.line i).reader = .serving s ∧ s.channel = n.directory.lobby.channels.size) →
        EnrollEffect n i g n'
  | unseated : n.DropsDeadline i n' → ((n.putNewChannel i g).2.del (n.directory.bucketOf g.key)
        n.directory.lobby.channels.size).OnlyTouches n.directory.lobby.channels.size n'.directory →
      (n'.line i).reader.MayFollowLastCall n.directory.lobby.channels.size → EnrollEffect n i g n'

/-- The grant for which the next step of a reader lets its connection in, if it does. -/
def enrollment? (n : Node) (i : Nat) : Option ControlPlane.Grant :=
  let c := n.connection i
  match c.reader with
  | .greeted g => if c.closed ∨ c.wire.stalled ∨ c.wire.failing then none else some g
  | _ => none

inductive ReaderEffect (n : Node) (i : Nat) (n' : Node) : Prop
  | shaking : (n.line i).reader.isHandshake → n.enrollment? i = none →
      (n'.line i).reader.isHandshake → n.KeepsDeadline i n' → n.OnlyConnectCalls i n' →
      ReaderEffect n i n'
  | rejected : (n.line i).reader.isHandshake → n.enrollment? i = none →
      (n'.line i).reader = .returned → n.DropsDeadline i n' → n.OnlyConnectCalls i n' →
      ReaderEffect n i n'
  | enrollEffect (g : ControlPlane.Grant) : n.enrollment? i = some g →
      n' = (n.modifyWire i Wire.flush).enroll i g →
      (n.modifyWire i Wire.flush).EnrollEffect i g n' → ReaderEffect n i n'
  | served (s s' : Session) : (n.line i).reader.session? = some s →
      (n'.line i).reader.session? = some s' → s'.channel = s.channel →
      n.OnlyConnectionAndChannel i s.channel n' → ReaderEffect n i n'
  | crashed (s : Session) : (n.line i).reader.session? = some s → (n'.line i).reader = .crashed →
      n.OnlyConnectionAndChannel i s.channel n' → ReaderEffect n i n'
  | tornDown (s : Session) (m : Node) : (n.line i).reader.session? = some s →
      n.OnlyConnectionAndChannel i s.channel m → m.DeletesChannel i s.channel n' →
      ReaderEffect n i n'
  | left (c : Nat) (u : Nanos) : (n.line i).reader = .leaving c u → (n'.line i).reader = .returned →
      n.KeepsDeadline i n' → n.directory.OnlyTouches c n'.directory → n'.timers = n.timers →
      ReaderEffect n i n'

variable {n n' n'' m : Node} {i : Nat}

theorem OnlyConnection.hasTimer (h : n.OnlyConnection i n') (ht : n.HasTimer i) : n'.HasTimer i :=
  ⟨by rw [h.timer, h.timers]; exact ht.lt, (h.heap ht).fit⟩

theorem OnlyConnection.trans (h : n.OnlyConnection i n') (h' : n'.OnlyConnection i n'') :
    n.OnlyConnection i n'' := by
  refine ⟨h'.size.trans h.size, fun j hj => (h'.others j hj).trans (h.others j hj),
    h'.ip.trans h.ip, h'.timer.trans h.timer, h'.deadline.trans h.deadline,
    fun hc => h'.closed (h.closed hc), h'.rotation.trans h.rotation,
    h'.timers.trans h.timers, ?_, ?_, fun j hj => (h'.calls j hj).trans (h.calls j hj)⟩
  · intro t ht
    rw [h'.elsewhere t (h.timer.symm ▸ ht), h.elsewhere t ht]
  · intro ht
    exact (h.heap ht).trans (h.deadline ▸ h'.heap (h.hasTimer ht))

theorem KeepsDeadline.trans (h : n.KeepsDeadline i n') (h' : n'.KeepsDeadline i n'') :
    n.KeepsDeadline i n'' := by
  refine ⟨h.toOnlyConnection.trans h'.toOnlyConnection, fun ht x ha => ?_⟩
  have harmed := h'.armed (h.hasTimer ht) x
  rw [h.deadline] at harmed
  exact harmed (h.armed ht x ha)

theorem KeepsDeadline.dropsDeadline (h : n.KeepsDeadline i n') (h' : n'.DropsDeadline i n'') :
    n.DropsDeadline i n'' := by
  refine ⟨h.toOnlyConnection.trans h'.toOnlyConnection, h'.shut, fun ht x ha => ?_⟩
  have hspent := h'.spent (h.hasTimer ht) x
  rw [h.deadline] at hspent
  exact hspent (h.armed ht x ha)

theorem DropsDeadline.onlyConnection (h : n.DropsDeadline i n') (h' : n'.OnlyConnection i n'') :
    n.DropsDeadline i n'' := by
  refine ⟨h.toOnlyConnection.trans h', h'.closed h.shut, fun ht x ha => ?_⟩
  exact (h'.heap (h.hasTimer ht)).spent (h.spent ht x ha)

theorem KeepsDeadline.aside (hc : n'.connections = n.connections) (ht : n'.timers = n.timers)
    (hr : n'.rotation = n.rotation) (hl : n'.log = n.log) : n.KeepsDeadline i n' := by
  have hcon (j : Nat) : n'.connection j = n.connection j := by rw [Node.connection, hc,
    Node.connection]
  have htimer (t : Nat) : n'.timer t = n.timer t := by rw [Node.timer, ht, Node.timer]
  have hheap : n'.ownHeap i = n.ownHeap i := by rw [ownHeap, hcon, htimer, ownHeap]
  refine ⟨⟨congrArg Array.size hc, fun j _ => hcon j, ?_, ?_, ?_, ?_, hr, congrArg Array.size ht,
    fun t _ => htimer t, ?_, ?_⟩, ?_⟩
  · rw [hcon]
  · rw [hcon]
  · rw [hcon]
  · rw [hcon]
    exact fun h => h
  · intro hti
    rw [hheap]
    exact .refl hti.fit _
  · intro j _
    rw [Node.calls, hl, Node.calls]
  · intro _ x ha
    rw [hheap]
    exact ha

theorem KeepsDeadline.refl (n : Node) (i : Nat) : n.KeepsDeadline i n := .aside rfl rfl rfl rfl

theorem modifyConnection_keepsDeadline (n : Node) (i : Nat) {f : Connection → Connection}
    (hf : ∀ c, (f c).ip = c.ip ∧ (f c).timer = c.timer ∧ (f c).deadline = c.deadline ∧
      (c.closed → (f c).closed)) : n.KeepsDeadline i (n.modifyConnection i f) := by
  have hcon : (n.modifyConnection i f).connection i = n.connection i ∨
      (n.modifyConnection i f).connection i = f (n.connection i) := by
    rw [connection_modifyConnection]
    split_ifs
    · exact .inr rfl
    · exact .inl rfl
  have htimer : ((n.modifyConnection i f).connection i).timer = (n.connection i).timer := by
    rcases hcon with h | h <;> rw [h]
    exact (hf _).2.1
  have hheap : (n.modifyConnection i f).ownHeap i = n.ownHeap i := by
    rw [ownHeap, htimer]
    rfl
  refine ⟨⟨Array.size_modify, ?_, ?_, htimer, ?_, ?_, rfl, rfl, fun _ _ => rfl, ?_, fun _ _ => rfl⟩,
    ?_⟩
  · intro j hj
    rw [connection_modifyConnection, if_neg fun h => hj h.1]
  · rcases hcon with h | h <;> rw [h]
    exact (hf _).1
  · rcases hcon with h | h <;> rw [h]
    exact (hf _).2.2.1
  · rcases hcon with h | h <;> rw [h]
    · exact fun hc => hc
    · exact (hf _).2.2.2
  · intro ht
    rw [hheap]
    exact .refl ht.fit _
  · intro _ x ha
    rw [hheap]
    exact ha

theorem close_keepsDeadline (n : Node) (i : Nat) : n.KeepsDeadline i (n.close i) :=
  n.modifyConnection_keepsDeadline i fun _ => ⟨rfl, rfl, rfl, fun _ => rfl⟩

theorem setReader_keepsDeadline (n : Node) (i : Nat) (r : Reader) :
    n.KeepsDeadline i (n.setReader i r) :=
  n.modifyConnection_keepsDeadline i fun _ => ⟨rfl, rfl, rfl, fun h => h⟩

theorem modifyWire_keepsDeadline (n : Node) (i : Nat) (f : Wire → Wire) :
    n.KeepsDeadline i (n.modifyWire i f) :=
  n.modifyConnection_keepsDeadline i fun _ => ⟨rfl, rfl, rfl, fun h => h⟩

theorem modifyChannel_keepsDeadline (n : Node) (i c : Nat) (f : Channel → Channel) :
    n.KeepsDeadline i (n.modifyChannel c f) := .aside rfl rfl rfl rfl

theorem nextIncoming_keepsDeadline {item : Except GatewayError Frame}
    (h : n.nextIncoming i = some (item, n')) : n.KeepsDeadline i n' := by
  rw [nextIncoming] at h
  split at h
  · cases h
  · cases h
    exact n.modifyWire_keepsDeadline i _

theorem timer_setTimer (n : Node) (t : Nat) (s : Timer.Shard Nat) (t' : Nat) :
    (n.setTimer t s).timer t' = if t' = t ∧ t < n.timers.size then s else n.timer t' := by
  simp only [Node.timer, setTimer, Array.getD_eq_getD_getElem?, Array.getElem?_setIfInBounds]
  by_cases ht : t = t'
  · subst ht
    by_cases hlt : t < n.timers.size <;> simp [hlt]
  · simp [ht, Ne.symm ht]

theorem ownHeap_setTimer (ht : n.HasTimer i) (s : Timer.Shard Nat) :
    (n.setTimer (n.connection i).timer s).ownHeap i = s.heap := by
  rw [ownHeap]
  change ((n.setTimer (n.connection i).timer s).timer (n.connection i).timer).heap = s.heap
  rw [timer_setTimer, if_pos ⟨rfl, ht.lt⟩]

theorem setTimer_onlyConnection {s : Timer.Shard Nat}
    (h : n.HasTimer i → (n.ownHeap i).HolderUses (n.connection i).deadline s.heap) :
    n.OnlyConnection i (n.setTimer (n.connection i).timer s) := by
  refine ⟨rfl, fun _ _ => rfl, rfl, rfl, rfl, fun hc => hc, rfl, Array.size_setIfInBounds, ?_, ?_,
    fun _ _ => rfl⟩
  · intro t ht
    rw [timer_setTimer, if_neg fun he => ht he.1]
  · intro ht
    rw [ownHeap_setTimer ht]
    exact h ht

theorem setTimer_keepsDeadline {s : Timer.Shard Nat} (h : n.HasTimer i →
    (n.ownHeap i).HolderUses (n.connection i).deadline s.heap ∧
    (n.ownHeap i).KeepsCallbacks (n.connection i).deadline s.heap) :
    n.KeepsDeadline i (n.setTimer (n.connection i).timer s) := by
  refine ⟨setTimer_onlyConnection fun ht => (h ht).1, fun ht x ha => ?_⟩
  rw [ownHeap_setTimer ht]
  exact (h ht).2.armed ha

theorem moveDeadline_keepsDeadline {delay : Nanos} (h : n.moveDeadline i delay = some n') :
    n.KeepsDeadline i n' := by
  obtain ⟨⟨ok, s⟩, hs, rfl⟩ := Option.map_eq_some_iff.1 h
  exact setTimer_keepsDeadline fun ht => Timer.Shard.set?_keepsCallbacks ht.fit hs

theorem setKey_keepsDeadline (n : Node) (i : Nat) (key : String) :
    n.KeepsDeadline i (n.setTimer (n.connection i).timer
    ((n.timer (n.connection i).timer).setKey (n.connection i).deadline key)) :=
  setTimer_keepsDeadline fun ht => Timer.Heap.setKey_keepsCallbacks ht.fit
    (n.connection i).deadline key

theorem shut_dropsDeadline (hi : i < n.connections.size) :
    n.DropsDeadline i ((n.dropDeadline i).close i) := by
  have hdrop : n.OnlyConnection i (n.dropDeadline i) :=
    setTimer_onlyConnection fun ht => Timer.Heap.del_holderUses ht.fit (n.connection i).deadline
  have hclose := (n.dropDeadline i).close_keepsDeadline i
  refine ⟨hdrop.trans hclose.toOnlyConnection, ?_, fun ht x ha => ?_⟩
  · rw [close, connection_modifyConnection, if_pos ⟨rfl, hi⟩]
  · refine (hclose.heap (hdrop.hasTimer ht)).spent ?_
    rw [dropDeadline, ownHeap_setTimer ht]
    exact Timer.Heap.del_spent ht.fit ha

theorem shut_directory (n : Node) (i : Nat) :
    ((n.dropDeadline i).close i).directory = n.directory := rfl

theorem calls_record (n : Node) (caller : Option Nat) (call : Call) (j : Nat) :
    (n.record caller call).calls j = n.calls j ++ if caller = some j then [call] else [] := by
  rw [Node.calls, record, List.filter_append, List.map_append]
  by_cases hc : caller = some j <;> simp [hc, Node.calls]

theorem record_keepsDeadline (n : Node) (i : Nat) (call : Call) :
    n.KeepsDeadline i (n.record (some i) call) := by
  have h : n.KeepsDeadline i { n with log := n.log } := .refl n i
  refine ⟨⟨h.size, h.others, h.ip, h.timer, h.deadline, h.closed, h.rotation, h.timers,
    h.elsewhere, h.heap, ?_⟩, h.armed⟩
  intro j hj
  rw [calls_record, if_neg fun he => hj (Option.some.inj he).symm, List.append_nil]

theorem answer_keepsDeadline {α : Type} (n : Node) (i : Nat) (m : Method)
    (r : Except ControlPlane.Refusal α) (after : ControlPlane) :
    n.KeepsDeadline i (n.answer m r after).2 := by
  rw [answer]
  split <;> exact .aside rfl rfl rfl rfl

theorem answer_directory {α : Type} (n : Node) (m : Method) (r : Except ControlPlane.Refusal α)
    (after : ControlPlane) : (n.answer m r after).2.directory = n.directory := by
  rw [answer]
  split <;> rfl

theorem answer_log {α : Type} (n : Node) (m : Method) (r : Except ControlPlane.Refusal α)
    (after : ControlPlane) : (n.answer m r after).2.log = n.log := by
  rw [answer]
  split <;> rfl

theorem reader_setReader (hi : i < n.connections.size) (r : Reader) :
    ((n.setReader i r).line i).reader = r := by
  rw [line, setReader, connection_modifyConnection, if_pos ⟨rfl, hi⟩]
  rfl

theorem reader_modifyConnection (hi : i < n.connections.size) (f : Connection → Connection) :
    ((n.modifyConnection i f).line i).reader = (f (n.connection i)).reader := by
  rw [line, connection_modifyConnection, if_pos ⟨rfl, hi⟩]
  rfl

theorem OnlyConnectionAndChannel.refl (n : Node) (i c : Nat) : n.OnlyConnectionAndChannel i c n :=
  ⟨.refl n i, .refl _ c⟩

theorem OnlyConnectionAndChannel.trans {c : Nat} (h : n.OnlyConnectionAndChannel i c n')
    (h' : n'.OnlyConnectionAndChannel i c n'') : n.OnlyConnectionAndChannel i c n'' :=
  ⟨h.toKeepsDeadline.trans h'.toKeepsDeadline, h.directory.trans h'.directory⟩

theorem KeepsDeadline.onlyConnectionAndChannel (h : n.KeepsDeadline i n')
    (hd : n'.directory = n.directory) (c : Nat) : n.OnlyConnectionAndChannel i c n' :=
  ⟨h, hd ▸ .refl _ c⟩

theorem modifyChannel_onlyTouches (n : Node) {c : Nat} {f : Channel → Channel}
    (hf : (n.channel c).KeepsIdentity (f (n.channel c))) :
    n.directory.OnlyTouches c (n.modifyChannel c f).directory := Directory.modify_onlyTouches hf

theorem modifyChannel_onlyConnectionAndChannel {c : Nat} {f : Channel → Channel}
    (hf : (n.channel c).KeepsIdentity (f (n.channel c))) :
    n.OnlyConnectionAndChannel i c (n.modifyChannel c f) :=
      ⟨n.modifyChannel_keepsDeadline i c f, (n.modifyChannel_onlyTouches hf).onlyMoves⟩

theorem reject_dropsDeadline (hi : i < n.connections.size) : n.DropsDeadline i (n.reject i) := by
  refine (shut_dropsDeadline hi).onlyConnection (KeepsDeadline.toOnlyConnection ?_)
  exact modifyConnection_keepsDeadline _ i fun _ => ⟨rfl, rfl, rfl, fun h => h⟩

theorem reader_reject (hi : i < n.connections.size) : ((n.reject i).line i).reader = .returned := by
  have hsize := (shut_dropsDeadline hi).size
  rw [reject, reader_modifyConnection (hsize ▸ hi)]

theorem callDisconnect_keepsDeadline (n : Node) (i : Nat) (mid : Int64) (key : String) :
    n.KeepsDeadline i (n.callDisconnect (some i) mid key).2 ∧
      (n.callDisconnect (some i) mid key).2.directory = n.directory :=
  ⟨(n.record_keepsDeadline i _).trans (answer_keepsDeadline ..), answer_directory ..⟩

theorem signOff_spec (hi : i < n.connections.size) (c : Nat) : n.KeepsDeadline i (n.signOff i c) ∧
    n.directory.OnlyTouches c (n.signOff i c).directory ∧
    ((n.signOff i c).line i).reader.MayFollowLastCall c := by
  obtain ⟨hs, hd⟩ := n.callDisconnect_keepsDeadline i (n.channel c).mid (n.channel c).key
  rw [signOff]
  generalize n.callDisconnect (some i) (n.channel c).mid (n.channel c).key = called at hs hd ⊢
  obtain ⟨answer, n'⟩ := called
  have hi' : i < n'.connections.size := hs.size ▸ hi
  cases answer with
  | ready r =>
    have hrelease := n'.modifyChannel_keepsDeadline i c Channel.release
    refine ⟨(hs.trans hrelease).trans (setReader_keepsDeadline _ i _), ?_, ?_⟩
    · exact hd ▸ n'.modifyChannel_onlyTouches ⟨rfl, rfl, rfl⟩
    · change (((n'.modifyChannel c Channel.release).setReader i .returned).line
        i).reader.MayFollowLastCall c
      rw [reader_setReader (n := n'.modifyChannel c Channel.release) hi']
      exact .returned
  | never =>
    refine ⟨hs.trans (setReader_keepsDeadline _ i _), ?_, ?_⟩
    · exact (hd ▸ .refl _ c : n.directory.OnlyTouches c n'.directory)
    · dsimp only
      rw [reader_setReader hi']
      exact .leaving _

theorem shutIn_dropsDeadline (hi : i < n.connections.size) (d : Directory) :
    n.DropsDeadline i (({ n with directory := d }.dropDeadline i).close i) := by
  have hdir : n.KeepsDeadline i { n with directory := d } := .aside rfl rfl rfl rfl
  exact hdir.dropsDeadline (shut_dropsDeadline (n := { n with directory := d }) hi)

theorem DropsDeadline.signOff {d : Directory} {f : Channel → Channel} (h : n.DropsDeadline i m)
    (hi : i < n.connections.size) (hd : m.directory = d)
    (hf : ∀ ch : Channel, ch.KeepsIdentity (f ch)) (c : Nat) :
    n.DropsDeadline i ((m.modifyChannel c f).signOff i c) ∧
      d.OnlyTouches c ((m.modifyChannel c f).signOff i c).directory ∧
      (((m.modifyChannel c f).signOff i c).line i).reader.MayFollowLastCall c := by
  have hm := h.onlyConnection (m.modifyChannel_keepsDeadline i c f).toOnlyConnection
  obtain ⟨hs, ht, hr⟩ := signOff_spec (hm.size ▸ hi) c
  exact ⟨hm.onlyConnection hs.toOnlyConnection, hd ▸ (m.modifyChannel_onlyTouches (hf _)).trans ht,
    hr⟩

theorem tearDown_deletesChannel (hi : i < n.connections.size) (c : Nat) :
    n.DeletesChannel i c (n.tearDown i c) := by
  obtain ⟨hq, ht, hr⟩ :=
    (shutIn_dropsDeadline hi (n.directory.del (n.directory.bucketOf (n.channel c).key) c)).signOff
    hi (shut_directory _ i) (fun _ => ⟨rfl, rfl, rfl⟩ : ∀ ch : Channel, ch.KeepsIdentity ch.close) c
  exact ⟨hq, ht, hr⟩

theorem crash_onlyConnectionAndChannel (n : Node) (i c : Nat) :
    n.OnlyConnectionAndChannel i c (n.crash i c) :=
  (modifyChannel_onlyConnectionAndChannel ⟨rfl, rfl, rfl⟩).trans
  ((setReader_keepsDeadline _ i _).onlyConnectionAndChannel rfl c)

theorem reader_crash (hi : i < n.connections.size) (c : Nat) :
    ((n.crash i c).line i).reader = .crashed :=
  reader_setReader (n := n.modifyChannel c Channel.release) hi _

theorem drawInterval_keepsDeadline (n : Node) (i : Nat) : n.KeepsDeadline i n.drawInterval.2 := by
  unfold drawInterval
  cases n.entropy.below beatWindow.1 beatWindow.2
  exact .aside rfl rfl rfl rfl

theorem drawInterval_directory (n : Node) : n.drawInterval.2.directory = n.directory := by
  unfold drawInterval
  cases n.entropy.below beatWindow.1 beatWindow.2
  rfl

theorem moveDeadline_directory {delay : Nanos} (h : n.moveDeadline i delay = some n') :
    n'.directory = n.directory := by
  obtain ⟨s, -, rfl⟩ := Option.map_eq_some_iff.1 h
  rfl

theorem KeepsDeadline.onlyConnectionFrom {d : Directory} (h : n.KeepsDeadline i m)
    (hd : m.directory = d) (c : Nat) : n.OnlyConnectionFrom i c d m :=
  ⟨h, hd ▸ .refl _ c, hd ▸ rfl⟩

theorem OnlyConnectionFrom.keepsDeadline {c : Nat} {d : Directory}
    (h : n.OnlyConnectionFrom i c d m) (hs : m.KeepsDeadline i n')
    (hd : n'.directory = m.directory) : n.OnlyConnectionFrom i c d n' :=
  ⟨h.toKeepsDeadline.trans hs, hd ▸ h.directory,
    (congrArg (fun e : Directory => (e.lobby.channel c).watched) hd).trans h.watched⟩

theorem OnlyConnectionFrom.modifyChannel {c : Nat} {d : Directory} {f : Channel → Channel}
    (h : n.OnlyConnectionFrom i c d m) (hf : ∀ ch : Channel, ch.KeepsIdentity (f ch))
    (hw : ∀ ch, (f ch).watched = ch.watched) : n.OnlyConnectionFrom i c d (m.modifyChannel c f) :=
  ⟨h.toKeepsDeadline.trans (m.modifyChannel_keepsDeadline i c f),
    h.directory.trans (m.modifyChannel_onlyTouches (hf _)),
    (Directory.watched_modify m.directory.lobby c hw c).trans h.watched⟩

theorem seat_onlyConnectionFrom (n : Node) (i c : Nat) (d : Directory) (key : String) :
    n.OnlyConnectionFrom i c d ({ n with directory := d }.setTimer (n.connection i).timer
      (({ n with directory := d }.timer (n.connection i).timer).setKey
        (n.connection i).deadline key)) := by
  have hdir : n.KeepsDeadline i { n with directory := d } := .aside rfl rfl rfl rfl
  exact (hdir.trans (setKey_keepsDeadline { n with directory := d } i key)).onlyConnectionFrom rfl c

theorem OnlyConnectionFrom.overrun {c : Nat} {d : Directory} (h : n.OnlyConnectionFrom i c d m) :
    n.OnlyConnectionFrom i c d
      (((m.modifyWire i Wire.drop).modifyChannel c Channel.dropReceiver).crash i c) := by
  have hdrop := (h.keepsDeadline (m.modifyWire_keepsDeadline i Wire.drop) rfl).modifyChannel
    (f := Channel.dropReceiver) (fun _ => ⟨rfl, rfl, rfl⟩) fun _ => rfl
  have hrelease := hdrop.modifyChannel (f := Channel.release) (fun _ => ⟨rfl, rfl, rfl⟩)
    fun _ => rfl
  exact hrelease.keepsDeadline (setReader_keepsDeadline _ i .crashed) rfl

theorem unseat_enrolled (hi : i < n.connections.size) (g : ControlPlane.Grant) {d : Directory}
    (hd : (n.putNewChannel i g).2 = d) :
    let out :=
      ({ n with
        directory := d.del (n.directory.bucketOf g.key) n.directory.lobby.channels.size
      }.dropDeadline i).close i
    n.EnrollEffect i g (((out.modifyWire i Wire.drop).modifyChannel n.directory.lobby.channels.size
      Channel.dropReceiver).signOff i n.directory.lobby.channels.size) := by
  subst hd
  generalize hgone : (n.putNewChannel i g).2.del (n.directory.bucketOf g.key)
    n.directory.lobby.channels.size = d
  have hdrop := (shutIn_dropsDeadline hi d).onlyConnection
    (modifyWire_keepsDeadline _ i Wire.drop).toOnlyConnection
  obtain ⟨hq, ht, hr⟩ := hdrop.signOff (d := d) hi rfl (f := Channel.dropReceiver)
    (fun _ => ⟨rfl, rfl, rfl⟩) n.directory.lobby.channels.size
  exact .unseated hq (hgone ▸ ht) hr

theorem enroll_enrollEffect (hi : i < n.connections.size) (g : ControlPlane.Grant) :
    n.EnrollEffect i g (n.enroll i g) := by
  have hwelcome : n.putNewChannel i g =
    (n.directory.withLobby (n.directory.lobby.addChannel (n.newChannel i g)).2).put
    (n.directory.bucketOf g.key) g.room n.directory.lobby.channels.size := rfl
  simp only [enroll, Lobby.addChannel]
  simp only [newChannel, Lobby.addChannel] at hwelcome
  rw [← hwelcome]
  rcases hdone : n.putNewChannel i g with ⟨e | u, d⟩
  · exact unseat_enrolled hi g (congrArg Prod.snd hdone)
  · have hok : (n.putNewChannel i g).1 = .ok () := congrArg Prod.fst hdone
    have hdir : (n.putNewChannel i g).2 = d := congrArg Prod.snd hdone
    have hset := n.seat_onlyConnectionFrom i n.directory.lobby.channels.size d g.key
    dsimp only
    generalize Node.setTimer _ _ _ = m at hset ⊢
    rw [← hdir] at hset
    cases hmove : m.moveDeadline i g.heartbeat with
    | none =>
      have hdrop := hset.keepsDeadline (m.modifyWire_keepsDeadline i Wire.drop) rfl
      exact .seated hok hset.overrun
        (.inl (reader_crash (n := (m.modifyWire i Wire.drop).modifyChannel
        n.directory.lobby.channels.size Channel.dropReceiver) (hdrop.size ▸ hi) _))
    | some moved =>
      have hmoved := hset.keepsDeadline (moveDeadline_keepsDeadline hmove)
        (moveDeadline_directory hmove)
      have hdraw := hmoved.keepsDeadline (moved.drawInterval_keepsDeadline i)
        moved.drawInterval_directory
      dsimp only
      generalize moved.drawInterval = drawn at hdraw
      obtain ⟨interval, n'⟩ := drawn
      have hhold := hdraw.modifyChannel (f := Channel.hold) (fun _ => ⟨rfl, rfl, rfl⟩) fun _ => rfl
      have hi' : i < (n'.modifyChannel n.directory.lobby.channels.size
        Channel.hold).connections.size :=
        hhold.size ▸ hi
      exact .seated hok (hhold.keepsDeadline
        (modifyConnection_keepsDeadline _ i fun _ => ⟨rfl, rfl, rfl, fun h => h⟩) rfl)
        (.inr ⟨_, reader_modifyConnection hi' _, rfl⟩)

end Node

end PushGateway
