import Mathlib.Logic.Function.Basic
import PushGateway.Node.Task
import PushGateway.Proofs.Directory.Names

/-!
What a connection has come to, and who is online. A task of a connection changes the phases of its
own connection alone, and most of its steps change nobody's presence and no channel's replies: these
are the quiet changes. The steps that let a session in or see it off are the others.
-/

namespace PushGateway

/-- The phases of the two tasks of a connection, and what has passed on its transport. -/
structure Line where
  reader : Reader
  writer : Writer
  incoming : List (Except GatewayError Frame)
  written : List Outgoing
  flushed : Nat

def Connection.line (c : Connection) : Line :=
  ⟨c.reader, c.writer, c.wire.incoming, c.wire.written, c.wire.flushed⟩

def Call.isPresence : Call → Bool
  | .connect .. | .disconnect .. => true
  | .heartbeat .. | .renewOnline .. | .receive .. => false

def Frame.answer? (f : Frame) : Option Frame :=
  if f.op = Op.heartbeat then some (f.emptied Op.heartbeatReply)
  else if f.op = Op.changeRoom then some (f.echoed Op.changeRoomReply)
  else if f.op = Op.sub then some (f.echoed Op.subReply)
  else if f.op = Op.unsub then some (f.echoed Op.unsubReply)
  else if Op.isBusiness f.op then some (f.emptied f.op)
  else none

namespace Node

def line (n : Node) (i : Nat) : Line := (n.connection i).line

def presence (n : Node) : List (Option Nat × Call) :=
  (n.log.filter (·.call.isPresence)).map fun r => (r.caller, r.call)

def online? (n : Node) (key : String) : Option Int64 := n.plane.sessions.get? key

def session? (n : Node) (key : String) : Option Nat := n.directory.find? key

/-- Connection `i` has become what `g` makes of it; the others are as they were. -/
structure LineChange (n : Node) (i : Nat) (g : Line → Line) (n' : Node) : Prop where
  size : n'.connections.size = n.connections.size
  here : n'.line i = g (n.line i)
  elsewhere : ∀ j, j ≠ i → n'.line j = n.line j
  serverId : n'.serverId = n.serverId
  faults : n'.faults = n.faults

/-- A change that touches nobody's presence, and no channel but by requests to finish. -/
structure QuietLineChange (n : Node) (i : Nat) (g : Line → Line) (n' : Node) :
    Prop extends LineChange n i g n' where
  buckets : n'.directory.buckets.size = n.directory.buckets.size
  lobby : n.directory.lobby.NobodyReceives n'.directory.lobby
  presence : n'.presence = n.presence
  online : n'.online? = n.online?
  session : n'.session? = n.session?

/-- Channel `c` has become what `P` relates it to, and has kept its names; nobody else has heard of
it. -/
structure OnlyChannel (n : Node) (c : Nat) (P : Channel → Channel → Prop) (n' : Node) : Prop where
  buckets : n'.directory.buckets.size = n.directory.buckets.size
  size : n.directory.lobby.channels.size ≤ n'.directory.lobby.channels.size
  others : ∀ d < n.directory.lobby.channels.size, d ≠ c → (n.channel d).Receives [] (n'.channel d)
  mid : (n'.channel c).mid = (n.channel c).mid
  key : (n'.channel c).key = (n.channel c).key
  here : P (n.channel c) (n'.channel c)
  presence : n'.presence = n.presence
  online : n'.online? = n.online?
  session : n'.session? = n.session?

variable {n n' n'' : Node} {i : Nat} {g g' : Line → Line}

theorem LineChange.trans (h : n.LineChange i g n') (h' : n'.LineChange i g' n'') :
    n.LineChange i (fun l => g' (g l)) n'' := by
  refine ⟨h'.size.trans h.size, ?_, ?_, h'.serverId.trans h.serverId, h'.faults.trans h.faults⟩
  · rw [h'.here, h.here]
  · intro j hj
    rw [h'.elsewhere j hj, h.elsewhere j hj]

theorem QuietLineChange.trans (h : n.QuietLineChange i g n') (h' : n'.QuietLineChange i g' n'') :
    n.QuietLineChange i (fun l => g' (g l)) n'' :=
  ⟨h.toLineChange.trans h'.toLineChange, h'.buckets.trans h.buckets, h.lobby.trans h'.lobby,
    h'.presence.trans h.presence, h'.online.trans h.online, h'.session.trans h.session⟩

theorem LineChange.aside (hc : n'.connections = n.connections) (hs : n'.serverId = n.serverId)
    (hf : n'.faults = n.faults) : n.LineChange i (fun l => l) n' := by
  have hl (j : Nat) : n'.line j = n.line j := by rw [line, Node.connection, hc, line,
    Node.connection]
  exact ⟨congrArg Array.size hc, hl i, fun j _ => hl j, hs, hf⟩

theorem QuietLineChange.refl (n : Node) (i : Nat) : n.QuietLineChange i (fun l => l) n :=
  ⟨.aside rfl rfl rfl, rfl, Lobby.NobodyReceives.refl _, rfl, rfl, rfl⟩

theorem connection_of_le (hi : n.connections.size ≤ i) : n.connection i = default := by
  rw [Node.connection, Array.getD_eq_getD_getElem?, Array.getElem?_eq_none hi]
  rfl

theorem connection_modifyConnection (n : Node) (i : Nat) (f : Connection → Connection) (j : Nat) :
    (n.modifyConnection i f).connection j =
      if j = i ∧ i < n.connections.size then f (n.connection i) else n.connection j := by
  simp only [Node.connection, modifyConnection, Array.getD_eq_getD_getElem?, Array.getElem?_modify]
  by_cases hj : i = j
  · subst hj
    by_cases hi : i < n.connections.size <;> simp [hi]
  · simp [hj, Ne.symm hj]

theorem line_modifyConnection (n : Node) (i : Nat) {f : Connection → Connection}
    (hf : ∀ c, (f c).line = g c.line) (j : Nat) : (n.modifyConnection i f).line j =
      if j = i ∧ i < n.connections.size then g (n.line i) else n.line j := by
  rw [line, connection_modifyConnection]
  split_ifs
  · exact hf _
  · rfl

theorem modifyConnection_quiet (hi : i < n.connections.size) {f : Connection → Connection}
    (hf : ∀ c, (f c).line = g c.line) : n.QuietLineChange i g (n.modifyConnection i f) := by
  refine ⟨⟨Array.size_modify, ?_, ?_, rfl, rfl⟩, rfl, Lobby.NobodyReceives.refl _, rfl, rfl, rfl⟩
  · rw [n.line_modifyConnection i hf, if_pos ⟨rfl, hi⟩]
  · intro j hj
    rw [n.line_modifyConnection i hf, if_neg fun h => hj h.1]

theorem close_quiet (hi : i < n.connections.size) : n.QuietLineChange i (fun l => l) (n.close i) :=
  modifyConnection_quiet hi fun _ => rfl

theorem setReader_quiet (hi : i < n.connections.size) (r : Reader) :
    n.QuietLineChange i (fun l => { l with reader := r }) (n.setReader i r) :=
  modifyConnection_quiet hi fun _ => rfl

theorem setWriter_quiet (hi : i < n.connections.size) (w : Writer) :
    n.QuietLineChange i (fun l => { l with writer := w }) (n.setWriter i w) :=
  modifyConnection_quiet hi fun _ => rfl

theorem write_quiet (hi : i < n.connections.size) (item : Outgoing) :
    n.QuietLineChange i (fun l => { l with written := l.written ++ [item] })
      (n.modifyWire i (·.write item)) :=
  modifyConnection_quiet hi fun _ => rfl

theorem flush_quiet (hi : i < n.connections.size) :
    n.QuietLineChange i (fun l => { l with flushed := l.written.length })
      (n.modifyWire i Wire.flush) :=
  modifyConnection_quiet hi fun _ => rfl

theorem drop_quiet (hi : i < n.connections.size) :
    n.QuietLineChange i (fun l => l) (n.modifyWire i Wire.drop) :=
  modifyConnection_quiet hi fun _ => rfl

theorem setTimer_quiet (n : Node) (i t : Nat) (s : Timer.Shard Nat) :
    n.QuietLineChange i (fun l => l) (n.setTimer t s) :=
      ⟨.aside rfl rfl rfl, rfl, Lobby.NobodyReceives.refl _, rfl, rfl, rfl⟩

theorem dropDeadline_quiet (n : Node) (i j : Nat) :
    n.QuietLineChange i (fun l => l) (n.dropDeadline j) :=
  n.setTimer_quiet i _ _

theorem moveDeadline_quiet {j : Nat} {delay : Nanos} (h : n.moveDeadline j delay = some n') :
    n.QuietLineChange i (fun l => l) n' := by
  obtain ⟨s, -, rfl⟩ := Option.map_eq_some_iff.1 h
  exact n.setTimer_quiet i _ s.2

theorem drawInterval_quiet (n : Node) (i : Nat) :
    n.QuietLineChange i (fun l => l) n.drawInterval.2 := by
  unfold drawInterval
  cases n.entropy.below beatWindow.1 beatWindow.2 with
  | mk seconds entropy =>
    exact ⟨.aside rfl rfl rfl, rfl, Lobby.NobodyReceives.refl _, rfl, rfl, rfl⟩

theorem modifyChannel_size (n : Node) (c : Nat) (f : Channel → Channel) :
    (n.modifyChannel c f).directory.lobby.channels.size = n.directory.lobby.channels.size :=
  Lobby.modify_channels_size ..

theorem channel_modifyChannel (n : Node) (c d : Nat) (f : Channel → Channel) :
    (n.modifyChannel c f).channel d =
      if d = c ∧ c < n.directory.lobby.channels.size then f (n.channel c) else n.channel d :=
  n.directory.lobby.channel_modify c f d

theorem modifyChannel_here {c : Nat} (hc : c < n.directory.lobby.channels.size)
    (f : Channel → Channel) : (n.modifyChannel c f).channel c = f (n.channel c) := by
  rw [channel_modifyChannel, if_pos ⟨rfl, hc⟩]

theorem modifyChannel_others {c : Nat} {f : Channel → Channel}
    (h : n.directory.lobby.NobodyReceives n'.directory.lobby) :
    ∀ d < n.directory.lobby.channels.size, d ≠ c →
      (n.channel d).Receives [] ((n'.modifyChannel c f).channel d) := by
  intro d hd hne
  rw [channel_modifyChannel, if_neg fun hc => hne hc.1]
  exact h.channel d hd

theorem modifyChannel_lineChange (n : Node) (i c : Nat) (f : Channel → Channel) :
    n.LineChange i (fun l => l) (n.modifyChannel c f) := .aside rfl rfl rfl

theorem modifyChannel_quiet (n : Node) (i c : Nat) (f : Channel → Channel)
    (hf : (n.channel c).Receives [] (f (n.channel c))) :
    n.QuietLineChange i (fun l => l) (n.modifyChannel c f) :=
  ⟨n.modifyChannel_lineChange i c f, rfl, n.directory.lobby.modify_nobodyReceives c hf, rfl,
    rfl, rfl⟩

theorem withDirectory_presence (n : Node) (d : Directory) :
    { n with directory := d }.presence = n.presence := rfl

theorem withDirectory_online (n : Node) (d : Directory) :
    { n with directory := d }.online? = n.online? := rfl

theorem withDirectory_quiet {d : Directory} (h : n.directory.DeliversNothing d) :
    n.QuietLineChange i (fun l => l) { n with directory := d } :=
  ⟨.aside rfl rfl rfl, h.buckets, h.lobby, rfl, rfl, funext h.find?⟩

theorem nextIncoming_quiet (hi : i < n.connections.size) {item : Except GatewayError Frame}
    (h : n.nextIncoming i = some (item, n')) : ∃ rest, (n.line i).incoming = item :: rest ∧
      n.QuietLineChange i (fun l => { l with incoming := rest }) n' := by
  rw [nextIncoming] at h
  split at h
  · cases h
  · rename_i item' rest hl
    cases h
    exact ⟨rest, hl, modifyConnection_quiet hi fun _ => rfl⟩

theorem record_presence (n : Node) (caller : Option Nat) (call : Call) :
    (n.record caller call).presence = n.presence ++ if call.isPresence then [(caller, call)]
      else [] := by
  rw [presence, record, List.filter_append, List.map_append]
  cases hc : call.isPresence <;> simp [hc, presence]

theorem record_quiet (n : Node) (i : Nat) (caller : Option Nat) {call : Call}
    (hc : call.isPresence = false) : n.QuietLineChange i (fun l => l) (n.record caller call) := by
  refine ⟨.aside rfl rfl rfl, rfl, Lobby.NobodyReceives.refl _, ?_, rfl, rfl⟩
  rw [record_presence, hc]
  exact List.append_nil _

theorem answer_quiet {α : Type} (n : Node) (i : Nat) (m : Method)
    (r : Except ControlPlane.Refusal α) {after : ControlPlane}
    (ha : after.sessions = n.plane.sessions) :
    n.QuietLineChange i (fun l => l) (n.answer m r after).2 := by
  rw [answer]
  split
  · exact .refl n i
  · exact .refl n i
  · refine ⟨.aside rfl rfl rfl, rfl, Lobby.NobodyReceives.refl _, rfl, ?_, rfl⟩
    funext key
    rw [online?, online?, ha]

theorem callHeartbeat_quiet (n : Node) (i : Nat) (caller : Option Nat) (mid : Int64)
    (key : String) : n.QuietLineChange i (fun l => l) (n.callHeartbeat caller mid key).2 :=
  (n.record_quiet i caller rfl).trans (answer_quiet _ i _ _ rfl)

theorem callReceive_quiet (n : Node) (i : Nat) (caller : Option Nat) (mid : Int64) (f : Frame) :
    n.QuietLineChange i (fun l => l) (n.callReceive caller mid f).2 :=
  (n.record_quiet i caller rfl).trans (answer_quiet _ i _ _ rfl)

theorem callRenewOnline_quiet (n : Node) (i : Nat) :
    n.QuietLineChange i (fun l => l) n.callRenewOnline.2 := by
  simp only [callRenewOnline]
  generalize hr : n.record none (.renewOnline n.serverId n.directory.roomCounts) = r
  generalize n.directory.roomCounts = counts
  have hrecord : n.QuietLineChange i (fun l => l) r := hr ▸ n.record_quiet i none rfl
  have hsessions : (r.plane.renewOnline r.serverId counts).2.sessions = r.plane.sessions := rfl
  have hq := hrecord.trans
    (r.answer_quiet i .renewOnline (.ok (r.plane.renewOnline r.serverId counts).1) hsessions)
  split
  · rename_i ha
    rw [ha] at hq
    exact hq.trans (withDirectory_quiet (Directory.updateCounts_deliversNothing _ _))
  · rename_i ha
    rw [ha] at hq
    exact hq
  · rename_i ha
    rw [ha] at hq
    exact hq

end Node

end PushGateway
