import PushGateway.Proofs.Node.LineChanges

/-!
Every step of the writing task, taken apart once. The task takes a signal off the queue, writes what
the signal and the ring hold, and flushes; once it has failed it only takes signals. Nobody's
presence depends on it.
-/

namespace PushGateway

def Writer.channel? : Writer → Option Nat
  | .waiting c | .writing c _ | .draining c | .flushing c | .discarding c => some c
  | .absent | .gone => none

def Outgoing.reply (f : Frame) (online : Int32) : Outgoing :=
  if f.op = Op.heartbeatReply then .heartbeat f online else .frame f

namespace Channel

structure TakesPush (pushed : List Frame) (ch ch' : Channel) : Prop where
  inbound : ch'.inbound = ch.inbound
  pushes : ch.outbox.pushes = pushed ++ ch'.outbox.pushes

structure PopsReply (f : Frame) (ch ch' : Channel) : Prop where
  inbound : ch.inbound.pop? = some (f, ch'.inbound)
  pushes : ch'.outbox.pushes = ch.outbox.pushes

def KeepsReplies (ch ch' : Channel) : Prop := ch'.inbound = ch.inbound

variable {ch ch' : Channel} {s : Signal}

theorem receive_takesPush (h : ch.receive = some (s, ch')) :
    ch'.mid = ch.mid ∧ ch'.key = ch.key ∧ TakesPush s.push?.toList ch ch' := by
  obtain ⟨⟨s', outbox⟩, ht, he⟩ := Option.map_eq_some_iff.1 h
  cases he
  obtain ⟨r, k, hq, hf⟩ := Outbox.take?_appends ht
  refine ⟨rfl, rfl, rfl, ?_⟩
  have hp := hf.pushes
  rw [Outbox.filterMap_finish, List.append_nil] at hp
  change ch.outbox.queue.filterMap Signal.push? = _ ++ outbox.pushes
  rw [hp, hq, List.filterMap_cons]
  cases s.push? <;> rfl

end Channel

namespace Node

inductive Writing (n : Node) (i : Nat) (n' : Node) : Prop
  | takesPush (c : Nat) (f : Frame) : (n.line i).writer = .waiting c →
      n.LineChange i (fun l => { l with writer := .writing c (.frame f) }) n' →
      n.OnlyChannel c (Channel.TakesPush [f]) n' → Writing n i n'
  | woken (c : Nat) : (n.line i).writer = .waiting c →
      n.LineChange i (fun l => { l with writer := .draining c }) n' →
      n.OnlyChannel c (Channel.TakesPush []) n' → Writing n i n'
  | popsReply (c : Nat) (f : Frame) (online : Int32) : (n.line i).writer = .draining c →
      n.LineChange i (fun l => { l with writer := .writing c (.reply f online) }) n' →
      n.OnlyChannel c (Channel.PopsReply f) n' → Writing n i n'
  | wrote (c : Nat) (item : Outgoing) : (n.line i).writer = .writing c item →
      n.QuietLineChange i (fun l => { l with
        writer := .draining c, written := l.written ++ [item] }) n' → Writing n i n'
  | drained (c : Nat) : (n.line i).writer = .draining c →
      n.QuietLineChange i (fun l => { l with writer := .flushing c }) n' → Writing n i n'
  | flushed (c : Nat) : (n.line i).writer = .flushing c →
      n.QuietLineChange i (fun l => { l with writer := .waiting c, flushed := l.written.length })
      n' → Writing n i n'
  | failed (c : Nat) : (n.line i).writer.channel? = some c →
      n.QuietLineChange i (fun l => { l with writer := .discarding c }) n' → Writing n i n'
  | ended (c : Nat) (w : Writer) : (n.line i).writer.channel? = some c →
      (w = .discarding c ∨ w = .gone) → n.LineChange i (fun l => { l with writer := w }) n' →
      n.OnlyChannel c Channel.KeepsReplies n' → Writing n i n'

/-- A step that concerns nothing but the writer of connection `i` and its channel. -/
structure WriterLineChange (n : Node) (i c : Nat) (g : Line → Line) (n' : Node) :
    Prop extends LineChange n i g n' where
  before : (n.line i).writer.channel? = some c
  later : ∀ d, (g (n.line i)).writer.channel? = some d → d = c
  reader : (g (n.line i)).reader = (n.line i).reader
  onlyChannel : n.OnlyChannel c (fun _ _ => True) n'

variable {n n' m : Node} {i c : Nat} {g : Line → Line}

theorem OnlyChannel.of_directory {P : Channel → Channel → Prop} (h : n.OnlyChannel c P n')
    (hd : m.directory = n'.directory) (hp : m.presence = n'.presence)
    (ho : m.online? = n'.online?) : n.OnlyChannel c P m := by
  have hc (d : Nat) : m.channel d = n'.channel d := by rw [Node.channel, hd, Node.channel]
  refine ⟨?_, ?_, ?_, ?_, ?_, ?_, hp.trans h.presence, ho.trans h.online, ?_⟩
  · rw [hd, h.buckets]
  · rw [hd]
    exact h.size
  · intro d hlt hne
    rw [hc]
    exact h.others d hlt hne
  · rw [hc, h.mid]
  · rw [hc, h.key]
  · rw [hc]
    exact h.here
  · exact (congrArg Directory.find? hd).trans h.session

theorem modifyChannel_onlyChannel {P : Channel → Channel → Prop} {ch : Channel}
    (hc : c < n.directory.lobby.channels.size) (hm : ch.mid = (n.channel c).mid)
    (hk : ch.key = (n.channel c).key) (hp : P (n.channel c) ch) :
    n.OnlyChannel c P (n.modifyChannel c fun _ => ch) := by
  have hhere : (n.modifyChannel c fun _ => ch).channel c = ch := modifyChannel_here hc _
  refine ⟨rfl, Nat.le_of_eq (n.modifyChannel_size c _).symm,
    modifyChannel_others (Lobby.NobodyReceives.refl _), (congrArg Channel.mid hhere).trans hm,
    (congrArg Channel.key hhere).trans hk, ?_, rfl, rfl, rfl⟩
  rw [hhere]
  exact hp

theorem OnlyChannel.imp {P Q : Channel → Channel → Prop} (h : n.OnlyChannel c P n')
    (hp : ∀ ch ch', P ch ch' → Q ch ch') : n.OnlyChannel c Q n' :=
  ⟨h.buckets, h.size, h.others, h.mid, h.key, hp _ _ h.here, h.presence, h.online, h.session⟩

theorem OnlyChannel.modify {P Q : Channel → Channel → Prop} (h : n.OnlyChannel c P n')
    (f : Channel → Channel) (hc : c < n.directory.lobby.channels.size)
    (hm : ∀ ch, (f ch).mid = ch.mid) (hk : ∀ ch, (f ch).key = ch.key)
    (hp : ∀ ch ch', P ch ch' → Q ch (f ch')) : n.OnlyChannel c Q (n'.modifyChannel c f) := by
  have hhere := modifyChannel_here (Nat.lt_of_lt_of_le hc h.size) f
  refine ⟨h.buckets, ?_, ?_, ?_, ?_, ?_, h.presence, h.online, h.session⟩
  · rw [modifyChannel_size]
    exact h.size
  · intro d hd hne
    rw [channel_modifyChannel, if_neg fun he => hne he.1]
    exact h.others d hd hne
  · rw [hhere, hm, h.mid]
  · rw [hhere, hk, h.key]
  · rw [hhere]
    exact hp _ _ h.here

theorem dropWriter_quiet (hi : i < n.connections.size) :
    n.QuietLineChange i (fun l => l) (n.dropWriter i) := by
  have hc := close_quiet hi
  exact hc.trans (drop_quiet (hc.size ▸ hi))

theorem failWriter_quiet (hi : i < n.connections.size) (c : Nat) :
    n.QuietLineChange i (fun l => { l with writer := .discarding c }) (n.failWriter i c) := by
  have hd := dropWriter_quiet hi
  exact hd.trans (setWriter_quiet (hd.size ▸ hi) (.discarding c))

theorem finishWriter_lineChange (hi : i < n.connections.size) (c : Nat) :
    n.LineChange i (fun l => { l with writer := .gone }) (n.finishWriter i c) := by
  have hm := n.modifyChannel_lineChange i c fun ch => ch.dropReceiver.release
  exact hm.trans (setWriter_quiet (hm.size ▸ hi) .gone).toLineChange

theorem useWire_cases (hi : i < n.connections.size) {f : Wire → Wire} {next : Writer}
    (h : n.useWire i c f next = some n') :
    n.QuietLineChange i (fun l => { l with writer := .discarding c }) n' ∨
    n' = (n.modifyWire i f).setWriter i next := by
  simp only [useWire] at h
  split_ifs at h
  · cases h
    exact .inl (failWriter_quiet hi c)
  · cases h
    exact .inl (failWriter_quiet hi c)
  · cases h
    exact .inr rfl

theorem received_onlyChannel (hc : c < n.directory.lobby.channels.size) {s : Signal} {ch : Channel}
    (hr : (n.channel c).receive = some (s, ch)) :
    n.OnlyChannel c (Channel.TakesPush s.push?.toList) (n.modifyChannel c fun _ => ch) := by
  obtain ⟨hm, hk, ht⟩ := Channel.receive_takesPush hr
  exact modifyChannel_onlyChannel hc hm hk ht

theorem OnlyChannel.ended {ps : List Frame} (h : n.OnlyChannel c (Channel.TakesPush ps) n')
    (hc : c < n.directory.lobby.channels.size) :
    n.OnlyChannel c Channel.KeepsReplies (n'.modifyChannel c fun ch => ch.dropReceiver.release) :=
  h.modify (fun ch => ch.dropReceiver.release) hc (fun _ => rfl) (fun _ => rfl) fun _ _ ht =>
    ht.inbound

theorem OnlyChannel.cleared {ps : List Frame} (h : n.OnlyChannel c (Channel.TakesPush ps) n')
    (hc : c < n.directory.lobby.channels.size) :
    n.OnlyChannel c (Channel.TakesPush ps) (n'.modifyChannel c Channel.clearWake) :=
  h.modify Channel.clearWake hc (fun _ => rfl) (fun _ => rfl) fun _ _ ht => ⟨ht.inbound, ht.pushes⟩

theorem writerStep_lt (h : n.writerStep i = some n') : i < n.connections.size := by
  by_contra hi
  rw [writerStep, connection_of_le (Nat.not_lt.1 hi)] at h
  cases h

theorem writerStep_writing
    (hc : ∀ c, (n.line i).writer.channel? = some c → c < n.directory.lobby.channels.size)
    (h : n.writerStep i = some n') : n.Writing i n' := by
  have hi := writerStep_lt h
  rw [writerStep] at h
  generalize hw : (n.connection i).writer = w at h
  have hwriter : (n.line i).writer = w := hw
  have hch : (n.line i).writer.channel? = w.channel? := congrArg Writer.channel? hw
  cases w with
  | absent => cases h
  | gone => cases h
  | waiting c =>
    have hlt := hc c hch
    obtain ⟨⟨signal, ch⟩, hr, rfl⟩ := Option.map_eq_some_iff.1 h
    have hturn := n.modifyChannel_lineChange i c fun _ => ch
    have htaken := received_onlyChannel hlt hr
    cases signal with
    | finish =>
      have hgone := htaken.ended hlt
      have hdrop := hturn.trans (dropWriter_quiet (hturn.size ▸ hi)).toLineChange
      exact .ended c .gone hch (.inr rfl)
        (hdrop.trans (finishWriter_lineChange (hdrop.size ▸ hi) c)) (hgone.of_directory rfl rfl rfl)
    | ready =>
      have hclear := hturn.trans (modifyChannel_lineChange _ i c Channel.clearWake)
      exact .woken c hwriter (hclear.trans
        (setWriter_quiet (hclear.size ▸ hi) (.draining c)).toLineChange)
        ((htaken.cleared hlt).of_directory rfl rfl rfl)
    | data f =>
      exact .takesPush c f hwriter
        (hturn.trans (setWriter_quiet (hturn.size ▸ hi) (.writing c (.frame f))).toLineChange)
        (htaken.of_directory rfl rfl rfl)
  | writing c item =>
    rcases useWire_cases hi h with hq | rfl
    · exact .failed c hch hq
    · have hw := write_quiet hi item
      exact .wrote c item hwriter (hw.trans (setWriter_quiet (hw.size ▸ hi) (.draining c)))
  | draining c =>
    have hlt := hc c hch
    dsimp only at h
    split_ifs at h
    · cases h
      exact .failed c hch (failWriter_quiet hi c)
    · cases hp : (n.channel c).popInbound with
      | none =>
        rw [hp] at h
        cases h
        exact .drained c hwriter (setWriter_quiet hi (.flushing c))
      | some popped =>
        rw [hp] at h
        obtain ⟨⟨f, inbound⟩, hpop, rfl⟩ := Option.map_eq_some_iff.1 hp
        cases h
        have hturn := n.modifyChannel_lineChange i c fun _ => { n.channel c with inbound }
        have htouch : n.OnlyChannel c (Channel.PopsReply f)
          (n.modifyChannel c fun _ => { n.channel c with inbound }) :=
          modifyChannel_onlyChannel hlt rfl rfl ⟨hpop, rfl⟩
        exact .popsReply c f (n.onlineOf c) hwriter
          (hturn.trans (setWriter_quiet (hturn.size ▸ hi)
            (.writing c (n.outgoing c f))).toLineChange)
          (htouch.of_directory rfl rfl rfl)
  | flushing c =>
    rcases useWire_cases hi h with hq | rfl
    · exact .failed c hch hq
    · have hw := flush_quiet hi
      exact .flushed c hwriter (hw.trans (setWriter_quiet (hw.size ▸ hi) (.waiting c)))
  | discarding c =>
    have hlt := hc c hch
    obtain ⟨⟨signal, ch⟩, hr, rfl⟩ := Option.map_eq_some_iff.1 h
    have hturn := n.modifyChannel_lineChange i c fun _ => ch
    have htaken := received_onlyChannel hlt hr
    have hsame : n.LineChange i (fun l => { l with writer := .discarding c })
      (n.modifyChannel c fun _ => ch) :=
      ⟨hturn.size, hturn.here.trans (by rw [← hwriter]), hturn.elsewhere, hturn.serverId,
        hturn.faults⟩
    cases signal with
    | finish =>
      exact .ended c .gone hch (.inr rfl)
        (hturn.trans (finishWriter_lineChange (hturn.size ▸ hi) c))
        ((htaken.ended hlt).of_directory rfl rfl rfl)
    | ready =>
      exact .ended c (.discarding c) hch (.inl rfl) hsame (htaken.imp fun _ _ ht => ht.inbound)
    | data f =>
      exact .ended c (.discarding c) hch (.inl rfl) hsame (htaken.imp fun _ _ ht => ht.inbound)

theorem QuietLineChange.onlyChannel (h : n.QuietLineChange i g n')
    (hc : c < n.directory.lobby.channels.size) : n.OnlyChannel c (fun _ _ => True) n' :=
  ⟨h.buckets, h.lobby.size, fun d hd _ => h.lobby.channel d hd, (h.lobby.channel c hc).mid,
    (h.lobby.channel c hc).key, trivial, h.presence, h.online, h.session⟩

theorem Writing.writerLineChange (h : n.Writing i n')
    (hlt : ∀ c, (n.line i).writer.channel? = some c → c < n.directory.lobby.channels.size) :
    ∃ c g, n.WriterLineChange i c g n' := by
  have hsome (c d : Nat) (hd : some c = some d) : d = c := (Option.some.inj hd).symm
  have hmine {w : Writer} {c : Nat} (hw : (n.line i).writer = w) (hc : w.channel? = some c) :
      (n.line i).writer.channel? = some c := hw ▸ hc
  cases h with
  | takesPush c f hc ht htouch =>
    exact ⟨c, _, ht, hmine hc rfl, hsome c, rfl, htouch.imp fun _ _ _ => trivial⟩
  | woken c hc ht htouch =>
    exact ⟨c, _, ht, hmine hc rfl, hsome c, rfl, htouch.imp fun _ _ _ => trivial⟩
  | popsReply c f online hc ht htouch =>
    exact ⟨c, _, ht, hmine hc rfl, hsome c, rfl, htouch.imp fun _ _ _ => trivial⟩
  | wrote c item hc hq =>
    exact ⟨c, _, hq.toLineChange, hmine hc rfl, hsome c, rfl, hq.onlyChannel (hlt c (hmine hc rfl))⟩
  | drained c hc hq =>
    exact ⟨c, _, hq.toLineChange, hmine hc rfl, hsome c, rfl, hq.onlyChannel (hlt c (hmine hc rfl))⟩
  | flushed c hc hq =>
    exact ⟨c, _, hq.toLineChange, hmine hc rfl, hsome c, rfl, hq.onlyChannel (hlt c (hmine hc rfl))⟩
  | failed c hc hq => exact ⟨c, _, hq.toLineChange, hc, hsome c, rfl, hq.onlyChannel (hlt c hc)⟩
  | ended c w hc hw ht htouch =>
    refine ⟨c, _, ht, hc, ?_, rfl, htouch.imp fun _ _ _ => trivial⟩
    rintro d hd
    rcases hw with rfl | rfl
    · exact hsome c d hd
    · cases hd

theorem Writing.line (h : n.Writing i n') :
    ∃ w ws k, n'.line i = { n.line i with writer := w, written := ws, flushed := k } := by
  cases h with
  | takesPush c f hc ht htouch => exact ⟨_, _, _, ht.here⟩
  | woken c hc ht htouch => exact ⟨_, _, _, ht.here⟩
  | popsReply c f online hc ht htouch => exact ⟨_, _, _, ht.here⟩
  | wrote c item hc hq => exact ⟨_, _, _, hq.here⟩
  | drained c hc hq => exact ⟨_, _, _, hq.here⟩
  | flushed c hc hq => exact ⟨_, _, _, hq.here⟩
  | failed c hc hq => exact ⟨_, _, _, hq.here⟩
  | ended c w hc hw ht htouch => exact ⟨_, _, _, ht.here⟩

end Node

end PushGateway
