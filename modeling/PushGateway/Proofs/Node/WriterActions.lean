import PushGateway.Proofs.Channel.Order
import PushGateway.Proofs.Node.Writings

/-!
The log of a writing task, in which every step of it leaves one entry, and its runs. Around the task
anything may happen: calls at the outbound queue, replies into the ring, a transport that stalls or
fails, and the close signal, which is never taken back. Nobody else takes signals off the queue or
writes on the transport.
-/

namespace PushGateway

inductive WriterAction
  /-- A signal is off the queue. The place it leaves is handed on, and then the queue holds
  these. -/
  | took (s : Signal) (queue : List Signal)
  | popped (f : Frame)
  | emptied
  | wrote (item : Outgoing)
  | flushed
  /-- A write or a flush has failed, or is refused since the connection is closed. -/
  | failed
  deriving DecidableEq

def WriterAction.signal? : WriterAction → Option Signal
  | .took s _ => some s
  | _ => none

def WriterAction.onWire : List Outgoing × Nat → WriterAction → List Outgoing × Nat
  | w, .wrote item => (w.1 ++ [item], w.2)
  | w, .flushed => (w.1, w.1.length)
  | w, _ => w

def taken (ds : List WriterAction) : List Signal := ds.filterMap WriterAction.signal?

namespace Channel

def Use.isOffer : Use → Bool
  | .deliver _ | .wake | .close => true
  | .clearWake | .receive => false

/-- What a call leaves with the queue, as long as there is a writer. -/
def left (ch : Channel) (u : Use) : List Signal :=
  if ch.outbox.hasReceiver then (ch.use u).1.accepted.toList else []

end Channel

/-- What the writing task works with: its phase, what has passed on the transport, the close signal
and the queue. -/
structure WriterView where
  phase : Writer
  written : List Outgoing
  flushed : Nat
  closed : Bool
  outbox : Outbox

/-- The phases in which the next step uses the transport, or is refused it. -/
def Writer.isAtWork : Writer → Bool
  | .writing .. | .draining _ | .flushing _ => true
  | _ => false

namespace WriterView

inductive Step (c : Nat) (d : WriterView) : WriterAction → WriterView → Prop
  | push {f : Frame} {o : Outbox} : d.phase = .waiting c → d.outbox.take? = some (.data f, o) →
      Step c d (.took (.data f) o.queue) { d with phase := .writing c (.frame f), outbox := o }
  | wake {o : Outbox} : d.phase = .waiting c → d.outbox.take? = some (.ready, o) →
      Step c d (.took .ready o.queue) { d with phase := .draining c, outbox := o }
  | finish {o : Outbox} : d.phase = .waiting c → d.outbox.take? = some (.finish, o) →
      Step c d (.took .finish o.queue) { d with
        phase := .gone, closed := true, outbox := o.dropReceiver }
  | write {item : Outgoing} : d.phase = .writing c item → d.closed = false →
      Step c d (.wrote item) { d with phase := .draining c, written := d.written ++ [item] }
  | pop {f : Frame} {online : Int32} : d.phase = .draining c → d.closed = false →
      Step c d (.popped f) { d with phase := .writing c (.reply f online) }
  | empty : d.phase = .draining c → d.closed = false →
      Step c d .emptied { d with phase := .flushing c }
  | flush : d.phase = .flushing c → d.closed = false →
      Step c d .flushed { d with phase := .waiting c, flushed := d.written.length }
  | fail : d.phase.isAtWork → d.phase.channel? = some c →
      Step c d .failed { d with phase := .discarding c, closed := true }
  | discard {s : Signal} {o : Outbox} : d.phase = .discarding c → d.outbox.take? = some (s, o) →
      s ≠ .finish → Step c d (.took s o.queue) { d with outbox := o }
  | finishLate {o : Outbox} : d.phase = .discarding c → d.outbox.take? = some (.finish, o) →
      Step c d (.took .finish o.queue) { d with phase := .gone, outbox := o.dropReceiver }

variable {c : Nat} {d d' : WriterView} {action : WriterAction}

theorem Step.phase_ne_gone (h : d.Step c action d') : d.phase ≠ .gone := by
  intro hg
  cases h with
  | fail ha =>
    rw [hg] at ha
    cases ha
  | _ hp => cases hg.symm.trans hp

theorem Step.of_discarding (h : d.Step c action d') (hd : d.phase = .discarding c) :
    ∃ s o, d.outbox.take? = some (s, o) ∧ action = .took s o.queue ∧ d'.closed = d.closed ∧
      (s ≠ .finish ∧ d'.phase = .discarding c ∧ d'.outbox = o ∨ s = .finish ∧
      d'.phase = .gone) := by
  cases h with
  | discard _ ht hs => exact ⟨_, _, ht, rfl, rfl, .inl ⟨hs, hd, rfl⟩⟩
  | finishLate _ ht => exact ⟨_, _, ht, rfl, rfl, .inr ⟨rfl, rfl⟩⟩
  | fail ha =>
    rw [hd] at ha
    cases ha
  | _ hp => cases hd.symm.trans hp

theorem Step.outbox (h : d.Step c action d') :
    action.signal? = none ∧ d'.outbox = d.outbox ∧ d'.phase ≠ .gone ∨
    ∃ s o, d.outbox.take? = some (s, o) ∧ action = .took s o.queue ∧
      (s ≠ .finish ∧ d'.outbox = o ∧ d'.phase ≠ .gone ∨
        s = .finish ∧ d'.outbox = o.dropReceiver ∧ d'.phase = .gone) := by
  cases h with
  | push _ ht => exact .inr ⟨_, _, ht, rfl, .inl ⟨nofun, rfl, nofun⟩⟩
  | wake _ ht => exact .inr ⟨_, _, ht, rfl, .inl ⟨nofun, rfl, nofun⟩⟩
  | finish _ ht => exact .inr ⟨_, _, ht, rfl, .inr ⟨rfl, rfl, rfl⟩⟩
  | discard hp ht hs => exact .inr ⟨_, _, ht, rfl, .inl ⟨hs, rfl, hp ▸ nofun⟩⟩
  | finishLate _ ht => exact .inr ⟨_, _, ht, rfl, .inr ⟨rfl, rfl, rfl⟩⟩
  | _ => exact .inl ⟨rfl, rfl, nofun⟩

theorem Step.onWire (h : d.Step c action d') : (d'.written, d'.flushed) = action.onWire
    (d.written, d.flushed) := by
  cases h <;> rfl

end WriterView

namespace Node

def refusesUse (n : Node) (i : Nat) : Bool :=
  (n.connection i).closed || (n.connection i).wire.failing

def writerAction? (n : Node) (i : Nat) : Option WriterAction :=
  match (n.connection i).writer with
  | .absent | .gone => none
  | .waiting c | .discarding c => (n.channel c).outbox.take?.map fun (s, o) => .took s o.queue
  | .writing _ item => some (if n.refusesUse i then .failed else .wrote item)
  | .draining c =>
    if (n.connection i).closed then some .failed
    else match (n.channel c).inbound.pop? with
      | none => some .emptied
      | some (f, _) => some (.popped f)
  | .flushing _ => some (if n.refusesUse i then .failed else .flushed)

def writerView (n : Node) (i c : Nat) : WriterView :=
  ⟨(n.line i).writer, (n.line i).written, (n.line i).flushed, (n.connection i).closed,
    (n.channel c).outbox⟩

variable {n n' : Node} {i c : Nat}

theorem writerView_modifyConnection (hi : i < n.connections.size) (f : Connection → Connection) :
    (n.modifyConnection i f).writerView i c =
      ⟨(f (n.connection i)).writer, (f (n.connection i)).wire.written,
      (f (n.connection i)).wire.flushed,
        (f (n.connection i)).closed, (n.channel c).outbox⟩ := by
  have hc : (n.modifyConnection i f).connection i = f (n.connection i) := by
    rw [connection_modifyConnection, if_pos ⟨rfl, hi⟩]
  rw [writerView, line, hc]
  rfl

theorem writerView_modifyChannel (hc : c < n.directory.lobby.channels.size)
    (f : Channel → Channel) :
    (n.modifyChannel c f).writerView i c =
      { n.writerView i c with outbox := (f (n.channel c)).outbox } := by
  rw [writerView, modifyChannel_here hc]
  rfl

theorem writerView_setWriter (hi : i < n.connections.size) (w : Writer) :
    (n.setWriter i w).writerView i c = { n.writerView i c with phase := w } :=
      writerView_modifyConnection hi _

theorem writerView_dropWriter (hi : i < n.connections.size) :
    (n.dropWriter i).writerView i c = { n.writerView i c with closed := true } := by
  have hclose : i < (n.close i).connections.size := Nat.lt_of_lt_of_eq hi Array.size_modify.symm
  rw [dropWriter, modifyWire, writerView_modifyConnection hclose, close,
    connection_modifyConnection,
    if_pos ⟨rfl, hi⟩]
  rfl

theorem writerView_failWriter (hi : i < n.connections.size) :
    (n.failWriter i c).writerView i c = { n.writerView i c with
      phase := .discarding c, closed := true } := by
  have hdrop : i < (n.dropWriter i).connections.size := (dropWriter_quiet hi).size ▸ hi
  rw [failWriter, writerView_setWriter hdrop, writerView_dropWriter hi]

theorem writerView_finishWriter (hi : i < n.connections.size)
    (hc : c < n.directory.lobby.channels.size) :
    (n.finishWriter i c).writerView i c =
      { n.writerView i c with
        phase := .gone, outbox := (n.writerView i c).outbox.dropReceiver } := by
  rw [finishWriter, writerView_setWriter (n := n.modifyChannel c _) hi, writerView_modifyChannel hc]
  rfl

theorem useWire_writerView (hi : i < n.connections.size) {f : Wire → Wire} {next : Writer}
    (h : n.useWire i c f next = some n') :
    n.refusesUse i = true ∧ n'.writerView i c = { n.writerView i c with
      phase := .discarding c, closed := true } ∨
      n.refusesUse i = false ∧ (n.connection i).closed = false ∧
      n'.writerView i c = { n.writerView i c with
        phase := next
        written := (f (n.connection i).wire).written
        flushed := (f (n.connection i).wire).flushed } := by
  simp only [useWire] at h
  split_ifs at h with hclosed _ hfailing
  · cases h
    exact .inl ⟨by simp [refusesUse, hclosed], writerView_failWriter hi⟩
  · cases h
    exact .inl ⟨by simp [refusesUse, hfailing], writerView_failWriter hi⟩
  · cases h
    refine .inr ⟨by simp [refusesUse, hclosed, hfailing], Bool.eq_false_iff.2 hclosed, ?_⟩
    rw [writerView_setWriter (n := n.modifyWire i f) (Nat.lt_of_lt_of_eq hi Array.size_modify.symm),
      modifyWire, writerView_modifyConnection hi]
    rfl

theorem take?_of_receive {ch ch' : Channel} {s : Signal} (h : ch.receive = some (s, ch')) :
    ch.outbox.take? = some (s, ch'.outbox) := by
  obtain ⟨⟨s', o⟩, ht, he⟩ := Option.map_eq_some_iff.1 h
  cases he
  exact ht

theorem writerAction_took {s : Signal} {o : Outbox}
    (ht : (n.channel c).outbox.take? = some (s, o)) :
    ((n.channel c).outbox.take?.map fun (s, o) => WriterAction.took s o.queue) =
      some (.took s o.queue) := by
  rw [ht]
  rfl

/-- Every step of the task is an entry in its log, and does just that. -/
theorem writerStep_step (hc : c < n.directory.lobby.channels.size)
    (hw : (n.line i).writer.channel? = some c) (h : n.writerStep i = some n') :
    ∃ d, n.writerAction? i = some d ∧
    (n.writerView i c).Step c d (n'.writerView i c) := by
  have hi := writerStep_lt h
  have hphase : (n.writerView i c).phase = (n.connection i).writer := rfl
  have hchannel : (n.connection i).writer.channel? = some c := hw
  rw [writerStep] at h
  unfold writerAction?
  generalize (n.connection i).writer = w at h hphase hchannel ⊢
  cases w with
  | absent => cases h
  | gone => cases h
  | waiting c' =>
    cases hchannel
    obtain ⟨⟨signal, ch⟩, hr, rfl⟩ := Option.map_eq_some_iff.1 h
    have ht := take?_of_receive hr
    refine ⟨.took signal ch.outbox.queue, writerAction_took ht, ?_⟩
    have hview := writerView_modifyChannel (i := i) hc fun _ => ch
    dsimp only at hview ⊢
    generalize hm : (n.modifyChannel c fun _ => ch) = m at hview ⊢
    have hmi : i < m.connections.size := hm ▸ hi
    have hmc : c < m.directory.lobby.channels.size :=
      hm ▸ Nat.lt_of_lt_of_eq hc (n.modifyChannel_size c _).symm
    cases signal with
    | finish =>
      have hdrop : i < (m.dropWriter i).connections.size := (dropWriter_quiet hmi).size ▸ hmi
      rw [writerView_finishWriter hdrop hmc, writerView_dropWriter hmi, hview]
      exact .finish hphase ht
    | ready =>
      have hclear : (m.modifyChannel c Channel.clearWake).writerView i c = m.writerView i c :=
        writerView_modifyChannel hmc _
      rw [writerView_setWriter (n := m.modifyChannel c _) hmi, hclear, hview]
      exact .wake hphase ht
    | data f =>
      rw [writerView_setWriter hmi, hview]
      exact .push hphase ht
  | writing c' item =>
    cases hchannel
    obtain ⟨hr, hd⟩ | ⟨hr, hclosed, hd⟩ := useWire_writerView hi h
    · exact ⟨.failed, by simp [hr], hd ▸ .fail (hphase ▸ rfl) hw⟩
    · exact ⟨.wrote item, by simp [hr], hd ▸ .write hphase hclosed⟩
  | draining c' =>
    cases hchannel
    dsimp only at h ⊢
    split_ifs at h with hclosed
    · cases h
      exact ⟨.failed, if_pos hclosed, writerView_failWriter (c := c) hi ▸ .fail (hphase ▸ rfl) hw⟩
    · rw [if_neg hclosed]
      have hopen : (n.writerView i c).closed = false := Bool.eq_false_iff.2 hclosed
      cases hp : (n.channel c).inbound.pop? with
      | none =>
        have hnone : (n.channel c).popInbound = none := Option.map_eq_none_iff.2 hp
        rw [hnone] at h
        cases h
        exact ⟨.emptied, rfl, writerView_setWriter (c := c) hi _ ▸ .empty hphase hopen⟩
      | some popped =>
        obtain ⟨f, inbound⟩ := popped
        have hsome : (n.channel c).popInbound = some (f, { n.channel c with inbound }) :=
          Option.map_eq_some_iff.2 ⟨(f, inbound), hp, rfl⟩
        rw [hsome] at h
        cases h
        refine ⟨.popped f, rfl, ?_⟩
        rw [writerView_setWriter (n := n.modifyChannel c _) hi, writerView_modifyChannel hc]
        exact .pop hphase hopen
  | flushing c' =>
    cases hchannel
    obtain ⟨hr, hd⟩ | ⟨hr, hclosed, hd⟩ := useWire_writerView hi h
    · exact ⟨.failed, by simp [hr], hd ▸ .fail (hphase ▸ rfl) hw⟩
    · exact ⟨.flushed, by simp [hr], hd ▸ .flush hphase hclosed⟩
  | discarding c' =>
    cases hchannel
    obtain ⟨⟨signal, ch⟩, hr, rfl⟩ := Option.map_eq_some_iff.1 h
    have ht := take?_of_receive hr
    refine ⟨.took signal ch.outbox.queue, writerAction_took ht, ?_⟩
    have hview := writerView_modifyChannel (i := i) hc fun _ => ch
    dsimp only at hview ⊢
    generalize hm : (n.modifyChannel c fun _ => ch) = m at hview ⊢
    have hmi : i < m.connections.size := hm ▸ hi
    have hmc : c < m.directory.lobby.channels.size :=
      hm ▸ Nat.lt_of_lt_of_eq hc (n.modifyChannel_size c _).symm
    cases signal with
    | finish =>
      rw [writerView_finishWriter hmi hmc, hview]
      exact .finishLate hphase ht
    | ready => exact hview ▸ .discard hphase ht (by decide)
    | data f => exact hview ▸ .discard hphase ht (by simp)

/-- Something has happened that is neither a step of the writing task of connection `i` nor a call
at the queue of its channel `c`. The close signal may have been given. -/
structure WriterUntouched (n : Node) (i c : Nat) (n' : Node) : Prop where
  channels : n.directory.lobby.channels.size ≤ n'.directory.lobby.channels.size
  writerView : ∃ closed, n'.writerView i c = { n.writerView i c with closed } ∧
    ((n.writerView i c).closed → closed)

theorem modifyWire_writerUntouched (hi : i < n.connections.size) {f : Wire → Wire}
    (hw : ∀ w, (f w).written = w.written) (hf : ∀ w, (f w).flushed = w.flushed) :
    n.WriterUntouched i c (n.modifyWire i f) := by
  refine ⟨Nat.le_refl _, (n.connection i).closed, ?_, id⟩
  rw [modifyWire, writerView_modifyConnection hi, hw, hf]
  rfl

/-- A run of the writing task, with what the calls have left with its queue and with its log. -/
inductive WriterRun (start : Node) (i c : Nat) : List Signal → List WriterAction → Node → Prop
  | start : WriterRun start i c [] [] start
  | writerUntouched {asked : List Signal} {ds : List WriterAction} {n n' : Node} :
      WriterRun start i c asked ds n → n.WriterUntouched i c n' → WriterRun start i c asked ds n'
  | call {asked : List Signal} {ds : List WriterAction} {n : Node} (u : Channel.Use) :
      WriterRun start i c asked ds n → u.isOffer →
      WriterRun start i c (asked ++ (n.channel c).left u) ds
        (n.modifyChannel c fun ch => (ch.use u).2)
  | step {asked : List Signal} {ds : List WriterAction} {n n' : Node} :
      WriterRun start i c asked ds n → n.writerStep i = some n' →
      WriterRun start i c asked (ds ++ (n.writerAction? i).toList) n'

theorem writerStep_size (hc : c < n.directory.lobby.channels.size)
    (hw : (n.line i).writer.channel? = some c) (h : n.writerStep i = some n') :
    n.directory.lobby.channels.size ≤ n'.directory.lobby.channels.size := by
  have hlt : ∀ d, (n.line i).writer.channel? = some d → d < n.directory.lobby.channels.size :=
    fun d hd =>
    Option.some.inj (hw.symm.trans hd) ▸ hc
  obtain ⟨_, _, hturn⟩ := (writerStep_writing hlt h).writerLineChange hlt
  exact hturn.onlyChannel.size

end Node

end PushGateway
