import PushGateway.Proofs.Node.WriterActions

/-!
The writing task takes signals up to the first request to finish, whatever becomes of the transport.
Until it fails it works in rounds: a push is written, then the replies in the ring, and then it
flushes. From the first failure on it only takes signals, so that a place in the queue is never
waited for in vain.
-/

namespace PushGateway

def upToFinish : List Signal → List Signal
  | [] => []
  | .finish :: _ => [.finish]
  | s :: ss => s :: upToFinish ss

theorem upToFinish_cons {s : Signal} (hs : s ≠ .finish) (ss : List Signal) :
    upToFinish (s :: ss) = s :: upToFinish ss := by
  cases s with
  | finish => exact absurd rfl hs
  | _ => rfl

theorem upToFinish_append {ss : List Signal} (hs : .finish ∉ ss) (rest : List Signal) :
    upToFinish (ss ++ rest) = ss ++ upToFinish rest := by
  induction ss with
  | nil => rfl
  | cons s ss ih =>
    rw [List.mem_cons, not_or] at hs
    rw [List.cons_append, upToFinish_cons (Ne.symm hs.1), ih hs.2, List.cons_append]

theorem taken_append (ds ds' : List WriterAction) : taken (ds ++ ds') = taken ds ++ taken ds' :=
  List.filterMap_append

/-! Rounds -/

/-- Replies that were written one after another, each with the number of clients it may show. -/
def WriterAction.batch (rs : List (Frame × Int32)) : List WriterAction :=
  rs.flatMap fun r => [.popped r.1, .wrote (.reply r.1 r.2)]

inductive RoundStart : Signal → List WriterAction → Prop
  | push (f : Frame) (queue : List Signal) :
      RoundStart (.data f) [.took (.data f) queue, .wrote (.frame f)]
  | wake (queue : List Signal) : RoundStart .ready [.took .ready queue]

/-- What the task does on one signal: after the opening it writes the replies in the ring, and
flushes. -/
def Round (s : Signal) (ds : List WriterAction) : Prop :=
  ∃ opening rs, RoundStart s opening ∧ ds = opening ++ WriterAction.batch rs ++ [.emptied, .flushed]

inductive RoundPrefix (c : Nat) : Signal → List WriterAction → Writer → Prop
  | pushing (f : Frame) (queue : List Signal) :
      RoundPrefix c (.data f) [.took (.data f) queue] (.writing c (.frame f))
  | draining {s : Signal} {opening : List WriterAction} (rs : List (Frame × Int32)) :
      RoundStart s opening → RoundPrefix c s (opening ++ WriterAction.batch rs) (.draining c)
  | replying {s : Signal} {opening : List WriterAction} (rs : List (Frame × Int32)) (f : Frame)
      (online : Int32) :
      RoundStart s opening → RoundPrefix c s (opening ++ WriterAction.batch rs ++ [.popped f])
        (.writing c (.reply f online))
  | flushing {s : Signal} {opening : List WriterAction} (rs : List (Frame × Int32)) :
      RoundStart s opening → RoundPrefix c s (opening ++ WriterAction.batch rs ++ [.emptied])
      (.flushing c)

/-- The log and the phase of a task that has neither failed nor ended: whole rounds, and perhaps a
part of one. -/
inductive WorkingLog (c : Nat) : List WriterAction → Writer → Prop
  | between {ss : List Signal} {rounds : List (List WriterAction)} : List.Forall₂ Round ss rounds →
      WorkingLog c rounds.flatten (.waiting c)
  | within {ss : List Signal} {rounds : List (List WriterAction)} {s : Signal}
      {part : List WriterAction} {w : Writer} :
      List.Forall₂ Round ss rounds → RoundPrefix c s part w →
      WorkingLog c (rounds.flatten ++ part) w

theorem WriterAction.batch_concat (rs : List (Frame × Int32)) (f : Frame) (online : Int32) :
    WriterAction.batch (rs ++ [(f, online)]) = WriterAction.batch rs ++ [.popped f] ++
      [.wrote (.reply f online)] := by
  simp [WriterAction.batch]

variable {c : Nat} {ds : List WriterAction} {d d' : WriterView} {action : WriterAction}

theorem WorkingLog.step (h : WorkingLog c ds d.phase) (hd : d.Step c action d')
    (hf : action ≠ .failed) (hg : d'.phase ≠ .gone) : WorkingLog c (ds ++ [action]) d'.phase := by
  cases hd with
  | push hp =>
    rw [hp] at h
    cases h with
    | between hr => exact .within hr (.pushing _ _)
    | within hr hb => cases hb
  | wake hp =>
    rw [hp] at h
    cases h with
    | between hr => exact .within hr (.draining [] (.wake _))
    | within hr hb => cases hb
  | finish => exact absurd rfl hg
  | write hp =>
    rw [hp] at h
    cases h with
    | within hr hb =>
      rw [List.append_assoc]
      cases hb with
      | pushing f queue => exact .within hr (.draining [] (.push f queue))
      | replying rs f online ho =>
        have hb := RoundPrefix.draining (c := c) (rs ++ [(f, online)]) ho
        rw [WriterAction.batch_concat, ← List.append_assoc, ← List.append_assoc] at hb
        exact .within hr hb
  | @pop f online hp =>
    rw [hp] at h
    cases h with
    | within hr hb =>
      rw [List.append_assoc]
      cases hb with
      | draining rs ho => exact .within hr (.replying rs f online ho)
  | empty hp =>
    rw [hp] at h
    cases h with
    | within hr hb =>
      rw [List.append_assoc]
      cases hb with
      | draining rs ho => exact .within hr (.flushing rs ho)
  | flush hp =>
    rw [hp] at h
    cases h with
    | @within ss rounds s _ _ hr hb =>
      cases hb with
      | @flushing _ opening rs ho =>
        have hround : Round s (opening ++ WriterAction.batch rs ++ [.emptied, .flushed]) :=
          ⟨opening, rs, ho, rfl⟩
        have hb := WorkingLog.between (c := c) (List.rel_append hr (.cons hround .nil))
        simpa using hb
  | fail => exact absurd rfl hf
  | discard hp =>
    rw [hp] at h
    cases h with
    | within hr hb => cases hb
  | finishLate => exact absurd rfl hg

/-! What the log of a task at work shows -/

theorem taken_batch (rs : List (Frame × Int32)) : taken (WriterAction.batch rs) = [] := by
  induction rs with
  | nil => rfl
  | cons r rs ih => exact ih

theorem failed_notMem_batch (rs : List (Frame × Int32)) : .failed ∉ WriterAction.batch rs := by
  simp [WriterAction.batch]

def Takes (s : Signal) (ds : List WriterAction) : Prop :=
  taken ds = [s] ∧ s ≠ .finish ∧ .failed ∉ ds

variable {s : Signal} {ss : List Signal} {rounds : List (List WriterAction)} {w : Writer}
    {closed : Bool}

theorem Takes.append (h : Takes s ds) {ds' : List WriterAction} (ht : taken ds' = [])
    (hf : .failed ∉ ds') : Takes s (ds ++ ds') := by
  refine ⟨?_, h.2.1, ?_⟩
  · rw [taken_append, h.1, ht, List.append_nil]
  · rw [List.mem_append, not_or]
    exact ⟨h.2.2, hf⟩

theorem RoundStart.takes {opening : List WriterAction} (h : RoundStart s opening) :
    Takes s opening := by
  cases h with
  | push f queue => exact ⟨rfl, nofun, by simp⟩
  | wake queue => exact ⟨rfl, nofun, by simp⟩

theorem RoundStart.takes_batch {opening : List WriterAction} (h : RoundStart s opening)
    (rs : List (Frame × Int32)) : Takes s (opening ++ WriterAction.batch rs) :=
  h.takes.append (taken_batch rs) (failed_notMem_batch rs)

theorem Round.takes (h : Round s ds) : Takes s ds := by
  obtain ⟨opening, rs, ho, rfl⟩ := h
  exact (ho.takes_batch rs).append rfl (by simp)

theorem RoundPrefix.takes (h : RoundPrefix c s ds w) : Takes s ds := by
  cases h with
  | pushing f queue => exact ⟨rfl, nofun, by simp⟩
  | draining rs ho => exact ho.takes_batch rs
  | replying rs f online ho => exact (ho.takes_batch rs).append rfl (by simp)
  | flushing rs ho => exact (ho.takes_batch rs).append rfl (by simp)

theorem rounds_take (h : List.Forall₂ Round ss rounds) :
    taken rounds.flatten = ss ∧ .finish ∉ ss ∧ .failed ∉ rounds.flatten := by
  induction h with
  | nil => exact ⟨rfl, List.not_mem_nil, List.not_mem_nil⟩
  | cons hr _ ih =>
    obtain ⟨ht, hs, hf⟩ := hr.takes
    obtain ⟨hts, hss, hfs⟩ := ih
    rw [List.flatten_cons, taken_append, ht, hts]
    exact ⟨rfl, by simp [Ne.symm hs, hss], by simp [hf, hfs]⟩

theorem WorkingLog.takes (h : WorkingLog c ds w) : .finish ∉ taken ds ∧ .failed ∉ ds := by
  cases h with
  | between hr =>
    obtain ⟨ht, hs, hf⟩ := rounds_take hr
    exact ⟨ht ▸ hs, hf⟩
  | within hr hb =>
    obtain ⟨ht, hs, hf⟩ := rounds_take hr
    obtain ⟨htb, hsb, hfb⟩ := hb.takes
    rw [taken_append, ht, htb]
    exact ⟨by simp [hs, Ne.symm hsb], by simp [hf, hfb]⟩

theorem WorkingLog.phase (h : WorkingLog c ds w) : w ≠ .gone ∧ ∀ c', w ≠ .discarding c' := by
  cases h with
  | between => exact ⟨nofun, nofun⟩
  | within _ hb => cases hb <;> exact ⟨nofun, nofun⟩

/-! Failure and end -/

inductive WriterLog (c : Nat) : List WriterAction → Writer → Bool → Prop
  | working {ds : List WriterAction} {w : Writer} {closed : Bool} : WorkingLog c ds w →
      WriterLog c ds w closed
  | failed {ds late : List WriterAction} {w : Writer} : WorkingLog c ds w →
      (∀ d ∈ late, ∃ s queue, d = .took s queue ∧ s ≠ .finish) →
      WriterLog c (ds ++ .failed :: late) (.discarding c) true
  | ended {ds : List WriterAction} {w : Writer} {closed : Bool} (queue : List Signal) :
      WriterLog c ds w closed → w = .waiting c ∨ w = .discarding c →
      WriterLog c (ds ++ [.took .finish queue]) .gone true

theorem WriterLog.step (h : WriterLog c ds d.phase d.closed) (hd : d.Step c action d') :
    WriterLog c (ds ++ [action]) d'.phase d'.closed := by
  generalize hp : d.phase = w at h
  generalize hb : d.closed = closed at h
  cases h with
  | working hw =>
    subst hp
    by_cases hf : action = .failed
    · subst hf
      cases hd
      exact .failed hw nofun
    · by_cases hg : d'.phase = .gone
      · cases hd with
        | finish hp =>
          have hs : WriterLog c ds d.phase closed := .working hw
          exact .ended _ hs (.inl hp)
        | finishLate hp => exact absurd hp (hw.phase.2 c)
        | discard => exact absurd hg hw.phase.1
        | _ => cases hg
      · exact .working (hw.step hd hf hg)
  | failed hw hl =>
    obtain ⟨s, o, -, rfl, hc, ⟨hs, hp', -⟩ | ⟨rfl, hp'⟩⟩ := hd.of_discarding hp
    · rw [hp', hc, hb, List.append_assoc, List.cons_append]
      refine .failed hw fun d hd => ?_
      obtain hd | hd := List.mem_append.1 hd
      · exact hl d hd
      · exact ⟨s, o.queue, List.mem_singleton.1 hd, hs⟩
    · rw [hp', hc, hb]
      exact .ended o.queue (.failed hw hl) (.inr rfl)
  | ended => exact absurd hp hd.phase_ne_gone

theorem WriterLog.shut (h : WriterLog c ds w closed) {closed' : Bool} (hc : closed → closed') :
    WriterLog c ds w closed' := by
  cases h with
  | working hw => exact .working hw
  | failed hw hl =>
    rw [hc rfl]
    exact .failed hw hl
  | ended queue hs hw =>
    rw [hc rfl]
    exact .ended queue hs hw

theorem finish_notMem_late {late : List WriterAction}
    (hl : ∀ d ∈ late, ∃ s queue, d = .took s queue ∧ s ≠ .finish) :
    .finish ∉ taken (.failed :: late) := by
  intro hf
  obtain ⟨d, hd, hs⟩ := List.mem_filterMap.1 hf
  obtain rfl | hd := List.mem_cons.1 hd
  · cases hs
  · obtain ⟨s, queue, rfl, hne⟩ := hl d hd
    exact hne (Option.some.inj hs)

theorem WriterLog.channel? (h : WriterLog c ds w closed) (hg : w ≠ .gone) :
    w.channel? = some c := by
  cases h with
  | working hw =>
    cases hw with
    | between => rfl
    | within _ hb => cases hb <;> rfl
  | failed => rfl
  | ended => exact absurd rfl hg

theorem WriterLog.finish_mem_iff (h : WriterLog c ds w closed) : .finish ∈ taken ds ↔
    w = .gone := by
  cases h with
  | working hw => exact ⟨fun hf => absurd hf hw.takes.1, fun hg => absurd hg hw.phase.1⟩
  | failed hw hl =>
    refine ⟨fun hf => ?_, nofun⟩
    rw [taken_append] at hf
    exact absurd (List.mem_append.1 hf) (not_or.2 ⟨hw.takes.1, finish_notMem_late hl⟩)
  | ended queue =>
    rw [taken_append]
    exact ⟨fun _ => rfl, fun _ => List.mem_append_right _ List.mem_cons_self⟩

theorem WriterLog.taken_eq (h : WriterLog c ds w closed) (hg : w = .gone) :
    ∃ ss, taken ds = ss ++ [.finish] ∧ .finish ∉ ss := by
  cases h with
  | working hw => exact absurd hg hw.phase.1
  | failed => cases hg
  | @ended ds _ _ queue hs hw =>
    refine ⟨taken ds, taken_append .., fun hf => ?_⟩
    rw [hs.finish_mem_iff.1 hf] at hw
    obtain hw | hw := hw <;> cases hw

/-- Behind the first failure there are takings only. -/
theorem WriterLog.silent (h : WriterLog c ds w closed) (hf : .failed ∈ ds) :
    closed = true ∧ ∃ before after, ds = before ++ .failed :: after ∧ .failed ∉ before ∧
      ∀ d ∈ after, ∃ s queue, d = .took s queue := by
  induction h with
  | working hw => exact absurd hf hw.takes.2
  | @failed ds late w hw hl =>
    refine ⟨rfl, ds, late, rfl, hw.takes.2, fun d hd => ?_⟩
    obtain ⟨s, queue, hs, -⟩ := hl d hd
    exact ⟨s, queue, hs⟩
  | ended queue hs hw ih =>
    obtain hf | hf := List.mem_append.1 hf
    · obtain ⟨-, before, after, rfl, hb, ha⟩ := ih hf
      refine ⟨rfl, before, after ++ [.took .finish queue], by simp, hb, fun d hd => ?_⟩
      obtain hd | hd := List.mem_append.1 hd
      · exact ha d hd
      · exact ⟨_, _, List.mem_singleton.1 hd⟩
    · cases List.mem_singleton.1 hf

theorem WriterLog.discarding (h : WriterLog c ds w closed) (hf : .failed ∈ ds) (hg : w ≠ .gone) :
    w = .discarding c := by
  cases h with
  | working hw => exact absurd hf hw.takes.2
  | failed => rfl
  | ended => exact absurd rfl hg

/-- A task that ends without a failure has worked in rounds. -/
theorem WriterLog.in_rounds (h : WriterLog c ds w closed) (hg : w = .gone) (hf : .failed ∉ ds) :
    ∃ ss rounds queue, List.Forall₂ Round ss rounds ∧
      ds = rounds.flatten ++ [.took .finish queue] := by
  cases h with
  | working hw => exact absurd hg hw.phase.1
  | failed => cases hg
  | ended queue hs hw =>
    cases hs with
    | working hwork =>
      obtain rfl | rfl := hw
      · cases hwork with
        | between hr => exact ⟨_, _, queue, hr, rfl⟩
        | within _ hb => cases hb
      · exact absurd rfl (hwork.phase.2 c)
    | failed => exact absurd (by simp) hf
    | ended => simp at hw

/-! The queue -/

/-- What has come in, in the order of the calls, is what was taken and what is still owed. A task
that has ended has let go of the rest, of which the next ones had their places. -/
inductive SignalsAccounted (signals : List Signal) (size : Nat) (ds : List WriterAction)
    (d : WriterView) : Prop
  | receiving : d.phase ≠ .gone → d.outbox.FullWhileWaiting size →
      signals = taken ds ++ d.outbox.owed → SignalsAccounted signals size ds d
  | abandoned {earlier : List WriterAction} {rest : List Signal} : d.phase = .gone →
      d.outbox.hasReceiver = false → d.outbox.owed = [] →
      ds = earlier ++ [.took .finish (rest.take size)] → signals = taken ds ++ rest →
      SignalsAccounted signals size ds d

variable {signals : List Signal} {size : Nat}

theorem SignalsAccounted.step (h : SignalsAccounted signals size ds d) (hd : d.Step c action d') :
    SignalsAccounted signals size (ds ++ [action]) d' := by
  cases h with
  | abandoned hg => exact absurd hg hd.phase_ne_gone
  | receiving _ ht hs =>
    obtain ⟨hn, ho, hp⟩ | ⟨s, o, htake, rfl, ⟨hne, ho, hp⟩ | ⟨rfl, ho, hp⟩⟩ := hd.outbox
    · have htaken : taken (ds ++ [action]) = taken ds := by
        rw [taken_append]
        simp [taken, hn]
      exact .receiving hp (ho ▸ ht) (by rw [htaken, ho, hs])
    · obtain ⟨ht', howed⟩ := ht.take? htake
      refine .receiving hp (ho ▸ ht') ?_
      rw [hs, howed, ho, taken_append, List.append_assoc]
      rfl
    · obtain ⟨ht', howed⟩ := ht.take? htake
      have hr : d'.outbox.hasReceiver = false := by
        rw [ho]
        rfl
      have hnil : d'.outbox.owed = [] := by
        rw [ho]
        rfl
      have hlast : ds ++ [.took .finish o.queue] = ds ++ [.took .finish (o.owed.take size)] := by
        rw [ht'.queue_eq]
      refine .abandoned hp hr hnil hlast ?_
      rw [hs, howed, taken_append, List.append_assoc]
      rfl

theorem SignalsAccounted.shut (h : SignalsAccounted signals size ds d) (closed : Bool) :
    SignalsAccounted signals size ds { d with closed } := by
  cases h with
  | receiving hg ht hs => exact .receiving hg ht hs
  | abandoned hg hr ho hds hs => exact .abandoned hg hr ho hds hs

theorem SignalsAccounted.fullWhileWaiting (h : SignalsAccounted signals size ds d)
    (hg : d.phase ≠ .gone) : d.outbox.FullWhileWaiting size := by
  cases h with
  | receiving _ ht => exact ht
  | abandoned hg' => exact absurd hg' hg

theorem offer_outbox {ch : Channel} {u : Channel.Use} (hu : u.isOffer)
    (ht : ch.outbox.FullWhileWaiting size) :
    (ch.use u).2.outbox.FullWhileWaiting size ∧
      (ch.use u).2.outbox.owed = ch.outbox.owed ++ ch.left u := by
  have hleft : ch.left u = (ch.use u).1.accepted.toList := if_pos ht.hasReceiver
  have hnone : (ch.use u).1.received? = none := by
    cases u with
    | clearWake => cases hu
    | receive => cases hu
    | _ => rfl
  obtain ⟨ht', howed⟩ := Channel.use_owed ht u
  refine ⟨ht', ?_⟩
  rw [hleft, howed, hnone]
  rfl

theorem offer_gone {ch : Channel} {u : Channel.Use} (hu : u.isOffer)
    (hr : ch.outbox.hasReceiver = false) : ch.left u = [] ∧ (ch.use u).2.outbox = ch.outbox := by
  refine ⟨if_neg (by simp [hr]), ?_⟩
  have hnone (s : Signal) : ch.outbox.offer? s = none := by simp [Outbox.offer?, hr]
  cases u with
  | deliver f =>
    dsimp only [Channel.use, Channel.deliver]
    rw [hnone]
  | wake =>
    dsimp only [Channel.use, Channel.wake]
    rw [hnone, ite_self]
  | close =>
    dsimp only [Channel.use, Channel.close, Outbox.finish]
    rw [hr]
    rfl
  | clearWake => cases hu
  | receive => cases hu

theorem SignalsAccounted.call (h : SignalsAccounted signals size ds d) {ch : Channel}
    (hch : ch.outbox = d.outbox) {u : Channel.Use} (hu : u.isOffer) :
    SignalsAccounted (signals ++ ch.left u) size ds { d with outbox := (ch.use u).2.outbox } := by
  cases h with
  | abandoned hg hr ho hds hs =>
    obtain ⟨hl, hout⟩ := offer_gone hu (hch ▸ hr)
    rw [hl, List.append_nil, hout, hch]
    exact .abandoned hg hr ho hds hs
  | receiving hg ht hs =>
    obtain ⟨ht', howed⟩ := offer_outbox hu (hch ▸ ht)
    refine .receiving hg ht' ?_
    rw [hs, howed, hch, List.append_assoc]

/-! The transport -/

theorem Round.flushed (h : Round s ds) (w : List Outgoing × Nat) :
    (ds.foldl WriterAction.onWire w).2 = (ds.foldl WriterAction.onWire w).1.length := by
  obtain ⟨opening, rs, -, rfl⟩ := h
  rw [List.foldl_append]
  rfl

theorem rounds_flushed (h : List.Forall₂ Round ss rounds) (hne : ss ≠ [])
    (w : List Outgoing × Nat) :
    (rounds.flatten.foldl WriterAction.onWire w).2 =
      (rounds.flatten.foldl WriterAction.onWire w).1.length := by
  induction h generalizing w with
  | nil => exact absurd rfl hne
  | @cons s r ss rounds hr hrs ih =>
    rw [List.flatten_cons, List.foldl_append]
    cases hrs with
    | nil => exact hr.flushed w
    | cons => exact ih (List.cons_ne_nil _ _) _

namespace Node

structure WriterInvariant (start : Node) (i c size : Nat) (signals : List Signal)
    (ds : List WriterAction) (n : Node) : Prop where
  channel : c < n.directory.lobby.channels.size
  writerLog : WriterLog c ds (n.writerView i c).phase (n.writerView i c).closed
  signalsAccounted : SignalsAccounted signals size ds (n.writerView i c)
  wire : ((n.writerView i c).written, (n.writerView i c).flushed) =
    ds.foldl WriterAction.onWire ((start.line i).written, (start.line i).flushed)

variable {start n n' : Node} {i : Nat} {asked : List Signal}

theorem writerStep_gone (h : (n.line i).writer = .gone) : n.writerStep i = none := by
  have hw : (n.connection i).writer = .gone := h
  rw [writerStep, hw]

theorem WriterInvariant.step (h : WriterInvariant start i c size signals ds n)
    (hs : n.writerStep i = some n') :
    ∃ action, n.writerAction? i = some action ∧
      (n.writerView i c).Step c action (n'.writerView i c) ∧
      WriterInvariant start i c size signals (ds ++ [action]) n' := by
  have hg : (n.line i).writer ≠ .gone := by
    intro hg
    cases hs.symm.trans (writerStep_gone hg)
  have hw := h.writerLog.channel? hg
  obtain ⟨action, haction, hd⟩ := writerStep_step h.channel hw hs
  refine ⟨action, haction, hd, Nat.lt_of_lt_of_le h.channel (writerStep_size h.channel hw hs),
    h.writerLog.step hd, h.signalsAccounted.step hd, ?_⟩
  rw [hd.onWire, h.wire, List.foldl_append]
  rfl

theorem WriterRun.writerInvariant (hw : (start.line i).writer = .waiting c)
    (hc : c < start.directory.lobby.channels.size)
    (ht : (start.channel c).outbox.FullWhileWaiting size) (h : WriterRun start i c asked ds n) :
    WriterInvariant start i c size ((start.channel c).outbox.owed ++ asked) ds n := by
  have hphase : (start.writerView i c).phase = .waiting c := hw
  induction h with
  | start =>
    refine ⟨hc, ?_, .receiving (hphase ▸ nofun) ht (List.append_nil _), rfl⟩
    rw [hphase]
    exact .working (.between .nil)
  | writerUntouched _ ha ih =>
    obtain ⟨closed, hview, hclosed⟩ := ha.writerView
    refine ⟨Nat.lt_of_lt_of_le ih.channel ha.channels, ?_, ?_, ?_⟩
    · rw [hview]
      exact ih.writerLog.shut hclosed
    · rw [hview]
      exact ih.signalsAccounted.shut closed
    · rw [hview]
      exact ih.wire
  | @call asked ds n u _ hu ih =>
    have hview := writerView_modifyChannel (i := i) ih.channel fun ch => (ch.use u).2
    refine ⟨Nat.lt_of_lt_of_eq ih.channel (n.modifyChannel_size c _).symm, ?_, ?_, ?_⟩
    · rw [hview]
      exact ih.writerLog
    · rw [hview, ← List.append_assoc]
      exact ih.signalsAccounted.call rfl hu
    · rw [hview]
      exact ih.wire
  | step _ hs ih =>
    obtain ⟨action, haction, -, hk⟩ := ih.step hs
    rw [haction]
    exact hk

/-! Left to itself -/

def writerSteps (i : Nat) : Nat → Node → Option Node
  | 0, n => some n
  | k + 1, n => (n.writerStep i).bind (writerSteps i k)

theorem writerStep_discarding (h : (n.line i).writer = .discarding c) :
    n.writerStep i = none ↔ (n.channel c).outbox.take? = none := by
  have hw : (n.connection i).writer = .discarding c := h
  rw [writerStep, hw]
  simp [Channel.receive]

theorem WriterInvariant.writerStep_iff (h : WriterInvariant start i c size signals ds n)
    (hw : (n.line i).writer = .discarding c) :
    n.writerStep i = none ↔ (n.channel c).outbox.owed = [] := by
  have hlate : (n.line i).writer ≠ .gone := hw ▸ nofun
  have ht : (n.channel c).outbox.FullWhileWaiting size := h.signalsAccounted.fullWhileWaiting hlate
  rw [writerStep_discarding hw]
  refine ⟨ht.take?_eq_none, fun ho => ?_⟩
  cases htake : (n.channel c).outbox.take? with
  | none => rfl
  | some taken =>
    have howed := (ht.take? htake).2
    rw [ho] at howed
    cases howed

theorem WriterInvariant.finishes (h : WriterInvariant start i c size signals ds n)
    (hw : (n.line i).writer = .discarding c) (hf : .finish ∈ (n.channel c).outbox.owed) :
    ∃ n', writerSteps i (upToFinish (n.channel c).outbox.owed).length n = some n' ∧
      (n'.line i).writer = .gone := by
  generalize ho : (n.channel c).outbox.owed = owed at hf
  induction owed generalizing n ds with
  | nil => cases hf
  | cons x xs ih =>
    cases hs : n.writerStep i with
    | none =>
      have hnil := (h.writerStep_iff hw).1 hs
      rw [ho] at hnil
      cases hnil
    | some n₁ =>
      obtain ⟨action, -, hd, hk⟩ := h.step hs
      obtain ⟨s, o, htake, -, -, hcase⟩ := hd.of_discarding hw
      have hlate : (n.line i).writer ≠ .gone := hw ▸ nofun
      have howed := (h.signalsAccounted.fullWhileWaiting hlate).take? htake |>.2
      rw [show (n.writerView i c).outbox.owed = x :: xs from ho, List.cons.injEq] at howed
      obtain ⟨rfl, hxs⟩ := howed
      obtain ⟨hne, hp, hout⟩ | ⟨rfl, hp⟩ := hcase
      · have hfinish : .finish ∈ xs := (List.mem_cons.1 hf).resolve_left (Ne.symm hne)
        obtain ⟨n', hn', hg⟩ := ih hk hp (hxs ▸ congrArg Outbox.owed hout) hfinish
        refine ⟨n', ?_, hg⟩
        rw [upToFinish_cons hne, List.length_cons, writerSteps, hs]
        exact hn'
      · refine ⟨n₁, ?_, hp⟩
        rw [upToFinish, List.length_singleton, writerSteps, hs]
        rfl

/-! Any run -/

/-- What is true of a task that has worked on channel `c`, a queue of `size` places, since `start`.
The signals are those that its queue owed then and that calls have left with it since, in the order
of the calls. -/
structure WriterContract (start : Node) (i c size : Nat) (signals : List Signal)
    (ds : List WriterAction) (n : Node) : Prop where
  /-- What is written and flushed on the transport is what the log says. -/
  wire : ((n.line i).written, (n.line i).flushed) =
    ds.foldl WriterAction.onWire ((start.line i).written, (start.line i).flushed)
  /-- From the first failure on the connection is closed, and signals are taken and nothing else. -/
  silent : .failed ∈ ds → (n.connection i).closed = true ∧
    ∃ before after, ds = before ++ .failed :: after ∧ .failed ∉ before ∧
      ∀ d ∈ after, ∃ s queue, d = .took s queue
  /-- Signals are taken in order, none behind the first request to finish. -/
  in_order : taken ds <+: upToFinish signals
  /-- That request ends the task, and nothing else does. -/
  ended_iff : (n.line i).writer = .gone ↔ .finish ∈ taken ds
  /-- The places go to the signals in their order, one more with every taking; behind those that
  have one only requests to finish wait. -/
  placed : (n.line i).writer ≠ .gone →
    taken ds ++ (n.channel c).outbox.queue = signals.take ((taken ds).length + size) ∧
      (n.channel c).outbox.waiting = (signals.drop ((taken ds).length + size)).length
  /-- The place of the last taking is handed on too, before the queue goes with the task. Then
  nobody waits. -/
  released : (n.line i).writer = .gone →
    (∃ earlier queue, ds = earlier ++ [.took .finish queue] ∧
      taken ds ++ queue = signals.take ((taken ds).length + size)) ∧
      (n.channel c).outbox.queue = [] ∧ (n.channel c).outbox.waiting = 0
  /-- Once it has failed the task waits for signals alone. -/
  unblocked : .failed ∈ ds → (n.line i).writer ≠ .gone →
    (n.writerStep i = none ↔ signals.drop (taken ds).length = [])
  /-- Then its own steps bring it to its end, one for each signal up to the request to finish. -/
  finishes : .failed ∈ ds → (n.line i).writer ≠ .gone → .finish ∈ signals.drop (taken ds).length →
    ∃ n', writerSteps i (upToFinish (signals.drop (taken ds).length)).length n = some n' ∧
      (n'.line i).writer = .gone
  /-- Without a failure every signal before the request to finish has had its round, and nothing
  that was written is left unflushed. -/
  in_rounds : .failed ∉ ds → (n.line i).writer = .gone →
    ∃ before rounds queue, upToFinish signals = before ++ [.finish] ∧
    List.Forall₂ Round before rounds ∧
      ds = rounds.flatten ++ [.took .finish queue] ∧
      (before ≠ [] → (n.line i).flushed = (n.line i).written.length)

theorem WriterInvariant.owed_eq (h : WriterInvariant start i c size signals ds n)
    (hg : (n.line i).writer ≠ .gone) :
    (n.channel c).outbox.owed = signals.drop (taken ds).length := by
  cases h.signalsAccounted with
  | abandoned hg' => exact absurd hg' hg
  | receiving _ _ hs =>
    rw [hs, List.drop_left]
    rfl

theorem WriterInvariant.taken_prefix (h : WriterInvariant start i c size signals ds n) :
    taken ds <+: signals := by
  cases h.signalsAccounted with
  | abandoned _ _ _ _ hs => exact ⟨_, hs.symm⟩
  | receiving _ _ hs => exact ⟨_, hs.symm⟩

theorem WriterInvariant.upToFinish_eq (h : WriterInvariant start i c size signals ds n)
    (hg : (n.line i).writer = .gone) : upToFinish signals = taken ds := by
  obtain ⟨ss, hss, hf⟩ := h.writerLog.taken_eq hg
  obtain ⟨rest, rfl⟩ := h.taken_prefix
  rw [hss, List.append_assoc, upToFinish_append hf]
  rfl

theorem WriterInvariant.in_order (h : WriterInvariant start i c size signals ds n) :
    taken ds <+: upToFinish signals := by
  by_cases hg : (n.line i).writer = .gone
  · exact h.upToFinish_eq hg ▸ List.prefix_rfl
  · obtain ⟨rest, rfl⟩ := h.taken_prefix
    rw [upToFinish_append (mt h.writerLog.finish_mem_iff.1 hg)]
    exact List.prefix_append ..

theorem WriterInvariant.placed (h : WriterInvariant start i c size signals ds n)
    (hg : (n.line i).writer ≠ .gone) :
    taken ds ++ (n.channel c).outbox.queue = signals.take ((taken ds).length + size) ∧
      (n.channel c).outbox.waiting = (signals.drop ((taken ds).length + size)).length := by
  cases h.signalsAccounted with
  | abandoned hg' => exact absurd hg' hg
  | receiving _ ht hs =>
    rw [hs, List.take_length_add_append, List.drop_length_add_append, List.length_drop]
    exact ⟨congrArg (taken ds ++ ·) ht.queue_eq, ht.waiting_eq⟩

theorem WriterInvariant.released (h : WriterInvariant start i c size signals ds n)
    (hg : (n.line i).writer = .gone) :
    (∃ earlier queue, ds = earlier ++ [.took .finish queue] ∧
      taken ds ++ queue = signals.take ((taken ds).length + size)) ∧
      (n.channel c).outbox.queue = [] ∧ (n.channel c).outbox.waiting = 0 := by
  cases h.signalsAccounted with
  | receiving hg' => exact absurd hg hg'
  | @abandoned earlier rest _ _ howed hds hs =>
    obtain ⟨hq, hw⟩ := List.append_eq_nil_iff.1 howed
    refine ⟨⟨earlier, rest.take size, hds, ?_⟩, hq, (List.replicate_eq_nil_iff _).1 hw⟩
    rw [hs, List.take_length_add_append]

theorem WriterInvariant.in_rounds (h : WriterInvariant start i c size signals ds n)
    (hf : .failed ∉ ds) (hg : (n.line i).writer = .gone) :
    ∃ before rounds queue, upToFinish signals = before ++ [.finish] ∧
      List.Forall₂ Round before rounds ∧
      ds = rounds.flatten ++ [.took .finish queue] ∧
      (before ≠ [] → (n.line i).flushed = (n.line i).written.length) := by
  obtain ⟨ss, rounds, queue, hr, rfl⟩ := h.writerLog.in_rounds hg hf
  refine ⟨ss, rounds, queue, ?_, hr, rfl, fun hne => ?_⟩
  · rw [h.upToFinish_eq hg, taken_append, (rounds_take hr).1]
    rfl
  · have hflushed := rounds_flushed hr hne ((start.line i).written, (start.line i).flushed)
    have hwire : ((n.line i).written, (n.line i).flushed) =
        rounds.flatten.foldl WriterAction.onWire ((start.line i).written, (start.line i).flushed) :=
      h.wire.trans List.foldl_append
    rwa [← hwire] at hflushed

/-- The writing task stops for nothing before the first request to finish: neither when the
transport fails nor when it is refused to it, whatever comes in meanwhile and whenever the
connection is closed. -/
theorem WriterRun.contract (hw : (start.line i).writer = .waiting c)
    (hc : c < start.directory.lobby.channels.size)
    (ht : (start.channel c).outbox.FullWhileWaiting size) (h : WriterRun start i c asked ds n) :
    WriterContract start i c size ((start.channel c).outbox.owed ++ asked) ds n := by
  have hk := h.writerInvariant hw hc ht
  constructor
  · exact hk.wire
  · exact hk.writerLog.silent
  · exact hk.in_order
  · exact hk.writerLog.finish_mem_iff.symm
  · exact hk.placed
  · exact hk.released
  · intro hf hg
    rw [← hk.owed_eq hg]
    exact hk.writerStep_iff (hk.writerLog.discarding hf hg)
  · intro hf hg
    rw [← hk.owed_eq hg]
    exact hk.finishes (hk.writerLog.discarding hf hg)
  · exact hk.in_rounds

/-- A connection whose writing task waits at a queue of one place. -/
def singlePlaceWriter : Node :=
  { new Config.testing none ⟨0⟩ with
    connections := #[{ ip := "10.0.0.1", writer := .waiting 0 }]
    directory := (Directory.new 1 1 1).withLobby { channels := #[.new 7 "k" "10.0.0.1" 1 1 true] } }

/-- The transport breaks on a push, while two requests to finish wait behind it. -/
theorem WriterRun.contract_singlePlaceWriter : ∃ n, WriterRun singlePlaceWriter 0 0
    [.data { op := 5 }, .finish, .finish]
      [.took (.data { op := 5 }) [.finish], .failed, .took .finish [.finish]] n ∧
    WriterContract singlePlaceWriter 0 0 1 [.data { op := 5 }, .finish, .finish]
      [.took (.data { op := 5 }) [.finish], .failed, .took .finish [.finish]] n := by
  have hpush : WriterRun singlePlaceWriter 0 0 [.data { op := 5 }] [] _ :=
    .call (.deliver { op := 5 }) .start rfl
  have hclose : WriterRun singlePlaceWriter 0 0 [.data { op := 5 }, .finish] [] _ :=
    .call .close hpush rfl
  have hagain : WriterRun singlePlaceWriter 0 0 [.data { op := 5 }, .finish, .finish] [] _ :=
    .call .close hclose rfl
  have htaken : WriterRun singlePlaceWriter 0 0 [.data { op := 5 }, .finish, .finish]
      [.took (.data { op := 5 }) [.finish]] _ := .step hagain rfl
  have hbroken : WriterRun singlePlaceWriter 0 0 [.data { op := 5 }, .finish, .finish]
    [.took (.data { op := 5 }) [.finish]] _ :=
    .writerUntouched htaken (modifyWire_writerUntouched (f := fun w => { w with failing := true })
      (by decide) (fun _ => rfl) fun _ => rfl)
  have hfailed : WriterRun singlePlaceWriter 0 0 [.data { op := 5 }, .finish, .finish]
      [.took (.data { op := 5 }) [.finish], .failed] _ := .step hbroken rfl
  have hdone : WriterRun singlePlaceWriter 0 0 [.data { op := 5 }, .finish, .finish]
      [.took (.data { op := 5 }) [.finish], .failed, .took .finish [.finish]] _ := .step hfailed rfl
  exact ⟨_, hdone, hdone.contract rfl (by decide) (Outbox.new_fullWhileWaiting 1)⟩

end Node

end PushGateway
