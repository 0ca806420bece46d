import PushGateway.Proofs.Node.Admission

/-!
Every step of the reading task, taken apart once. A connection asks the control plane for a grant,
greets its client, is let into the directory, answers frame after frame, and is seen off; it may be
rejected before it is let in, and its task may die of a deadline that the clock cannot show.
-/

namespace PushGateway

def Reader.isHandshake : Reader → Bool
  | .awaitingAuth | .connecting _ | .greeting _ _ | .greeted _ => true
  | _ => false

def Reader.session? : Reader → Option Session
  | .serving s | .calling s _ _ => some s
  | _ => none

/-- The reader owes the client the reply `f`, and leaves `rest` to be read. -/
inductive Line.Owes (l : Line) (s : Session) (f : Frame) (rest : List (Except GatewayError Frame)) :
    Prop
  | read (asked : Frame) : l.reader = .serving s → l.incoming = .ok asked :: rest →
      asked.answer? = some f → Owes l s f rest
  | awaited (until' : Nanos) : l.reader = .calling s f until' → l.incoming = rest → Owes l s f rest

theorem Line.Owes.session? {l : Line} {s : Session} {f : Frame}
    {rest : List (Except GatewayError Frame)} (h : l.Owes s f rest) :
    l.reader.session? = some s := by
  cases h with
  | read asked hr =>
    rw [hr]
    rfl
  | awaited u hr =>
    rw [hr]
    rfl

structure Channel.Replied (f : Frame) (ch ch' : Channel) : Prop where
  inbound : ch.inbound.push? f = some ch'.inbound
  pushes : ch'.outbox.pushes = ch.outbox.pushes

theorem Channel.Receives.replied {ch ch' : Channel} {f : Frame} (h : ch.Receives [] ch')
    {inbound : Ring Frame} (hp : ch'.inbound.push? f = some inbound) :
    Replied f ch { ch' with inbound }.wake := by
  have hw := wake_receives { ch' with inbound }
  refine ⟨?_, ?_⟩
  · rw [hw.inbound, ← h.inbound, hp]
  · rw [hw.pushes, List.append_nil]
    exact h.pushes.trans (List.append_nil _)

namespace Node

def connectAnswer? (n : Node) (i : Nat) : Option (Answer ControlPlane.Grant) :=
  let c := n.connection i
  match c.reader with
  | .awaitingAuth =>
    if c.closed then none
    else match n.nextIncoming i with
      | some (.ok f, n) =>
        if f.op = Op.auth then
          some (n.callConnect (some i) (n.connection i).cookie f.body).1
        else none
      | _ => none
  | _ => none

theorem connectAnswer?_eq_none {n : Node} {i : Nat} (h : (n.line i).reader ≠ .awaitingAuth) :
    n.connectAnswer? i = none := by
  rw [connectAnswer?]
  split
  · rename_i hr
    exact absurd hr h
  · rfl

theorem connectAnswer?_of_stuck {n : Node} {i : Nat} (h : n.readerStep i = none) :
    n.connectAnswer? i = none := by
  by_cases hr : (n.line i).reader = .awaitingAuth
  · have hr' : (n.connection i).reader = .awaitingAuth := hr
    simp only [readerStep, hr'] at h
    simp only [connectAnswer?, hr']
    split_ifs at h ⊢
    cases hn : n.nextIncoming i with
    | none => rfl
    | some next =>
      obtain ⟨e | f, m⟩ := next <;> simp [hn] at h
  · exact connectAnswer?_eq_none hr

inductive Reading (n : Node) (i : Nat) (n' : Node) : Prop
  | rejected (rest : List (Except GatewayError Frame)) :
      (n.line i).reader.isHandshake → n.connectAnswer? i = none →
      n.QuietLineChange i (fun l => { l with reader := .returned, incoming := rest }) n' →
      Reading n i n'
  | asked (r : Reader) (rest : List (Except GatewayError Frame)) :
      (n.line i).reader = .awaitingAuth → (∀ g, n.connectAnswer? i ≠ some (.ready (.ok g))) →
      (r = .returned ∨ ∃ u, r = .connecting u) →
      n.AskedConnect i (fun l => { l with reader := r, incoming := rest }) n' →
      n'.online? = n.online? → Reading n i n'
  | granted (f : Frame) (g : ControlPlane.Grant) (rest : List (Except GatewayError Frame)) :
      (n.line i).reader = .awaitingAuth → n.connectAnswer? i = some (.ready (.ok g)) →
      (n.line i).incoming = .ok f :: rest → f.op = Op.auth →
      n.AskedConnect i (fun l => { l with
        reader := .greeting (f.emptied Op.authReply) g, incoming := rest }) n' →
      n'.online? = Function.update n.online? g.key (some g.mid) →
      Reading n i n'
  | greeted (f : Frame) (g : ControlPlane.Grant) : (n.line i).reader = .greeting f g →
      n.QuietLineChange i (fun l => { l with
        reader := .greeted g, written := l.written ++ [.frame f] }) n' → Reading n i n'
  | enrolled (g : ControlPlane.Grant) (s : Session) : (n.line i).reader = .greeted g → s.grant = g →
      n.LineChange i (fun l => { l with
        reader := .serving s, writer := .waiting s.channel, flushed := l.written.length }) n' →
      n.LetIn g s.channel n' → Reading n i n'
  | overrun (g : ControlPlane.Grant) (c : Nat) : (n.line i).reader = .greeted g →
      n.LineChange i (fun l => { l with reader := .crashed, flushed := l.written.length }) n' →
      n.LetIn g c n' → Reading n i n'
  | unseated (g : ControlPlane.Grant) (c : Nat) (r : Reader) : (n.line i).reader = .greeted g →
      r.MayFollowLastCall c → n.directory.lobby.channels.size ≤ c →
      c < n'.directory.lobby.channels.size →
      n.LineChange i (fun l => { l with reader := r, flushed := l.written.length }) n' →
      n.ToldDisconnect i g.mid g.key n' → n'.session? = Function.update n.session? g.key none →
      Reading n i n'
  | replied (s s' : Session) (f : Frame) (rest : List (Except GatewayError Frame)) :
      (n.line i).Owes s f rest → s'.grant = s.grant → s'.channel = s.channel →
      n.LineChange i (fun l => { l with reader := .serving s', incoming := rest }) n' →
      n.OnlyChannel s.channel (Channel.Replied f) n' → Reading n i n'
  | calling (s : Session) (f : Frame) (u : Nanos) (rest : List (Except GatewayError Frame)) :
      (n.line i).reader = .serving s → (n.line i).Owes s f rest →
      n.QuietLineChange i (fun l => { l with reader := .calling s f u, incoming := rest }) n' →
      Reading n i n'
  | tornDown (s : Session) (r : Reader) (rest : List (Except GatewayError Frame)) :
      (n.line i).reader.session? = some s → r.MayFollowLastCall s.channel →
      n.LineChange i (fun l => { l with reader := r, incoming := rest }) n' →
      n.ToldDisconnect i (n.channel s.channel).mid (n.channel s.channel).key n' →
      n'.session? = (if n.session? (n.channel s.channel).key = some s.channel then
        Function.update n.session? (n.channel s.channel).key none else n.session?) → Reading n i n'
  | crashed (s : Session) (rest : List (Except GatewayError Frame)) :
      (n.line i).reader.session? = some s →
      n.QuietLineChange i (fun l => { l with reader := .crashed, incoming := rest }) n' →
      Reading n i n'
  | left (c : Nat) (u : Nanos) : (n.line i).reader = .leaving c u →
      n.QuietLineChange i (fun l => { l with reader := .returned }) n' → Reading n i n'

variable {n n' m : Node} {i : Nat} {g g' : Line → Line}

variable {s s' : Session} {rest : List (Except GatewayError Frame)} {f : Frame}

theorem Reading.of_tearDown (hi : i < n.connections.size) (hb : 0 < n.directory.buckets.size)
    (hs : (n.line i).reader.session? = some s) (hc : s.channel < n.directory.lobby.channels.size)
    (hq : n.QuietLineChange i (fun l => { l with incoming := rest }) m) :
    n.Reading i (m.tearDown i s.channel) := by
  have hheard := hq.lobby.channel _ hc
  obtain ⟨r, hr, hturn, htold, hsession⟩ :=
    tearDown_toldDisconnect (hq.size ▸ hi) (hq.buckets ▸ hb)
    (Nat.lt_of_lt_of_le hc hq.lobby.size) hheard.mid hheard.key
  refine .tornDown s r rest hs hr (hq.toLineChange.trans hturn) (htold.of_quiet hq) ?_
  rw [hsession, hq.session]
  rfl

theorem Reading.of_crash (hi : i < n.connections.size) (hs : (n.line i).reader.session? = some s)
    (hq : n.QuietLineChange i (fun l => { l with incoming := rest }) m) :
    n.Reading i (m.crash i s.channel) :=
  .crashed s rest hs (hq.trans (crash_quiet (hq.size ▸ hi) s.channel))

theorem Reading.of_reply (hi : i < n.connections.size) (hb : 0 < n.directory.buckets.size)
    (hc : s.channel < n.directory.lobby.channels.size) (ho : (n.line i).Owes s f rest)
    (hg : s'.grant = s.grant) (hch : s'.channel = s.channel)
    (hq : n.QuietLineChange i (fun l => { l with incoming := rest }) m) :
    n.Reading i (m.reply i s' f) := by
  have hm := hq.lobby.size
  rw [reply, hch, Channel.pushInbound]
  cases hp : (m.channel s.channel).inbound.push? f with
  | none => exact .of_tearDown hi hb ho.session? hc hq
  | some inbound =>
    have hheard := hq.lobby.channel _ hc
    have hlt := Nat.lt_of_lt_of_le hc hm
    have hwake := Channel.wake_receives { m.channel s.channel with inbound }
    have hturn := m.modifyChannel_lineChange i s.channel fun _ =>
      { m.channel s.channel with inbound }.wake
    have hset := setReader_quiet
      (n := m.modifyChannel s.channel fun _ => { m.channel s.channel with inbound }.wake)
      (hq.size ▸ hi) (.serving s')
    exact .replied s s' f rest ho hg hch ((hq.toLineChange.trans hturn).trans hset.toLineChange)
      ⟨hq.buckets, modifyChannel_size m _ _ ▸ hm, modifyChannel_others hq.lobby,
        (congrArg Channel.mid (modifyChannel_here hlt _)).trans (hwake.mid.trans hheard.mid),
        (congrArg Channel.key (modifyChannel_here hlt _)).trans (hwake.key.trans hheard.key),
        modifyChannel_here hlt _ ▸ hheard.replied hp, hq.presence, hq.online, hq.session⟩

theorem operate_quiet (n : Node) (i : Nat) (caller : Option Nat) (c b : Nat) (f : Frame) :
    n.QuietLineChange i (fun l => l) (n.operate caller c b f).2 := by
  have hroom := n.directory.changeRoom_deliversNothing b
    (String.ofList (Text.Utf8.decodeLossy f.body)) c
  have hcall := n.callReceive_quiet i caller (n.channel c).mid f
  simp only [operate]
  split_ifs
  · generalize n.directory.changeRoom b _ c = moved at hroom ⊢
    obtain ⟨r, d⟩ := moved
    cases r <;> exact withDirectory_quiet hroom
  · exact n.modifyChannel_quiet i c (·.watch _) (Channel.watch_receives _ _)
  · exact n.modifyChannel_quiet i c (·.unwatch _) (Channel.unwatch_receives _ _)
  · generalize n.callReceive caller (n.channel c).mid f = called at hcall ⊢
    obtain ⟨answer, n'⟩ := called
    cases answer <;> exact hcall
  · exact .refl n i

theorem operate_answer (n : Node) (caller : Option Nat) (c b : Nat) {r : Frame}
    (hf : f.op ≠ Op.heartbeat)
    (h : (n.operate caller c b f).1 = .reply r ∨ (n.operate caller c b f).1 = .awaiting r) :
    f.answer? = some r := by
  rw [Frame.answer?, if_neg hf]
  simp only [operate] at h
  split_ifs at h ⊢
  · generalize n.directory.changeRoom b _ c = moved at h
    obtain ⟨e | u, d⟩ := moved
    · simp at h
    · simpa using h
  · simpa using h
  · simpa using h
  · generalize n.callReceive caller (n.channel c).mid f = called at h
    obtain ⟨answer | _, n'⟩ := called
    · simpa using h
    · simpa using h
  · simp at h

theorem Reading.of_calling (hi : i < n.connections.size) (hs : (n.line i).reader = .serving s)
    (ho : (n.line i).Owes s f rest)
    (hq : n.QuietLineChange i (fun l => { l with incoming := rest }) m) :
    n.Reading i (m.setReader i (.calling s f m.giveUp)) :=
  .calling s f m.giveUp rest hs ho (hq.trans (setReader_quiet (hq.size ▸ hi) _))

theorem beat_reading (hi : i < n.connections.size) (hb : 0 < n.directory.buckets.size)
    (hc : s.channel < n.directory.lobby.channels.size) (hs : (n.line i).reader = .serving s)
    (hf : f.op = Op.heartbeat) (hin : (n.line i).incoming = .ok f :: rest)
    (hq : n.QuietLineChange i (fun l => { l with incoming := rest }) m) :
    n.Reading i (m.beat i s f) := by
  have ho : (n.line i).Owes s (f.emptied Op.heartbeatReply) rest := by
    refine .read f hs hin ?_
    rw [Frame.answer?, if_pos hf]
  rw [beat]
  cases hd : m.moveDeadline i s.grant.heartbeat with
  | none => exact .of_crash hi ho.session? hq
  | some n' =>
    have hq' := hq.trans (moveDeadline_quiet (i := i) hd)
    dsimp only
    split_ifs
    · exact .of_reply hi hb hc ho rfl rfl hq'
    · have hcall := hq'.trans (n'.callHeartbeat_quiet i (some i) s.grant.mid s.grant.key)
      generalize n'.callHeartbeat (some i) s.grant.mid s.grant.key = called at hcall ⊢
      obtain ⟨(e | u) | _, n''⟩ := called
      · exact .of_reply hi hb hc ho rfl rfl hcall
      · exact .of_reply hi hb hc ho rfl rfl hcall
      · exact .of_calling hi hs ho hcall

theorem serve_reading (hi : i < n.connections.size) (hb : 0 < n.directory.buckets.size)
    (hc : s.channel < n.directory.lobby.channels.size) (hs : (n.line i).reader = .serving s)
    (hin : (n.line i).incoming = .ok f :: rest)
    (hq : n.QuietLineChange i (fun l => { l with incoming := rest }) m) :
    n.Reading i (m.serve i s f) := by
  rw [serve]
  split_ifs with hf
  · exact beat_reading hi hb hc hs hf hin hq
  · have hop := hq.trans (m.operate_quiet i (some i) s.channel (m.directory.bucketOf s.grant.key) f)
    have hanswer (r : Frame) :=
      m.operate_answer (some i) s.channel (m.directory.bucketOf s.grant.key) (r := r) hf
    generalize m.operate (some i) s.channel (m.directory.bucketOf s.grant.key) f =
      done at hop hanswer ⊢
    obtain ⟨r | r | e, n'⟩ := done
    · exact .of_reply hi hb hc (.read f hs hin (hanswer r (.inl rfl))) rfl rfl hop
    · exact .of_calling hi hs (.read f hs hin (hanswer r (.inr rfl))) hop
    · refine .of_tearDown hi hb ?_ hc hop
      rw [hs]
      rfl

theorem authenticate_reading {f : Frame} {rest : List (Except GatewayError Frame)}
    (hi : i < n.connections.size) (hr : (n.line i).reader = .awaitingAuth)
    (hin : (n.line i).incoming = .ok f :: rest)
    (ha : n.connectAnswer? i =
      if f.op = Op.auth then
        some (m.callConnect (some i) (m.connection i).cookie f.body).1
      else none)
    (hq : n.QuietLineChange i (fun l => { l with incoming := rest }) m) :
    n.Reading i (m.authenticate i f) := by
  rw [authenticate]
  split_ifs with hop
  · rw [if_neg hop] at ha
    exact .rejected rest (by rw [hr]; rfl) ha (hq.trans (reject_quiet (hq.size ▸ hi)))
  · rw [if_pos (not_not.1 hop)] at ha
    obtain ⟨he, ho⟩ := m.callConnect_askedConnect i (m.connection i).cookie f.body
    generalize m.callConnect (some i) (m.connection i).cookie f.body = called at ha he ho ⊢
    obtain ⟨answer, n'⟩ := called
    have he' := hq.askedConnect he
    have hi' : i < n'.connections.size := he'.size ▸ hi
    rw [hq.online] at ho
    cases answer with
    | ready r =>
      cases r with
      | ok g =>
        have hs := setReader_quiet hi' (.greeting (f.emptied Op.authReply) g)
        exact .granted f g rest hr ha hin (not_not.1 hop) (he'.trans_quiet hs) (hs.online.trans ho)
      | error e =>
        have hs := reject_quiet hi'
        exact .asked .returned rest hr (by simp [ha]) (.inl rfl) (he'.trans_quiet hs)
          (hs.online.trans ho)
    | never =>
      have hs := setReader_quiet hi' (.connecting n'.giveUp)
      exact .asked _ rest hr (by simp [ha]) (.inr ⟨_, rfl⟩) (he'.trans_quiet hs)
        (hs.online.trans ho)

variable {grant : ControlPlane.Grant}

theorem Enrolling.reading (hr : (n.line i).reader = .greeted grant)
    (h : (n.modifyWire i Wire.flush).Enrolling i grant n') (hi : i < n.connections.size) :
    n.Reading i n' := by
  have hq := flush_quiet hi
  cases h with
  | serving s hg hturn hadm =>
    exact .enrolled grant s hr hg (hq.toLineChange.trans hturn) ⟨hadm.fresh, hadm.lt, hadm.channel,
      hadm.buckets, hadm.lobby, hadm.presence, hadm.online, hadm.session⟩
  | overrun c hturn hadm =>
    exact .overrun grant c hr (hq.toLineChange.trans hturn) ⟨hadm.fresh, hadm.lt, hadm.channel,
      hadm.buckets, hadm.lobby, hadm.presence, hadm.online, hadm.session⟩
  | unseated c r hl hle hlt hturn htold hsession =>
    exact .unseated grant c r hr hl hle hlt (hq.toLineChange.trans hturn) (htold.of_quiet hq)
      hsession

theorem Reading.of_reject (hi : i < n.connections.size) (hs : (n.line i).reader.isHandshake)
    (ha : n.connectAnswer? i = none)
    (hq : n.QuietLineChange i (fun l => { l with incoming := rest }) m) :
    n.Reading i (m.reject i) := .rejected rest hs ha (hq.trans (reject_quiet (hq.size ▸ hi)))

theorem QuietLineChange.unread (n : Node) (i : Nat) :
    n.QuietLineChange i (fun l => { l with incoming := (n.line i).incoming }) n :=
  ⟨⟨rfl, rfl, fun _ _ => rfl, rfl, rfl⟩, rfl, Lobby.NobodyReceives.refl _, rfl, rfl, rfl⟩

theorem readerStep_lt (h : n.readerStep i = some n') : i < n.connections.size := by
  by_contra hi
  have hc := connection_of_le (Nat.not_lt.1 hi)
  have hr : (n.connection i).reader = .awaitingAuth := by rw [hc]; rfl
  have hclosed : (n.connection i).closed = false := by rw [hc]; rfl
  have hn : n.nextIncoming i = none := by
    rw [nextIncoming, hc]
    rfl
  simp [readerStep, hr, hclosed, hn] at h

theorem readerStep_reading (hb : 0 < n.directory.buckets.size)
    (hc : ∀ s, (n.line i).reader.session? = some s → s.channel < n.directory.lobby.channels.size)
    (h : n.readerStep i = some n') : n.Reading i n' := by
  have hi := readerStep_lt h
  have hq := QuietLineChange.unread n i
  rw [readerStep] at h
  generalize hr : (n.connection i).reader = r at h
  have hreader : (n.line i).reader = r := hr
  cases r with
  | awaitingAuth =>
    have hs : (n.line i).reader.isHandshake := by rw [hreader]; rfl
    dsimp only at h
    split_ifs at h with hclosed
    · cases h
      exact .of_reject hi hs (by simp [connectAnswer?, hr, hclosed]) hq
    · cases hn : n.nextIncoming i with
      | none => simp [hn] at h
      | some next =>
        obtain ⟨item, m⟩ := next
        obtain ⟨rest, hin, hm⟩ := nextIncoming_quiet hi hn
        rw [hn] at h
        cases item with
        | error e =>
          cases h
          exact .of_reject hi hs (by simp [connectAnswer?, hr, hn]) hm
        | ok f =>
          cases h
          exact authenticate_reading hi hreader hin (by simp [connectAnswer?, hr, hclosed, hn]) hm
  | connecting u =>
    dsimp only at h
    split_ifs at h
    cases h
    exact .of_reject hi (by rw [hreader]; rfl) (by simp [connectAnswer?, hr]) hq
  | greeting f grant =>
    have hs : (n.line i).reader.isHandshake := by rw [hreader]; rfl
    have ha : n.connectAnswer? i = none := by simp [connectAnswer?, hr]
    dsimp only at h
    split_ifs at h
    · cases h
      exact .of_reject hi hs ha hq
    · cases h
      exact .of_reject hi hs ha hq
    · cases h
      have hw := write_quiet hi (.frame f)
      exact .greeted f grant hreader (hw.trans (setReader_quiet (hw.size ▸ hi) (.greeted grant)))
  | greeted grant =>
    have hs : (n.line i).reader.isHandshake := by rw [hreader]; rfl
    have ha : n.connectAnswer? i = none := by simp [connectAnswer?, hr]
    dsimp only at h
    split_ifs at h
    · cases h
      exact .of_reject hi hs ha hq
    · cases h
      exact .of_reject hi hs ha hq
    · cases h
      have hw := flush_quiet hi
      have hb' : 0 < (n.modifyWire i Wire.flush).directory.buckets.size := hb
      exact (enroll_enrolling (hw.size ▸ hi) hb' grant).reading hreader hi
  | serving s =>
    have hs : (n.line i).reader.session? = some s := by rw [hreader]; rfl
    dsimp only at h
    split_ifs at h
    · cases h
      exact .of_tearDown hi hb hs (hc s hs) hq
    · cases hn : n.nextIncoming i with
      | none => simp [hn] at h
      | some next =>
        obtain ⟨item, m⟩ := next
        obtain ⟨rest, hin, hm⟩ := nextIncoming_quiet hi hn
        rw [hn] at h
        cases item with
        | error e =>
          cases h
          exact .of_tearDown hi hb hs (hc s hs) hm
        | ok f =>
          cases h
          exact serve_reading hi hb (hc s hs) hreader hin hm
  | calling s f u =>
    have hs : (n.line i).reader.session? = some s := by rw [hreader]; rfl
    dsimp only at h
    split_ifs at h
    cases h
    exact .of_reply hi hb (hc s hs) (.awaited u hreader rfl) rfl rfl hq
  | leaving c u =>
    dsimp only at h
    split_ifs at h
    cases h
    exact .left c u hreader (finishReader_quiet hi c)
  | returned => cases h
  | crashed => cases h

theorem Reading.lineChange (h : n.Reading i n') : ∃ g, n.LineChange i g n' := by
  cases h with
  | rejected rest hs ha hq => exact ⟨_, hq.toLineChange⟩
  | asked r rest ha hn hr he ho => exact ⟨_, he.toLineChange⟩
  | granted f g rest ha hn hin hop he ho => exact ⟨_, he.toLineChange⟩
  | greeted f g hg hq => exact ⟨_, hq.toLineChange⟩
  | enrolled g s hg hsg ht hadm => exact ⟨_, ht⟩
  | overrun g c hg ht hadm => exact ⟨_, ht⟩
  | unseated g c r hg hl hle hlt ht hp hs => exact ⟨_, ht⟩
  | replied s s' f rest ho hg hc ht htouch => exact ⟨_, ht⟩
  | calling s f u rest hs ho hq => exact ⟨_, hq.toLineChange⟩
  | tornDown s r rest hs hl ht hp hn => exact ⟨_, ht⟩
  | crashed s rest hs hq => exact ⟨_, hq.toLineChange⟩
  | left c u hl hq => exact ⟨_, hq.toLineChange⟩

theorem Reading.presence (h : n.Reading i n') :
    ∃ calls, n'.presence = n.presence ++ calls ∧ ∀ p ∈ calls, p.1 = some i := by
  have hone {call : Call} (hp : n'.presence = n.presence ++ [(some i, call)]) :
      ∃ calls, n'.presence = n.presence ++ calls ∧ ∀ p ∈ calls, p.1 = some i := by
    refine ⟨_, hp, ?_⟩
    intro p hmem
    rw [List.mem_singleton.1 hmem]
  have hnone (hp : n'.presence = n.presence) :
      ∃ calls, n'.presence = n.presence ++ calls ∧ ∀ p ∈ calls, p.1 = some i :=
    ⟨[], hp.trans (List.append_nil _).symm, fun _ hmem => absurd hmem List.not_mem_nil⟩
  cases h with
  | rejected rest hs ha hq => exact hnone hq.presence
  | asked r rest ha hn hr he ho =>
    exact he.presence.elim fun _ h => h.elim fun _ h => h.elim fun _ h => hone h
  | granted f g rest ha hn hin hop he ho =>
    exact he.presence.elim fun _ h => h.elim fun _ h => h.elim fun _ h => hone h
  | greeted f g hg hq => exact hnone hq.presence
  | enrolled g s hg hsg ht hadm => exact hnone hadm.presence
  | overrun g c hg ht hadm => exact hnone hadm.presence
  | unseated g c r hg hl hle hlt ht hp hs => exact hone hp.presence
  | replied s s' f rest ho hg hc ht htouch => exact hnone htouch.presence
  | calling s f u rest hs ho hq => exact hnone hq.presence
  | tornDown s r rest hs hl ht hp hn => exact hone hp.presence
  | crashed s rest hs hq => exact hnone hq.presence
  | left c u hl hq => exact hnone hq.presence

end Node

end PushGateway
