import PushGateway.Proofs.Node.ReaderEffects

/-!
What a step of a connection's task touches, stage by stage of its life: while it asks to be let in,
while it is served, and when it is seen off; and what its writing task touches.
-/

namespace PushGateway.Node

structure WriterEffect (n : Node) (i c : Nat) (n' : Node) : Prop extends KeepsDeadline n i n' where
  directory : n.directory.OnlyTouches c n'.directory
  reader : (n'.line i).reader = (n.line i).reader
  timers_eq : n'.timers = n.timers

variable {n n' m : Node} {i c : Nat} {s s' : Session}

theorem ReaderEffect.of_tearDown (hi : i < n.connections.size)
    (hs : (n.line i).reader.session? = some s) (h : n.OnlyConnectionAndChannel i s.channel m) :
    n.ReaderEffect i (m.tearDown i s.channel) :=
  .tornDown s m hs h (tearDown_deletesChannel (h.size ▸ hi) s.channel)

theorem ReaderEffect.of_crash (hi : i < n.connections.size)
    (hs : (n.line i).reader.session? = some s) (h : n.OnlyConnectionAndChannel i s.channel m) :
    n.ReaderEffect i (m.crash i s.channel) :=
  .crashed s hs (reader_crash (h.size ▸ hi) s.channel)
    (h.trans (m.crash_onlyConnectionAndChannel i s.channel))

theorem ReaderEffect.of_setReader {r : Reader} (hi : i < n.connections.size)
    (hs : (n.line i).reader.session? = some s) (hr : r.session? = some s')
    (hc : s'.channel = s.channel) (h : n.OnlyConnectionAndChannel i s.channel m) :
    n.ReaderEffect i (m.setReader i r) := by
  have hset := (m.setReader_keepsDeadline i r).onlyConnectionAndChannel rfl s.channel
  refine .served s s' hs ?_ hc (h.trans hset)
  rw [reader_setReader (h.size ▸ hi)]
  exact hr

theorem ReaderEffect.of_reply (hi : i < n.connections.size)
    (hs : (n.line i).reader.session? = some s) (hc : s'.channel = s.channel)
    (h : n.OnlyConnectionAndChannel i s.channel m) (f : Frame) :
    n.ReaderEffect i (m.reply i s' f) := by
  rw [reply, hc]
  cases hp : (m.channel s.channel).pushInbound f with
  | error e => exact .of_tearDown hi hs h
  | ok ch =>
    have hpush := Channel.pushInbound_keepsIdentity hp
    have hwake := ch.wake_keepsIdentity
    have hring : (m.channel s.channel).KeepsIdentity ch.wake :=
      ⟨hwake.key.trans hpush.key, hwake.ip.trans hpush.ip, hwake.seat.trans hpush.seat⟩
    exact .of_setReader hi hs rfl hc (h.trans (modifyChannel_onlyConnectionAndChannel hring))

theorem call_onlyConnectionAndChannel {α : Type} (n : Node) (i c : Nat) (call : Call)
    (method : Method) (r : Except ControlPlane.Refusal α) (after : ControlPlane) :
    n.OnlyConnectionAndChannel i c ((n.record (some i) call).answer method r after).2 :=
  ((n.record_keepsDeadline i call).trans (answer_keepsDeadline ..)).onlyConnectionAndChannel
  (answer_directory ..) c

theorem callReceive_onlyConnectionAndChannel (n : Node) (i c : Nat) (mid : Int64) (f : Frame) :
    n.OnlyConnectionAndChannel i c (n.callReceive (some i) mid f).2 :=
      n.call_onlyConnectionAndChannel i c ..

theorem callHeartbeat_onlyConnectionAndChannel (n : Node) (i c : Nat) (mid : Int64) (key : String) :
    n.OnlyConnectionAndChannel i c (n.callHeartbeat (some i) mid key).2 :=
      n.call_onlyConnectionAndChannel i c ..

theorem operate_onlyConnectionAndChannel (hc : c < n.directory.lobby.channels.size) (b : Nat)
    (f : Frame) : n.OnlyConnectionAndChannel i c (n.operate (some i) c b f).2 := by
  have hroom := Directory.changeRoom_onlyMoves b (String.ofList (Text.Utf8.decodeLossy f.body)) hc
  have hcall := n.callReceive_onlyConnectionAndChannel i c (n.channel c).mid f
  simp only [operate]
  split_ifs
  · generalize n.directory.changeRoom b _ c = moved at hroom ⊢
    obtain ⟨r, d⟩ := moved
    have hmoved : n.KeepsDeadline i { n with directory := d } := .aside rfl rfl rfl rfl
    cases r <;> exact ⟨hmoved, hroom⟩
  · exact modifyChannel_onlyConnectionAndChannel ⟨rfl, rfl, rfl⟩
  · exact modifyChannel_onlyConnectionAndChannel ⟨rfl, rfl, rfl⟩
  · generalize n.callReceive (some i) (n.channel c).mid f = called at hcall ⊢
    obtain ⟨answer, n'⟩ := called
    cases answer <;> exact hcall
  · exact .refl n i c

theorem beat_readerEffect (hi : i < n.connections.size) (hs : (n.line i).reader = .serving s)
    (h : n.OnlyConnectionAndChannel i s.channel m) (f : Frame) :
    n.ReaderEffect i (m.beat i s f) := by
  have hs' : (n.line i).reader.session? = some s := by rw [hs]; rfl
  rw [beat]
  cases hd : m.moveDeadline i s.grant.heartbeat with
  | none => exact .of_crash hi hs' h
  | some n' =>
    have hmove := h.trans ((moveDeadline_keepsDeadline hd).onlyConnectionAndChannel
      (moveDeadline_directory hd) s.channel)
    dsimp only
    split_ifs
    · exact .of_reply hi hs' rfl hmove _
    · have hcall := hmove.trans (n'.callHeartbeat_onlyConnectionAndChannel i s.channel s.grant.mid
        s.grant.key)
      generalize n'.callHeartbeat (some i) s.grant.mid s.grant.key = called at hcall ⊢
      obtain ⟨(e | ⟨⟩) | _, n''⟩ := called
      · exact .of_reply hi hs' rfl hcall _
      · have hchannel : ({ s with lastBeat := n''.now } : Session).channel = s.channel := rfl
        exact .of_reply hi hs' hchannel hcall _
      · exact .of_setReader hi hs' rfl rfl hcall

theorem serve_readerEffect (hi : i < n.connections.size) (hs : (n.line i).reader = .serving s)
    (hc : s.channel < n.directory.lobby.channels.size)
    (h : n.OnlyConnectionAndChannel i s.channel m) (f : Frame) :
    n.ReaderEffect i (m.serve i s f) := by
  have hs' : (n.line i).reader.session? = some s := by rw [hs]; rfl
  rw [serve]
  split_ifs with hf
  · exact beat_readerEffect hi hs h f
  · have hlt : s.channel < m.directory.lobby.channels.size := h.directory.channels.symm ▸ hc
    have hop :=
      h.trans (operate_onlyConnectionAndChannel (i := i) hlt (m.directory.bucketOf s.grant.key) f)
    generalize m.operate (some i) s.channel (m.directory.bucketOf s.grant.key) f = done at hop ⊢
    obtain ⟨r | r | e, n'⟩ := done
    · exact .of_reply hi hs' rfl hop r
    · exact .of_setReader hi hs' rfl rfl hop
    · exact .of_tearDown hi hs' hop

theorem OnlyConnectCalls.refl (n : Node) (i : Nat) : n.OnlyConnectCalls i n :=
  ⟨rfl, [], (List.append_nil _).symm, nofun⟩

theorem OnlyConnectCalls.trans (h : n.OnlyConnectCalls i m) (h' : m.OnlyConnectCalls i n') :
    n.OnlyConnectCalls i n' := by
  obtain ⟨calls, hc, hall⟩ := h.calls
  obtain ⟨calls', hc', hall'⟩ := h'.calls
  refine ⟨h'.directory.trans h.directory, calls ++ calls', ?_, ?_⟩
  · rw [hc', hc, List.append_assoc]
  · intro call hmem
    rcases List.mem_append.1 hmem with hmem | hmem
    · exact hall call hmem
    · exact hall' call hmem

theorem OnlyConnectCalls.silent (hd : n'.directory = n.directory) (hl : n'.log = n.log) :
    n.OnlyConnectCalls i n' :=
  ⟨hd, [], by rw [Node.calls, hl, List.append_nil, Node.calls], nofun⟩

theorem nextKey_keepsDeadline (n : Node) (i : Nat) : n.KeepsDeadline i n.nextKey.2 := by
  unfold nextKey
  cases n.entropy.uuid
  exact .aside rfl rfl rfl rfl

theorem nextKey_onlyConnectCalls (n : Node) (i : Nat) : n.OnlyConnectCalls i n.nextKey.2 := by
  unfold nextKey
  cases n.entropy.uuid
  exact .silent rfl rfl

theorem call_onlyConnectCalls {α : Type} (n : Node) (i : Nat) {call : Call} (hc : call.isConnect)
    (method : Method) (r : Except ControlPlane.Refusal α) (after : ControlPlane) :
    n.OnlyConnectCalls i ((n.record (some i) call).answer method r after).2 := by
  refine ⟨answer_directory .., [call], ?_, ?_⟩
  · rw [Node.calls, answer_log]
    exact (n.calls_record (some i) call i).trans (by rw [if_pos rfl])
  · intro call' hmem
    rw [List.mem_singleton.1 hmem]
    exact hc

theorem callConnect_keepsDeadline (n : Node) (i : Nat) (cookie : String) (token : Bytes) :
    n.KeepsDeadline i (n.callConnect (some i) cookie token).2 :=
  (n.nextKey_keepsDeadline i).trans
  (n.nextKey.2.call_onlyConnectionAndChannel i 0 ..).toKeepsDeadline

theorem callConnect_onlyConnectCalls (n : Node) (i : Nat) (cookie : String) (token : Bytes) :
    n.OnlyConnectCalls i (n.callConnect (some i) cookie token).2 :=
  (n.nextKey_onlyConnectCalls i).trans (n.nextKey.2.call_onlyConnectCalls i rfl ..)

theorem reject_onlyConnectCalls (n : Node) (i : Nat) : n.OnlyConnectCalls i (n.reject i) :=
  .silent rfl rfl

theorem setReader_onlyConnectCalls (n : Node) (i : Nat) (r : Reader) :
    n.OnlyConnectCalls i (n.setReader i r) := .silent rfl rfl

theorem ReaderEffect.of_reject (hi : i < n.connections.size) (hs : (n.line i).reader.isHandshake)
    (he : n.enrollment? i = none) (h : n.KeepsDeadline i m) (hk : n.OnlyConnectCalls i m) :
    n.ReaderEffect i (m.reject i) :=
  .rejected hs he (reader_reject (h.size ▸ hi))
    (h.dropsDeadline (reject_dropsDeadline (h.size ▸ hi))) (hk.trans (m.reject_onlyConnectCalls i))

theorem ReaderEffect.of_shaking {r : Reader} (hi : i < n.connections.size)
    (hs : (n.line i).reader.isHandshake) (he : n.enrollment? i = none) (hr : r.isHandshake)
    (h : n.KeepsDeadline i m) (hk : n.OnlyConnectCalls i m) :
    n.ReaderEffect i (m.setReader i r) := by
  refine .shaking hs he ?_ (h.trans (m.setReader_keepsDeadline i r))
    (hk.trans (m.setReader_onlyConnectCalls i r))
  rw [reader_setReader (h.size ▸ hi)]
  exact hr

theorem authenticate_readerEffect (hi : i < n.connections.size) (hs : (n.line i).reader.isHandshake)
    (he : n.enrollment? i = none) (h : n.KeepsDeadline i m) (hk : n.OnlyConnectCalls i m)
    (f : Frame) : n.ReaderEffect i (m.authenticate i f) := by
  rw [authenticate]
  split_ifs
  · exact .of_reject hi hs he h hk
  · have hcall := h.trans (m.callConnect_keepsDeadline i (m.connection i).cookie f.body)
    have hconnects := hk.trans (m.callConnect_onlyConnectCalls i (m.connection i).cookie f.body)
    generalize m.callConnect (some i) (m.connection i).cookie f.body = called at hcall hconnects ⊢
    obtain ⟨(e | g) | _, n'⟩ := called
    · exact .of_reject hi hs he hcall hconnects
    · exact .of_shaking hi hs he rfl hcall hconnects
    · exact .of_shaking hi hs he rfl hcall hconnects

theorem nextIncoming_onlyConnectCalls {item : Except GatewayError Frame}
    (h : n.nextIncoming i = some (item, n')) : n.OnlyConnectCalls i n' := by
  rw [nextIncoming] at h
  split at h
  · cases h
  · cases h
    exact .silent rfl rfl

theorem enrollment?_eq_none (h : ∀ g, (n.connection i).reader ≠ .greeted g) :
    n.enrollment? i = none := by
  rw [enrollment?]
  split
  · rename_i g hr
    exact absurd hr (h g)
  · rfl

theorem enrollment?_isHandshake {g : ControlPlane.Grant} (h : n.enrollment? i = some g) :
    (n.line i).reader.isHandshake := by
  cases hr : (n.connection i).reader with
  | greeted g =>
    rw [show (n.line i).reader = .greeted g from hr]
    rfl
  | _ => exact absurd (h.symm.trans (enrollment?_eq_none (by simp [hr]))) nofun

theorem enrollment?_of_stuck (h : n.readerStep i = none) : n.enrollment? i = none := by
  rw [readerStep] at h
  rw [enrollment?]
  generalize (n.connection i).reader = r at h
  cases r with
  | greeted g =>
    dsimp only at h ⊢
    split_ifs at h ⊢ with hc
    · rfl
    · simp_all
  | _ => rfl

theorem WriterEffect.refl (n : Node) (i c : Nat) : n.WriterEffect i c n :=
  ⟨.refl n i, .refl _ c, rfl, rfl⟩

theorem WriterEffect.trans (h : n.WriterEffect i c m) (h' : m.WriterEffect i c n') :
    n.WriterEffect i c n' :=
  ⟨h.toKeepsDeadline.trans h'.toKeepsDeadline, h.directory.trans h'.directory,
    h'.reader.trans h.reader, h'.timers_eq.trans h.timers_eq⟩

theorem modifyConnection_writerEffect (n : Node) (i c : Nat) {f : Connection → Connection}
    (hf : ∀ c, (f c).ip = c.ip ∧ (f c).timer = c.timer ∧ (f c).deadline = c.deadline ∧
      (c.closed → (f c).closed)) (hr : ∀ c, (f c).reader = c.reader) :
    n.WriterEffect i c (n.modifyConnection i f) := by
  refine ⟨n.modifyConnection_keepsDeadline i hf, .refl _ c, ?_, rfl⟩
  rw [line, connection_modifyConnection]
  split_ifs with hi
  · exact hr _
  · rfl

theorem modifyChannel_writerEffect {f : Channel → Channel}
    (hf : (n.channel c).KeepsIdentity (f (n.channel c))) :
    n.WriterEffect i c (n.modifyChannel c f) :=
  ⟨n.modifyChannel_keepsDeadline i c f, n.modifyChannel_onlyTouches hf, rfl, rfl⟩

theorem setWriter_writerEffect (n : Node) (i c : Nat) (w : Writer) :
    n.WriterEffect i c (n.setWriter i w) :=
  n.modifyConnection_writerEffect i c (fun _ => ⟨rfl, rfl, rfl, fun h => h⟩) fun _ => rfl

theorem wire_writerEffect (n : Node) (i c : Nat) (f : Wire → Wire) :
    n.WriterEffect i c (n.modifyWire i f) :=
  n.modifyConnection_writerEffect i c (fun _ => ⟨rfl, rfl, rfl, fun h => h⟩) fun _ => rfl

theorem dropWriter_writerEffect (n : Node) (i c : Nat) : n.WriterEffect i c (n.dropWriter i) := by
  have hclose : n.WriterEffect i c (n.close i) :=
    n.modifyConnection_writerEffect i c (fun _ => ⟨rfl, rfl, rfl, fun _ => rfl⟩) fun _ => rfl
  exact hclose.trans (wire_writerEffect _ i c Wire.drop)

theorem failWriter_writerEffect (n : Node) (i c : Nat) : n.WriterEffect i c (n.failWriter i c) :=
  (n.dropWriter_writerEffect i c).trans (setWriter_writerEffect _ i c _)

theorem finishWriter_writerEffect (n : Node) (i c : Nat) :
    n.WriterEffect i c (n.finishWriter i c) := by
  have hdrop : n.WriterEffect i c (n.modifyChannel c fun ch => ch.dropReceiver.release) :=
    modifyChannel_writerEffect ⟨rfl, rfl, rfl⟩
  exact hdrop.trans (setWriter_writerEffect _ i c _)

theorem useWire_writerEffect {f : Wire → Wire} {next : Writer}
    (h : n.useWire i c f next = some n') : n.WriterEffect i c n' := by
  simp only [useWire] at h
  split_ifs at h
  · cases h
    exact n.failWriter_writerEffect i c
  · cases h
    exact n.failWriter_writerEffect i c
  · cases h
    exact (n.wire_writerEffect i c f).trans (setWriter_writerEffect _ i c next)

theorem writerStep_writerEffect (h : n.writerStep i = some n') :
    ∃ c, (n.line i).writer.channel? = some c ∧ n.WriterEffect i c n' := by
  rw [writerStep] at h
  generalize hw : (n.connection i).writer = w at h
  have hwriter : (n.line i).writer = w := hw
  rw [hwriter]
  cases w with
  | absent => cases h
  | gone => cases h
  | waiting c =>
    refine ⟨c, rfl, ?_⟩
    obtain ⟨⟨signal, ch⟩, hr, rfl⟩ := Option.map_eq_some_iff.1 h
    have htaken : n.WriterEffect i c (n.modifyChannel c fun _ => ch) :=
      modifyChannel_writerEffect (Channel.receive_keepsIdentity hr)
    cases signal with
    | finish =>
      exact (htaken.trans (dropWriter_writerEffect _ i c)).trans (finishWriter_writerEffect _ i c)
    | ready =>
      exact (htaken.trans (modifyChannel_writerEffect ⟨rfl, rfl, rfl⟩)).trans
        (setWriter_writerEffect _ i c _)
    | data f => exact htaken.trans (setWriter_writerEffect _ i c _)
  | writing c item => exact ⟨c, rfl, useWire_writerEffect h⟩
  | draining c =>
    refine ⟨c, rfl, ?_⟩
    dsimp only at h
    split_ifs at h
    · cases h
      exact n.failWriter_writerEffect i c
    · cases hp : (n.channel c).popInbound with
      | none =>
        rw [hp] at h
        cases h
        exact n.setWriter_writerEffect i c _
      | some popped =>
        obtain ⟨f, ch⟩ := popped
        rw [hp] at h
        cases h
        have hpop : n.WriterEffect i c (n.modifyChannel c fun _ => ch) :=
          modifyChannel_writerEffect (Channel.popInbound_keepsIdentity hp)
        exact hpop.trans (setWriter_writerEffect _ i c _)
  | flushing c => exact ⟨c, rfl, useWire_writerEffect h⟩
  | discarding c =>
    refine ⟨c, rfl, ?_⟩
    obtain ⟨⟨signal, ch⟩, hr, rfl⟩ := Option.map_eq_some_iff.1 h
    have htaken : n.WriterEffect i c (n.modifyChannel c fun _ => ch) :=
      modifyChannel_writerEffect (Channel.receive_keepsIdentity hr)
    cases signal with
    | finish => exact htaken.trans (finishWriter_writerEffect _ i c)
    | ready => exact htaken
    | data f => exact htaken

theorem readerStep_readerEffect
    (hc : ∀ s, (n.line i).reader.session? = some s → s.channel < n.directory.lobby.channels.size)
    (h : n.readerStep i = some n') : n.ReaderEffect i n' := by
  have hi := readerStep_lt h
  have hstay := KeepsDeadline.refl n i
  have hsilent := OnlyConnectCalls.refl n i
  rw [readerStep] at h
  generalize hr : (n.connection i).reader = r at h
  have hreader : (n.line i).reader = r := hr
  cases r with
  | awaitingAuth =>
    have hs : (n.line i).reader.isHandshake := by rw [hreader]; rfl
    have he : n.enrollment? i = none := enrollment?_eq_none (by simp [hr])
    dsimp only at h
    split_ifs at h
    · cases h
      exact .of_reject hi hs he hstay hsilent
    · cases hn : n.nextIncoming i with
      | none => simp [hn] at h
      | some next =>
        obtain ⟨item, m⟩ := next
        have hm := nextIncoming_keepsDeadline hn
        have hk := nextIncoming_onlyConnectCalls hn
        rw [hn] at h
        cases item with
        | error e =>
          cases h
          exact .of_reject hi hs he hm hk
        | ok f =>
          cases h
          exact authenticate_readerEffect hi hs he hm hk f
  | connecting u =>
    dsimp only at h
    split_ifs at h
    cases h
    exact .of_reject hi (by rw [hreader]; rfl) (enrollment?_eq_none (by simp [hr])) hstay hsilent
  | greeting f g =>
    have hs : (n.line i).reader.isHandshake := by rw [hreader]; rfl
    have he : n.enrollment? i = none := enrollment?_eq_none (by simp [hr])
    dsimp only at h
    split_ifs at h
    · cases h
      exact .of_reject hi hs he hstay hsilent
    · cases h
      exact .of_reject hi hs he hstay hsilent
    · cases h
      exact .of_shaking hi hs he rfl (n.modifyWire_keepsDeadline i _) (.silent rfl rfl)
  | greeted g =>
    have hs : (n.line i).reader.isHandshake := by rw [hreader]; rfl
    dsimp only at h
    split_ifs at h with hclosed hstalled hfailing
    · cases h
      exact .of_reject hi hs (by simp [enrollment?, hr, hclosed]) hstay hsilent
    · cases h
      exact .of_reject hi hs (by simp [enrollment?, hr, hfailing]) hstay hsilent
    · cases h
      have hflush := n.modifyWire_keepsDeadline i Wire.flush
      exact .enrollEffect g (by simp [enrollment?, hr, hclosed, hstalled, hfailing]) rfl
        (enroll_enrollEffect (hflush.size ▸ hi) g)
  | serving s =>
    have hs : (n.line i).reader.session? = some s := by rw [hreader]; rfl
    have hstand := hstay.onlyConnectionAndChannel rfl s.channel
    dsimp only at h
    split_ifs at h
    · cases h
      exact .of_tearDown hi hs hstand
    · cases hn : n.nextIncoming i with
      | none => simp [hn] at h
      | some next =>
        obtain ⟨item, m⟩ := next
        have hm := (nextIncoming_keepsDeadline hn).onlyConnectionAndChannel
          (nextIncoming_onlyConnectCalls hn).directory s.channel
        rw [hn] at h
        cases item with
        | error e =>
          cases h
          exact .of_tearDown hi hs hm
        | ok f =>
          cases h
          exact serve_readerEffect hi hreader (hc s hs) hm f
  | calling s f u =>
    have hs : (n.line i).reader.session? = some s := by rw [hreader]; rfl
    dsimp only at h
    split_ifs at h
    cases h
    exact .of_reply hi hs rfl (hstay.onlyConnectionAndChannel rfl s.channel) f
  | leaving c u =>
    dsimp only at h
    split_ifs at h
    cases h
    have hrelease := n.modifyChannel_keepsDeadline i c Channel.release
    exact .left c u hreader (reader_setReader (n := n.modifyChannel c Channel.release) hi .returned)
      (hrelease.trans (setReader_keepsDeadline _ i .returned))
      (n.modifyChannel_onlyTouches ⟨rfl, rfl, rfl⟩) rfl
  | returned => cases h
  | crashed => cases h

end PushGateway.Node
