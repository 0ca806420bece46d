import PushGateway.Proofs.Directory.Watch
import PushGateway.Proofs.Node.ReaderEffects
import PushGateway.Proofs.Node.Moves

/-!
Serving a frame is the one step that changes what a channel watches for or tells the control plane
of a business frame. All else that a node does, before a session, after it and around it, abstains
from both.
-/

namespace PushGateway

def CallRecord.forward? (r : CallRecord) : Option (Option Nat × Int64 × Frame) :=
  match r.call with
  | .receive mid f => some (r.caller, mid, f)
  | _ => none

namespace Node

/-- The business frames that the control plane has been told of, in the order of the calls. -/
def forwarded (n : Node) : List (Option Nat × Int64 × Frame) := n.log.filterMap CallRecord.forward?

/-- The frame that the next step of a reader serves, with the session it serves. -/
def service? (n : Node) (i : Nat) : Option (Session × Frame) :=
  let c := n.connection i
  match c.reader, c.closed, c.wire.incoming with
  | .serving s, false, .ok f :: _ => some (s, f)
  | _, _, _ => none

/-- Every channel watches for what it did, and the control plane has heard of no business frame. -/
structure KeepsWatches (n n' : Node) : Prop where
  watch : n.directory.lobby.SameWatch n'.directory.lobby
  forwarded : n'.forwarded = n.forwarded
  received : n'.plane.received = n.plane.received

variable {n n' n'' m : Node} {i c : Nat}

theorem KeepsWatches.trans (h : n.KeepsWatches n') (h' : n'.KeepsWatches n'') :
    n.KeepsWatches n'' :=
  ⟨h.watch.trans h'.watch, h'.forwarded.trans h.forwarded, h'.received.trans h.received⟩

theorem KeepsWatches.of_channels (hd : n'.directory.lobby.channels = n.directory.lobby.channels)
    (hl : n'.log = n.log) (hp : n'.plane.received = n.plane.received) : n.KeepsWatches n' :=
  ⟨.of_channels hd, congrArg (List.filterMap CallRecord.forward?) hl, hp⟩

theorem KeepsWatches.aside (hd : n'.directory = n.directory) (hl : n'.log = n.log)
    (hp : n'.plane = n.plane) : n.KeepsWatches n' :=
  .of_channels (congrArg (·.lobby.channels) hd) hl (congrArg ControlPlane.received hp)

theorem KeepsWatches.refl (n : Node) : n.KeepsWatches n := .aside rfl rfl rfl

theorem withDirectory_keepsWatches {d : Directory} (h : n.directory.lobby.SameWatch d.lobby) :
    n.KeepsWatches { n with directory := d } := ⟨h, rfl, rfl⟩

theorem modifyConnection_keepsWatches (n : Node) (i : Nat) (f : Connection → Connection) :
    n.KeepsWatches (n.modifyConnection i f) := .aside rfl rfl rfl

theorem modifyWire_keepsWatches (n : Node) (i : Nat) (f : Wire → Wire) :
    n.KeepsWatches (n.modifyWire i f) :=
  n.modifyConnection_keepsWatches i _

theorem setReader_keepsWatches (n : Node) (i : Nat) (r : Reader) :
    n.KeepsWatches (n.setReader i r) := .aside rfl rfl rfl

theorem modifyChannel_keepsWatches (n : Node) (c : Nat) (f : Channel → Channel)
    (hf : ∀ ch, (f ch).watched = ch.watched) : n.KeepsWatches (n.modifyChannel c f) :=
  ⟨n.directory.lobby.modify_sameWatch c (hf _), rfl, rfl⟩

theorem setTimer_keepsWatches (n : Node) (t : Nat) (s : Timer.Shard Nat) :
    n.KeepsWatches (n.setTimer t s) :=
  .aside rfl rfl rfl

theorem shut_keepsWatches (n : Node) (i : Nat) : n.KeepsWatches ((n.dropDeadline i).close i) :=
  .aside rfl rfl rfl

theorem moveDeadline_keepsWatches {delay : Nanos} (h : n.moveDeadline i delay = some n') :
    n.KeepsWatches n' := by
  obtain ⟨s, -, rfl⟩ := Option.map_eq_some_iff.1 h
  exact n.setTimer_keepsWatches _ _

theorem nextKey_keepsWatches (n : Node) : n.KeepsWatches n.nextKey.2 := by
  unfold nextKey
  cases n.entropy.uuid
  exact .aside rfl rfl rfl

theorem drawInterval_keepsWatches (n : Node) : n.KeepsWatches n.drawInterval.2 := by
  unfold drawInterval
  cases n.entropy.below beatWindow.1 beatWindow.2
  exact .aside rfl rfl rfl

theorem nextIncoming_eq {item : Except GatewayError Frame}
    (h : n.nextIncoming i = some (item, n')) : ∃ f, n' = n.modifyWire i f := by
  rw [nextIncoming] at h
  split at h
  · cases h
  · cases h
    exact ⟨_, rfl⟩

theorem nextIncoming_keepsWatches {item : Except GatewayError Frame}
    (h : n.nextIncoming i = some (item, n')) : n.KeepsWatches n' := by
  obtain ⟨f, rfl⟩ := nextIncoming_eq h
  exact n.modifyWire_keepsWatches i f

theorem forwarded_record (n : Node) (caller : Option Nat) (call : Call) :
    (n.record caller call).forwarded =
      n.forwarded ++ (CallRecord.forward? ⟨n.now, caller, call⟩).toList := by
  rw [forwarded, record, List.filterMap_append, forwarded]
  cases hc : CallRecord.forward? ⟨n.now, caller, call⟩ <;> simp [hc]

theorem record_keepsWatches (n : Node) (caller : Option Nat) (call : Call)
    (hc : CallRecord.forward? ⟨n.now, caller, call⟩ = none) :
    n.KeepsWatches (n.record caller call) := by
  refine ⟨.refl _, ?_, rfl⟩
  rw [forwarded_record, hc]
  exact List.append_nil _

theorem answer_keepsWatches {α : Type} (n : Node) (method : Method)
    (r : Except ControlPlane.Refusal α) {after : ControlPlane}
    (ha : after.received = n.plane.received) : n.KeepsWatches (n.answer method r after).2 := by
  rw [answer]
  split
  · exact .refl n
  · exact .refl n
  · exact .of_channels rfl rfl ha

theorem callConnect_keepsWatches (n : Node) (caller : Option Nat) (cookie : String)
    (token : Bytes) : n.KeepsWatches (n.callConnect caller cookie token).2 := by
  simp only [callConnect]
  have hkey := n.nextKey_keepsWatches
  generalize n.nextKey = k at hkey ⊢
  obtain ⟨offered, k⟩ := k
  have hrecord := k.record_keepsWatches caller (.connect k.serverId offered cookie token) rfl
  refine (hkey.trans hrecord).trans (answer_keepsWatches _ _ _ ?_)
  rw [ControlPlane.connect]
  split <;> rfl

theorem callDisconnect_keepsWatches (n : Node) (caller : Option Nat) (mid : Int64) (key : String) :
    n.KeepsWatches (n.callDisconnect caller mid key).2 := by
  refine (n.record_keepsWatches caller _ rfl).trans (answer_keepsWatches _ _ _ ?_)
  rw [ControlPlane.disconnect]
  split_ifs <;> rfl

theorem callHeartbeat_keepsWatches (n : Node) (caller : Option Nat) (mid : Int64) (key : String) :
    n.KeepsWatches (n.callHeartbeat caller mid key).2 :=
  (n.record_keepsWatches caller _ rfl).trans (answer_keepsWatches _ _ _ rfl)

theorem callRenewOnline_keepsWatches (n : Node) : n.KeepsWatches n.callRenewOnline.2 := by
  have hrecord := n.record_keepsWatches none (.renewOnline n.serverId n.directory.roomCounts) rfl
  simp only [callRenewOnline]
  generalize n.record none (.renewOnline n.serverId n.directory.roomCounts) = asked at hrecord ⊢
  have hkept : (asked.plane.renewOnline asked.serverId n.directory.roomCounts).2.received =
      asked.plane.received := rfl
  have hcall := hrecord.trans (asked.answer_keepsWatches .renewOnline
    (.ok (asked.plane.renewOnline asked.serverId n.directory.roomCounts).1) hkept)
  split
  · rename_i ha
    rw [ha] at hcall
    exact hcall.trans (withDirectory_keepsWatches
      (.of_channels (Directory.updateCounts_channels _ _)))
  · rename_i ha
    rw [ha] at hcall
    exact hcall
  · rename_i ha
    rw [ha] at hcall
    exact hcall

theorem reject_keepsWatches (n : Node) (i : Nat) : n.KeepsWatches (n.reject i) :=
  (n.shut_keepsWatches i).trans (modifyConnection_keepsWatches _ i _)

theorem finishReader_keepsWatches (n : Node) (i c : Nat) : n.KeepsWatches (n.finishReader i c) :=
  (n.modifyChannel_keepsWatches c Channel.release fun _ => rfl).trans
  (setReader_keepsWatches _ i .returned)

theorem signOff_keepsWatches (n : Node) (i c : Nat) : n.KeepsWatches (n.signOff i c) := by
  have hcall := n.callDisconnect_keepsWatches (some i) (n.channel c).mid (n.channel c).key
  rw [signOff]
  generalize n.callDisconnect (some i) (n.channel c).mid (n.channel c).key = called at hcall ⊢
  obtain ⟨answer, n'⟩ := called
  cases answer with
  | ready r => exact hcall.trans (n'.finishReader_keepsWatches i c)
  | never => exact hcall.trans (n'.setReader_keepsWatches i _)

theorem tearDown_keepsWatches (n : Node) (i c : Nat) : n.KeepsWatches (n.tearDown i c) := by
  have hdel := withDirectory_keepsWatches
    (n.directory.del_sameWatch (n.directory.bucketOf (n.channel c).key) c)
  have hclose := (hdel.trans (shut_keepsWatches _ i)).trans
    (modifyChannel_keepsWatches _ c Channel.close fun _ => rfl)
  exact hclose.trans (signOff_keepsWatches _ i c)

theorem crash_keepsWatches (n : Node) (i c : Nat) : n.KeepsWatches (n.crash i c) :=
  (n.modifyChannel_keepsWatches c Channel.release fun _ => rfl).trans
  (setReader_keepsWatches _ i .crashed)

theorem wake_watched (ch : Channel) : ch.wake.watched = ch.watched := by
  rw [Channel.wake]
  split_ifs
  · rfl
  · split <;> rfl

theorem reply_keepsWatches (n : Node) (i : Nat) (s : Session) (f : Frame) :
    n.KeepsWatches (n.reply i s f) := by
  rw [reply]
  split
  · exact n.tearDown_keepsWatches i s.channel
  · rename_i ch hch
    have hwatched : ch.watched = (n.channel s.channel).watched := by
      rw [Channel.pushInbound] at hch
      split at hch <;> cases hch
      rfl
    have hwake : n.KeepsWatches (n.modifyChannel s.channel fun _ => ch.wake) :=
      ⟨n.directory.lobby.modify_sameWatch s.channel ((wake_watched ch).trans hwatched), rfl, rfl⟩
    exact hwake.trans (setReader_keepsWatches _ i _)

theorem beat_keepsWatches (n : Node) (i : Nat) (s : Session) (f : Frame) :
    n.KeepsWatches (n.beat i s f) := by
  rw [beat]
  cases hd : n.moveDeadline i s.grant.heartbeat with
  | none => exact n.crash_keepsWatches i s.channel
  | some moved =>
    have hmoved := moveDeadline_keepsWatches hd
    dsimp only
    split_ifs
    · exact hmoved.trans (moved.reply_keepsWatches i s _)
    · have hcall := hmoved.trans (moved.callHeartbeat_keepsWatches (some i) s.grant.mid s.grant.key)
      generalize moved.callHeartbeat (some i) s.grant.mid s.grant.key = called at hcall ⊢
      obtain ⟨(e | ⟨⟩) | _, told⟩ := called
      · exact hcall.trans (told.reply_keepsWatches i s _)
      · exact hcall.trans (told.reply_keepsWatches i _ _)
      · exact hcall.trans (told.setReader_keepsWatches i _)

theorem authenticate_keepsWatches (n : Node) (i : Nat) (f : Frame) :
    n.KeepsWatches (n.authenticate i f) := by
  rw [authenticate]
  split_ifs
  · exact n.reject_keepsWatches i
  · have hcall := n.callConnect_keepsWatches (some i) (n.connection i).cookie f.body
    generalize n.callConnect (some i) (n.connection i).cookie f.body = called at hcall ⊢
    obtain ⟨(e | g) | _, n'⟩ := called
    · exact hcall.trans (n'.reject_keepsWatches i)
    · exact hcall.trans (n'.setReader_keepsWatches i _)
    · exact hcall.trans (n'.setReader_keepsWatches i _)

theorem enroll_keepsWatches_from (n : Node) (i : Nat) (g : ControlPlane.Grant) :
    { n with
      directory := n.directory.withLobby (n.directory.lobby.addChannel (n.newChannel i g)).2
    }.KeepsWatches
      (n.enroll i g) := by
  rw [newChannel]
  simp only [enroll]
  generalize n.directory.lobby.addChannel _ = added
  have hput := (n.directory.withLobby added.2).put_sameWatch (n.directory.bucketOf g.key)
    g.room added.1
  generalize hm : { n with directory := n.directory.withLobby added.2 } = start
  have hstart {d : Directory} (h : added.2.SameWatch d.lobby) :
    start.KeepsWatches { n with directory := d } :=
    hm ▸ ⟨h, rfl, rfl⟩
  generalize (n.directory.withLobby added.2).put _ g.room added.1 = seated at hput ⊢
  obtain ⟨e | u, d⟩ := seated
  · have hdel := hstart (hput.trans (d.del_sameWatch (n.directory.bucketOf g.key) added.1))
    have hshut := (hdel.trans (shut_keepsWatches _ i)).trans (modifyWire_keepsWatches _ i Wire.drop)
    have hdrop := hshut.trans
      (modifyChannel_keepsWatches _ added.1 Channel.dropReceiver fun _ => rfl)
    exact hdrop.trans (signOff_keepsWatches _ i added.1)
  · have hdir := hstart hput
    dsimp only
    generalize hkey : Node.setTimer _ _ _ = m
    have hseat : start.KeepsWatches m := hkey ▸ hdir.trans (setTimer_keepsWatches _ _ _)
    cases hd : m.moveDeadline i g.heartbeat with
    | none =>
      have hdrop := (hseat.trans (m.modifyWire_keepsWatches i Wire.drop)).trans
        (modifyChannel_keepsWatches _ added.1 Channel.dropReceiver fun _ => rfl)
      exact hdrop.trans (crash_keepsWatches _ i added.1)
    | some moved =>
      have hdrawn := (hseat.trans (moveDeadline_keepsWatches hd)).trans
        moved.drawInterval_keepsWatches
      dsimp only
      generalize moved.drawInterval = drawn at hdrawn ⊢
      obtain ⟨interval, n'⟩ := drawn
      have hhold := hdrawn.trans (n'.modifyChannel_keepsWatches added.1 Channel.hold fun _ => rfl)
      exact hhold.trans (modifyConnection_keepsWatches _ i _)

theorem enroll_keepsWatches (n : Node) (i : Nat) (g : ControlPlane.Grant) :
    n.KeepsWatches (n.enroll i g) :=
  .trans (withDirectory_keepsWatches (n.directory.lobby.addChannel_sameWatch _))
    (n.enroll_keepsWatches_from i g)

theorem service?_eq_some {s : Session} {f : Frame} (h : n.service? i = some (s, f)) :
    (n.connection i).reader = .serving s ∧ (n.connection i).closed = false ∧
      ∃ rest, (n.connection i).wire.incoming = .ok f :: rest := by
  rw [service?] at h
  split at h
  · rename_i hr hc hin
    cases h
    exact ⟨hr, hc, _, hin⟩
  · cases h

theorem service?_of_nextIncoming {s : Session} {f : Frame}
    (hr : (n.connection i).reader = .serving s) (hc : (n.connection i).closed = false)
    (h : n.nextIncoming i = some (.ok f, n')) : n.service? i = some (s, f) := by
  rw [nextIncoming] at h
  split at h
  · cases h
  · rename_i hin
    cases h
    simp only [service?, hr, hc, hin]

theorem readerStep_of_service {s : Session} {f : Frame} (h : n.service? i = some (s, f)) :
    ∃ k, n.nextIncoming i = some (.ok f, k) ∧ n.readerStep i = some (k.serve i s f) := by
  obtain ⟨hr, hc, rest, hin⟩ := service?_eq_some h
  have hnext : n.nextIncoming i =
      some (.ok f, n.modifyWire i fun w => { w with incoming := rest }) := by
    simp only [nextIncoming, hin]
  refine ⟨_, hnext, ?_⟩
  rw [readerStep, hr]
  dsimp only
  rw [hc, if_neg Bool.false_ne_true, hnext]

theorem service?_eq_none (h : ∀ s, (n.line i).reader ≠ .serving s) : n.service? i = none := by
  cases hs : n.service? i with
  | none => rfl
  | some served => exact absurd (service?_eq_some hs).1 (h _)

theorem service?_of_stuck (h : n.readerStep i = none) : n.service? i = none := by
  cases hs : n.service? i with
  | none => rfl
  | some served =>
    obtain ⟨k, -, hstep⟩ := readerStep_of_service hs
    cases h.symm.trans hstep

theorem readerStep_keepsWatches (h : n.readerStep i = some n') (hs : n.service? i = none) :
    n.KeepsWatches n' := by
  rw [readerStep] at h
  generalize hr : (n.connection i).reader = r at h
  cases r with
  | awaitingAuth =>
    dsimp only at h
    split_ifs at h
    · cases h
      exact n.reject_keepsWatches i
    · split at h
      · cases h
      · rename_i hnext
        cases h
        exact (nextIncoming_keepsWatches hnext).trans (reject_keepsWatches _ i)
      · rename_i hnext
        cases h
        exact (nextIncoming_keepsWatches hnext).trans (authenticate_keepsWatches _ i _)
  | connecting u =>
    dsimp only at h
    split_ifs at h
    cases h
    exact n.reject_keepsWatches i
  | greeting f g =>
    dsimp only at h
    split_ifs at h <;> cases h
    · exact n.reject_keepsWatches i
    · exact n.reject_keepsWatches i
    · exact (n.modifyWire_keepsWatches i _).trans (setReader_keepsWatches _ i _)
  | greeted g =>
    dsimp only at h
    split_ifs at h <;> cases h
    · exact n.reject_keepsWatches i
    · exact n.reject_keepsWatches i
    · exact (n.modifyWire_keepsWatches i _).trans (enroll_keepsWatches _ i g)
  | serving s =>
    dsimp only at h
    split_ifs at h with hclosed
    · cases h
      exact n.tearDown_keepsWatches i s.channel
    · split at h
      · cases h
      · rename_i hnext
        cases h
        exact (nextIncoming_keepsWatches hnext).trans (tearDown_keepsWatches _ i s.channel)
      · rename_i hnext
        rw [service?_of_nextIncoming hr (Bool.eq_false_iff.2 hclosed) hnext] at hs
        cases hs
  | calling s f u =>
    dsimp only at h
    split_ifs at h
    cases h
    exact n.reply_keepsWatches i s f
  | leaving c u =>
    dsimp only at h
    split_ifs at h
    cases h
    exact n.finishReader_keepsWatches i c
  | returned => cases h
  | crashed => cases h

theorem useWire_keepsWatches {f : Wire → Wire} {next : Writer}
    (h : n.useWire i c f next = some n') : n.KeepsWatches n' := by
  simp only [useWire] at h
  split_ifs at h <;> cases h <;> exact .aside rfl rfl rfl

theorem receive_watched {ch ch' : Channel} {signal : Signal} (h : ch.receive = some (signal, ch')) :
    ch'.watched = ch.watched := by
  obtain ⟨⟨s, o⟩, -, he⟩ := Option.map_eq_some_iff.1 h
  cases he
  rfl

theorem popInbound_watched {ch ch' : Channel} {f : Frame} (h : ch.popInbound = some (f, ch')) :
    ch'.watched = ch.watched := by
  obtain ⟨⟨g, ring⟩, -, he⟩ := Option.map_eq_some_iff.1 h
  cases he
  rfl

theorem put_keepsWatches {ch : Channel} (h : ch.watched = (n.channel c).watched) :
    n.KeepsWatches (n.modifyChannel c fun _ => ch) :=
      ⟨n.directory.lobby.modify_sameWatch c h, rfl, rfl⟩

theorem dropWriter_keepsWatches (n : Node) (i : Nat) : n.KeepsWatches (n.dropWriter i) :=
  .aside rfl rfl rfl

theorem finishWriter_keepsWatches (n : Node) (i c : Nat) : n.KeepsWatches (n.finishWriter i c) :=
  (n.modifyChannel_keepsWatches c (fun ch => ch.dropReceiver.release) fun _ => rfl).trans
    (modifyConnection_keepsWatches _ i _)

theorem writerStep_keepsWatches (h : n.writerStep i = some n') : n.KeepsWatches n' := by
  rw [writerStep] at h
  split at h
  · cases h
  · cases h
  · rename_i c _
    obtain ⟨⟨signal, ch⟩, hch, rfl⟩ := Option.map_eq_some_iff.1 h
    have htaken := put_keepsWatches (receive_watched hch)
    cases signal with
    | finish =>
      exact (htaken.trans (dropWriter_keepsWatches _ i)).trans (finishWriter_keepsWatches _ i c)
    | ready =>
      exact (htaken.trans (modifyChannel_keepsWatches _ c Channel.clearWake fun _ => rfl)).trans
        (modifyConnection_keepsWatches _ i _)
    | data f => exact htaken.trans (modifyConnection_keepsWatches _ i _)
  · exact useWire_keepsWatches h
  · rename_i c _
    split_ifs at h
    · cases h
      exact .aside rfl rfl rfl
    · split at h
      · cases h
        exact n.modifyConnection_keepsWatches i _
      · rename_i hpop
        cases h
        exact (put_keepsWatches (popInbound_watched hpop)).trans
          (modifyConnection_keepsWatches _ i _)
  · exact useWire_keepsWatches h
  · rename_i c _
    obtain ⟨⟨signal, ch⟩, hch, rfl⟩ := Option.map_eq_some_iff.1 h
    have htaken := put_keepsWatches (receive_watched hch)
    cases signal with
    | finish => exact htaken.trans (finishWriter_keepsWatches _ i c)
    | ready => exact htaken
    | data f => exact htaken

theorem timerStep_keepsWatches {t : Nat} (h : n.timerStep t = some n') : n.KeepsWatches n' := by
  obtain ⟨⟨callback, s⟩, -, rfl⟩ := Option.map_eq_some_iff.1 h
  cases callback <;> exact .aside rfl rfl rfl

theorem tickerStep_keepsWatches {k : Nat} (h : n.tickerStep k = some n') : n.KeepsWatches n' := by
  have hput (m : Node) (t : Ticker) :
    m.KeepsWatches { m with tickers := m.tickers.setIfInBounds k t } :=
    .aside rfl rfl rfl
  have hcall := n.callRenewOnline_keepsWatches
  simp only [tickerStep] at h
  split at h
  · split_ifs at h
    generalize n.callRenewOnline = called at h hcall
    obtain ⟨answer, m⟩ := called
    cases answer <;> cases h <;> exact hcall.trans (hput m _)
  · split_ifs at h
    cases h
    exact hput n _
  · cases h
  · cases h

theorem onWire_keepsWatches (n : Node) (i : Nat) (f : Wire → Wire) :
    n.KeepsWatches (n.onWire i f) := by
  rw [onWire]
  split_ifs
  · exact .refl n
  · exact n.modifyWire_keepsWatches i f

theorem closeRoom_keepsWatches (n : Node) (id : String) : n.KeepsWatches (n.closeRoom id).2 := by
  rw [closeRoom]
  generalize List.range n.directory.buckets.size = bs
  generalize 0 = k
  induction bs generalizing n k with
  | nil => exact .refl n
  | cons b bs ih =>
    have hb := withDirectory_keepsWatches (n.directory.closeRoom_sameWatch b id)
    exact hb.trans (ih { n with directory := (n.directory.closeRoom b id).2 } _)

theorem accept_keepsWatches (n : Node) (ip cookie : String) :
    n.KeepsWatches (n.accept ip cookie) := by
  simp only [accept]
  split <;> exact .aside rfl rfl rfl

theorem apply_keepsWatches (n : Node) (e : Event) : n.KeepsWatches (e.apply n) := by
  cases e with
  | «open» ip cookie => exact n.accept_keepsWatches ip cookie
  | arrive i items => exact n.onWire_keepsWatches i _
  | stall i => exact n.onWire_keepsWatches i _
  | resume i => exact n.onWire_keepsWatches i _
  | failWrites i => exact n.onWire_keepsWatches i _
  | advance d => exact .aside rfl rfl rfl
  | fault m f => exact .aside rfl rfl rfl
  | startTicker => exact .aside rfl rfl rfl
  | pushKeys keys op f => exact withDirectory_keepsWatches (Lobby.offerAll_sameWatch op f _ _)
  | broadcast op f => exact withDirectory_keepsWatches (n.directory.broadcast_sameWatch op f)
  | broadcastRoom p =>
    exact withDirectory_keepsWatches
      (.of_channels (congrArg Lobby.channels (n.directory.broadcastRoom_lobby p)))
  | closeRoom id => exact n.closeRoom_keepsWatches id

def served (n : Node) : Move → Option (Nat × Session × Frame)
  | .task (.reader i) => (n.service? i).map fun (s, f) => (i, s, f)
  | _ => none

theorem move_keepsWatches {m : Move} (hs : n.served m = none) : n.KeepsWatches (n.move m) := by
  cases m with
  | event e => exact n.apply_keepsWatches e
  | deliver c f => exact n.modifyChannel_keepsWatches c _ fun ch => Lobby.deliver_watched ch f
  | task t =>
    cases h : n.step t with
    | none =>
      rw [Node.move, h]
      exact .refl n
    | some n' =>
      have hn : n.move (.task t) = n' := by rw [Node.move, h]; rfl
      rw [hn]
      cases t with
      | timer t => exact timerStep_keepsWatches h
      | ticker k => exact tickerStep_keepsWatches h
      | reader i => exact readerStep_keepsWatches h (Option.map_eq_none_iff.1 hs)
      | writer i => exact writerStep_keepsWatches h
      | worker b w =>
        obtain ⟨d, hd, rfl⟩ := Option.map_eq_some_iff.1 h
        exact withDirectory_keepsWatches (Directory.workerStep_sameWatch hd)

variable {s : Session} {f : Frame}

theorem served_eq_some {m : Move} (h : n.served m = some (i, s, f)) :
    m = .task (.reader i) ∧ n.service? i = some (s, f) := by
  unfold served at h
  split at h
  · obtain ⟨⟨s', f'⟩, hs, he⟩ := Option.map_eq_some_iff.1 h
    cases he
    exact ⟨rfl, hs⟩
  · cases h

theorem move_of_served {m : Move} (h : n.served m = some (i, s, f)) :
    ∃ k, n.nextIncoming i = some (.ok f, k) ∧ n.move m = k.serve i s f := by
  obtain ⟨rfl, hs⟩ := served_eq_some h
  obtain ⟨k, hk, hstep⟩ := readerStep_of_service hs
  exact ⟨k, hk, by rw [Node.move, step, hstep, Option.getD_some]⟩

theorem heartbeat_keepsWatches {m : Move} (h : n.served m = some (i, s, f))
    (hf : f.op = Op.heartbeat) : n.KeepsWatches (n.move m) := by
  obtain ⟨k, hk, hm⟩ := move_of_served h
  rw [hm, serve, if_pos hf]
  exact (nextIncoming_keepsWatches hk).trans (k.beat_keepsWatches i s f)

theorem serve_keepsWatches (n : Node) (i : Nat) (s : Session) (hf : f.op ≠ Op.heartbeat) :
    (n.operate (some i) s.channel (n.directory.bucketOf s.grant.key) f).2.KeepsWatches
      (n.serve i s f) := by
  rw [serve, if_neg hf]
  generalize n.operate (some i) s.channel (n.directory.bucketOf s.grant.key) f = done
  obtain ⟨r | r | e, m⟩ := done
  · exact m.reply_keepsWatches i s r
  · exact m.setReader_keepsWatches i _
  · exact m.tearDown_keepsWatches i s.channel

end Node

end PushGateway
