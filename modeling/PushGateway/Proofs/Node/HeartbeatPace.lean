import PushGateway.Proofs.Node.Departure

/-!
How often the control plane hears of a session. Each session draws an interval when its writer
starts, and passes a heartbeat of the client on if the control plane has not heard of it for longer
than that. Only a call that the control plane accepts counts: after one that is refused, or never
answered, the next heartbeat of the client goes out as well, however soon it comes.
-/

namespace PushGateway

def Call.isHeartbeat : Call → Bool
  | .heartbeat .. => true
  | _ => false

/-- When the writer of a connection was started, and the interval that was drawn for it. -/
structure Pace where
  since : Nanos
  interval : Nanos
  deriving DecidableEq, Repr

/-- A heartbeat call to the control plane: when it begins, and whether it is accepted. -/
structure HeartbeatCall where
  time : Nanos
  heard : Bool
  deriving DecidableEq, Repr

/-- It is more than the interval since the start, and since each call so far that was heard. -/
def Pace.Due (p : Pace) (bs : List HeartbeatCall) (now : Nanos) : Prop :=
  p.since + p.interval < now ∧ ∀ b ∈ bs, b.heard → b.time + p.interval < now

/-- Every call begins more than the interval after the start, and more than the interval after each
earlier call that was heard. Where there was no start there is no call. -/
def Spaced : Option Pace → List HeartbeatCall → Prop
  | none, bs => bs = []
  | some p, bs => (∀ b ∈ bs, p.since + p.interval < b.time) ∧
      bs.Pairwise fun b b' => b.heard → b.time + p.interval < b'.time

structure Session.Counts (s : Session) (p : Pace) (bs : List HeartbeatCall) : Prop where
  interval : s.interval = p.interval
  since : p.since ≤ s.lastBeat
  latest : ∀ b ∈ bs, b.heard → b.time ≤ s.lastBeat
  origin : s.lastBeat = p.since ∨ ∃ b ∈ bs, b.heard ∧ b.time = s.lastBeat

theorem Reader.session?_of_isHandshake {r : Reader} (h : r.isHandshake) : r.session? = none := by
  cases r with
  | serving s => cases h
  | calling s f u => cases h
  | _ => rfl

section
variable {s s' : Session} {p : Pace} {bs : List HeartbeatCall} {now : Nanos}

theorem Spaced.snoc (h : Spaced (some p) bs) (hd : p.Due bs now) (heard : Bool) :
    Spaced (some p) (bs ++ [⟨now, heard⟩]) := by
  constructor
  · intro b hb
    rcases List.mem_append.1 hb with hb | hb
    · exact h.1 b hb
    · cases List.mem_singleton.1 hb
      exact hd.1
  · apply List.pairwise_append.2
    refine ⟨h.2, List.pairwise_singleton _ _, ?_⟩
    intro b hb b' hb'
    cases List.mem_singleton.1 hb'
    exact hd.2 b hb

/-- The time that the session remembers is the one that decides. -/
theorem Session.Counts.due_iff (h : s.Counts p bs) : p.Due bs now ↔
    s.lastBeat + s.interval < now := by
  rw [h.interval]
  constructor
  · intro hd
    rcases h.origin with ho | ⟨b, hb, hheard, ho⟩
    · exact ho ▸ hd.1
    · exact ho ▸ hd.2 b hb hheard
  · intro hlt
    constructor
    · exact Nat.lt_of_le_of_lt (Nat.add_le_add_right h.since p.interval) hlt
    · intro b hb hheard
      exact Nat.lt_of_le_of_lt (Nat.add_le_add_right (h.latest b hb hheard) p.interval) hlt

theorem Session.Counts.call {heard : Bool} (h : s.Counts p bs) (hn : s.lastBeat ≤ now)
    (hi : s'.interval = s.interval) (hl : s'.lastBeat = if heard then now else s.lastBeat) :
    s'.Counts p (bs ++ [⟨now, heard⟩]) := by
  cases heard with
  | true =>
    rw [if_pos rfl] at hl
    constructor
    · exact hi.trans h.interval
    · exact hl ▸ Nat.le_trans h.since hn
    · intro b hb hheard
      rw [hl]
      rcases List.mem_append.1 hb with hb | hb
      · exact Nat.le_trans (h.latest b hb hheard) hn
      · cases List.mem_singleton.1 hb
        exact Nat.le_refl _
    · exact .inr ⟨_, List.mem_append_right _ (List.mem_singleton_self _), rfl, hl.symm⟩
  | false =>
    rw [if_neg Bool.false_ne_true] at hl
    constructor
    · exact hi.trans h.interval
    · exact hl ▸ h.since
    · intro b hb hheard
      rw [hl]
      rcases List.mem_append.1 hb with hb | hb
      · exact h.latest b hb hheard
      · cases List.mem_singleton.1 hb
        cases hheard
    · rw [hl]
      refine h.origin.imp_right fun hb => ?_
      obtain ⟨b, hb, ho⟩ := hb
      exact ⟨b, List.mem_append_left _ hb, ho⟩

end

namespace Node

def reports (n : Node) (i : Nat) : List Call := (n.calls i).filter Call.isHeartbeat

def hears (n : Node) : Call → Bool
  | .heartbeat _ mid key => n.faults.get? .heartbeat = none ∧ n.plane.heartbeat mid key = .ok ()
  | _ => false

def heartbeatsIn (n : Node) (i : Nat) (m : Move) : List HeartbeatCall :=
  (((n.move m).reports i).drop (n.reports i).length).map fun call => ⟨n.now, n.hears call⟩

def heartbeats (n : Node) (i : Nat) : List Move → List HeartbeatCall
  | [] => []
  | m :: h => n.heartbeats i h ++ (n.after h).heartbeatsIn i m

def paceIn (n : Node) (i : Nat) (m : Move) : Option Pace :=
  match (n.line i).reader.session?, ((n.move m).line i).reader.session? with
  | none, some _ => some ⟨n.now, n.drawInterval.1⟩
  | _, _ => none

def pace (n : Node) (i : Nat) : List Move → Option Pace
  | [] => none
  | m :: h => ((n.after h).paceIn i m).or (n.pace i h)

/-- No heartbeat call has been made for connection `i`, and nothing has changed that a call depends
on. -/
structure NoHeartbeat (n : Node) (i : Nat) (n' : Node) : Prop where
  now : n'.now = n.now
  entropy : n'.entropy = n.entropy
  hears : n'.hears = n.hears
  reports : n'.reports i = n.reports i

inductive HeartbeatEffect (n : Node) (i : Nat) (n' : Node) : Prop
  | calm : n'.reports i = n.reports i →
      (∀ s, (n'.line i).reader.session? = some s → (n.line i).reader.session? = some s) →
      HeartbeatEffect n i n'
  | starts : (n.line i).reader.isHandshake → n'.reports i = n.reports i →
      (∀ s, (n'.line i).reader.session? = some s → s.interval = n.drawInterval.1 ∧
      s.lastBeat = n.now) → HeartbeatEffect n i n'
  | beats (s : Session) (call : Call) : (n.line i).reader.session? = some s →
      s.lastBeat + s.interval < n.now → n'.reports i = n.reports i ++ [call] →
      (∀ s', (n'.line i).reader.session? = some s' →
        s'.interval = s.interval ∧ s'.lastBeat = if n.hears call then n.now else s.lastBeat) →
        HeartbeatEffect n i n'

structure KeepsPace (n : Node) (i : Nat) (p : Option Pace) (bs : List HeartbeatCall) : Prop where
  handshake : (n.line i).reader.isHandshake → p = none
  spaced : Spaced p bs
  session : ∀ s, (n.line i).reader.session? = some s → ∃ q, p = some q ∧ s.Counts q bs

structure ReadsHeartbeat (n : Node) (i : Nat) (s : Session) (f : Frame) : Prop where
  reader : (n.connection i).reader = .serving s
  closed : (n.connection i).closed = false
  next : (n.connection i).wire.incoming.head? = some (.ok f)
  op : f.op = Op.heartbeat
  clock : n.now + s.grant.heartbeat < Nanos.clockEnd

variable {n n' n'' : Node} {i c : Nat} {m : Move} {s s' : Session} {f : Frame} {p : Option Pace}
  {bs : List HeartbeatCall}

theorem reports_congr (h : n'.calls i = n.calls i) : n'.reports i = n.reports i := by
  rw [reports, h, reports]

theorem reports_of_log (h : n'.log = n.log) : n'.reports i = n.reports i := by
  apply reports_congr
  rw [Node.calls, h, Node.calls]

theorem reports_record (n : Node) (i : Nat) (call : Call) :
    (n.record (some i) call).reports i = n.reports i ++ if call.isHeartbeat then [call]
      else [] := by
  rw [reports, calls_record, if_pos rfl, List.filter_append, reports]
  cases hc : call.isHeartbeat <;> simp [hc]

theorem OnlyConnectCalls.reports (h : n.OnlyConnectCalls i n') : n'.reports i = n.reports i := by
  obtain ⟨calls, hc, hall⟩ := h.calls
  have hnone : calls.filter Call.isHeartbeat = [] := by
    apply List.filter_eq_nil_iff.2
    intro call hmem hb
    have hconnect := hall call hmem
    cases call <;> contradiction
  rw [Node.reports, hc, List.filter_append, hnone, List.append_nil, Node.reports]

/-! What changes nothing -/

theorem NoHeartbeat.trans (h : n.NoHeartbeat i n') (h' : n'.NoHeartbeat i n'') :
    n.NoHeartbeat i n'' :=
  ⟨h'.now.trans h.now, h'.entropy.trans h.entropy, h'.hears.trans h.hears,
    h'.reports.trans h.reports⟩

theorem NoHeartbeat.aside (hn : n'.now = n.now) (he : n'.entropy = n.entropy)
    (hf : n'.faults = n.faults) (hp : n'.plane = n.plane) (hl : n'.log = n.log) :
    n.NoHeartbeat i n' := by
  refine ⟨hn, he, ?_, reports_of_log hl⟩
  funext call
  cases call <;> simp only [Node.hears, hf, hp]

theorem modifyConnection_noHeartbeat (n : Node) (i j : Nat) (f : Connection → Connection) :
    n.NoHeartbeat i (n.modifyConnection j f) := .aside rfl rfl rfl rfl rfl

theorem modifyWire_noHeartbeat (n : Node) (i : Nat) (f : Wire → Wire) :
    n.NoHeartbeat i (n.modifyWire i f) :=
  n.modifyConnection_noHeartbeat i i _

theorem setReader_noHeartbeat (n : Node) (i : Nat) (r : Reader) :
    n.NoHeartbeat i (n.setReader i r) :=
  n.modifyConnection_noHeartbeat i i _

theorem modifyChannel_noHeartbeat (n : Node) (i c : Nat) (f : Channel → Channel) :
    n.NoHeartbeat i (n.modifyChannel c f) := .aside rfl rfl rfl rfl rfl

theorem setTimer_noHeartbeat (n : Node) (i t : Nat) (s : Timer.Shard Nat) :
    n.NoHeartbeat i (n.setTimer t s) :=
  .aside rfl rfl rfl rfl rfl

theorem withDirectory_noHeartbeat (n : Node) (i : Nat) (d : Directory) :
    n.NoHeartbeat i { n with directory := d } :=
  .aside rfl rfl rfl rfl rfl

theorem shut_noHeartbeat (n : Node) (i : Nat) : n.NoHeartbeat i ((n.dropDeadline i).close i) :=
  (n.setTimer_noHeartbeat i _ _).trans (modifyConnection_noHeartbeat _ i i _)

theorem moveDeadline_noHeartbeat {delay : Nanos} (h : n.moveDeadline i delay = some n') :
    n.NoHeartbeat i n' := by
  obtain ⟨s, -, rfl⟩ := Option.map_eq_some_iff.1 h
  exact n.setTimer_noHeartbeat i _ _

theorem nextIncoming_noHeartbeat {item : Except GatewayError Frame}
    (h : n.nextIncoming i = some (item, n')) : n.NoHeartbeat i n' := by
  rw [nextIncoming] at h
  split at h
  · cases h
  · cases h
    exact n.modifyWire_noHeartbeat i _

theorem reports_call {α : Type} (n : Node) (i : Nat) {call : Call} (hc : call.isHeartbeat = false)
    (method : Method) (r : Except ControlPlane.Refusal α) (after : ControlPlane) :
    ((n.record (some i) call).answer method r after).2.reports i = n.reports i := by
  have hrecord := n.reports_record i call
  rw [hc] at hrecord
  exact (reports_of_log (answer_log ..)).trans (hrecord.trans (List.append_nil _))

theorem session?_modifyConnection {f : Connection → Connection}
    (h : ((n.modifyConnection i f).line i).reader.session? = some s) :
    (f (n.connection i)).reader.session? = some s := by
  by_cases hi : i < n.connections.size
  · rwa [reader_modifyConnection hi] at h
  · have hsize : (n.modifyConnection i f).connections.size = n.connections.size := Array.size_modify
    rw [line_of_le (hsize ▸ Nat.not_lt.1 hi)] at h
    cases h

theorem session?_setReader {r : Reader} (h : ((n.setReader i r).line i).reader.session? = some s) :
    r.session? = some s := session?_modifyConnection h

/-! What the ends of a session tell -/

theorem signOff_reports (n : Node) (i c : Nat) : (n.signOff i c).reports i = n.reports i := by
  have hcall : (n.callDisconnect (some i) (n.channel c).mid (n.channel c).key).2.reports i =
    n.reports i :=
    n.reports_call i rfl ..
  rw [signOff]
  generalize n.callDisconnect (some i) (n.channel c).mid (n.channel c).key = called at hcall ⊢
  obtain ⟨answer, n'⟩ := called
  cases answer <;> exact hcall

theorem session?_signOff (c : Nat) : ((n.signOff i c).line i).reader.session? ≠ some s := by
  intro h
  rw [signOff] at h
  generalize n.callDisconnect (some i) (n.channel c).mid (n.channel c).key = called at h
  obtain ⟨answer, n'⟩ := called
  cases answer with
  | ready r => cases session?_setReader (n := n'.modifyChannel c Channel.release) h
  | never => cases session?_setReader h

theorem tearDown_reports (n : Node) (i c : Nat) : (n.tearDown i c).reports i = n.reports i := by
  have hdel := n.withDirectory_noHeartbeat i
    (n.directory.del (n.directory.bucketOf (n.channel c).key) c)
  have hclose := (hdel.trans (shut_noHeartbeat _ i)).trans
    (modifyChannel_noHeartbeat _ i c Channel.close)
  exact (signOff_reports _ i c).trans hclose.reports

theorem session?_tearDown (c : Nat) : ((n.tearDown i c).line i).reader.session? ≠ some s :=
  session?_signOff c

theorem crash_noHeartbeat (n : Node) (i c : Nat) : n.NoHeartbeat i (n.crash i c) :=
  (n.modifyChannel_noHeartbeat i c _).trans (setReader_noHeartbeat _ i _)

theorem session?_crash (c : Nat) : ((n.crash i c).line i).reader.session? ≠ some s := by
  intro h
  cases session?_setReader (n := n.modifyChannel c Channel.release) h

theorem reply_reports (n : Node) (i : Nat) (s : Session) (f : Frame) :
    (n.reply i s f).reports i = n.reports i := by
  rw [reply]
  split
  · exact n.tearDown_reports i s.channel
  · rename_i ch _
    exact ((n.modifyChannel_noHeartbeat i s.channel fun _ => ch.wake).trans
      (setReader_noHeartbeat _ i _)).reports

theorem session?_reply {f : Frame} (h : ((n.reply i s f).line i).reader.session? = some s') :
    s' = s := by
  rw [reply] at h
  split at h
  · exact absurd h (session?_tearDown s.channel)
  · rename_i ch _
    exact (Option.some.inj (session?_setReader (n := n.modifyChannel s.channel fun _ => ch.wake)
      h)).symm

/-! Being let in -/

theorem drawInterval_reports (n : Node) (i : Nat) : n.drawInterval.2.reports i = n.reports i := by
  unfold drawInterval
  cases n.entropy.below beatWindow.1 beatWindow.2
  rfl

theorem drawInterval_now (n : Node) : n.drawInterval.2.now = n.now := by
  unfold drawInterval
  cases n.entropy.below beatWindow.1 beatWindow.2
  rfl

theorem drawInterval_congr (h : n'.entropy = n.entropy) : n'.drawInterval.1 = n.drawInterval.1 := by
  unfold drawInterval
  rw [h]

theorem enroll_heartbeatEffect (hh : (n.line i).reader.isHandshake) (hm : n.NoHeartbeat i n')
    (g : ControlPlane.Grant) : n.HeartbeatEffect i (n'.enroll i g) := by
  simp only [enroll]
  generalize n'.directory.lobby.addChannel _ = added
  generalize (n'.directory.withLobby added.2).put _ g.room added.1 = seated
  obtain ⟨e | u, d⟩ := seated
  · have hdel :=
      hm.trans (n'.withDirectory_noHeartbeat i (d.del (n'.directory.bucketOf g.key) added.1))
    have hdrop := (hdel.trans (shut_noHeartbeat _ i)).trans (modifyWire_noHeartbeat _ i Wire.drop)
    have hout := hdrop.trans (modifyChannel_noHeartbeat _ i added.1 Channel.dropReceiver)
    apply HeartbeatEffect.calm ((signOff_reports _ i added.1).trans hout.reports)
    exact fun s hs => absurd hs (session?_signOff added.1)
  · have hput := hm.trans (n'.withDirectory_noHeartbeat i d)
    dsimp only
    generalize hkey : Node.setTimer _ _ _ = m
    have hseat : n.NoHeartbeat i m := hkey ▸ hput.trans (setTimer_noHeartbeat _ i _ _)
    cases hd : m.moveDeadline i g.heartbeat with
    | none =>
      have hdrop := (hseat.trans (m.modifyWire_noHeartbeat i Wire.drop)).trans
        (modifyChannel_noHeartbeat _ i added.1 Channel.dropReceiver)
      apply HeartbeatEffect.calm (hdrop.trans (crash_noHeartbeat _ i added.1)).reports
      exact fun s hs => absurd hs (session?_crash added.1)
    | some moved =>
      have hmoved := hseat.trans (moveDeadline_noHeartbeat hd)
      have hdrawn := drawInterval_congr hmoved.entropy
      have hnow := moved.drawInterval_now.trans hmoved.now
      have hreports := (moved.drawInterval_reports i).trans hmoved.reports
      dsimp only
      generalize moved.drawInterval = drawn at hdrawn hnow hreports
      obtain ⟨interval, n''⟩ := drawn
      apply HeartbeatEffect.starts hh
      · exact hreports
      · intro s hs
        cases session?_modifyConnection (n := n''.modifyChannel added.1 Channel.hold) hs
        exact ⟨hdrawn, hnow⟩

/-! Serving -/

theorem operate_reports (n : Node) (i c b : Nat) (f : Frame) :
    (n.operate (some i) c b f).2.reports i = n.reports i := by
  have hcall : (n.callReceive (some i) (n.channel c).mid f).2.reports i = n.reports i :=
    n.reports_call i rfl ..
  simp only [operate]
  split_ifs
  · generalize n.directory.changeRoom b _ c = moved
    obtain ⟨e | u, d⟩ := moved <;> rfl
  · rfl
  · rfl
  · generalize n.callReceive (some i) (n.channel c).mid f = called at hcall ⊢
    obtain ⟨answer, n'⟩ := called
    cases answer <;> exact hcall
  · rfl

theorem callHeartbeat_told (n : Node) (i : Nat) (mid : Int64) (key : String) :
    ∃ call, (n.callHeartbeat (some i) mid key).2.reports i = n.reports i ++ [call] ∧
      (n.callHeartbeat (some i) mid key).2.now = n.now ∧
      ((n.callHeartbeat (some i) mid key).1 = .ready (.ok ()) ↔ n.hears call) := by
  refine ⟨.heartbeat n.serverId mid key, ?_, ?_, ?_⟩
  · exact (reports_of_log (answer_log ..)).trans (n.reports_record i _)
  · simp only [callHeartbeat, answer]
    split <;> rfl
  · simp only [callHeartbeat, answer, record, hears, decide_eq_true_eq]
    cases n.faults.get? .heartbeat with
    | none => cases n.plane.heartbeat mid key <;> simp [Except.mapError]
    | some f => cases f <;> simp

theorem beat_heartbeatEffect (hs : (n.line i).reader.session? = some s) (hm : n.NoHeartbeat i n')
    (f : Frame) : n.HeartbeatEffect i (n'.beat i s f) := by
  rw [beat]
  cases hd : n'.moveDeadline i s.grant.heartbeat with
  | none =>
    apply HeartbeatEffect.calm (hm.trans (n'.crash_noHeartbeat i s.channel)).reports
    exact fun s' h => absurd h (session?_crash s.channel)
  | some moved =>
    have hmoved := hm.trans (moveDeadline_noHeartbeat hd)
    dsimp only
    split_ifs with hle
    · exact .calm ((moved.reply_reports i s _).trans hmoved.reports) fun s' h =>
        session?_reply h ▸ hs
    · obtain ⟨call, hreports, hnow, hheard⟩ := moved.callHeartbeat_told i s.grant.mid s.grant.key
      have hlt : s.lastBeat + s.interval < n.now :=
        hmoved.now ▸ Nat.add_lt_of_lt_sub' (Nat.not_le.1 hle)
      rw [hmoved.reports] at hreports
      rw [hmoved.now] at hnow
      rw [hmoved.hears] at hheard
      generalize moved.callHeartbeat (some i) s.grant.mid s.grant.key = called
        at hreports hnow hheard ⊢
      obtain ⟨(e | ⟨⟩) | _, told⟩ := called
      -- Only the answer that all is well moves the time of the last beat.
      · have hunheard : ¬ n.hears call := fun hh => by cases hheard.2 hh
        apply HeartbeatEffect.beats s call hs hlt ((told.reply_reports i s _).trans hreports)
        intro s' h
        cases session?_reply h
        exact ⟨rfl, (if_neg hunheard).symm⟩
      · apply HeartbeatEffect.beats s call hs hlt ((told.reply_reports i _ _).trans hreports)
        intro s' h
        cases session?_reply h
        exact ⟨rfl, hnow.trans (if_pos (hheard.1 rfl)).symm⟩
      · have hunheard : ¬ n.hears call := fun hh => by cases hheard.2 hh
        apply HeartbeatEffect.beats s call hs hlt
        · exact hreports
        · intro s' h
          cases session?_setReader h
          exact ⟨rfl, (if_neg hunheard).symm⟩

theorem beat_reports (hm : n.NoHeartbeat i n') (hc : n.now + s.grant.heartbeat < Nanos.clockEnd)
    (hlt : s.lastBeat + s.interval < n.now) (f : Frame) :
    ∃ call, (n'.beat i s f).reports i = n.reports i ++ [call] := by
  obtain ⟨moved, hd⟩ : ∃ moved, n'.moveDeadline i s.grant.heartbeat = some moved := by
    simp [moveDeadline, Timer.Shard.set?, Nanos.after?, hm.now, hc]
  have hmoved := hm.trans (moveDeadline_noHeartbeat hd)
  have hle : ¬ moved.now - s.lastBeat ≤ s.interval := by
    rw [hmoved.now]
    exact Nat.not_le.2 (Nat.lt_sub_of_add_lt (Nat.add_comm .. ▸ hlt))
  obtain ⟨call, hreports, -, -⟩ := moved.callHeartbeat_told i s.grant.mid s.grant.key
  rw [hmoved.reports] at hreports
  simp only [beat, hd, if_neg hle]
  generalize moved.callHeartbeat (some i) s.grant.mid s.grant.key = called at hreports
  refine ⟨call, ?_⟩
  obtain ⟨(e | ⟨⟩) | _, told⟩ := called
  · exact (told.reply_reports i s _).trans hreports
  · exact (told.reply_reports i _ _).trans hreports
  · exact hreports

theorem serve_heartbeatEffect (hs : (n.line i).reader.session? = some s) (hm : n.NoHeartbeat i n')
    (f : Frame) : n.HeartbeatEffect i (n'.serve i s f) := by
  rw [serve]
  split_ifs
  · exact beat_heartbeatEffect hs hm f
  · have hop := (n'.operate_reports i s.channel (n'.directory.bucketOf s.grant.key) f).trans
      hm.reports
    generalize n'.operate (some i) s.channel (n'.directory.bucketOf s.grant.key) f = done at hop ⊢
    obtain ⟨r | r | e, m⟩ := done
    · exact .calm ((m.reply_reports i s r).trans hop) fun s' h => session?_reply h ▸ hs
    · exact .calm hop fun s' h => session?_setReader h ▸ hs
    · apply HeartbeatEffect.calm ((m.tearDown_reports i s.channel).trans hop)
      exact fun s' h => absurd h (session?_tearDown s.channel)

theorem served_heartbeatEffect (hs : (n.line i).reader.session? = some s)
    (h : n.readerStep i = some n') : n.HeartbeatEffect i n' := by
  have hdown (m : Node) (hm : n.NoHeartbeat i m) :
      n.HeartbeatEffect i (m.tearDown i s.channel) := by
    apply HeartbeatEffect.calm ((m.tearDown_reports i s.channel).trans hm.reports)
    exact fun s' h => absurd h (session?_tearDown s.channel)
  rw [readerStep] at h
  generalize hr : (n.connection i).reader = r at h
  have hs' : r.session? = some s := hr ▸ hs
  cases r with
  | serving s₀ =>
    cases hs'
    dsimp only at h
    split_ifs at h
    · cases h
      exact hdown n (.aside rfl rfl rfl rfl rfl)
    · split at h
      · cases h
      · rename_i hnext
        cases h
        exact hdown _ (nextIncoming_noHeartbeat hnext)
      · rename_i hnext
        cases h
        exact serve_heartbeatEffect hs (nextIncoming_noHeartbeat hnext) _
  | calling s₀ f u =>
    cases hs'
    dsimp only at h
    split_ifs at h
    cases h
    exact .calm (n.reply_reports i s f) fun s' h => session?_reply h ▸ hs
  | _ => cases hs'

theorem reading_heartbeatEffect (hc : n.ReaderEffect i n') (h : n.readerStep i = some n') :
    n.HeartbeatEffect i n' := by
  cases hc with
  | shaking hs he hs' hserve hk =>
    apply HeartbeatEffect.calm hk.reports
    rw [Reader.session?_of_isHandshake hs']
    intro s hsession
    cases hsession
  | rejected hs he hr hq hk =>
    apply HeartbeatEffect.calm hk.reports
    intro s hsession
    rw [hr] at hsession
    cases hsession
  | enrollEffect g he hn' _ =>
    subst hn'
    exact enroll_heartbeatEffect (enrollment?_isHandshake he)
      (n.modifyWire_noHeartbeat i Wire.flush) g
  | served s s' hs hs' hch ha => exact served_heartbeatEffect hs h
  | crashed s hs hr ha => exact served_heartbeatEffect hs h
  | tornDown s m hs ha hv => exact served_heartbeatEffect hs h
  | left c u hl hr hserve hd ht =>
    have hl' : (n.connection i).reader = .leaving c u := hl
    simp only [readerStep, hl'] at h
    split_ifs at h
    cases h
    have hgone := (n.modifyChannel_noHeartbeat i c Channel.release).trans
      (setReader_noHeartbeat _ i .returned)
    apply HeartbeatEffect.calm hgone.reports
    intro s hs
    cases session?_setReader (n := n.modifyChannel c Channel.release) hs

theorem ReadsHeartbeat.readerStep (h : n.ReadsHeartbeat i s f) : ∃ n', n.NoHeartbeat i n' ∧
    n.readerStep i = some (n'.beat i s f) := by
  obtain ⟨rest, hrest⟩ : ∃ rest, (n.connection i).wire.incoming = .ok f :: rest :=
    List.head?_eq_some_iff.1 h.next
  refine ⟨n.modifyWire i fun w => { w with incoming := rest }, n.modifyWire_noHeartbeat i _, ?_⟩
  simp [Node.readerStep, h.reader, h.closed, nextIncoming, hrest, serve, h.op]

/-! Every move -/

theorem useWire_log {f : Wire → Wire} {next : Writer} (h : n.useWire i c f next = some n') :
    n'.log = n.log := by
  simp only [useWire] at h
  split_ifs at h <;> cases h <;> rfl

theorem writerStep_log (h : n.writerStep i = some n') : n'.log = n.log := by
  rw [writerStep] at h
  split at h
  · cases h
  · cases h
  · obtain ⟨⟨signal, ch⟩, -, rfl⟩ := Option.map_eq_some_iff.1 h
    cases signal <;> rfl
  · exact useWire_log h
  · split_ifs at h
    · cases h
      rfl
    · split at h <;> cases h <;> rfl
  · exact useWire_log h
  · obtain ⟨⟨signal, ch⟩, -, rfl⟩ := Option.map_eq_some_iff.1 h
    cases signal <;> rfl

theorem Owned.elsewhere (h : n.Owned) (hm : m ≠ .task (.reader i)) :
    (n.move m).calls i = n.calls i ∧
      (((n.move m).line i).reader = (n.line i).reader ∨ ((n.move m).line i).reader = .crashed) := by
  cases h.moveEffect m with
  | background he hd =>
    obtain ⟨closed, wire, hc, -⟩ := hd.connection i
    refine ⟨hd.calls i, .inl ?_⟩
    rw [line, hc]
    rfl
  | opensConnection ip cookie he ho =>
    refine ⟨ho.calls i, ?_⟩
    by_cases hi : i = n.connections.size
    · subst hi
      rcases ho.outcome with ⟨hr, -⟩ | ⟨hr, -⟩
      · exact .inr hr
      · left
        rw [hr, line_of_le (Nat.le_refl _)]
        rfl
    · left
      rw [line, ho.others i hi, line]
  | reading j he hj hc =>
    have hij : i ≠ j := by
      rintro rfl
      exact hm he
    refine ⟨hc.onlyConnection.calls i hij, .inl ?_⟩
    rw [line, hc.onlyConnection.others i hij, line]
  | writing j c he hc hw =>
    by_cases hij : i = j
    · subst hij he
      refine ⟨?_, .inl hw.reader⟩
      cases hs : n.writerStep i with
      | none => rw [Node.move, step, hs, Option.getD_none]
      | some n' =>
        rw [Node.move, step, hs, Option.getD_some, Node.calls, writerStep_log hs, Node.calls]
    · refine ⟨hw.calls i hij, .inl ?_⟩
      rw [line, hw.others i hij, line]

theorem ReaderEffect.handshake_before (h : n.ReaderEffect i n')
    (hs : (n'.line i).reader.isHandshake) : (n.line i).reader.isHandshake := by
  cases h with
  | shaking hh he hs' hserve hk => exact hh
  | rejected hh he hr hq hk => exact hh
  | enrollEffect g he hn' _ => exact enrollment?_isHandshake he
  | served s s' hh hh' hch ha =>
    rw [Reader.isHandshake_of_session? hh'] at hs
    cases hs
  | crashed s hh hr ha =>
    rw [hr] at hs
    cases hs
  | tornDown s m hh ha hv =>
    rw [hv.reader.isHandshake] at hs
    cases hs
  | left c u hl hr hserve hd ht =>
    rw [hr] at hs
    cases hs

theorem Owned.own (h : n.Owned) (i : Nat) : n.move (.task (.reader i)) = n ∨
    n.readerStep i = some (n.move (.task (.reader i))) ∧
    n.ReaderEffect i (n.move (.task (.reader i))) := by
  cases hs : n.readerStep i with
  | none =>
    left
    rw [Node.move, step, hs, Option.getD_none]
  | some n' =>
    have hn : n.move (.task (.reader i)) = n' := by rw [Node.move, step, hs, Option.getD_some]
    rw [hn]
    refine .inr ⟨rfl, readerStep_readerEffect (fun s hsession => ?_) hs⟩
    exact h.lt i _ (.inl (Reader.channel?_of_session? hsession))

theorem Owned.heartbeatEffect (h : n.Owned) (i : Nat) (m : Move) :
    n.HeartbeatEffect i (n.move m) := by
  by_cases hm : m = .task (.reader i)
  · subst hm
    rcases h.own i with hn | ⟨hs, hc⟩
    · rw [hn]
      exact .calm rfl fun s hs => hs
    · exact reading_heartbeatEffect hc hs
  · obtain ⟨hcalls, hr⟩ := h.elsewhere hm
    apply HeartbeatEffect.calm (reports_congr hcalls)
    intro s hs
    rcases hr with hr | hr <;> rw [hr] at hs
    · exact hs
    · cases hs

theorem Owned.handshake_before (h : n.Owned) (hs : ((n.move m).line i).reader.isHandshake) :
    (n.line i).reader.isHandshake := by
  by_cases hm : m = .task (.reader i)
  · subst hm
    rcases h.own i with hn | ⟨-, hc⟩
    · exact hn ▸ hs
    · exact hc.handshake_before hs
  · rcases (h.elsewhere hm).2 with hr | hr <;> rw [hr] at hs
    · exact hs
    · cases hs

/-! The pace of a run -/

theorem heartbeatsIn_of_calm (h : (n.move m).reports i = n.reports i) :
    n.heartbeatsIn i m = [] := by
  rw [heartbeatsIn, h, List.drop_length, List.map_nil]

theorem heartbeatsIn_of_call {call : Call} (h : (n.move m).reports i = n.reports i ++ [call]) :
    n.heartbeatsIn i m = [⟨n.now, n.hears call⟩] := by
  rw [heartbeatsIn, h, List.drop_left, List.map_singleton]

theorem paceIn_of_session (h : (n.line i).reader.session? = some s) : n.paceIn i m = none := by
  rw [paceIn, h]

theorem paceIn_of_none (h : ((n.move m).line i).reader.session? = none) : n.paceIn i m = none := by
  rw [paceIn, h]
  split
  · contradiction
  · rfl

theorem KeepsPace.move (h : n.KeepsPace i p bs) (ho : n.Owned) (m : Move) :
    (n.move m).KeepsPace i ((n.paceIn i m).or p) (bs ++ n.heartbeatsIn i m) := by
  cases ho.heartbeatEffect i m with
  | calm hr hsub =>
    have hpace : n.paceIn i m = none := by
      cases hs : ((n.move m).line i).reader.session? with
      | none => exact paceIn_of_none hs
      | some s => exact paceIn_of_session (hsub s hs)
    rw [heartbeatsIn_of_calm hr, hpace, List.append_nil]
    exact ⟨fun hh => h.handshake (ho.handshake_before hh), h.spaced,
      fun s hs => h.session s (hsub s hs)⟩
  | starts hh hr hnew =>
    have hspaced := h.spaced
    rw [h.handshake hh] at hspaced ⊢
    cases hspaced
    rw [heartbeatsIn_of_calm hr]
    cases hs : ((n.move m).line i).reader.session? with
    | none =>
      rw [paceIn_of_none hs]
      refine ⟨fun _ => rfl, rfl, fun s hs' => ?_⟩
      cases hs.symm.trans hs'
    | some s =>
      have hpace : n.paceIn i m = some ⟨n.now, n.drawInterval.1⟩ := by
        rw [paceIn, Reader.session?_of_isHandshake hh, hs]
      obtain ⟨hinterval, hlast⟩ := hnew s hs
      rw [hpace]
      refine ⟨?_, ⟨nofun, .nil⟩, ?_⟩
      · intro hh'
        rw [Reader.isHandshake_of_session? hs] at hh'
        cases hh'
      · intro s' hs'
        cases hs.symm.trans hs'
        exact ⟨_, rfl, hinterval, Nat.le_of_eq hlast.symm, nofun, .inl hlast⟩
  | beats s call hs hlt hr hnext =>
    obtain ⟨q, rfl, hcounts⟩ := h.session s hs
    have hpast : s.lastBeat ≤ n.now := Nat.le_of_lt (Nat.lt_of_le_of_lt (Nat.le_add_right ..) hlt)
    rw [heartbeatsIn_of_call hr, paceIn_of_session hs]
    refine ⟨?_, h.spaced.snoc (hcounts.due_iff.2 hlt) _, ?_⟩
    · intro hh
      have hh' := ho.handshake_before hh
      rw [Reader.isHandshake_of_session? hs] at hh'
      cases hh'
    · intro s' hs'
      obtain ⟨hinterval, hbeat⟩ := hnext s' hs'
      exact ⟨q, rfl, hcounts.call hpast hinterval hbeat⟩

theorem KeepsPace.passed_iff {q : Pace} (h : n.KeepsPace i (some q) bs) (ho : n.Owned)
    (ha : n.ReadsHeartbeat i s f) : n.heartbeatsIn i (.task (.reader i)) ≠ [] ↔ q.Due bs n.now := by
  have hr : (n.line i).reader = .serving s := ha.reader
  have hs : (n.line i).reader.session? = some s := by
    rw [hr]
    rfl
  obtain ⟨q', hq, hcounts⟩ := h.session s hs
  cases hq
  rw [hcounts.due_iff]
  constructor
  · intro hne
    cases ho.heartbeatEffect i (.task (.reader i)) with
    | calm hcalm _ => exact absurd (heartbeatsIn_of_calm hcalm) hne
    | starts _ hcalm _ => exact absurd (heartbeatsIn_of_calm hcalm) hne
    | beats s' call hs' hlt _ _ =>
      cases hs.symm.trans hs'
      exact hlt
  · intro hlt
    obtain ⟨n', hm, hstep⟩ := ha.readerStep
    obtain ⟨call, hreports⟩ := beat_reports hm ha.clock hlt f
    have hmove : n.move (.task (.reader i)) = n'.beat i s f := by
      rw [Node.move, step, hstep, Option.getD_some]
    rw [heartbeatsIn_of_call (hmove ▸ hreports)]
    exact List.cons_ne_nil _ _

theorem KeepsPace.after (h : n.KeepsPace i none []) (ho : n.Owned) (ms : List Move) :
    (n.after ms).KeepsPace i (n.pace i ms) (n.heartbeats i ms) := by
  induction ms with
  | nil => exact h
  | cons m ms ih => exact ih.move (ho.after ms) m

theorem new_keepsPace (config : Config) (hostname : Option String) (entropy : Entropy) (i : Nat) :
    (new config hostname entropy).KeepsPace i none [] := by
  refine ⟨fun _ => rfl, rfl, ?_⟩
  rw [new_line]
  nofun

/-- A heartbeat of a client is passed on exactly if it comes more than the interval after the start
and after each call that was heard, whatever calls have been made that were not. -/
theorem after_passed_iff (config : Config) (hostname : Option String) (entropy : Entropy)
    (ms : List Move) {q : Pace} (hq : (new config hostname entropy).pace i ms = some q) :
    let start := new config hostname entropy
    let n := start.after ms
    n.ReadsHeartbeat i s f → (n.heartbeatsIn i (.task (.reader i)) ≠ [] ↔
      q.Due (start.heartbeats i ms) n.now) := by
  intro start n ha
  have howned := new_owned config hostname entropy
  have hpaced := (new_keepsPace config hostname entropy i).after howned ms
  rw [hq] at hpaced
  exact hpaced.passed_iff (howned.after ms) ha

/-- Every heartbeat call of a connection begins more than the interval drawn for it after its writer
was started, and more than the interval after each earlier call that the control plane accepted. -/
theorem after_spaced (config : Config) (hostname : Option String) (entropy : Entropy)
    (ms : List Move) (i : Nat) :
    let start := new config hostname entropy
    Spaced (start.pace i ms) (start.heartbeats i ms) :=
  ((new_keepsPace config hostname entropy i).after (new_owned config hostname entropy) ms).spaced

/-- A client that has got 5000 seconds for its deadline sends two heartbeats in a row, when the
control plane has been down for a while. -/
def twoHeartbeats : List Move :=
  let beat : Frame := { ver := 1, op := Op.heartbeat, seq := 2, body := [] }
  let auth : Frame := { authFrame 1 with body := (authFrame 1).body ++ [124, 53, 48, 48, 48] }
  [.task (.reader 0), .task (.reader 0), .event (.arrive 0 [.ok beat, .ok beat]),
    .event (.advance (.ofSeconds 1200)), .event (.fault .heartbeat (some (.refuses "down"))),
    .task (.reader 0), .task (.reader 0), .task (.reader 0), .event (.arrive 0 [.ok auth]),
    .event (.open "ip" "")]

/-- Both go out at the same moment: of the first nothing has been heard. -/
theorem twoHeartbeats_repeated :
    let start := new Config.testing none ⟨0⟩
    start.pace 0 twoHeartbeats = some ⟨0, .ofSeconds 679⟩ ∧
    start.heartbeats 0 twoHeartbeats = [⟨.ofSeconds 1200, false⟩, ⟨.ofSeconds 1200, false⟩] ∧
    ¬ (start.heartbeats 0 twoHeartbeats).IsChain fun b b' => b.time + .ofSeconds 679 < b'.time := by
  intro start
  have hbeats : start.heartbeats 0 twoHeartbeats = [⟨.ofSeconds 1200, false⟩,
      ⟨.ofSeconds 1200, false⟩] := by
    decide +kernel
  refine ⟨by decide +kernel, hbeats, ?_⟩
  rw [hbeats]
  decide

end Node

end PushGateway
