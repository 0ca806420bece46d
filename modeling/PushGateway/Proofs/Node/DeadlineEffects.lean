import PushGateway.Proofs.Node.Departure
import PushGateway.Proofs.Node.HeartbeatPace
import PushGateway.Proofs.Timer.ShardEffects

/-!
What the task of a connection does to the deadline of the connection. It moves it when the
connection is let in and with every heartbeat of its client, gives it back when the connection ends,
and leaves it alone otherwise; if the clock cannot show the time to move it to, the task dies.
-/

namespace PushGateway

/-- When a connection was last heard of, and within what time it has to be heard of again. -/
structure LastHeard where
  heard : Nanos
  interval : Nanos
  deriving DecidableEq, Repr

def LastHeard.due (v : LastHeard) : Nanos := v.heard + v.interval

namespace Node

def ownTimer (n : Node) (i : Nat) : Timer.Shard Nat := n.timer (n.connection i).timer

/-- What the next step of the reader of connection `i` hears of it: that it is let in, or a
heartbeat of its client. -/
def hearing? (n : Node) (i : Nat) : Option LastHeard :=
  let c := n.connection i
  match c.reader with
  | .greeted _ => (n.enrollment? i).map fun g => ⟨n.now, g.heartbeat⟩
  | .serving s =>
    if c.closed then none
    else match c.wire.incoming.head? with
      | some (.ok f) => if f.op = Op.heartbeat then some ⟨n.now, s.grant.heartbeat⟩ else none
      | _ => none
  | _ => none

structure HandlesDeadline (n : Node) (i : Nat) (n' : Node) : Prop extends KeepsDeadline n i n' where
  now : n'.now = n.now
  holderEffect : n.HasTimer i →
    (n.ownTimer i).HolderEffect (n.connection i).deadline (n'.ownTimer i)

structure KeepsTimers (n : Node) (i : Nat) (n' : Node) : Prop extends KeepsDeadline n i n' where
  now : n'.now = n.now
  timers_eq : n'.timers = n.timers

inductive DeadlineEffect (n : Node) (i : Nat) (n' : Node) : Prop
  | still : n.hearing? i = none → n'.timers = n.timers → n'.now = n.now →
      (n'.line i).reader ≠ .crashed → DeadlineEffect n i n'
  | heard (v : LastHeard) (m : Node) (ok : Bool) : n.hearing? i = some v → n.HandlesDeadline i m →
      (m.ownTimer i).set? n.now (n.connection i).deadline v.interval = some (ok, n'.ownTimer i) →
      n'.now = n.now → (n'.line i).reader ≠ .crashed → DeadlineEffect n i n'
  | overrun (v : LastHeard) : n.hearing? i = some v → Nanos.clockEnd ≤ v.due →
      (n.ownTimer i).HolderEffect (n.connection i).deadline (n'.ownTimer i) → n'.now = n.now →
      (n'.line i).reader = .crashed → DeadlineEffect n i n'
  | leaves : (n.ownTimer i).HolderEffect (n.connection i).deadline (n'.ownTimer i) →
      n'.now = n.now → (n'.line i).reader.hasLeft → DeadlineEffect n i n'

variable {n n' m : Node} {i c : Nat} {s s' : Session} {v : LastHeard} {f : Frame}

theorem KeepsTimers.trans (h : n.KeepsTimers i m) (h' : m.KeepsTimers i n') : n.KeepsTimers i n' :=
  ⟨h.toKeepsDeadline.trans h'.toKeepsDeadline, h'.now.trans h.now, h'.timers_eq.trans h.timers_eq⟩

theorem KeepsTimers.refl (n : Node) (i : Nat) : n.KeepsTimers i n := ⟨.refl n i, rfl, rfl⟩

theorem KeepsTimers.ownTimer (h : n.KeepsTimers i n') : n'.ownTimer i = n.ownTimer i := by
  rw [Node.ownTimer, Node.timer, h.timer, h.timers_eq, Node.ownTimer, Node.timer]

theorem KeepsTimers.handlesDeadline (h : n.KeepsTimers i n') : n.HandlesDeadline i n' :=
  ⟨h.toKeepsDeadline, h.now, fun _ => h.ownTimer ▸ .refl⟩

theorem HandlesDeadline.keepsTimers (h : n.HandlesDeadline i m) (h' : m.KeepsTimers i n') :
    n.HandlesDeadline i n' :=
  ⟨h.toKeepsDeadline.trans h'.toKeepsDeadline, h'.now.trans h.now,
    fun ht => h'.ownTimer ▸ h.holderEffect ht⟩

theorem modifyConnection_keepsTimers (n : Node) (i : Nat) {f : Connection → Connection}
    (hf : ∀ c, (f c).ip = c.ip ∧ (f c).timer = c.timer ∧ (f c).deadline = c.deadline ∧
      (c.closed → (f c).closed)) : n.KeepsTimers i (n.modifyConnection i f) :=
  ⟨n.modifyConnection_keepsDeadline i hf, rfl, rfl⟩

theorem setReader_keepsTimers (n : Node) (i : Nat) (r : Reader) :
    n.KeepsTimers i (n.setReader i r) :=
  n.modifyConnection_keepsTimers i fun _ => ⟨rfl, rfl, rfl, fun h => h⟩

theorem modifyWire_keepsTimers (n : Node) (i : Nat) (f : Wire → Wire) :
    n.KeepsTimers i (n.modifyWire i f) :=
  n.modifyConnection_keepsTimers i fun _ => ⟨rfl, rfl, rfl, fun h => h⟩

theorem modifyChannel_keepsTimers (n : Node) (i c : Nat) (f : Channel → Channel) :
    n.KeepsTimers i (n.modifyChannel c f) := ⟨n.modifyChannel_keepsDeadline i c f, rfl, rfl⟩

theorem withDirectory_keepsTimers (n : Node) (i : Nat) (d : Directory) :
    n.KeepsTimers i { n with directory := d } :=
  ⟨.aside rfl rfl rfl rfl, rfl, rfl⟩

theorem nextIncoming_keepsTimers {item : Except GatewayError Frame}
    (h : n.nextIncoming i = some (item, n')) : n.KeepsTimers i n' := by
  have hserved := nextIncoming_keepsDeadline h
  rw [nextIncoming] at h
  split at h
  · cases h
  · cases h
    exact ⟨hserved, rfl, rfl⟩

theorem call_keepsTimers {α : Type} (n : Node) (i : Nat) (call : Call) (method : Method)
    (r : Except ControlPlane.Refusal α) (after : ControlPlane) :
    n.KeepsTimers i ((n.record (some i) call).answer method r after).2 := by
  refine ⟨(n.record_keepsDeadline i call).trans (answer_keepsDeadline ..), ?_, ?_⟩ <;>
  · rw [answer]
    split <;> rfl

theorem callConnect_keepsTimers (n : Node) (i : Nat) (cookie : String) (token : Bytes) :
    n.KeepsTimers i (n.callConnect (some i) cookie token).2 := by
  have hkey : n.KeepsTimers i n.nextKey.2 := by
    refine ⟨n.nextKey_keepsDeadline i, ?_, ?_⟩ <;>
    · unfold nextKey
      cases n.entropy.uuid
      rfl
  exact hkey.trans (n.nextKey.2.call_keepsTimers i ..)

theorem operate_keepsTimers (n : Node) (i c b : Nat) (f : Frame) :
    n.KeepsTimers i (n.operate (some i) c b f).2 := by
  have hcall : n.KeepsTimers i (n.callReceive (some i) (n.channel c).mid f).2 :=
    n.call_keepsTimers i ..
  simp only [operate]
  split_ifs
  · generalize n.directory.changeRoom b _ c = moved
    obtain ⟨e | u, d⟩ := moved <;> exact n.withDirectory_keepsTimers i d
  · exact n.modifyChannel_keepsTimers i c _
  · exact n.modifyChannel_keepsTimers i c _
  · generalize n.callReceive (some i) (n.channel c).mid f = called at hcall ⊢
    obtain ⟨answer, n'⟩ := called
    cases answer <;> exact hcall
  · exact .refl n i

theorem signOff_keepsTimers (n : Node) (i c : Nat) : n.KeepsTimers i (n.signOff i c) := by
  have hcall : n.KeepsTimers i (n.callDisconnect (some i) (n.channel c).mid (n.channel c).key).2 :=
    n.call_keepsTimers i ..
  rw [signOff]
  generalize n.callDisconnect (some i) (n.channel c).mid (n.channel c).key = called at hcall ⊢
  obtain ⟨answer, n'⟩ := called
  cases answer with
  | ready r =>
    exact (hcall.trans (modifyChannel_keepsTimers _ i c _)).trans (setReader_keepsTimers _ i _)
  | never => exact hcall.trans (setReader_keepsTimers _ i _)

theorem modifyChannel_signOff_keepsTimers (n : Node) (i c : Nat) (f : Channel → Channel) :
    n.KeepsTimers i ((n.modifyChannel c f).signOff i c) :=
      (n.modifyChannel_keepsTimers i c f).trans (signOff_keepsTimers _ i c)

theorem tearDown_timers (n : Node) (i c : Nat) : (n.tearDown i c).timers =
    ({ n with
      directory := n.directory.del (n.directory.bucketOf (n.channel c).key) c
    }.dropDeadline i).timers :=
  (modifyChannel_signOff_keepsTimers _ i c Channel.close).timers_eq

theorem shut_now (n : Node) (i : Nat) : ((n.dropDeadline i).close i).now = n.now := rfl

theorem tearDown_now (n : Node) (i c : Nat) : (n.tearDown i c).now = n.now := by
  have hdel := n.withDirectory_keepsTimers i
    (n.directory.del (n.directory.bucketOf (n.channel c).key) c)
  exact (modifyChannel_signOff_keepsTimers _ i c Channel.close).now.trans
    ((shut_now _ i).trans hdel.now)

theorem ownTimer_setTimer (ht : n.HasTimer i) (s : Timer.Shard Nat) :
    (n.setTimer (n.connection i).timer s).ownTimer i = s := by
  change (n.setTimer (n.connection i).timer s).timer (n.connection i).timer = s
  rw [timer_setTimer, if_pos ⟨rfl, ht.lt⟩]

theorem HandlesDeadline.dropped (h : n.HandlesDeadline i m) (ht : n.HasTimer i)
    (hts : n'.timers = (m.dropDeadline i).timers)
    (hc : (n'.connection i).timer = (m.connection i).timer) :
    (n.ownTimer i).HolderEffect (n.connection i).deadline (n'.ownTimer i) := by
  have hown : n'.ownTimer i = (m.dropDeadline i).ownTimer i := by
    rw [ownTimer, Node.timer, hts, hc]
    rfl
  rw [hown, dropDeadline, ownTimer_setTimer (h.hasTimer ht), h.deadline]
  exact (h.holderEffect ht).del

theorem HandlesDeadline.reject (h : n.HandlesDeadline i m) (hi : i < n.connections.size)
    (ht : n.HasTimer i) : n.DeadlineEffect i (m.reject i) := by
  have hi' : i < m.connections.size := h.size ▸ hi
  refine .leaves (h.dropped ht rfl (reject_dropsDeadline hi').timer) h.now ?_
  rw [reader_reject hi']
  rfl

theorem HandlesDeadline.tearDown (h : n.HandlesDeadline i m) (hi : i < n.connections.size)
    (ht : n.HasTimer i) (c : Nat) : n.DeadlineEffect i (m.tearDown i c) := by
  have hgone := tearDown_deletesChannel (h.size ▸ hi) c
  have hdel := m.withDirectory_keepsTimers i
    (m.directory.del (m.directory.bucketOf (m.channel c).key) c)
  exact .leaves ((h.keepsTimers hdel).dropped ht (m.tearDown_timers i c)
    (hgone.timer.trans hdel.timer.symm)) ((m.tearDown_now i c).trans h.now) hgone.reader.hasLeft

theorem setKey_handlesDeadline (n : Node) (i : Nat) (key : String) :
    n.HandlesDeadline i (n.setTimer (n.connection i).timer
    ((n.timer (n.connection i).timer).setKey (n.connection i).deadline key)) := by
  refine ⟨n.setKey_keepsDeadline i key, rfl, fun ht => ?_⟩
  rw [ownTimer_setTimer ht]
  exact .setKey key .refl

theorem moveDeadline_eq_none {delay : Nanos} :
    n.moveDeadline i delay = none ↔ Nanos.clockEnd ≤ n.now + delay := by
  rw [moveDeadline, Option.map_eq_none_iff, Timer.Shard.set?_eq_none]

theorem moveDeadline_set? {delay : Nanos} (ht : n.HasTimer i)
    (h : n.moveDeadline i delay = some n') :
    ∃ ok, (n.ownTimer i).set? n.now (n.connection i).deadline delay = some (ok, n'.ownTimer i) := by
  obtain ⟨⟨ok, s⟩, hs, rfl⟩ := Option.map_eq_some_iff.1 h
  exact ⟨ok, (ownTimer_setTimer ht s).symm ▸ hs⟩

theorem moveDeadline_handlesDeadline {delay : Nanos} (h : n.moveDeadline i delay = some n') :
    n.HandlesDeadline i n' := by
  have hserved := moveDeadline_keepsDeadline h
  refine ⟨hserved, ?_, fun ht => ?_⟩
  · obtain ⟨s, -, rfl⟩ := Option.map_eq_some_iff.1 h
    rfl
  · obtain ⟨ok, hset⟩ := moveDeadline_set? ht h
    exact .set .refl hset

theorem HandlesDeadline.trans (h : n.HandlesDeadline i m) (h' : m.HandlesDeadline i n') :
    n.HandlesDeadline i n' := by
  refine ⟨h.toKeepsDeadline.trans h'.toKeepsDeadline, h'.now.trans h.now, fun ht => ?_⟩
  have heffect := h'.holderEffect (h.hasTimer ht)
  rw [h.deadline] at heffect
  exact (h.holderEffect ht).trans heffect

theorem HandlesDeadline.heard {moved : Node} (h : n.HandlesDeadline i m) (ht : n.HasTimer i)
    (hv : n.hearing? i = some v) (hd : m.moveDeadline i v.interval = some moved)
    (hi : moved.KeepsTimers i n') (hr : (n'.line i).reader ≠ .crashed) : n.DeadlineEffect i n' := by
  obtain ⟨ok, hset⟩ := moveDeadline_set? (h.hasTimer ht) hd
  rw [h.now, h.deadline, ← hi.ownTimer] at hset
  exact .heard v m ok hv h hset (hi.now.trans ((moveDeadline_handlesDeadline hd).now.trans h.now))
    hr

theorem hearing?_heard (h : n.hearing? i = some v) : v.heard = n.now := by
  rw [hearing?] at h
  split at h
  · obtain ⟨g, -, rfl⟩ := Option.map_eq_some_iff.1 h
    rfl
  · split_ifs at h
    split at h
    · split_ifs at h
      cases h
      rfl
    · cases h
  · cases h

theorem HandlesDeadline.overrun (h : n.HandlesDeadline i m) (ht : n.HasTimer i)
    (hv : n.hearing? i = some v) (hd : m.moveDeadline i v.interval = none) (hi : m.KeepsTimers i n')
    (hr : (n'.line i).reader = .crashed) : n.DeadlineEffect i n' := by
  refine .overrun v hv ?_ ((h.keepsTimers hi).holderEffect ht) (hi.now.trans h.now) hr
  rw [moveDeadline_eq_none, h.now, ← hearing?_heard hv] at hd
  exact hd

theorem crash_keepsTimers (n : Node) (i c : Nat) : n.KeepsTimers i (n.crash i c) :=
  (n.modifyChannel_keepsTimers i c _).trans (setReader_keepsTimers _ i _)

theorem reply_cases (hi : i < n.connections.size) (s : Session) (f : Frame) :
    n.reply i s f = n.tearDown i s.channel ∨
      n.KeepsTimers i (n.reply i s f) ∧ ((n.reply i s f).line i).reader = .serving s := by
  rw [reply]
  split
  · exact .inl rfl
  · rename_i ch _
    refine .inr ⟨(n.modifyChannel_keepsTimers i s.channel fun _ => ch.wake).trans
      (setReader_keepsTimers _ i _), ?_⟩
    exact reader_setReader (n := n.modifyChannel s.channel fun _ => ch.wake) hi _

theorem KeepsTimers.still (h : n.KeepsTimers i n') (hn : n.hearing? i = none)
    (hr : (n'.line i).reader ≠ .crashed) : n.DeadlineEffect i n' := .still hn h.timers_eq h.now hr

theorem KeepsTimers.setReader {r : Reader} (h : n.KeepsTimers i m) (hi : i < n.connections.size)
    (hn : n.hearing? i = none) (hr : r ≠ .crashed) : n.DeadlineEffect i (m.setReader i r) := by
  apply (h.trans (m.setReader_keepsTimers i r)).still hn
  rw [reader_setReader (h.size ▸ hi)]
  exact hr

theorem KeepsTimers.reply (h : n.KeepsTimers i m) (hi : i < n.connections.size) (ht : n.HasTimer i)
    (hn : n.hearing? i = none) (s : Session) (f : Frame) : n.DeadlineEffect i (m.reply i s f) := by
  rcases reply_cases (h.size ▸ hi) s f with he | ⟨hidle, hr⟩
  · rw [he]
    exact h.handlesDeadline.tearDown hi ht s.channel
  · apply (h.trans hidle).still hn
    rw [hr]
    nofun

theorem HandlesDeadline.reply {moved : Node} (h : n.HandlesDeadline i m)
    (hi : i < n.connections.size) (ht : n.HasTimer i) (hv : n.hearing? i = some v)
    (hd : m.moveDeadline i v.interval = some moved) (hm : moved.KeepsTimers i n') (s : Session)
    (f : Frame) : n.DeadlineEffect i (n'.reply i s f) := by
  have hn' := (h.trans (moveDeadline_handlesDeadline hd)).keepsTimers hm
  rcases reply_cases (hn'.size ▸ hi) s f with he | ⟨hidle, hr⟩
  · rw [he]
    exact hn'.tearDown hi ht s.channel
  · apply h.heard ht hv hd (hm.trans hidle)
    rw [hr]
    nofun

theorem beat_deadlineEffect (h : n.KeepsTimers i m) (hi : i < n.connections.size)
    (ht : n.HasTimer i) (hv : n.hearing? i = some v) (hs : v.interval = s.grant.heartbeat)
    (f : Frame) : n.DeadlineEffect i (m.beat i s f) := by
  rw [beat, ← hs]
  cases hd : m.moveDeadline i v.interval with
  | none =>
    exact h.handlesDeadline.overrun ht hv hd (m.crash_keepsTimers i _)
      (reader_crash (h.size ▸ hi) _)
  | some moved =>
    dsimp only
    split_ifs
    · exact h.handlesDeadline.reply hi ht hv hd (.refl moved i) _ _
    · have hcall : moved.KeepsTimers i (moved.callHeartbeat (some i) s.grant.mid s.grant.key).2 :=
        moved.call_keepsTimers i ..
      generalize moved.callHeartbeat (some i) s.grant.mid s.grant.key = called at hcall ⊢
      obtain ⟨(e | ⟨⟩) | _, told⟩ := called
      · exact h.handlesDeadline.reply hi ht hv hd hcall _ _
      · exact h.handlesDeadline.reply hi ht hv hd hcall _ _
      · have hsize := (h.handlesDeadline.trans (moveDeadline_handlesDeadline hd)).keepsTimers
          hcall |>.size
        apply h.handlesDeadline.heard ht hv hd (hcall.trans (setReader_keepsTimers _ i _))
        rw [reader_setReader (hsize ▸ hi)]
        simp

theorem nextIncoming_head {item : Except GatewayError Frame}
    (h : n.nextIncoming i = some (item, n')) :
    (n.connection i).wire.incoming.head? = some item := by
  rw [nextIncoming] at h
  split at h
  · cases h
  · rename_i hin
    cases h
    rw [hin]
    rfl

theorem hearing?_serving (hr : (n.connection i).reader = .serving s)
    (hc : (n.connection i).closed = false)
    (hin : (n.connection i).wire.incoming.head? = some (.ok f)) : n.hearing? i =
      if f.op = Op.heartbeat then some ⟨n.now, s.grant.heartbeat⟩ else none := by
  simp [hearing?, hr, hc, hin]

theorem serve_deadlineEffect (h : n.KeepsTimers i m) (hi : i < n.connections.size)
    (ht : n.HasTimer i)
    (hv : n.hearing? i = if f.op = Op.heartbeat then some ⟨n.now, s.grant.heartbeat⟩ else none) :
    n.DeadlineEffect i (m.serve i s f) := by
  rw [serve]
  split_ifs at hv ⊢ with hf
  · exact beat_deadlineEffect h hi ht hv rfl f
  · have hop := h.trans (m.operate_keepsTimers i s.channel (m.directory.bucketOf s.grant.key) f)
    generalize m.operate (some i) s.channel (m.directory.bucketOf s.grant.key) f = done at hop ⊢
    obtain ⟨r | r | e, n'⟩ := done
    · exact hop.reply hi ht hv s r
    · exact hop.setReader hi hv (by simp)
    · exact hop.handlesDeadline.tearDown hi ht s.channel

theorem authenticate_deadlineEffect (h : n.KeepsTimers i m) (hi : i < n.connections.size)
    (ht : n.HasTimer i) (hn : n.hearing? i = none) (f : Frame) :
    n.DeadlineEffect i (m.authenticate i f) := by
  rw [authenticate]
  split_ifs
  · exact h.handlesDeadline.reject hi ht
  · have hcall := h.trans (m.callConnect_keepsTimers i (m.connection i).cookie f.body)
    generalize m.callConnect (some i) (m.connection i).cookie f.body = called at hcall ⊢
    obtain ⟨(e | g) | _, n'⟩ := called
    · exact hcall.handlesDeadline.reject hi ht
    · exact hcall.setReader hi hn (by simp)
    · exact hcall.setReader hi hn (by simp)

theorem drawInterval_keepsTimers (n : Node) (i : Nat) : n.KeepsTimers i n.drawInterval.2 := by
  refine ⟨n.drawInterval_keepsDeadline i, n.drawInterval_now, ?_⟩
  unfold drawInterval
  cases n.entropy.below beatWindow.1 beatWindow.2
  rfl

theorem enroll_deadlineEffect (h : n.KeepsTimers i m) (hi : i < n.connections.size)
    (ht : n.HasTimer i) {g : ControlPlane.Grant} (hv : n.hearing? i = some v)
    (hg : v.interval = g.heartbeat) : n.DeadlineEffect i (m.enroll i g) := by
  simp only [enroll, ← hg]
  generalize m.directory.lobby.addChannel _ = added
  generalize (m.directory.withLobby added.2).put _ g.room added.1 = seated
  obtain ⟨e | u, d⟩ := seated
  · dsimp only
    generalize d.del (m.directory.bucketOf g.key) added.1 = gone
    have hi' : i < m.connections.size := h.size ▸ hi
    have hout := m.withDirectory_keepsTimers i gone
    have hdrop := (shutIn_dropsDeadline hi' gone).onlyConnection
      (modifyWire_keepsDeadline _ i Wire.drop).toOnlyConnection
    obtain ⟨hq, -, hr⟩ := hdrop.signOff (d := gone) hi' rfl (f := Channel.dropReceiver)
      (fun _ => ⟨rfl, rfl, rfl⟩) added.1
    have hrest := (modifyWire_keepsTimers (({ m with directory := gone }.dropDeadline i).close i) i
      Wire.drop).trans
      (modifyChannel_signOff_keepsTimers _ i added.1 Channel.dropReceiver)
    exact .leaves ((h.handlesDeadline.keepsTimers hout).dropped ht hrest.timers_eq
      (hq.timer.trans hout.timer.symm))
      (hrest.now.trans ((shut_now _ i).trans (h.trans hout).now)) hr.hasLeft
  · have hkey := (h.handlesDeadline.keepsTimers (m.withDirectory_keepsTimers i d)).trans
      (setKey_handlesDeadline _ i g.key)
    dsimp only
    generalize hset : Node.setTimer _ _ _ = seat
    replace hkey : n.HandlesDeadline i seat := hset ▸ hkey
    cases hd : seat.moveDeadline i v.interval with
    | none =>
      have hdrop := (seat.modifyWire_keepsTimers i Wire.drop).trans
        (modifyChannel_keepsTimers _ i added.1 Channel.dropReceiver)
      exact hkey.overrun ht hv hd (hdrop.trans (crash_keepsTimers _ i added.1)) (reader_crash
        (n := (seat.modifyWire i Wire.drop).modifyChannel added.1 Channel.dropReceiver)
        ((hkey.keepsTimers hdrop).size ▸ hi) _)
    | some moved =>
      have hdraw := moved.drawInterval_keepsTimers i
      dsimp only
      generalize moved.drawInterval = drawn at hdraw
      obtain ⟨interval, k⟩ := drawn
      have hhold := hdraw.trans (k.modifyChannel_keepsTimers i added.1 Channel.hold)
      have hsize := ((hkey.trans (moveDeadline_handlesDeadline hd)).keepsTimers hhold).size
      generalize k.modifyChannel added.1 Channel.hold = held at hhold hsize
      refine hkey.heard ht hv hd (hhold.trans (modifyConnection_keepsTimers held i ?_)) ?_
      · exact fun _ => ⟨rfl, rfl, rfl, fun h => h⟩
      rw [reader_modifyConnection (hsize ▸ hi)]
      simp

theorem readerStep_deadlineEffect (ht : n.HasTimer i) (h : n.readerStep i = some n') :
    n.DeadlineEffect i n' := by
  have hi := readerStep_lt h
  have hstay := KeepsTimers.refl n i
  rw [readerStep] at h
  generalize hr : (n.connection i).reader = r at h
  cases r with
  | awaitingAuth =>
    have hn : n.hearing? i = none := by simp [hearing?, hr]
    dsimp only at h
    split_ifs at h
    · cases h
      exact hstay.handlesDeadline.reject hi ht
    · cases hin : n.nextIncoming i with
      | none => simp [hin] at h
      | some next =>
        obtain ⟨item, m⟩ := next
        have hm := nextIncoming_keepsTimers hin
        rw [hin] at h
        cases item with
        | error e =>
          cases h
          exact hm.handlesDeadline.reject hi ht
        | ok f =>
          cases h
          exact authenticate_deadlineEffect hm hi ht hn f
  | connecting u =>
    dsimp only at h
    split_ifs at h
    cases h
    exact hstay.handlesDeadline.reject hi ht
  | greeting f g =>
    dsimp only at h
    split_ifs at h
    · cases h
      exact hstay.handlesDeadline.reject hi ht
    · cases h
      exact hstay.handlesDeadline.reject hi ht
    · cases h
      exact (n.modifyWire_keepsTimers i _).setReader hi (by simp [hearing?, hr]) (by simp)
  | greeted g =>
    dsimp only at h
    split_ifs at h with hclosed hstalled hfailing
    · cases h
      exact hstay.handlesDeadline.reject hi ht
    · cases h
      exact hstay.handlesDeadline.reject hi ht
    · cases h
      exact enroll_deadlineEffect (n.modifyWire_keepsTimers i Wire.flush) hi ht
        (v := ⟨n.now, g.heartbeat⟩)
        (by simp [hearing?, enrollment?, hr, hclosed, hstalled, hfailing]) rfl
  | serving s =>
    dsimp only at h
    split_ifs at h with hclosed
    · cases h
      exact hstay.handlesDeadline.tearDown hi ht s.channel
    · cases hin : n.nextIncoming i with
      | none => simp [hin] at h
      | some next =>
        obtain ⟨item, m⟩ := next
        have hm := nextIncoming_keepsTimers hin
        have hhead := nextIncoming_head hin
        rw [hin] at h
        cases item with
        | error e =>
          cases h
          exact hm.handlesDeadline.tearDown hi ht s.channel
        | ok f =>
          cases h
          exact serve_deadlineEffect hm hi ht (hearing?_serving hr (by simpa using hclosed) hhead)
  | calling s f u =>
    dsimp only at h
    split_ifs at h
    cases h
    exact hstay.reply hi ht (by simp [hearing?, hr]) s f
  | leaving c u =>
    dsimp only at h
    split_ifs at h
    cases h
    have hrelease := n.modifyChannel_keepsTimers i c Channel.release
    exact hrelease.setReader hi (by simp [hearing?, hr]) (by simp)
  | returned => cases h
  | crashed => cases h

end Node

end PushGateway
