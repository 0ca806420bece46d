import PushGateway.Proofs.Node.Disconnecting
import PushGateway.Proofs.Ring

/-!
How a session begins. The control plane is asked for a grant, which takes its key online; when the
client has been greeted, a new channel goes under the key. A channel that no room would take goes
out as it came in.
-/

namespace PushGateway

namespace Channel

structure Fresh (ch : Channel) (g : ControlPlane.Grant) : Prop where
  mid : ch.mid = g.mid
  key : ch.key = g.key
  inbound : ch.inbound.Holds []
  pushes : ch.outbox.pushes = []
variable {ch ch' : Channel} {g : ControlPlane.Grant}

theorem Fresh.receives (h : ch.Fresh g) (hh : ch.Receives [] ch') : ch'.Fresh g := by
  refine ⟨hh.mid.trans h.mid, hh.key.trans h.key, ?_, ?_⟩
  · rw [hh.inbound]
    exact h.inbound
  · rw [hh.pushes, h.pushes]
    rfl

theorem Fresh.dropReceiver (h : ch.Fresh g) : ch.dropReceiver.Fresh g :=
  ⟨h.mid, h.key, h.inbound, rfl⟩

theorem new_fresh (g : ControlPlane.Grant) (ip : String) (cli svr : Nat) (canWait : Bool) :
    (Channel.new g.mid g.key ip cli svr canWait).Fresh g := ⟨rfl, rfl, Ring.new_holds cli, rfl⟩
end Channel

namespace Node

structure AskedConnect (n : Node) (i : Nat) (g : Line → Line) (n' : Node) :
    Prop extends LineChange n i g n' where
  buckets : n'.directory.buckets.size = n.directory.buckets.size
  lobby : n.directory.lobby.NobodyReceives n'.directory.lobby
  presence : ∃ offered cookie token,
    n'.presence = n.presence ++ [(some i, .connect n.serverId offered cookie token)]
  session : n'.session? = n.session?

structure LetIn (n : Node) (g : ControlPlane.Grant) (c : Nat) (n' : Node) : Prop where
  fresh : c = n.directory.lobby.channels.size
  lt : c < n'.directory.lobby.channels.size
  channel : (n'.channel c).Fresh g
  buckets : n'.directory.buckets.size = n.directory.buckets.size
  lobby : n.directory.lobby.NobodyReceives n'.directory.lobby
  presence : n'.presence = n.presence
  online : n'.online? = n.online?
  session : n'.session? = Function.update n.session? g.key (some c)
variable {n n' m : Node} {i : Nat} {g g' : Line → Line}

theorem QuietLineChange.askedConnect (hq : n.QuietLineChange i g n') (h : n'.AskedConnect i g' m) :
    n.AskedConnect i (fun l => g' (g l)) m := by
  obtain ⟨offered, cookie, token, hp⟩ := h.presence
  refine ⟨hq.toLineChange.trans h.toLineChange, h.buckets.trans hq.buckets, hq.lobby.trans h.lobby,
    ⟨offered, cookie, token, ?_⟩, h.session.trans hq.session⟩
  rw [hp, hq.presence, hq.serverId]

theorem AskedConnect.trans_quiet (h : n.AskedConnect i g n') (hq : n'.QuietLineChange i g' m) :
    n.AskedConnect i (fun l => g' (g l)) m := by
  obtain ⟨offered, cookie, token, hp⟩ := h.presence
  exact ⟨h.toLineChange.trans hq.toLineChange, hq.buckets.trans h.buckets, h.lobby.trans hq.lobby,
    ⟨offered, cookie, token, hq.presence.trans hp⟩, hq.session.trans h.session⟩

theorem nextKey_quiet (n : Node) (i : Nat) : n.QuietLineChange i (fun l => l) n.nextKey.2 := by
  unfold nextKey
  cases n.entropy.uuid with
  | mk key entropy => exact ⟨.aside rfl rfl rfl, rfl, Lobby.NobodyReceives.refl _, rfl, rfl, rfl⟩

theorem connect_sessions {p : ControlPlane} {offered : String} {token : Bytes}
    {g : ControlPlane.Grant} (h : (p.connect offered token).1 = .ok g) :
    (p.connect offered token).2.sessions = p.sessions.insert g.key g.mid := by
  rw [ControlPlane.connect] at h ⊢
  split at h
  · cases h
  · cases h
    rfl

theorem connect_refused {p : ControlPlane} {offered : String} {token : Bytes}
    {e : ControlPlane.Refusal} (h : (p.connect offered token).1 = .error e) :
    (p.connect offered token).2 = p := by
  rw [ControlPlane.connect] at h ⊢
  split at h
  · rfl
  · cases h

theorem insert_online (t : Table String Int64) (key : String) (mid : Int64) :
    (t.insert key mid).get? = Function.update t.get? key (some mid) := by
  funext k
  rw [Table.get?_insert, Function.update_apply]
  simp only [eq_comm]

def onlineAfter (online : String → Option Int64) : Answer ControlPlane.Grant → String → Option Int64
  | .ready (.ok g) => Function.update online g.key (some g.mid)
  | .ready (.error _) | .never => online

theorem answer_askedConnect (n : Node) (i : Nat) (offered cookie : String) (token : Bytes)
    {f : ControlPlane.Grant → ControlPlane.Grant}
    (hf : ∀ g, (f g).key = g.key ∧ (f g).mid = g.mid) :
    let asked := n.record (some i) (.connect n.serverId offered cookie token)
    let done := asked.answer .connect ((n.plane.connect offered token).1.map f)
      (n.plane.connect offered token).2
    n.AskedConnect i (fun l => l) done.2 ∧ done.2.online? = onlineAfter n.online? done.1 := by
  have hp : ∃ offered' cookie' token',
    (n.record (some i) (.connect n.serverId offered cookie token)).presence =
      n.presence ++ [(some i, .connect n.serverId offered' cookie' token')] :=
    ⟨offered, cookie, token, n.record_presence (some i) (.connect n.serverId offered cookie token)⟩
  simp only [answer]
  split
  · exact ⟨⟨.aside rfl rfl rfl, rfl, Lobby.NobodyReceives.refl _, hp, rfl⟩, rfl⟩
  · exact ⟨⟨.aside rfl rfl rfl, rfl, Lobby.NobodyReceives.refl _, hp, rfl⟩, rfl⟩
  · refine ⟨⟨.aside rfl rfl rfl, rfl, Lobby.NobodyReceives.refl _, hp, rfl⟩, ?_⟩
    cases hc : (n.plane.connect offered token).1 with
    | error e =>
      funext k
      change (n.plane.connect offered token).2.sessions.get? k = n.plane.sessions.get? k
      rw [connect_refused hc]
    | ok g =>
      change (n.plane.connect offered token).2.sessions.get? =
        Function.update n.plane.sessions.get? (f g).key (some (f g).mid)
      rw [connect_sessions hc, insert_online, (hf g).1, (hf g).2]

theorem callConnect_askedConnect (n : Node) (i : Nat) (cookie : String) (token : Bytes) :
    n.AskedConnect i (fun l => l) (n.callConnect (some i) cookie token).2 ∧
    (n.callConnect (some i) cookie token).2.online? =
      onlineAfter n.online? (n.callConnect (some i) cookie token).1 := by
  have hkey := n.nextKey_quiet i
  let own (g : ControlPlane.Grant) : ControlPlane.Grant :=
    if g.heartbeat = 0 then { g with heartbeat := n.nextKey.2.config.heartbeatInterval } else g
  have hown (g : ControlPlane.Grant) : (own g).key = g.key ∧ (own g).mid = g.mid := by
    simp only [own]
    split_ifs <;> exact ⟨rfl, rfl⟩
  obtain ⟨he, ho⟩ := n.nextKey.2.answer_askedConnect i n.nextKey.1 cookie token hown
  rw [hkey.online] at ho
  exact ⟨hkey.askedConnect he, ho⟩

variable {grant : ControlPlane.Grant} {c : Nat}

theorem put_letIn (hb : 0 < n.directory.buckets.size) {ch : Channel} (hch : ch.Fresh grant)
    (id : String) :
    n.LetIn grant n.directory.lobby.channels.size
      { n with directory := ((n.directory.withLobby (n.directory.lobby.addChannel ch).2).put
          (n.directory.bucketOf grant.key) id n.directory.lobby.channels.size).2 } := by
  have hadd := n.directory.lobby.addChannel_nobodyReceives ch
  have hsize : (n.directory.lobby.addChannel ch).2.channels.size =
    n.directory.lobby.channels.size + 1 :=
    Array.size_push ..
  have hnew : (n.directory.lobby.addChannel ch).2.channel n.directory.lobby.channels.size = ch := by
    rw [Lobby.channel_addChannel, if_pos rfl]
  generalize hl : (n.directory.lobby.addChannel ch).2 = l at *
  have hbucket : (n.directory.withLobby l).bucketOf grant.key = n.directory.bucketOf grant.key :=
    Directory.bucketOf_congr rfl grant.key
  have hput := (n.directory.withLobby l).put_nobodyReceives (n.directory.bucketOf grant.key) id
    n.directory.lobby.channels.size
  have hlt : n.directory.lobby.channels.size < l.channels.size := by omega
  refine ⟨rfl, Nat.lt_of_lt_of_le hlt hput.size, ?_, ?_, hadd.trans hput,
    n.withDirectory_presence _, n.withDirectory_online _, ?_⟩
  · exact (hnew.symm ▸ hch : (l.channel _).Fresh grant).receives (hput.channel _ hlt)
  · exact Directory.put_buckets ..
  · funext k
    have hkey : ((n.directory.withLobby l).lobby.channel n.directory.lobby.channels.size).key =
      grant.key :=
      (congrArg Channel.key hnew).trans hch.key
    have hfind := Directory.put_find? (d := n.directory.withLobby l) hb hkey id k
    rw [hbucket] at hfind
    rw [Function.update_apply]
    exact hfind

theorem LetIn.trans_quiet (h : n.LetIn grant c n') (hq : n'.QuietLineChange i g m) :
    n.LetIn grant c m :=
  ⟨h.fresh, Nat.lt_of_lt_of_le h.lt hq.lobby.size, h.channel.receives (hq.lobby.channel c h.lt),
    hq.buckets.trans h.buckets, h.lobby.trans hq.lobby, hq.presence.trans h.presence,
    hq.online.trans h.online, hq.session.trans h.session⟩

theorem LetIn.dropReceiver (h : n.LetIn grant c n') :
    n.LetIn grant c (n'.modifyChannel c Channel.dropReceiver) := by
  refine ⟨h.fresh, ?_, ?_, h.buckets, h.lobby.modify_new (Nat.le_of_eq h.fresh.symm) _, h.presence,
    h.online, h.session⟩
  · rw [modifyChannel_size]
    exact h.lt
  · rw [channel_modifyChannel, if_pos ⟨rfl, h.lt⟩]
    exact h.channel.dropReceiver

theorem unseat_toldDisconnect (hi : i < n.connections.size) (hb : 0 < n.directory.buckets.size)
    {d : Directory} (h : n.LetIn grant c { n with directory := d }) {b : Nat}
    (hbk : b = n.directory.bucketOf grant.key) :
    let out := ((({ n with directory := d.del b c }.dropDeadline i).close i).modifyWire i
      Wire.drop).modifyChannel
      c Channel.dropReceiver
    ∃ r, r.MayFollowLastCall c ∧ c < (out.signOff i c).directory.lobby.channels.size ∧
      n.LineChange i (fun l => { l with reader := r }) (out.signOff i c) ∧
      n.ToldDisconnect i grant.mid grant.key (out.signOff i c) ∧
      (out.signOff i c).session? = Function.update n.session? grant.key none := by
  have hbk' : b = d.bucketOf grant.key :=
    hbk.trans (Directory.bucketOf_congr h.buckets grant.key).symm
  have hquiet := d.del_nobodyReceives b c
  have hbuckets := (d.del_buckets b c).trans h.buckets
  have hfind : (d.del b c).find? = Function.update n.session? grant.key none := by
    have hf := del_session (n := { n with directory := d }) (h.buckets.symm ▸ hb) h.channel.key
    rw [h.session, Function.update_self, if_pos rfl, Function.update_idem] at hf
    rw [hbk']
    exact hf
  have hfresh := h.channel.receives (hquiet.channel c h.lt)
  have hlt := Nat.lt_of_lt_of_le h.lt hquiet.size
  have hlobby := h.lobby.trans hquiet
  generalize d.del b c = d' at *
  intro out
  have hturn : n.LineChange i (fun l => l) { n with directory := d' } := .aside rfl rfl rfl
  have hshut := shut_quiet (n := { n with directory := d' }) hi
  have hq := hshut.trans (drop_quiet (hshut.size ▸ hi))
  have hlt' := Nat.lt_of_lt_of_le hlt hq.lobby.size
  have hout : (out.channel c).Fresh grant := by
    rw [channel_modifyChannel, if_pos ⟨rfl, hlt'⟩]
    exact (hfresh.receives (hq.lobby.channel c hlt)).dropReceiver
  have hnobody : n.directory.lobby.NobodyReceives out.directory.lobby :=
    (hlobby.trans hq.lobby).modify_new (Nat.le_of_eq h.fresh.symm) _
  obtain ⟨r, hr, hturn', htold, hsession⟩ :=
    signOff_toldDisconnect (n := out) (hq.size ▸ hi) hout.mid hout.key
  refine ⟨r, hr, ?_, ((hturn.trans hq.toLineChange).trans (modifyChannel_lineChange _ i c _)).trans
    hturn', ?_, ?_⟩
  · refine Nat.lt_of_lt_of_le ?_ htold.lobby.size
    rw [modifyChannel_size]
    exact hlt'
  · exact htold.of_lobby (hq.presence.trans (n.withDirectory_presence d'))
      (hq.online.trans (n.withDirectory_online d')) hq.serverId hq.faults
      (hq.buckets.trans hbuckets) hnobody
  · exact hsession.trans (hq.session.trans hfind)

inductive Enrolling (n : Node) (i : Nat) (grant : ControlPlane.Grant) (n' : Node) : Prop
  | serving (s : Session) : s.grant = grant →
      n.LineChange i (fun l => { l with reader := .serving s, writer := .waiting s.channel }) n' →
      n.LetIn grant s.channel n' → Enrolling n i grant n'
  | overrun (c : Nat) : n.LineChange i (fun l => { l with reader := .crashed }) n' →
      n.LetIn grant c n' → Enrolling n i grant n'
  | unseated (c : Nat) (r : Reader) : r.MayFollowLastCall c → n.directory.lobby.channels.size ≤ c →
      c < n'.directory.lobby.channels.size → n.LineChange i (fun l => { l with reader := r }) n' →
      n.ToldDisconnect i grant.mid grant.key n' →
      n'.session? = Function.update n.session? grant.key none → Enrolling n i grant n'

theorem enroll_enrolling (hi : i < n.connections.size) (hb : 0 < n.directory.buckets.size)
    (grant : ControlPlane.Grant) : n.Enrolling i grant (n.enroll i grant) := by
  have hfresh :
    ((Channel.new grant.mid grant.key (n.connection i).ip n.config.cliProto n.config.svrProto
      true).watch grant.accepts).Fresh grant := (Channel.new_fresh ..).receives
      (Channel.watch_receives _ _)
  have hadm := put_letIn hb hfresh grant.room
  simp only [enroll, Lobby.addChannel]
  simp only [Lobby.addChannel] at hadm
  generalize Directory.put _ _ _ _ = done at hadm ⊢
  obtain ⟨e | u, d⟩ := done
  · obtain ⟨r, hr, hlt, hturn, htold, hsession⟩ := unseat_toldDisconnect hi hb hadm rfl
    exact .unseated _ r hr (Nat.le_refl _) hlt hturn htold hsession
  · have hturn : n.LineChange i (fun l => l) { n with directory := d } := .aside rfl rfl rfl
    have hset := setTimer_quiet { n with directory := d } i (n.connection i).timer
      (({ n with directory := d }.timer (n.connection i).timer).setKey
        (n.connection i).deadline grant.key)
    dsimp only
    generalize Node.setTimer _ _ _ = n' at hset ⊢
    have hi' : i < n'.connections.size := hset.size ▸ hi
    have hadm' := hadm.trans_quiet hset
    have hturn' := hturn.trans hset.toLineChange
    split
    · have hdrop := drop_quiet hi'
      have hgone := (hadm'.trans_quiet hdrop).dropReceiver
      have hout := (hturn'.trans hdrop.toLineChange).trans
        (modifyChannel_lineChange _ i n.directory.lobby.channels.size Channel.dropReceiver)
      have hcrash := crash_quiet (hout.size ▸ hi) n.directory.lobby.channels.size
      exact .overrun _ (hout.trans hcrash.toLineChange) (hgone.trans_quiet hcrash)
    · rename_i moved hm
      have hmove := moveDeadline_quiet (i := i) hm
      have hdraw := hmove.trans (moved.drawInterval_quiet i)
      generalize moved.drawInterval = drawn at hdraw ⊢
      obtain ⟨interval, n''⟩ := drawn
      have hhold := hdraw.trans
        (n''.modifyChannel_quiet i n.directory.lobby.channels.size Channel.hold
          (Channel.hold_receives _))
      let s : Session := ⟨grant, n.directory.lobby.channels.size, interval, n''.now⟩
      have hlast : Node.QuietLineChange _ i
          (fun l => { l with reader := .serving s, writer := .waiting s.channel }) _ :=
        modifyConnection_quiet (n := n''.modifyChannel n.directory.lobby.channels.size Channel.hold)
          (hhold.size ▸ hi')
          (f := fun conn => { conn with reader := .serving s, writer := .waiting s.channel })
            fun _ => rfl
      exact .serving s rfl ((hturn'.trans hhold.toLineChange).trans hlast.toLineChange)
        ((hadm'.trans_quiet hhold).trans_quiet hlast)

end Node

end PushGateway
