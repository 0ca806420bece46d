import PushGateway.Proofs.Node.LineChanges

/-!
How a session ends. Its channel is taken out of the directory, its deadline off the timer, and the
control plane is told; the reader returns once that call is answered or given up.
-/

namespace PushGateway

inductive Reader.MayFollowLastCall (c : Nat) : Reader → Prop
  | returned : MayFollowLastCall c .returned
  | leaving (until' : Nanos) : MayFollowLastCall c (.leaving c until')

namespace Node

structure ToldDisconnect (n : Node) (i : Nat) (mid : Int64) (key : String) (n' : Node) : Prop where
  presence : n'.presence = n.presence ++ [(some i, .disconnect n.serverId mid key)]
  online : n.faults.get? .disconnect = none → n'.online? =
    if n.online? key = some mid then Function.update n.online? key none else n.online?
  buckets : n'.directory.buckets.size = n.directory.buckets.size
  lobby : n.directory.lobby.NobodyReceives n'.directory.lobby
variable {n n' m : Node} {i : Nat} {g g' : Line → Line}

theorem shut_quiet (hi : i < n.connections.size) :
    n.QuietLineChange i (fun l => l) ((n.dropDeadline i).close i) := by
  have hd := n.dropDeadline_quiet i i
  exact hd.trans (close_quiet (hd.size ▸ hi))

theorem reject_quiet (hi : i < n.connections.size) :
    n.QuietLineChange i (fun l => { l with reader := .returned }) (n.reject i) := by
  have hc := shut_quiet hi
  exact hc.trans (modifyConnection_quiet (hc.size ▸ hi) fun _ => rfl)

theorem finishReader_quiet (hi : i < n.connections.size) (c : Nat) :
    n.QuietLineChange i (fun l => { l with reader := .returned }) (n.finishReader i c) := by
  have hr := n.modifyChannel_quiet i c Channel.release (Channel.release_receives _)
  exact hr.trans (setReader_quiet (hr.size ▸ hi) .returned)

theorem crash_quiet (hi : i < n.connections.size) (c : Nat) :
    n.QuietLineChange i (fun l => { l with reader := .crashed }) (n.crash i c) := by
  have hr := n.modifyChannel_quiet i c Channel.release (Channel.release_receives _)
  exact hr.trans (setReader_quiet (hr.size ▸ hi) .crashed)

theorem disconnect_sessions (p : ControlPlane) (mid : Int64) (key : String) :
    (p.disconnect mid key).sessions.get? = if p.sessions.get? key = some mid then
      Function.update p.sessions.get? key none else p.sessions.get? := by
  rw [ControlPlane.disconnect]
  split_ifs
  · funext k
    rw [Table.get?_erase, Function.update_apply]
    simp only [eq_comm]
  · rfl

theorem callDisconnect_toldDisconnect (n : Node) (i : Nat) (mid : Int64) (key : String) :
    n.LineChange i (fun l => l) (n.callDisconnect (some i) mid key).2 ∧
    n.ToldDisconnect i mid key (n.callDisconnect (some i) mid key).2 ∧
    (n.callDisconnect (some i) mid key).2.directory = n.directory := by
  have hcalls := n.record_presence (some i) (.disconnect n.serverId mid key)
  simp only [callDisconnect, answer]
  split
  · rename_i hf
    refine ⟨.aside rfl rfl rfl, ⟨hcalls, ?_, rfl, Lobby.NobodyReceives.refl _⟩, rfl⟩
    intro hn
    cases hn.symm.trans hf
  · rename_i hf
    refine ⟨.aside rfl rfl rfl, ⟨hcalls, ?_, rfl, Lobby.NobodyReceives.refl _⟩, rfl⟩
    intro hn
    cases hn.symm.trans hf
  · have honline := disconnect_sessions n.plane mid key
    exact ⟨.aside rfl rfl rfl, ⟨hcalls, fun _ => honline, rfl, Lobby.NobodyReceives.refl _⟩, rfl⟩

theorem ToldDisconnect.trans_quiet {mid : Int64} {key : String} (h : n.ToldDisconnect i mid key n')
    (hq : n'.QuietLineChange i g m) : n.ToldDisconnect i mid key m := by
  refine ⟨hq.presence.trans h.presence, ?_, hq.buckets.trans h.buckets, h.lobby.trans hq.lobby⟩
  intro hf
  rw [hq.online, h.online hf]

theorem signOff_toldDisconnect (hi : i < n.connections.size) {c : Nat} {mid : Int64}
    (hm : (n.channel c).mid = mid) {key : String} (hk : (n.channel c).key = key) :
    ∃ r, r.MayFollowLastCall c ∧
      n.LineChange i (fun l => { l with reader := r }) (n.signOff i c) ∧
      n.ToldDisconnect i mid key (n.signOff i c) ∧ (n.signOff i c).session? = n.session? := by
  obtain ⟨hturn, htold, hdir⟩ := n.callDisconnect_toldDisconnect i mid key
  have hsession : (n.callDisconnect (some i) mid key).2.session? = n.session? :=
    congrArg Directory.find? hdir
  rw [signOff, hm, hk]
  generalize n.callDisconnect (some i) mid key = called at *
  obtain ⟨answer, n'⟩ := called
  have hi' : i < n'.connections.size := hturn.size ▸ hi
  cases answer with
  | ready r =>
    have hq := finishReader_quiet hi' c
    exact ⟨.returned, .returned, hturn.trans hq.toLineChange, htold.trans_quiet hq,
      hq.session.trans hsession⟩
  | never =>
    have hq := setReader_quiet hi' (.leaving c n'.giveUp)
    exact ⟨_, .leaving _, hturn.trans hq.toLineChange, htold.trans_quiet hq,
      hq.session.trans hsession⟩

theorem ToldDisconnect.of_lobby {mid : Int64} {key : String} (h : n'.ToldDisconnect i mid key m)
    (hp : n'.presence = n.presence) (ho : n'.online? = n.online?) (hs : n'.serverId = n.serverId)
    (hf : n'.faults = n.faults) (hb : n'.directory.buckets.size = n.directory.buckets.size)
    (hl : n.directory.lobby.NobodyReceives n'.directory.lobby) : n.ToldDisconnect i mid key m := by
  refine ⟨?_, ?_, h.buckets.trans hb, hl.trans h.lobby⟩
  · rw [h.presence, hp, hs]
  · rw [← hf, ← ho]
    exact h.online

theorem ToldDisconnect.of_quiet {mid : Int64} {key : String} (h : n'.ToldDisconnect i mid key m)
    (hq : n.QuietLineChange i g n') : n.ToldDisconnect i mid key m :=
  h.of_lobby hq.presence hq.online hq.serverId hq.faults hq.buckets hq.lobby

theorem del_session (hb : 0 < n.directory.buckets.size) {c : Nat} {key : String}
    (hk : (n.channel c).key = key) : (n.directory.del (n.directory.bucketOf key) c).find? =
      if n.session? key = some c then Function.update n.session? key none else n.session? := by
  funext k
  rw [Directory.del_find? hb hk]
  change (if k = key ∧ n.session? key = some c then none else n.session? k) = _
  by_cases hs : n.session? key = some c
  · rw [if_pos hs, Function.update_apply]
    simp only [hs, and_true]
  · rw [if_neg hs, if_neg fun h => hs h.2]

theorem tearDown_toldDisconnect (hi : i < n.connections.size) (hb : 0 < n.directory.buckets.size)
    {c : Nat} (hc : c < n.directory.lobby.channels.size) {mid : Int64}
    (hm : (n.channel c).mid = mid) {key : String} (hk : (n.channel c).key = key) :
    ∃ r, r.MayFollowLastCall c ∧
    n.LineChange i (fun l => { l with reader := r }) (n.tearDown i c) ∧
    n.ToldDisconnect i mid key (n.tearDown i c) ∧ (n.tearDown i c).session? =
      if n.session? key = some c then Function.update n.session? key none else n.session? := by
  have hquiet := n.directory.del_nobodyReceives (n.directory.bucketOf key) c
  have hbuckets := n.directory.del_buckets (n.directory.bucketOf key) c
  have hfind := del_session hb hk
  rw [tearDown, hk]
  generalize n.directory.del (n.directory.bucketOf key) c = d at *
  have hturn : n.LineChange i (fun l => l) { n with directory := d } := .aside rfl rfl rfl
  have hq := (shut_quiet (n := { n with directory := d }) hi).trans
    (modifyChannel_quiet _ i c Channel.close (Channel.close_receives _))
  have hheard := (hquiet.trans hq.lobby).channel c hc
  obtain ⟨r, hr, hturn', htold, hsession⟩ :=
    signOff_toldDisconnect (hq.size ▸ hi) (hheard.mid.trans hm) (hheard.key.trans hk)
  refine ⟨r, hr, (hturn.trans hq.toLineChange).trans hturn', ?_, ?_⟩
  · exact (htold.of_quiet hq).of_lobby (n.withDirectory_presence d)
      (n.withDirectory_online d) rfl rfl
      hbuckets hquiet
  · rw [hsession, hq.session]
    exact hfind

end Node

end PushGateway
