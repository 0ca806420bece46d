import PushGateway.Proofs.Directory.Joining
import PushGateway.Proofs.Node.Authentication
import PushGateway.Proofs.Node.Supervision

/-!
Deadlines past the end of the clock. The task of a connection that is given one ends on the spot,
and nothing else ends a task so. It is past the teardown by then: what the connection holds stays as
it is.
-/

namespace PushGateway

def Reader.isCrashed : Reader → Bool
  | .crashed => true
  | _ => false

theorem Reader.eq_crashed {r : Reader} (h : r.isCrashed) : r = .crashed := by
  cases r with
  | crashed => rfl
  | _ => cases h

namespace Node

/-- The time that a move sets for connection `i` to be heard of by. -/
def deadlineIn (n : Node) (i : Nat) : Move → Option Nanos
  | .event (.open _ _) =>
    if n.connections.size = i then some (n.now + n.config.handshakeTimeout) else none
  | m => (n.heardIn i m).map LastHeard.due

def Overruns (n : Node) (i : Nat) (m : Move) : Prop :=
  ∃ t, n.deadlineIn i m = some t ∧ Nanos.clockEnd ≤ t

def Overran (n : Node) (i : Nat) : List Move → Prop
  | [] => False
  | m :: h => n.Overran i h ∨ (n.after h).Overruns i m

/-- The task of connection `i` is gone without a word to the control plane, and the session that it
was let in with is still counted. -/
structure LeaksSession (n : Node) (i : Nat) (cs : List (Nat × ControlPlane.Grant)) : Prop where
  reader : (n.connection i).reader = .crashed
  unsaid : n.disconnectCalls i = []
  counted : ∀ p ∈ cs,
    0 < (n.directory.bucket (n.directory.bucketOf p.2.key)).ipCount (n.connection i).ip

variable {n n' : Node} {m' : Move} {i c : Nat} {g : ControlPlane.Grant} {v : LastHeard}
    {s : Session} {f : Frame}
  {es : Nat → List (Nat × ControlPlane.Grant)}

theorem putNewChannel_ok (ho : n.directory.WellFormed) (i : Nat) (g : ControlPlane.Grant) :
    (n.putNewChannel i g).1 = .ok () := by
  have hs : (n.newChannel i g).seat = none := rfl
  have hch : (n.directory.lobby.addChannel (n.newChannel i g)).2.channel
    n.directory.lobby.channels.size =
      n.newChannel i g := (n.directory.lobby.channel_addChannel _ _).trans (if_pos rfl)
  refine Directory.put_ok (ho.addChannel hs) _ _ ?_ ?_
  · exact Nat.lt_of_lt_of_eq (Nat.lt_succ_self _) (Array.size_push ..).symm
  · change (n.directory.lobby.addChannel (n.newChannel i g)).2.roomOf
      n.directory.lobby.channels.size = none
    rw [Lobby.roomOf, hch, hs]
    rfl

theorem enroll_overrun (hi : i < n.connections.size) (ho : n.directory.WellFormed)
    (ht : Nanos.clockEnd ≤ n.now + g.heartbeat) : ((n.enroll i g).line i).reader = .crashed := by
  have hwelcome : n.putNewChannel i g =
    (n.directory.withLobby (n.directory.lobby.addChannel (n.newChannel i g)).2).put
    (n.directory.bucketOf g.key) g.room n.directory.lobby.channels.size := rfl
  have hok := putNewChannel_ok ho i g
  simp only [enroll, Lobby.addChannel]
  simp only [newChannel, Lobby.addChannel] at hwelcome
  rw [← hwelcome]
  generalize n.putNewChannel i g = done at hok
  obtain ⟨_, d⟩ := done
  cases hok
  have hsize := (n.seat_onlyConnectionFrom i n.directory.lobby.channels.size d g.key).size
  dsimp only
  generalize hm : Node.setTimer _ _ _ = m at hsize ⊢
  have hnow : m.now = n.now := hm ▸ rfl
  rw [moveDeadline_eq_none.2 (hnow ▸ ht)]
  exact reader_crash (n := (m.modifyWire i Wire.drop).modifyChannel n.directory.lobby.channels.size
    Channel.dropReceiver) (((m.modifyWire_keepsDeadline i Wire.drop).size.trans hsize).symm ▸ hi) _

theorem beat_overrun (h : n.KeepsTimers i n') (hi : i < n.connections.size)
    (ht : Nanos.clockEnd ≤ n.now + s.grant.heartbeat) (f : Frame) :
    ((n'.beat i s f).line i).reader = .crashed := by
  rw [beat, moveDeadline_eq_none.2 (h.now.symm ▸ ht)]
  exact reader_crash (h.size.symm ▸ hi) _

theorem add?_eq_none {κ : Type} {s : Timer.Shard κ} {now delay : Nanos} {key : String}
    {callback : κ} : s.add? now delay key callback = none ↔ Nanos.clockEnd ≤ now + delay := by
  rw [Timer.Shard.add?, Option.map_eq_none_iff, Nanos.after?]
  split_ifs with h
  · exact ⟨False.elim, fun hle => absurd h (Nat.not_lt.2 hle)⟩
  · exact ⟨fun _ => Nat.not_lt.1 h, fun _ => rfl⟩

theorem accept_connections (n : Node) (ip cookie : String) :
    ∃ c, (n.accept ip cookie).connections = n.connections.push c ∧
      (c.reader = .crashed ↔ Nanos.clockEnd ≤ n.now + n.config.handshakeTimeout) := by
  simp only [accept]
  split
  · rename_i hadd
    exact ⟨_, rfl, fun _ => add?_eq_none.1 hadd, fun _ => rfl⟩
  · rename_i a s hadd
    refine ⟨_, rfl, by simp, fun hle => ?_⟩
    rw [add?_eq_none.2 hle] at hadd
    cases hadd

theorem accept_overrun_iff (n : Node) (ip cookie : String) :
    ((n.accept ip cookie).line n.connections.size).reader = .crashed ↔
      Nanos.clockEnd ≤ n.now + n.config.handshakeTimeout := by
  obtain ⟨c, hc, hiff⟩ := n.accept_connections ip cookie
  rw [← hiff, line, connection, hc, Array.getD_eq_getD_getElem?, Array.getElem?_push_size,
    Option.getD_some]
  rfl

theorem readerStep_beat {rest : List (Except GatewayError Frame)}
    (hr : (n.connection i).reader = .serving s) (hc : (n.connection i).closed = false)
    (hin : (n.connection i).wire.incoming = .ok f :: rest) (hop : f.op = Op.heartbeat) :
    n.readerStep i = some ((n.modifyWire i fun w => { w with incoming := rest }).beat i s f) := by
  simp [Node.readerStep, hr, hc, nextIncoming, hin, serve, hop]

theorem hearing?_beat (hr : (n.connection i).reader = .serving s) (hv : n.hearing? i = some v) :
    ∃ f rest, (n.connection i).closed = false ∧ (n.connection i).wire.incoming = .ok f :: rest ∧
      f.op = Op.heartbeat := by
  rw [hearing?, hr] at hv
  dsimp only at hv
  split_ifs at hv with hc
  split at hv
  · rename_i f hin
    split_ifs at hv with hop
    obtain ⟨rest, hrest⟩ := List.head?_eq_some_iff.1 hin
    exact ⟨f, rest, Bool.eq_false_iff.2 hc, hrest, hop⟩
  · cases hv

theorem heard_overrun (ho : n.directory.WellFormed) (hv : n.hearing? i = some v)
    (ht : Nanos.clockEnd ≤ v.due) (h : n.readerStep i = some n') :
    (n'.line i).reader = .crashed := by
  have hi := readerStep_lt h
  rcases hearing?_cases hv with ⟨g, -, he, rfl⟩ | ⟨s, hr, rfl⟩
  · have hmove := (enrollment?_some he).2
    rw [Node.move, step, h, Option.getD_some] at hmove
    rw [hmove]
    exact enroll_overrun ((modifyWire_keepsDeadline n i Wire.flush).size.symm ▸ hi) ho ht
  · obtain ⟨f, rest, hc, hin, hop⟩ := hearing?_beat hr hv
    have hbeat := Option.some.inj (h.symm.trans (readerStep_beat hr hc hin hop))
    rw [hbeat]
    exact beat_overrun (n.modifyWire_keepsTimers i _) hi ht f

theorem crashed_lt (hr : (n.line i).reader = .crashed) : i < n.connections.size := by
  by_contra hi
  rw [line_of_le (Nat.not_lt.1 hi)] at hr
  cases hr

theorem Owned.lost_at_once (h : n.Owned) (hi : n.connections.size ≤ i) (m : Move)
    (hr : ((n.move m).line i).reader = .crashed) : n.Overruns i m := by
  have hlt := crashed_lt hr
  cases h.moveEffect m with
  | background he hd => exact absurd (hd.size ▸ hlt) (Nat.not_lt.2 hi)
  | reading j hm hj hc => exact absurd (hc.onlyConnection.size ▸ hlt) (Nat.not_lt.2 hi)
  | writing j c hm hc hw => exact absurd (hw.size ▸ hlt) (Nat.not_lt.2 hi)
  | opensConnection ip cookie hm ho =>
    have hi' : n.connections.size = i :=
      Nat.le_antisymm hi (Nat.lt_succ_iff.1 (Nat.lt_of_lt_of_eq hlt ho.size))
    subst hi' hm
    exact ⟨_, if_pos rfl, (n.accept_overrun_iff ip cookie).1 hr⟩

theorem Overruns.move_reader (hd : n.directory.WellFormed) (h : n.Overruns i m') :
    ((n.move m').line i).reader = .crashed := by
  obtain ⟨t, ht, hle⟩ := h
  have hheard {v : LastHeard} (hv : n.heardIn i m' = some v) (hdue : Nanos.clockEnd ≤ v.due) :
      ((n.move m').line i).reader = .crashed := by
    obtain ⟨-, hhear, hs⟩ := heardIn_some hv
    exact heard_overrun hd hhear hdue hs
  unfold deadlineIn at ht
  split at ht
  · rename_i ip cookie
    split_ifs at ht with hi
    cases ht
    subst hi
    exact (n.accept_overrun_iff ip cookie).2 hle
  · obtain ⟨v, hv, rfl⟩ := Option.map_eq_some_iff.1 ht
    exact hheard hv hle

theorem deadlineIn_heard (h : n.heardIn i m' = some v) : n.deadlineIn i m' = some v.due := by
  obtain ⟨rfl, -, -⟩ := heardIn_some h
  rw [deadlineIn, h, Option.map_some]
  nofun

/-- A task ends in a move that sets a time the clock cannot show, and in no other. -/
theorem DeadlinesInOrder.crashed_move_iff (h : n.DeadlinesInOrder) (ho : n.Owned)
    (hd : n.directory.WellFormed) (m : Move) :
    ((n.move m).line i).reader = .crashed ↔ (n.line i).reader = .crashed ∨ n.Overruns i m := by
  refine ⟨fun hr => ?_, ?_⟩
  · rcases Nat.lt_or_ge i n.connections.size with hi | hi
    · cases hv : n.heardIn i m with
      | none => exact .inl (h.crashed_before ho hi hv hr)
      | some v =>
        obtain ⟨rfl, hhear, hs⟩ := heardIn_some hv
        cases readerStep_deadlineEffect (h.hasTimer hi) hs with
        | still hn _ _ _ => cases hn.symm.trans hhear
        | heard _ _ _ _ _ _ _ hne => exact absurd hr hne
        | overrun w hw hle _ _ _ =>
          cases hw.symm.trans hhear
          exact .inr ⟨_, deadlineIn_heard hv, hle⟩
        | leaves _ _ hl =>
          rw [hr] at hl
          cases hl
    · exact .inr (ho.lost_at_once hi m hr)
  · rintro (hr | hover)
    · exact ho.crashed_move (crashed_lt hr) hr m
    · exact hover.move_reader hd

theorem DeadlinesInOrder.crashed_iff (h : n.DeadlinesInOrder) (ho : n.Owned)
    (hp : n.ListsChannels fun _ => []) (hr : (n.line i).reader ≠ .crashed) (ms : List Move) :
    ((n.after ms).line i).reader = .crashed ↔ n.Overran i ms := by
  induction ms with
  | nil => exact ⟨hr, False.elim⟩
  | cons m ms ih =>
    rw [Node.after, (h.after ho ms).crashed_move_iff (ho.after ms) (hp.after ho ms).wellFormed m,
      ih, Overran]

theorem Owned.disconnectCalls_elsewhere (h : n.Owned) (hm : m' ≠ .task (.reader i)) :
    (n.move m').disconnectCalls i = n.disconnectCalls i := by
  cases h.moveCases m' with
  | onlyArrivals _ ha => exact disconnectCalls_congr ha.presence i
  | reading j hj hr =>
    obtain ⟨calls, hcalls, hof⟩ := hr.presence
    exact disconnectCalls_others hcalls hof fun hij => hm (hij ▸ hj)
  | writing j _ hw =>
    obtain ⟨d, g, hturn⟩ := h.writerLineChange hw
    exact disconnectCalls_congr hturn.onlyChannel.presence i

theorem Reading.unsaid {gs : List ControlPlane.Grant} (h : n.Reading i n')
    (ha : n.DisconnectsMatch i gs) (hr : (n'.line i).reader = .crashed) :
    n'.disconnectCalls i = [] := by
  have htold := ha.told
  cases h with
  | overrun g c hg _ hadm =>
    rw [disconnectCalls_congr hadm.presence]
    rw [hg] at htold
    exact htold.2.1
  | crashed s rest hs hq =>
    rw [disconnectCalls_congr hq.presence]
    exact (htold.session hs).2.1
  | rejected rest _ _ hq =>
    rw [hq.here] at hr
    cases hr
  | asked r rest _ _ hr' he _ =>
    rw [he.here] at hr
    rcases hr' with rfl | ⟨u, rfl⟩ <;> cases hr
  | granted f g rest _ _ _ _ he _ =>
    rw [he.here] at hr
    cases hr
  | greeted f g _ hq =>
    rw [hq.here] at hr
    cases hr
  | enrolled g s _ _ ht _ =>
    rw [ht.here] at hr
    cases hr
  | unseated g c r _ hl _ _ ht _ _ =>
    rw [ht.here] at hr
    cases hr
    cases hl
  | replied s s' f rest _ _ _ ht _ =>
    rw [ht.here] at hr
    cases hr
  | calling s f u rest _ _ hq =>
    rw [hq.here] at hr
    cases hr
  | tornDown s r rest _ hl ht _ _ =>
    rw [ht.here] at hr
    cases hr
    cases hl
  | left c u _ hq =>
    rw [hq.here] at hr
    cases hr

theorem DisconnectsMatch.unsaid_move {gs : List ControlPlane.Grant} (ha : n.DisconnectsMatch i gs)
    (ho : n.Owned) (h : (n.line i).reader = .crashed → n.disconnectCalls i = []) (m : Move)
    (hr : ((n.move m).line i).reader = .crashed) : (n.move m).disconnectCalls i = [] := by
  by_cases hm : m = .task (.reader i)
  · subst hm
    rcases ho.own i with hn | ⟨hstep, -⟩
    · rw [hn]
      exact h (hn ▸ hr)
    · exact (ho.reading_of_step hstep).unsaid ha hr
  · rw [ho.disconnectCalls_elsewhere hm]
    rcases Nat.lt_or_ge i n.connections.size with hi | hi
    · exact h (ho.reader_elsewhere hi hm ▸ hr)
    · have htold := ha.told
      rw [line_of_le hi] at htold
      exact htold.2.1

theorem DisconnectsMatch.unsaid (ha : n.DisconnectsMatch i []) (ho : n.Owned)
    (hr : (n.line i).reader ≠ .crashed) (ms : List Move)
    (hr' : ((n.after ms).line i).reader = .crashed) : (n.after ms).disconnectCalls i = [] := by
  induction ms with
  | nil => exact absurd hr' hr
  | cons m ms ih => exact (ha.after ho ms).unsaid_move (ho.after ms) ih m hr'

theorem ListsChannels.counted_at (h : n.ListsChannels es) (hmem : (c, g) ∈ es i)
    (hl : (n.line i).reader.hasLeft = false) :
    0 < (n.directory.bucket (n.directory.bucketOf g.key)).ipCount (n.connection i).ip := by
  obtain ⟨ts, ht, hts⟩ := h.registers
  obtain ⟨hkey, hip⟩ := h.names i c g hmem
  rw [(ht.ips _).ipCount]
  refine List.countP_pos_iff.2 ⟨c, ListsChannels.mem_registered hts hmem hl, ?_⟩
  simp only [show (n.directory.lobby.channel c).key = g.key from hkey,
    show (n.directory.lobby.channel c).ip = (n.connection i).ip from hip, and_self, decide_true]

theorem ListsChannels.roomOf_move (h : n.ListsChannels es) (ho : n.Owned) (hmem : (c, g) ∈ es i)
    (hr : (n.line i).reader = .crashed) (m : Move) :
    (n.move m).directory.lobby.roomOf c = n.directory.lobby.roomOf c := by
  cases ho.moveEffect m with
  | background he hd => exact hd.directory.roomOf c
  | opensConnection ip cookie hm ho => rw [ho.directory]
  | writing j d hm hd hw => exact hw.directory.roomOf c
  | reading j hm hj hc =>
    by_cases hij : j = i
    · subst hij
      have hstuck : n.readerStep j = none := by
        rw [readerStep]
        simp [show (n.connection j).reader = _ from hr]
      rw [hm, Node.move, step, hstuck, Option.getD_none]
    · obtain ⟨d, hprivate, hby⟩ := hc.keepsOthers h ho.buckets
      exact hby.roomOf (hprivate i (Ne.symm hij) _ hmem)

theorem Owned.crashed_after (h : n.Owned) (hr : (n.line i).reader = .crashed) (ms : List Move) :
    ((n.after ms).line i).reader = .crashed := by
  induction ms with
  | nil => exact hr
  | cons m ms ih => exact (h.after ms).crashed_move (crashed_lt ih) ih m

theorem enrolments_append {p : Nat × ControlPlane.Grant} {ms : List Move} (later : List Move)
    (hp : p ∈ n.enrolments i ms) : p ∈ n.enrolments i (later ++ ms) := by
  induction later with
  | nil => exact hp
  | cons m later ih => exact List.mem_append_left _ ih

theorem ListsChannels.roomOf_after (h : n.ListsChannels fun _ => []) (ho : n.Owned) {ms : List Move}
    (hmem : (c, g) ∈ n.enrolments i ms) (hr : ((n.after ms).line i).reader = .crashed)
    (later : List Move) :
    (n.after (later ++ ms)).directory.lobby.roomOf c = (n.after ms).directory.lobby.roomOf c := by
  induction later with
  | nil => rfl
  | cons m later ih =>
    have hgone : ((n.after (later ++ ms)).line i).reader = .crashed := by
      rw [after_append]
      exact (ho.after ms).crashed_after hr later
    have hstay := (h.after ho (later ++ ms)).roomOf_move (ho.after _)
      (enrolments_append later hmem) hgone m
    exact hstay.trans ih

/-- In every run the task of a connection is lost exactly if the connection has been given a time
that the clock cannot show, by the handshake timeout or by the heartbeat interval of its grant. It
stays lost, whatever happens: it never tells the control plane, whoever it was let in as stays
counted, and stays in its room. -/
theorem after_overran (config : Config) (hostname : Option String) (entropy : Entropy)
    (ms : List Move) (i : Nat) :
    let start := new config hostname entropy
    let n := start.after ms
    ((n.connection i).reader = .crashed ↔ start.Overran i ms) ∧
    (start.Overran i ms → ∀ later, (n.after later).LeaksSession i (start.enrolments i ms) ∧
      ∀ p ∈ start.enrolments i ms,
        (n.after later).directory.lobby.roomOf p.1 = n.directory.lobby.roomOf p.1) := by
  intro start n
  have howned := new_owned config hostname entropy
  have hplaced := new_listsChannels config hostname entropy
  have hblank : (start.line i).reader ≠ .crashed := by
    rw [new_line]
    nofun
  have hiff := (new_deadlinesInOrder config hostname entropy).crashed_iff howned hplaced hblank ms
  refine ⟨hiff, fun hover later => ?_⟩
  have hr : (n.line i).reader = .crashed := hiff.2 hover
  have hr' : ((start.after (later ++ ms)).line i).reader = .crashed := by
    rw [after_append]
    exact (howned.after ms).crashed_after hr later
  have hl : ((start.after (later ++ ms)).line i).reader.hasLeft = false := by rw [hr']; rfl
  rw [show n.after later = start.after (later ++ ms) from (after_append ..).symm]
  refine ⟨⟨hr', (new_disconnectsMatch config hostname entropy i).unsaid howned hblank _ hr', ?_⟩,
    ?_⟩
  · exact fun p hp => (hplaced.after howned (later ++ ms)).counted_at
      (enrolments_append later hp) hl
  · exact fun p hp => hplaced.roomOf_after howned hp hr later

/-- The longest heartbeat interval that a token can ask for. -/
def longestInterval : ControlPlane.Grant where
  mid := 1
  key := "k"
  room := "r"
  platform := ""
  accepts := []
  heartbeat := .ofSeconds 18446744073709551615

def longestIntervalVisit : List Move :=
  let token := Text.Utf8.encode "1|k|r|||18446744073709551615".toList
  [.task (.reader 0), .task (.reader 0), .task (.reader 0),
    .event (.arrive 0 [.ok { authFrame 1 with body := token }]), .event (.open "ip" "")]

def nodeAfterOverrun : Node := (new Config.testing none ⟨0⟩).after longestIntervalVisit

/-- An hour later the client is still in its room. -/
theorem after_overran_longestIntervalVisit :
    (new Config.testing none ⟨0⟩).Overran 0 longestIntervalVisit ∧
      (nodeAfterOverrun.after [.event (.advance (.ofSeconds 3600))]).LeaksSession 0
      [(0, longestInterval)] ∧ (nodeAfterOverrun.after
      [.event (.advance (.ofSeconds 3600))]).directory.lobby.roomOf 0 = some 0 := by
  have hover : (new Config.testing none ⟨0⟩).Overran 0 longestIntervalVisit :=
    .inr ⟨longestInterval.heartbeat, by decide +kernel, by decide +kernel⟩
  have hin : (new Config.testing none ⟨0⟩).enrolments 0 longestIntervalVisit =
    [(0, longestInterval)] := by decide +kernel
  have hroom : nodeAfterOverrun.directory.lobby.roomOf 0 = some 0 := by decide +kernel
  obtain ⟨hleft, hstays⟩ := (after_overran Config.testing none ⟨0⟩ longestIntervalVisit 0).2 hover
    [.event (.advance (.ofSeconds 3600))]
  rw [hin] at hleft hstays
  exact ⟨hover, hleft, (hstays (0, longestInterval) (List.mem_singleton_self _)).trans hroom⟩

/-- The settings have been checked, and the token is a token: it is all the client needs. -/
theorem longestIntervalVisit_admitted :
    Config.testing.validate = .ok () ∧
    ControlPlane.Token.parse (Text.Utf8.encode "1|k|r|||18446744073709551615".toList) "" =
    .ok longestInterval ∧ (nodeAfterOverrun.connection 0).reader = .crashed ∧
    nodeAfterOverrun.session? "k" = some 0 ∧ nodeAfterOverrun.plane.isOnline "k" ∧
    (nodeAfterOverrun.directory.bucket (nodeAfterOverrun.directory.bucketOf "k")).ipCount "ip" = 1 ∧
    (nodeAfterOverrun.directory.lobby.room 0).members = [0] ∧
    nodeAfterOverrun.disconnectCalls 0 = [] := by
  refine ⟨by decide +kernel, by decide +kernel, Reader.eq_crashed (by decide +kernel),
    by decide +kernel, by decide +kernel, by decide +kernel, by decide +kernel, by decide +kernel⟩

end Node

end PushGateway
