import PushGateway.Proofs.Node.Departure
import PushGateway.Proofs.Node.Replies

/-!
How a channel gets into the directory. The first frame of a connection asks for it, the control
plane accepts what the frame holds, the auth reply goes out, and then a channel comes in with what
was granted. Until then nothing is written but that reply, nothing is asked of the control plane but
to accept, and nothing that the client sends reaches the directory.
-/

namespace PushGateway.Node

/-- The next step of connection `i` is to read its auth frame `f` and to call the control plane,
which accepts what the frame holds and grants `g`. -/
structure Accepts (n : Node) (i : Nat) (f : Frame) (g : ControlPlane.Grant) : Prop where
  reader : (n.connection i).reader = .awaitingAuth
  closed : (n.connection i).closed = false
  op : f.op = Op.auth
  answer : ∃ m, n.nextIncoming i = some (.ok f, m) ∧
    (m.callConnect (some i) (m.connection i).cookie f.body).1 = .ready (.ok g)

structure GrantedFor (start : Node) (i : Nat) (f : Frame) (g : ControlPlane.Grant) (h : List Move) :
    Prop where
  first : (start.arrivals i h).head? = some (.ok f)
  accepted : ∃ later earlier, h = later ++ .task (.reader i) :: earlier ∧
    (start.after earlier).Accepts i f g

structure CarriesGrant (n : Node) (c : Nat) (g : ControlPlane.Grant) : Prop where
  mid : (n.channel c).mid = g.mid
  key : (n.channel c).key = g.key
  watched : (n.channel c).watched = g.accepts
  room : (n.directory.lobby.roomOf c).map (fun r => (n.directory.lobby.room r).id) =
    if g.room = "" then none else some g.room

/-- After history `h` the reader of connection `i` flushes the auth reply, the one thing that has
been written, and then lets channel `c` in with what has been granted. -/
structure AdmitsAfterReply (start : Node) (i c : Nat) (f : Frame) (g : ControlPlane.Grant)
    (h : List Move) : Prop where
  grantedFor : start.GrantedFor i f g h
  first : start.enrolments i h = []
  greeted : ∃ n : Node, n = (start.after h).modifyWire i Wire.flush ∧
    (n.line i).written = [.frame (f.emptied Op.authReply)] ∧ (n.line i).flushed = 1 ∧
    c = n.directory.lobby.channels.size ∧ start.after (.task (.reader i) :: h) = n.enroll i g
  carriesGrant : (start.after (.task (.reader i) :: h)).CarriesGrant c g

/-- What connection `i` has done in history `h`, if it has not been let in. -/
structure NotLetIn (start : Node) (i : Nat) (h : List Move) : Prop where
  written : ((start.after h).line i).written = [] ∨ ∃ f g, start.GrantedFor i f g h ∧
    ((start.after h).line i).written = [.frame (f.emptied Op.authReply)]
  calls : ∀ call ∈ (start.after h).calls i, call.isConnect
  moves : ∀ m, (start.after h).Makes i m → start.enrolments i (m :: h) = [] →
    ((start.after h).move m).directory = (start.after h).directory

def WrittenBefore (l : Line) (vouched : Frame → ControlPlane.Grant → Prop)
    (arrived : List (Except GatewayError Frame)) : Prop :=
  match l.reader with
  | .awaitingAuth => arrived = l.incoming ∧ l.written = []
  | .connecting _ => l.written = []
  | .greeting r g => l.written = [] ∧ ∃ f, vouched f g ∧ r = f.emptied Op.authReply
  | .greeted g => ∃ f, vouched f g ∧ l.written = [.frame (f.emptied Op.authReply)]
  | _ => l.written = [] ∨ ∃ f g, vouched f g ∧ l.written = [.frame (f.emptied Op.authReply)]

variable {n n' start : Node} {i c : Nat} {f : Frame} {g : ControlPlane.Grant} {m : Move}
    {h later : List Move}
  {v v' : Frame → ControlPlane.Grant → Prop} {arrived : List (Except GatewayError Frame)}
  {l l' : Line}

theorem accepts_of_connectAnswer? {rest : List (Except GatewayError Frame)}
    (hr : (n.line i).reader = .awaitingAuth) (ha : n.connectAnswer? i = some (.ready (.ok g)))
    (hin : (n.line i).incoming = .ok f :: rest) : n.Accepts i f g := by
  have hr' : (n.connection i).reader = .awaitingAuth := hr
  have hin' : (n.connection i).wire.incoming = .ok f :: rest := hin
  have hnext : n.nextIncoming i =
      some (.ok f, n.modifyWire i fun w => { w with incoming := rest }) := by
    rw [nextIncoming, hin']
  simp only [connectAnswer?, hr', hnext] at ha
  split_ifs at ha with hc hop
  exact ⟨hr', Bool.eq_false_iff.2 hc, hop, _, hnext, Option.some.inj ha⟩

theorem GrantedFor.cons (hv : start.GrantedFor i f g h) (m : Move) :
    start.GrantedFor i f g (m :: h) := by
  obtain ⟨later, earlier, rfl, ha⟩ := hv.accepted
  refine ⟨?_, m :: later, earlier, rfl, ha⟩
  rw [arrivals, List.head?_append, hv.first]
  rfl

theorem WrittenBefore.written_eq (hu : WrittenBefore l v arrived) :
    l.written = [] ∨ ∃ f g, v f g ∧ l.written = [.frame (f.emptied Op.authReply)] := by
  rw [WrittenBefore] at hu
  split at hu
  · exact .inl hu.2
  · exact .inl hu
  · exact .inl hu.1
  · rename_i g _
    obtain ⟨f, hf, hw⟩ := hu
    exact .inr ⟨f, g, hf, hw⟩
  · exact hu

theorem WrittenBefore.mono (hu : WrittenBefore l v arrived) (hv : ∀ f g, v f g → v' f g) :
    WrittenBefore l v' arrived := by
  have hwritten : l.written = [] ∨ ∃ f g, v' f g ∧ l.written = [.frame (f.emptied Op.authReply)] :=
    hu.written_eq.imp_right fun ⟨f, g, hf, hw⟩ => ⟨f, g, hv f g hf, hw⟩
  rw [WrittenBefore] at hu ⊢
  split at hu
  · exact hu
  · exact hu
  · exact ⟨hu.1, hu.2.imp fun f hf => ⟨hv f _ hf.1, hf.2⟩⟩
  · exact hu.imp fun f hf => ⟨hv f _ hf.1, hf.2⟩
  · exact hwritten

theorem WrittenBefore.arrive (hu : WrittenBefore l v arrived)
    (more : List (Except GatewayError Frame)) :
    WrittenBefore { l with incoming := l.incoming ++ more } v (arrived ++ more) := by
  obtain ⟨reader, writer, incoming, written, flushed⟩ := l
  cases reader with
  | awaitingAuth => exact ⟨congrArg (· ++ more) hu.1, hu.2⟩
  | _ => exact hu

theorem WrittenBefore.over (hu : WrittenBefore l v arrived) (hw : l'.written = l.written)
    (hr : l'.reader.isHandshake = false) : WrittenBefore l' v arrived := by
  have hwritten := hw ▸ hu.written_eq
  obtain ⟨reader, writer, incoming, written, flushed⟩ := l'
  cases reader with
  | awaitingAuth => cases hr
  | connecting u => cases hr
  | greeting r g => cases hr
  | greeted g => cases hr
  | _ => exact hwritten

theorem Reading.stage (hr : n.Reading i n') : (n.line i).reader.isHandshake ∨
    ∃ c, (n.line i).reader.channel? = some c := by
  have hsession {s : Session} (hs : (n.line i).reader.session? = some s) :
      ∃ c, (n.line i).reader.channel? = some c := ⟨s.channel, Reader.channel?_of_session? hs⟩
  cases hr with
  | rejected rest hs ha hq => exact .inl hs
  | asked r rest ha hn hr he ho => exact .inl (by rw [ha]; rfl)
  | granted f g rest ha hn hin hop he ho => exact .inl (by rw [ha]; rfl)
  | greeted f g hg hq => exact .inl (by rw [hg]; rfl)
  | enrolled g s hg hsg ht hadm => exact .inl (by rw [hg]; rfl)
  | overrun g c hg ht hadm => exact .inl (by rw [hg]; rfl)
  | unseated g c r hg hl hle hlt ht hp hs => exact .inl (by rw [hg]; rfl)
  | replied s s' f rest hw hg hc ht htouch => exact .inr (hsession hw.session?)
  | calling s f u rest hs hw hq => exact .inr (hsession hw.session?)
  | tornDown s r rest hs hl ht hp hn => exact .inr (hsession hs)
  | crashed s rest hs hq => exact .inr (hsession hs)
  | left c u hl hq => exact .inr ⟨c, by rw [hl]; rfl⟩

theorem WrittenBefore.reading (hu : WrittenBefore (n.line i) v arrived)
    (hs : (n.line i).reader.isHandshake) (hr : n.Reading i n')
    (hv : ∀ f g, arrived.head? = some (.ok f) → n.Accepts i f g → v f g) :
    WrittenBefore (n'.line i) v arrived := by
  cases hr with
  | rejected rest hs ha hq => exact hu.over (by rw [hq.here]) (by rw [hq.here]; rfl)
  | asked r rest ha hn hr he ho =>
    rcases hr with rfl | ⟨u, rfl⟩
    · exact hu.over (by rw [he.here]) (by rw [he.here]; rfl)
    · rw [WrittenBefore, ha] at hu
      rw [he.here]
      exact hu.2
  | granted f g rest ha hn hin hop he ho =>
    have haccepts := accepts_of_connectAnswer? ha hn hin
    rw [WrittenBefore, ha] at hu
    rw [he.here]
    exact ⟨hu.2, f, hv f g (by rw [hu.1, hin]; rfl) haccepts, rfl⟩
  | greeted r g hg hq =>
    rw [WrittenBefore, hg] at hu
    obtain ⟨hw, f, hf, rfl⟩ := hu
    rw [hq.here]
    exact ⟨f, hf, by rw [hw]; rfl⟩
  | enrolled g s hg hsg ht hadm => exact hu.over (by rw [ht.here]) (by rw [ht.here]; rfl)
  | overrun g c hg ht hadm => exact hu.over (by rw [ht.here]) (by rw [ht.here]; rfl)
  | unseated g c r hg hl hle hlt ht hp hs =>
    exact hu.over (by rw [ht.here]) (by rw [ht.here]; exact hl.isHandshake)
  | replied s s' f rest hw hg hc ht htouch =>
    exact absurd hs (Bool.eq_false_iff.1 (Reader.isHandshake_of_session? hw.session?))
  | calling s f u rest hs' hw hq =>
    exact absurd hs (Bool.eq_false_iff.1 (Reader.isHandshake_of_session? hw.session?))
  | tornDown s r rest hs' hl ht hp hn =>
    exact absurd hs (Bool.eq_false_iff.1 (Reader.isHandshake_of_session? hs'))
  | crashed s rest hs' hq =>
    exact absurd hs (Bool.eq_false_iff.1 (Reader.isHandshake_of_session? hs'))
  | left c u hl hq => exact absurd hs (Bool.eq_false_iff.1 (by rw [hl]; rfl))

theorem ListsChannels.not_owns {es : Nat → List (Nat × ControlPlane.Grant)}
    (hp : n.ListsChannels es) (he : es i = []) : ¬ (n.line i).Owns c := by
  intro hown
  obtain ⟨g, hmem⟩ := hp.owned i c hown
  rw [he] at hmem
  cases hmem

theorem WrittenBefore.move {es : Nat → List (Nat × ControlPlane.Grant)}
    (hu : WrittenBefore ((start.after h).line i) (start.GrantedFor i · · h) (start.arrivals i h))
    (ho : (start.after h).Owned) (hp : (start.after h).ListsChannels es) (he : es i = [])
    (m : Move) :
    WrittenBefore ((start.after (m :: h)).line i) (start.GrantedFor i · · (m :: h))
      (start.arrivals i (m :: h)) := by
  have hmono : WrittenBefore ((start.after h).line i) (start.GrantedFor i · · (m :: h))
    (start.arrivals i h) :=
    hu.mono fun f g hv => hv.cons m
  have harrivals {t : Task} (hm : m = .task t) :
      start.arrivals i (m :: h) = start.arrivals i h := by
    rw [hm]
    exact List.append_nil _
  -- Another connection's task changes nothing of this one.
  have hsame {t : Task} (hm : m = .task t)
      (hl : (start.after (m :: h)).line i = (start.after h).line i) :
      WrittenBefore ((start.after (m :: h)).line i) (start.GrantedFor i · · (m :: h))
        (start.arrivals i (m :: h)) := by
    rw [harrivals hm, hl]
    exact hmono
  cases ho.moveCases m with
  | onlyArrivals _ ha =>
    rcases ha.line i with hl | ⟨-, hl⟩
    · exact (congrArg (WrittenBefore · _ _) hl).mpr (hmono.arrive _)
    · exact (congrArg (WrittenBefore · _ _) hl).mpr (.inl rfl)
  | reading j hm hr =>
    by_cases hij : i = j
    · subst hij
      rcases hr.stage with hs | ⟨c, hc⟩
      · rw [harrivals hm]
        exact hmono.reading hs hr fun f g hf ha => ⟨harrivals hm ▸ hf, [], h, by rw [hm]; rfl, ha⟩
      · exact absurd (.inl hc) (hp.not_owns he)
    · obtain ⟨g, ht⟩ := hr.lineChange
      exact hsame hm (ht.elsewhere i hij)
  | writing j hm hw =>
    obtain ⟨c, g, ht⟩ := ho.writerLineChange hw
    by_cases hij : i = j
    · subst hij
      exact absurd (.inr ht.before) (hp.not_owns he)
    · exact hsame hm (ht.elsewhere i hij)

theorem calls_move {es : Nat → List (Nat × ControlPlane.Grant)} (ho : n.Owned)
    (hp : n.ListsChannels es) (he : n.letIn es m i = [])
    (hcalls : ∀ call ∈ n.calls i, call.isConnect) :
    ∀ call ∈ (n.move m).calls i, call.isConnect := by
  have hes : es i = [] := (List.append_eq_nil_iff.1 he).1
  have hsame (hc : (n.move m).calls i = n.calls i) : ∀ call ∈ (n.move m).calls i, call.isConnect :=
    hc ▸ hcalls
  have hconnects (hk : n.OnlyConnectCalls i (n.move m)) : ∀ call ∈ (n.move m).calls i,
      call.isConnect := by
    obtain ⟨calls, hc, hall⟩ := hk.calls
    intro call hmem
    rw [hc] at hmem
    exact (List.mem_append.1 hmem).elim (hcalls call) (hall call)
  cases ho.moveEffect m with
  | background hnone hd => exact hsame (hd.calls i)
  | opensConnection ip cookie hm hopen => exact hsame (hopen.calls i)
  | writing j c hm hc hw =>
    by_cases hij : i = j
    · subst hij
      exact absurd (.inr hc) (hp.not_owns hes)
    · exact hsame (hw.calls i hij)
  | reading j hm hj hc =>
    by_cases hij : i = j
    · subst hij
      have hsession {s : Session} (hs : (n.line i).reader.session? = some s) :
        (n.line i).Owns s.channel :=
        .inl (Reader.channel?_of_session? hs)
      cases hc with
      | shaking hs hnone hs' hserve hk => exact hconnects hk
      | rejected hs hnone hr hquit hk => exact hconnects hk
      | enrollEffect g hg hn' henr =>
        rw [letIn, hm, enrolled_reader, if_pos rfl, hg] at he
        exact absurd (List.append_eq_nil_iff.1 he).2 (List.cons_ne_nil _ _)
      | served s s' hs hs' hch ha => exact absurd (hsession hs) (hp.not_owns hes)
      | crashed s hs hr ha => exact absurd (hsession hs) (hp.not_owns hes)
      | tornDown s m hs ha hv => exact absurd (hsession hs) (hp.not_owns hes)
      | left c u hl hr hserve hd ht =>
        exact absurd (.inl (by rw [hl]; rfl)) (hp.not_owns (c := c) hes)
    · exact hsame (hc.onlyConnection.calls i hij)

theorem ListsChannels.of_session {es : Nat → List (Nat × ControlPlane.Grant)}
    (hp : n.ListsChannels es) (hc : (∃ b key, n.directory.session? b key = some c) ∨
      ∃ r, c ∈ (n.directory.lobby.room r).members) :
    ∃ i g, (c, g) ∈ es i ∧ (n.line i).reader.hasLeft = false := by
  obtain ⟨ts, ht, hts⟩ := hp.registers
  refine (hts c).1 ?_
  rcases hc with ⟨b, key, hs⟩ | ⟨r, hr⟩
  · exact (ht.session b key c hs).1
  · exact ht.roomOf c r ((hp.wellFormed.seatsAgree.mem_members c r).1 hr)

theorem mem_enrolments (hmem : (c, g) ∈ start.enrolments i h) : ∃ later earlier,
    h = later ++ .task (.reader i) :: earlier ∧ (start.after earlier).enrollment? i = some g ∧
      c = (start.after earlier).directory.lobby.channels.size ∧
      (c, g) ∈ start.enrolments i (.task (.reader i) :: earlier) := by
  induction h with
  | nil => cases hmem
  | cons m h ih =>
    rcases List.mem_append.1 hmem with hold | hnew
    · obtain ⟨later, earlier, rfl, he, hc⟩ := ih hold
      exact ⟨m :: later, earlier, rfl, he, hc⟩
    · obtain ⟨g', hg', heq⟩ := List.mem_map.1 hnew
      cases heq
      have he : (start.after h).enrolled i m = some g := Option.mem_toList.1 hg'
      cases m with
      | event e => cases he
      | deliver d f => cases he
      | task t =>
        cases t with
        | reader j =>
          rw [enrolled_reader] at he
          split_ifs at he with hj
          subst hj
          exact ⟨[], h, rfl, he, rfl, hmem⟩
        | _ => cases he

theorem enrollment?_some (he : n.enrollment? i = some g) : (n.line i).reader = .greeted g ∧
    n.move (.task (.reader i)) = (n.modifyWire i Wire.flush).enroll i g := by
  rw [enrollment?] at he
  split at he
  · rename_i g' hr
    split_ifs at he with hc
    cases he
    obtain ⟨hclosed, hstalled, hfailing⟩ : _ ∧ _ ∧ _ := by simpa only [not_or] using hc
    have hstep : n.readerStep i = some ((n.modifyWire i Wire.flush).enroll i g) := by
      simp only [readerStep, hr]
      rw [if_neg hclosed, if_neg hstalled, if_neg hfailing]
    exact ⟨hr, congrArg (Option.getD · n) hstep⟩
  · cases he

theorem Reading.letIn (hr : n.Reading i n') (hg : (n.line i).reader = .greeted g)
    (hl : (n'.line i).reader.hasLeft = false) : n.LetIn g n.directory.lobby.channels.size n' := by
  have hnone {s : Session} (hs : (n.line i).reader.session? = some s) : False := by
    rw [hg] at hs
    cases hs
  cases hr with
  | rejected rest hs ha hq =>
    rw [hq.here] at hl
    cases hl
  | asked r rest ha hn hr he ho => cases ha.symm.trans hg
  | granted f g' rest ha hn hin hop he ho => cases ha.symm.trans hg
  | greeted f g' hg' hq => cases hg'.symm.trans hg
  | enrolled g' s hg' hsg ht hadm =>
    cases hg'.symm.trans hg
    exact hadm.fresh ▸ hadm
  | overrun g' c hg' ht hadm =>
    cases hg'.symm.trans hg
    exact hadm.fresh ▸ hadm
  | unseated g' c r hg' hleaves hle hlt ht hp hs =>
    rw [ht.here] at hl
    exact absurd hleaves.hasLeft (Bool.eq_false_iff.1 hl)
  | replied s s' f rest hw hgr hc ht htouch => exact (hnone hw.session?).elim
  | calling s f u rest hs hw hq => exact (hnone hw.session?).elim
  | tornDown s r rest hs hleaves ht hp hn => exact (hnone hs).elim
  | crashed s rest hs hq => exact (hnone hs).elim
  | left c u hleft hq => cases hleft.symm.trans hg

theorem newChannel_watched (n : Node) (i : Nat) (g : ControlPlane.Grant) :
    (n.newChannel i g).watched = g.accepts := by
  change [] ++ g.accepts.filter (fun op => !([] : List Int32).contains op) = g.accepts
  simp

theorem EnrollEffect.carriesGrant {ts : List Nat} (h : n.EnrollEffect i g n')
    (ho : n.directory.WellFormed) (ht : n.directory.Registers ts)
    (hb : 0 < n.directory.buckets.size) (hl : (n'.line i).reader.hasLeft = false)
    (hmid : (n'.channel n.directory.lobby.channels.size).mid = g.mid) :
    n'.CarriesGrant n.directory.lobby.channels.size g := by
  obtain ⟨-, -, hkey, -⟩ := n.putNewChannel_names i g
  obtain ⟨-, -, -, hwatched, hnone, hsome⟩ := putNewChannel_new ho ht hb i g
  cases h with
  | unseated hq hd hr =>
    rw [hr.hasLeft] at hl
    cases hl
  | seated hok hh hr =>
    refine ⟨hmid, (hh.directory.key _).trans hkey, ?_, ?_⟩
    · exact (hh.watched.trans hwatched).trans (n.newChannel_watched i g)
    · rw [hh.directory.roomOf]
      split_ifs with hroom
      · rw [hnone hroom]
        rfl
      · obtain ⟨r, hr, hid⟩ := hsome hroom hok
        rw [hr, Option.map_some, hh.directory.id, hid]

theorem admitsAfterReply_of_enrollment? (ho : (start.after h).Owned)
    (hp : (start.after h).ListsChannels fun i => start.enrolments i h)
    (hu : start.enrolments i h = [] →
      WrittenBefore ((start.after h).line i) (start.GrantedFor i · · h) (start.arrivals i h))
    (he : (start.after h).enrollment? i = some g)
    (hl : ((start.after (.task (.reader i) :: h)).line i).reader.hasLeft = false) :
    ∃ f, start.AdmitsAfterReply i (start.after h).directory.lobby.channels.size f g h := by
  obtain ⟨hg, hmove⟩ := enrollment?_some he
  have hfirst := hp.waiting i (enrollment?_isHandshake he)
  have hbefore := hu hfirst
  rw [WrittenBefore, hg] at hbefore
  obtain ⟨f, hv, hw⟩ := hbefore
  obtain ⟨ts, ht, -⟩ := hp.registers
  have hi : i < (start.after h).connections.size := by
    by_contra hi
    rw [line_of_le (Nat.not_lt.1 hi)] at hg
    cases hg
  have hq := flush_quiet hi
  refine ⟨f, hv, hfirst, ⟨_, rfl, ?_, ?_, rfl, hmove⟩, ?_⟩
  · rw [hq.here]
    exact hw
  · rw [hq.here]
    exact congrArg List.length hw
  · have henr := enroll_enrollEffect (hq.size ▸ hi) g
    rw [← hmove] at henr
    refine henr.carriesGrant hp.wellFormed ht ho.buckets hl ?_
    cases ho.moveCases (.task (.reader i)) with
    | onlyArrivals hstuck ha =>
      have hnone := enrollment?_of_stuck (hstuck i rfl)
      rw [he] at hnone
      cases hnone
    | reading j hm hr =>
      cases hm
      exact (hr.letIn hg hl).channel.mid
    | writing j hm hw => cases hm

theorem Owned.hasLeft_move (ho : n.Owned) (hl : (n.line i).reader.hasLeft) (m : Move) :
    ((n.move m).line i).reader.hasLeft := by
  have hsame (hc : (n.move m).connection i = n.connection i) :
      ((n.move m).line i).reader.hasLeft := by
    rw [line, hc]
    exact hl
  have hshaking (hs : (n.line i).reader.isHandshake) : False :=
    absurd hs (Bool.eq_false_iff.1 (Reader.isHandshake_of_hasLeft hl))
  cases ho.moveEffect m with
  | background hnone hd =>
    obtain ⟨closed, wire, hc, -⟩ := hd.connection i
    rw [line, hc]
    exact hl
  | opensConnection ip cookie hm hopen =>
    refine hsame (hopen.others i ?_)
    rintro rfl
    rw [line_of_le (Nat.le_refl _)] at hl
    cases hl
  | writing j c hm hc hw =>
    by_cases hij : i = j
    · subst hij
      rw [hw.reader]
      exact hl
    · exact hsame (hw.others i hij)
  | reading j hm hj hc =>
    by_cases hij : i = j
    · subst hij
      cases hc with
      | shaking hs hnone hs' hserve hk => exact (hshaking hs).elim
      | rejected hs hnone hr hquit hk => exact (hshaking hs).elim
      | enrollEffect g hg hn' henr => exact (hshaking (enrollment?_isHandshake hg)).elim
      | served s s' hs hs' hch ha =>
        exact absurd hl (Bool.eq_false_iff.1 (Reader.hasLeft_of_session? hs))
      | crashed s hs hr ha => exact absurd hl (Bool.eq_false_iff.1 (Reader.hasLeft_of_session? hs))
      | tornDown s m hs ha hv => exact hv.reader.hasLeft
      | left c u hleft hr hserve hd ht =>
        rw [hr]
        rfl
    · exact hsame (hc.onlyConnection.others i hij)

theorem Owned.hasLeft_after (ho : n.Owned) (hl : (n.line i).reader.hasLeft) (ms : List Move) :
    ((n.after ms).line i).reader.hasLeft := by
  induction ms with
  | nil => exact hl
  | cons m ms ih => exact (ho.after ms).hasLeft_move ih m

theorem KeepsNames.trans {n'' : Node} (h : n.KeepsNames n') (h' : n'.KeepsNames n'') :
    n.KeepsNames n'' := by
  refine ⟨Nat.le_trans h.size h'.size, fun c hc => ?_, fun c hc => ?_⟩
  · rw [h'.mid c (Nat.lt_of_lt_of_le hc h.size), h.mid c hc]
  · rw [h'.key c (Nat.lt_of_lt_of_le hc h.size), h.key c hc]

theorem Reading.keepsNames (h : n.Reading i n') : n.KeepsNames n' := by
  cases h with
  | rejected rest hs ha hq => exact .of_delivers hq.lobby
  | asked r rest ha hn hr he ho => exact .of_delivers he.lobby
  | granted f g rest ha hn hin hop he ho => exact .of_delivers he.lobby
  | greeted f g hg hq => exact .of_delivers hq.lobby
  | enrolled g s hg hsg ht hadm => exact .of_delivers hadm.lobby
  | overrun g c hg ht hadm => exact .of_delivers hadm.lobby
  | unseated g c r hg hl hle hlt ht hp hs => exact .of_delivers hp.lobby
  | replied s s' f rest hw hg hc ht htouch => exact htouch.keepsNames
  | calling s f u rest hs hw hq => exact .of_delivers hq.lobby
  | tornDown s r rest hs hl ht hp hn => exact .of_delivers hp.lobby
  | crashed s rest hs hq => exact .of_delivers hq.lobby
  | left c u hl hq => exact .of_delivers hq.lobby

theorem Owned.keepsNames (ho : n.Owned) (ms : List Move) : n.KeepsNames (n.after ms) := by
  induction ms with
  | nil => exact ⟨Nat.le_refl _, fun _ _ => rfl, fun _ _ => rfl⟩
  | cons m ms ih =>
    refine ih.trans ?_
    cases (ho.after ms).moveCases m with
    | onlyArrivals _ ha => exact .of_delivers ha.lobby
    | reading i hm hr => exact hr.keepsNames
    | writing i hm hw =>
      obtain ⟨c, g, ht⟩ := (ho.after ms).writerLineChange hw
      exact ht.onlyChannel.keepsNames

theorem after_append (n : Node) (later h : List Move) :
    n.after (later ++ h) = (n.after h).after later := by
  induction later with
  | nil => rfl
  | cons m later ih => exact congrArg (·.move m) ih

section

variable (config : Config) (hostname : Option String) (entropy : Entropy)

theorem after_listsChannels (ms : List Move) :
    let start := new config hostname entropy
    (start.after ms).ListsChannels fun i => start.enrolments i ms :=
  (new_listsChannels config hostname entropy).after (new_owned config hostname entropy) ms

theorem after_writtenBefore (i : Nat) (ms : List Move) :
    let start := new config hostname entropy
    start.enrolments i ms = [] →
      WrittenBefore ((start.after ms).line i) (start.GrantedFor i · · ms) (start.arrivals i ms) ∧
        ∀ call ∈ (start.after ms).calls i, call.isConnect := by
  intro start
  induction ms with
  | nil =>
    intro _
    refine ⟨?_, nofun⟩
    rw [after, new_line]
    exact ⟨rfl, rfl⟩
  | cons m ms ih =>
    intro he
    have hfirst : start.enrolments i ms = [] := (List.append_eq_nil_iff.1 he).1
    obtain ⟨hu, hcalls⟩ := ih hfirst
    have ho := (new_owned config hostname entropy).after ms
    have hp := after_listsChannels config hostname entropy ms
    exact ⟨hu.move ho hp hfirst m, calls_move ho hp he hcalls⟩

theorem after_admitsAfterReply {ms : List Move}
    (hmem : (c, g) ∈ (new config hostname entropy).enrolments i ms)
    (hl : (((new config hostname entropy).after ms).line i).reader.hasLeft = false) :
    let start := new config hostname entropy
    ∃ f later h, ms = later ++ .task (.reader i) :: h ∧ start.AdmitsAfterReply i c f g h ∧
      ((start.after ms).channel c).mid = g.mid ∧ ((start.after ms).channel c).key = g.key := by
  intro start
  obtain ⟨later, h, rfl, hgrant, rfl, hnew⟩ := mem_enrolments hmem
  have ho := (new_owned config hostname entropy).after (.task (.reader i) :: h)
  have happend := start.after_append later (.task (.reader i) :: h)
  have hstays : ((start.after (.task (.reader i) :: h)).line i).reader.hasLeft = false := by
    by_contra hleft
    have hleft' := ho.hasLeft_after (eq_true_of_ne_false hleft) later
    rw [← happend, hl] at hleft'
    cases hleft'
  obtain ⟨f, hadmits⟩ := admitsAfterReply_of_enrollment?
    ((new_owned config hostname entropy).after h) (after_listsChannels config hostname entropy h)
    (fun he => (after_writtenBefore config hostname entropy i h he).1)
    hgrant hstays
  have hlt := (after_listsChannels config hostname entropy _).lt i _ g hnew
  have hkeeps := ho.keepsNames later
  rw [happend]
  exact ⟨f, later, h, rfl, hadmits, (hkeeps.mid _ hlt).trans hadmits.carriesGrant.mid,
    (hkeeps.key _ hlt).trans hadmits.carriesGrant.key⟩

/-- In every run a channel that stands under a key or sits in a room is that of a connection whose
first frame asked for authentication and was accepted by the control plane, and whose auth reply
went out before the channel came in with the names, the operations and the room of the grant. A
connection that has not been let in has written that reply at most, has been the reason of connect
calls alone, and has not touched the directory. -/
theorem after_authentication (ms : List Move) :
    let start := new config hostname entropy
    let n := start.after ms
    (∀ c, ((∃ b key, n.directory.session? b key = some c) ∨
      ∃ r, c ∈ (n.directory.lobby.room r).members) → ∃ i f g later h,
      ms = later ++ .task (.reader i) :: h ∧ start.AdmitsAfterReply i c f g h ∧
        (n.channel c).mid = g.mid ∧ (n.channel c).key = g.key) ∧
    ∀ i, start.enrolments i ms = [] → start.NotLetIn i ms := by
  intro start n
  have howned := (new_owned config hostname entropy).after ms
  have hplaced := after_listsChannels config hostname entropy ms
  refine ⟨fun c hc => ?_, fun i he => ?_⟩
  · obtain ⟨i, g, hmem, hl⟩ := hplaced.of_session hc
    obtain ⟨f, later, h, hms, hadmits, hnames⟩ :=
      after_admitsAfterReply config hostname entropy hmem hl
    exact ⟨i, f, g, later, h, hms, hadmits, hnames⟩
  · obtain ⟨hu, hcalls⟩ := after_writtenBefore config hostname entropy i ms he
    exact ⟨hu.written_eq, hcalls, fun m hm he' => (hm.ownMove howned).directory hplaced he'⟩

theorem after_authentication_sameKeyLogins :
    let start := new Config.testing none ⟨0⟩
    let n := start.after sameKeyLogins
    (∃ i f g later h, sameKeyLogins = later ++ .task (.reader i) :: h ∧
      start.AdmitsAfterReply i 0 f g h ∧ (n.channel 0).mid = g.mid ∧ (n.channel 0).key = g.key) ∧
      start.NotLetIn 1 sameKeyLogins := by
  intro start n
  obtain ⟨hin, hout⟩ := after_authentication Config.testing none ⟨0⟩ sameKeyLogins
  have hstands : n.directory.session? (n.directory.bucketOf "k") "k" = some 0 := by decide +kernel
  exact ⟨hin 0 (.inl ⟨_, "k", hstands⟩), hout 1 (List.isEmpty_iff.1 (by decide +kernel))⟩

end

end PushGateway.Node
