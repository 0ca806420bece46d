import PushGateway.Proofs.Node.Ownership

/-!
What goes out to a client, and in which order. The reader answers frames in the order they come and
puts the answers into the ring; pushes come through the queue; the writer merges the two. However
the tasks take turns and wherever the connection ends, what has been handed to the transport is a
prefix of the answers and a prefix of the pushes, shuffled together.
-/

namespace PushGateway

/-- Something handed to the transport: a push, or a reply with the number of clients in the room. -/
inductive Sent
  | push (f : Frame)
  | reply (f : Frame) (online : Int32)

namespace Sent

def item : Sent → Outgoing
  | push f => .frame f
  | reply f online => .reply f online

def push? : Sent → Option Frame
  | push f => some f
  | reply _ _ => none

def reply? : Sent → Option Frame
  | push _ => none
  | reply f _ => some f

end Sent

section

variable {f r : Frame} {arrived incoming : List (Except GatewayError Frame)} {due : List Frame}

def replies : List (Except GatewayError Frame) → List Frame
  | .ok f :: rest =>
    match f.answer? with
    | some r => r :: replies rest
    | none => []
  | _ => []

/-- The auth reply and what follows it, for all that arrives on a transport. -/
def answers : List (Except GatewayError Frame) → List Frame
  | .ok f :: rest => if f.op = Op.auth then f.emptied Op.authReply :: replies rest else []
  | _ => []

theorem replies_cons (h : f.answer? = some r) (rest : List (Except GatewayError Frame)) :
    replies (.ok f :: rest) = r :: replies rest := by
  rw [replies, h]

theorem replies_mono (xs ys : List (Except GatewayError Frame)) :
    replies xs <+: replies (xs ++ ys) := by
  induction xs with
  | nil => exact List.nil_prefix
  | cons x xs ih =>
    cases x with
    | error e => exact List.nil_prefix
    | ok f =>
      cases hf : f.answer? with
      | none =>
        rw [replies, hf]
        exact List.nil_prefix
      | some r =>
        rw [List.cons_append, replies_cons hf, replies_cons hf]
        exact List.prefix_cons_inj r |>.2 ih

theorem answers_mono (xs ys : List (Except GatewayError Frame)) :
    answers xs <+: answers (xs ++ ys) := by
  cases xs with
  | nil => exact List.nil_prefix
  | cons x xs =>
    cases x with
    | error e => exact List.nil_prefix
    | ok f =>
      rw [List.cons_append, answers, answers]
      split_ifs
      · exact List.prefix_cons_inj _ |>.2 (replies_mono xs ys)
      · exact List.nil_prefix

/-- All but `incoming` has been read, and `due` is the answer to it; what comes is answered as it
is. -/
def ReadUpTo (arrived incoming : List (Except GatewayError Frame)) (due : List Frame) : Prop :=
  ∃ read, arrived = read ++ incoming ∧ ∀ later, answers (read ++ later) = due ++ replies later

theorem ReadUpTo.arrive (h : ReadUpTo arrived incoming due)
    (more : List (Except GatewayError Frame)) :
    ReadUpTo (arrived ++ more) (incoming ++ more) due := by
  obtain ⟨read, rfl, hr⟩ := h
  exact ⟨read, List.append_assoc _ _ _, hr⟩

theorem ReadUpTo.read {rest : List (Except GatewayError Frame)} (h : ReadUpTo arrived incoming due)
    (hin : incoming = .ok f :: rest) (hf : f.answer? = some r) :
    ReadUpTo arrived rest (due ++ [r]) := by
  obtain ⟨read, rfl, hr⟩ := h
  refine ⟨read ++ [.ok f], ?_, ?_⟩
  · rw [hin, List.append_assoc]
    rfl
  · intro later
    rw [List.append_assoc, hr, List.append_assoc]
    exact congrArg (due ++ ·) (replies_cons hf later)

theorem ReadUpTo.within (h : ReadUpTo arrived incoming due) : due <+: answers arrived := by
  obtain ⟨read, rfl, hr⟩ := h
  rw [hr]
  exact List.prefix_append _ _

theorem ReadUpTo.eq_answers (h : ReadUpTo arrived [] due) : due = answers arrived := by
  obtain ⟨read, rfl, hr⟩ := h
  exact (List.append_nil due).symm.trans (hr []).symm

theorem readUpTo_auth (hf : f.op = Op.auth) (rest : List (Except GatewayError Frame)) :
    ReadUpTo (.ok f :: rest) rest [f.emptied Op.authReply] := by
  refine ⟨[.ok f], rfl, ?_⟩
  intro later
  exact if_pos hf

end

def Reader.inHand : Reader → List Outgoing
  | .greeting f _ => [.frame f]
  | _ => []

def Writer.inHand : Writer → List Outgoing
  | .writing _ item => [item]
  | _ => []

def Line.handed (l : Line) : List Outgoing := l.written ++ l.reader.inHand ++ l.writer.inHand

def Writer.taken (w : Writer) (ps : Nat → List Frame) : List Frame :=
  match w.channel? with
  | some c => ps c
  | none => []

def Writer.live? : Writer → Option Nat
  | .waiting c | .writing c _ | .draining c | .flushing c => some c
  | .absent | .discarding _ | .gone => none

def Line.Uses (l : Line) (c : Nat) : Prop :=
  (∃ s, l.reader.session? = some s ∧ s.channel = c) ∨ l.writer.channel? = some c

/-- How far the reader has come with what has arrived, when so many replies are in the ring or
beyond. -/
def Answered (r : Reader) (arrived incoming : List (Except GatewayError Frame))
    (sofar : List Frame) : Prop :=
  match r with
  | .awaitingAuth => sofar = [] ∧ arrived = incoming
  | .connecting _ => sofar = []
  | .greeting _ _ | .greeted _ | .serving _ => ReadUpTo arrived incoming sofar
  | .calling _ f _ => ReadUpTo arrived incoming (sofar ++ [f])
  | .leaving _ _ | .returned | .crashed => sofar <+: answers arrived

section

variable {r : Reader} {w : Writer} {l : Line} {arrived incoming : List (Except GatewayError Frame)}
  {sofar : List Frame}

theorem Answered.within (h : Answered r arrived incoming sofar) : sofar <+: answers arrived := by
  cases r with
  | awaitingAuth => exact h.1 ▸ List.nil_prefix
  | connecting u => exact (show sofar = [] from h) ▸ List.nil_prefix
  | greeting f g => exact ReadUpTo.within h
  | greeted g => exact ReadUpTo.within h
  | serving s => exact ReadUpTo.within h
  | calling s f u => exact (List.prefix_append sofar [f]).trans (ReadUpTo.within h)
  | leaving c u => exact h
  | returned => exact h
  | crashed => exact h

theorem Answered.arrive (h : Answered r arrived incoming sofar)
    (more : List (Except GatewayError Frame)) :
    Answered r (arrived ++ more) (incoming ++ more) sofar := by
  cases r with
  | awaitingAuth => exact ⟨h.1, congrArg (· ++ more) h.2⟩
  | connecting u => exact h
  | greeting f g => exact ReadUpTo.arrive h more
  | greeted g => exact ReadUpTo.arrive h more
  | serving s => exact ReadUpTo.arrive h more
  | calling s f u => exact ReadUpTo.arrive h more
  | leaving c u => exact h.trans (answers_mono arrived more)
  | returned => exact h.trans (answers_mono arrived more)
  | crashed => exact h.trans (answers_mono arrived more)

theorem Answered.mayFollowLastCall {c : Nat} {rest : List (Except GatewayError Frame)}
    (h : Answered r arrived incoming sofar) {r' : Reader} (hl : r'.MayFollowLastCall c) :
    Answered r' arrived rest sofar := by
  cases hl with
  | returned => exact h.within
  | leaving u => exact h.within

theorem Line.Owes.readUpTo {s : Session} {f : Frame} {rest : List (Except GatewayError Frame)}
    (h : l.Owes s f rest) (ha : Answered l.reader arrived l.incoming sofar) :
    ReadUpTo arrived rest (sofar ++ [f]) := by
  cases h with
  | read asked hr hin hf =>
    rw [hr] at ha
    exact ReadUpTo.read ha hin hf
  | awaited u hr hin =>
    rw [hr, hin] at ha
    exact ha

theorem Line.Uses.owns {c : Nat} (h : l.Uses c) : l.Owns c := by
  rcases h with ⟨s, hs, rfl⟩ | hw
  · exact .inl (Reader.channel?_of_session? hs)
  · exact .inr hw

theorem Reader.inHand_eq_nil (h : r.isHandshake = false) : r.inHand = [] := by
  cases r with
  | greeting f g => cases h
  | _ => rfl

theorem Writer.taken_of_channel? {c : Nat} (h : w.channel? = some c) (ps : Nat → List Frame) :
    w.taken ps = ps c := by
  rw [taken, h]

theorem Writer.taken_none (w : Writer) {ps : Nat → List Frame} (h : ∀ c, ps c = []) :
    w.taken ps = [] := by
  rw [taken]
  split
  · exact h _
  · rfl

theorem Writer.channel?_of_live? {c : Nat} (h : w.live? = some c) : w.channel? = some c := by
  cases w <;> cases h <;> rfl

end

namespace Node

def arrivals (n : Node) (i : Nat) : List Move → List (Except GatewayError Frame)
  | [] => []
  | m :: h => n.arrivals i h ++ (n.after h).arrived i m

def pushed (n : Node) (i : Nat) (m : Move) : List Frame :=
  (n.line i).writer.taken fun c => n.accepted c m

/-- All pushes whose delivery to connection `i` has succeeded. -/
def deliveries (n : Node) (i : Nat) : List Move → List Frame
  | [] => []
  | m :: h => n.deliveries i h ++ (n.after h).pushed i m

/-- `sent` has been handed to the transport, and `ring` waits for the writer. A connection that
breaks off may not have written the last of `sent`. -/
structure Relayed (n : Node) (i : Nat) (arrived : List (Except GatewayError Frame))
    (delivered : List Frame) (sent : List Sent) (ring : List Frame) : Prop where
  answered : Answered (n.line i).reader arrived (n.line i).incoming
    (sent.filterMap Sent.reply? ++ ring)
  shaking : (n.line i).reader.isHandshake → ring = []
  ring : ∀ c, (n.line i).Uses c → (n.channel c).inbound.Holds ring
  handed : (n.line i).handed <+: sent.map Sent.item
  full : (n.line i).reader.isHandshake ∨ (n.line i).writer.live?.isSome →
    sent.map Sent.item = (n.line i).handed
  pushes : sent.filterMap Sent.push? <+: delivered
  queued : ∀ c, (n.line i).writer.live? = some c →
    sent.filterMap Sent.push? ++ (n.channel c).outbox.pushes = delivered
  absent : (n.line i).writer = .absent → delivered = []

variable {n n' : Node} {m : Move} {i : Nat} {arrived : List (Except GatewayError Frame)}
  {delivered ring : List Frame} {sent : List Sent}

theorem Relayed.receives {more : List (Except GatewayError Frame)} {ps : Nat → List Frame}
    (h : n.Relayed i arrived delivered sent ring)
    (hl : n'.line i = { n.line i with incoming := (n.line i).incoming ++ more })
    (hc : ∀ c, (n.line i).Owns c → (n.channel c).Receives (ps c) (n'.channel c)) :
    n'.Relayed i (arrived ++ more) (delivered ++ (n.line i).writer.taken ps) sent ring := by
  refine ⟨?_, ?_, ?_, ?_, ?_, h.pushes.trans (List.prefix_append _ _), ?_, ?_⟩ <;> rw [hl]
  · exact h.answered.arrive more
  · exact h.shaking
  · intro c hu
    rw [(hc c (Line.Uses.owns hu)).inbound]
    exact h.ring c hu
  · exact h.handed
  · exact h.full
  · intro c hw
    have hch := Writer.channel?_of_live? hw
    rw [(hc c (.inr hch)).pushes, ← List.append_assoc, h.queued c hw, Writer.taken_of_channel? hch]
  · intro hw
    have hw' : (n.line i).writer = .absent := hw
    rw [h.absent hw, hw']
    rfl

theorem Relayed.elsewhere (h : n.Relayed i arrived delivered sent ring) (hl : n'.line i = n.line i)
    (hc : ∀ c, (n.line i).Owns c → (n.channel c).Receives [] (n'.channel c)) :
    n'.Relayed i arrived delivered sent ring := by
  have hin : n'.line i = { n.line i with incoming := (n.line i).incoming ++ [] } := by
    rw [List.append_nil]
    exact hl
  have hh := h.receives hin hc
  rwa [Writer.taken_none _ fun _ => rfl, List.append_nil, List.append_nil] at hh

/-! The reader -/

theorem Relayed.turn {l : Line} (h : n.Relayed i arrived delivered sent ring) (hl : n'.line i = l)
    (hw : l.writer = (n.line i).writer)
    (hc : ∀ c, (n.line i).Owns c → (n.channel c).Receives [] (n'.channel c))
    (ha : Answered l.reader arrived l.incoming (sent.filterMap Sent.reply? ++ ring))
    (hs : ∀ s, l.reader.session? = some s →
      ∃ s', (n.line i).reader.session? = some s' ∧ s'.channel = s.channel)
    (hr : l.reader.isHandshake → (n.line i).reader.isHandshake)
    (hh : l.handed <+: (n.line i).handed)
    (hf : l.reader.isHandshake ∨ l.writer.live?.isSome → l.handed = (n.line i).handed) :
    n'.Relayed i arrived delivered sent ring := by
  refine ⟨?_, ?_, ?_, ?_, ?_, h.pushes, ?_, ?_⟩ <;> rw [hl]
  · exact ha
  · exact fun hh => h.shaking (hr hh)
  · intro c hu
    have hu' : (n.line i).Uses c := by
      rcases hu with ⟨s, hss, rfl⟩ | hwc
      · exact .inl (hs s hss)
      · exact .inr (hw ▸ hwc)
    rw [(hc c hu'.owns).inbound]
    exact h.ring c hu'
  · exact hh.trans h.handed
  · intro hlive
    rw [hf hlive]
    exact h.full (hlive.imp hr (hw ▸ ·))
  · intro c hwc
    rw [hw] at hwc
    rw [(hc c (.inr (Writer.channel?_of_live? hwc))).pushes, List.append_nil]
    exact h.queued c hwc
  · rw [hw]
    exact h.absent

theorem Relayed.reads {r : Reader} {rest : List (Except GatewayError Frame)} {k : Nat}
    (h : n.Relayed i arrived delivered sent ring) (ho : n.Owned)
    (hl : n'.line i = { n.line i with reader := r, incoming := rest, flushed := k })
    (hq : n.directory.lobby.NobodyReceives n'.directory.lobby)
    (ha : Answered r arrived rest (sent.filterMap Sent.reply? ++ ring))
    (hs : ∀ s, r.session? = some s → (n.line i).reader.session? = some s)
    (hr : r.isHandshake → (n.line i).reader.isHandshake)
    (hi : r.inHand = (n.line i).reader.inHand) : n'.Relayed i arrived delivered sent ring := by
  have hh : Line.handed { n.line i with reader := r, incoming := rest, flushed := k } =
    (n.line i).handed := by
    rw [Line.handed, hi, Line.handed]
  exact h.turn hl rfl (fun c hown => hq.channel c (ho.lt i c hown)) ha
    (fun s hss => ⟨s, hs s hss, rfl⟩) hr (hh ▸ List.prefix_rfl) fun _ => hh

/-- The reader gives up before there is a writer; a reply it had in hand is not written. -/
theorem Relayed.breaks {r : Reader} {c k : Nat} {rest : List (Except GatewayError Frame)}
    (h : n.Relayed i arrived delivered sent ring) (ho : n.Owned)
    (hi : (n.line i).reader.isHandshake)
    (hl : n'.line i = { n.line i with reader := r, incoming := rest, flushed := k })
    (hq : n.directory.lobby.NobodyReceives n'.directory.lobby)
    (hr : r.MayFollowLastCall c ∨ r = .crashed) : n'.Relayed i arrived delivered sent ring := by
  have hw := ho.handshake i hi
  have hshake : r.isHandshake = false := by
    rcases hr with hr | rfl
    · exact hr.isHandshake
    · rfl
  refine h.turn hl rfl (fun d hown => hq.channel d (ho.lt i d hown)) ?_ ?_ ?_ ?_ ?_
  · rcases hr with hr | rfl
    · exact h.answered.mayFollowLastCall hr
    · exact h.answered.within
  · intro s hs
    rcases hr with hr | rfl
    · cases hr.session?.symm.trans hs
    · cases hs
  · intro hh
    cases hshake.symm.trans hh
  · change (n.line i).written ++ r.inHand ++ (n.line i).writer.inHand <+:
      (n.line i).written ++ (n.line i).reader.inHand ++ (n.line i).writer.inHand
    rw [Reader.inHand_eq_nil hshake, hw, List.append_nil, List.append_assoc]
    exact List.prefix_append_right_inj _ |>.2 List.nil_prefix
  · rintro (hh | hh)
    · cases hshake.symm.trans hh
    · change (n.line i).writer.live?.isSome at hh
      rw [hw] at hh
      cases hh

theorem Relayed.granted {f : Frame} {g : ControlPlane.Grant}
    {rest : List (Except GatewayError Frame)}
    (h : n.Relayed i arrived delivered sent ring) (ho : n.Owned)
    (haw : (n.line i).reader = .awaitingAuth)
    (hin : (n.line i).incoming = .ok f :: rest) (hop : f.op = Op.auth)
    (he : n.AskedConnect i (fun l => { l with
      reader := .greeting (f.emptied Op.authReply) g, incoming := rest }) n') :
    n'.Relayed i arrived delivered (sent ++ [Sent.reply (f.emptied Op.authReply) 0]) ring := by
  have hs : (n.line i).reader.isHandshake := by rw [haw]; rfl
  have hw := ho.handshake i hs
  have ha := h.answered
  rw [haw, hin] at ha
  obtain ⟨hnil, harr⟩ := ha
  have hfull := h.full (.inl hs)
  rw [Line.handed, haw, hw] at hfull
  have hitem : (sent ++ [Sent.reply (f.emptied Op.authReply) 0]).map Sent.item =
      (n.line i).written ++ [.frame (f.emptied Op.authReply)] := by
    rw [List.map_append, hfull]
    simp only [Reader.inHand, Writer.inHand, List.append_nil]
    rfl
  have hhanded : (n'.line i).handed = (n.line i).written ++ [.frame (f.emptied Op.authReply)] := by
    rw [he.here, Line.handed, hw]
    exact List.append_nil _
  refine ⟨?_, ?_, ?_, ?_, ?_, ?_, ?_, ?_⟩
  · rw [he.here, List.filterMap_append, h.shaking hs, (List.append_eq_nil_iff.1 hnil).1, harr]
    exact readUpTo_auth hop rest
  · exact fun _ => h.shaking hs
  · rintro c (⟨s, hss, -⟩ | hc)
    · rw [he.here] at hss
      cases hss
    · rw [he.here] at hc
      cases (congrArg Writer.channel? hw).symm.trans hc
  · exact hhanded.trans hitem.symm ▸ List.prefix_rfl
  · exact fun _ => hitem.trans hhanded.symm
  · rw [List.filterMap_append]
    exact (List.append_nil _).symm ▸ h.pushes
  · intro c hc
    rw [he.here] at hc
    cases (congrArg Writer.live? hw).symm.trans hc
  · exact fun _ => h.absent hw

theorem Relayed.enrolled {g : ControlPlane.Grant} {s : Session}
    (h : n.Relayed i arrived delivered sent ring)
    (ho : n.Owned) (hg : (n.line i).reader = .greeted g)
    (ht : n.LineChange i (fun l => { l with
      reader := .serving s, writer := .waiting s.channel, flushed := l.written.length }) n')
    (hadm : n.LetIn g s.channel n') : n'.Relayed i arrived delivered sent ring := by
  have hs : (n.line i).reader.isHandshake := by rw [hg]; rfl
  have hw := ho.handshake i hs
  have hnew (c : Nat) (hc : (n'.line i).Owns c) : c = s.channel := by
    rw [ht.here] at hc
    rcases hc with hc | hc <;> exact (Option.some.inj hc).symm
  have hhanded : (n'.line i).handed = (n.line i).handed := by
    rw [ht.here, Line.handed, Line.handed, hg, hw]
    rfl
  have hnone : sent.filterMap Sent.push? = [] := by
    have hp := h.pushes
    rw [h.absent hw] at hp
    exact List.prefix_nil.1 hp
  refine ⟨?_, ?_, ?_, ?_, ?_, h.pushes, ?_, ?_⟩
  · have ha := h.answered
    rw [hg] at ha
    rw [ht.here]
    exact ha
  · exact fun _ => h.shaking hs
  · intro c hc
    rw [hnew c hc.owns, h.shaking hs]
    exact hadm.channel.inbound
  · rw [hhanded]
    exact h.handed
  · intro _
    rw [hhanded]
    exact h.full (.inl hs)
  · intro c hc
    rw [hnew c (.inr (Writer.channel?_of_live? hc)), hadm.channel.pushes, hnone, h.absent hw]
    rfl
  · rw [ht.here]
    nofun

theorem Relayed.replied {s s' : Session} {f : Frame} {rest : List (Except GatewayError Frame)}
    (h : n.Relayed i arrived delivered sent ring) (ho : n.Owned) (hw : (n.line i).Owes s f rest)
    (hc : s'.channel = s.channel)
    (ht : n.LineChange i (fun l => { l with reader := .serving s', incoming := rest }) n')
    (htouch : n.OnlyChannel s.channel (Channel.Replied f) n') :
    n'.Relayed i arrived delivered sent (ring ++ [f]) := by
  have hs := hw.session?
  have hold : (n.line i).Owns s.channel := .inl (Reader.channel?_of_session? hs)
  have hmine (c : Nat) (hown : (n'.line i).Owns c) : c = s.channel := by
    rw [ht.here] at hown
    rcases hown with hown | hown
    · exact (Option.some.inj hown).symm.trans hc
    · exact ho.one i c s.channel (.inr hown) hold
  have hhanded : (n'.line i).handed = (n.line i).handed := by
    rw [ht.here, Line.handed, Line.handed, Reader.inHand_eq_nil (Reader.isHandshake_of_session? hs)]
    rfl
  refine ⟨?_, ?_, ?_, ?_, ?_, h.pushes, ?_, ?_⟩
  · rw [ht.here, ← List.append_assoc]
    exact hw.readUpTo h.answered
  · rw [ht.here]
    nofun
  · intro c hu
    rw [hmine c hu.owns]
    exact (h.ring s.channel (.inl ⟨s, hs, rfl⟩)).of_push? htouch.here.inbound
  · rw [hhanded]
    exact h.handed
  · intro hlive
    rw [hhanded]
    rw [ht.here] at hlive
    exact h.full (.inr (hlive.resolve_left Bool.false_ne_true))
  · intro c hlive
    rw [hmine c (.inr (Writer.channel?_of_live? hlive)), htouch.here.pushes]
    rw [ht.here] at hlive
    have hone := ho.one i c s.channel (.inr (Writer.channel?_of_live? hlive)) hold
    exact h.queued s.channel (hone ▸ hlive)
  · rw [ht.here]
    exact h.absent

theorem Relayed.reading (h : n.Relayed i arrived delivered sent ring) (ho : n.Owned)
    (hr : n.Reading i n') : ∃ sent' ring', n'.Relayed i arrived delivered sent' ring' := by
  have ha := h.answered
  cases hr with
  | rejected rest hs _ hq =>
    exact ⟨sent, ring, h.breaks ho hs hq.here hq.lobby (c := 0) (.inl .returned)⟩
  | asked r rest haw _ hr he _ =>
    have hs : (n.line i).reader.isHandshake := by rw [haw]; rfl
    rcases hr with rfl | ⟨u, rfl⟩
    · exact ⟨sent, ring, h.breaks ho hs he.here he.lobby (c := 0) (.inl .returned)⟩
    · rw [haw] at ha
      exact ⟨sent, ring, h.reads ho he.here he.lobby ha.1 nofun (fun _ => hs) (by rw [haw]; rfl)⟩
  | granted f g rest haw _ hin hop he _ =>
    exact ⟨_, ring, h.granted ho haw hin hop he⟩
  | greeted f g hg hq =>
    have hs : (n.line i).reader.isHandshake := by rw [hg]; rfl
    have hh : Line.handed { n.line i with
        reader := .greeted g, written := (n.line i).written ++ [.frame f] } =
        (n.line i).handed := by
      rw [Line.handed, Line.handed, hg]
      exact congrArg (· ++ (n.line i).writer.inHand) (List.append_nil _)
    rw [hg] at ha
    exact ⟨sent, ring, h.turn hq.here rfl (fun c hown => hq.lobby.channel c (ho.lt i c hown))
      ha nofun (fun _ => hs) (hh ▸ List.prefix_rfl) fun _ => hh⟩
  | enrolled g s hg hsg ht hadm => exact ⟨sent, ring, h.enrolled ho hg ht hadm⟩
  | overrun g c hg ht hadm =>
    have hs : (n.line i).reader.isHandshake := by rw [hg]; rfl
    exact ⟨sent, ring, h.breaks ho hs ht.here hadm.lobby (c := 0) (.inr rfl)⟩
  | unseated g c r hg hl _ _ ht hp _ =>
    have hs : (n.line i).reader.isHandshake := by rw [hg]; rfl
    exact ⟨sent, ring, h.breaks ho hs ht.here hp.lobby (.inl hl)⟩
  | replied s s' f rest hw hg hc ht htouch =>
    exact ⟨sent, ring ++ [f], h.replied ho hw hc ht htouch⟩
  | calling s f u rest hs hw hq =>
    exact ⟨sent, ring, h.reads ho hq.here hq.lobby (hw.readUpTo ha)
      (fun t ht => by rw [hs]; exact ht) nofun (by rw [hs]; rfl)⟩
  | tornDown s r rest hs hl ht hp _ =>
    refine ⟨sent, ring, h.reads ho ht.here hp.lobby (ha.mayFollowLastCall hl) ?_ ?_ ?_⟩
    · intro t ht'
      cases hl.session?.symm.trans ht'
    · intro hh
      cases hl.isHandshake.symm.trans hh
    · rw [Reader.inHand_eq_nil hl.isHandshake,
        Reader.inHand_eq_nil (Reader.isHandshake_of_session? hs)]
  | crashed s rest hs hq =>
    refine ⟨sent, ring, h.reads ho hq.here hq.lobby ha.within nofun nofun ?_⟩
    rw [Reader.inHand_eq_nil (Reader.isHandshake_of_session? hs)]
    rfl
  | left c u hl hq =>
    refine ⟨sent, ring, h.reads ho hq.here hq.lobby ha.within nofun nofun ?_⟩
    rw [hl]
    rfl

/-! The writer -/

theorem Relayed.writes {c k : Nat} {w : Writer} {ws : List Outgoing} {sent' : List Sent}
    {ring' : List Frame}
    (h : n.Relayed i arrived delivered sent ring) (ho : n.Owned)
    (hc : (n.line i).writer.channel? = some c)
    (hl : n'.line i = { n.line i with writer := w, written := ws, flushed := k })
    (hw : ∀ d, w.channel? = some d → d = c) (hne : w ≠ .absent)
    (hring : (n'.channel c).inbound.Holds ring')
    (hsofar : sent'.filterMap Sent.reply? ++ ring' = sent.filterMap Sent.reply? ++ ring)
    (hhanded : ws ++ w.inHand <+: sent'.map Sent.item)
    (hfull : w.live?.isSome → sent'.map Sent.item = ws ++ w.inHand)
    (hpushes : sent'.filterMap Sent.push? <+: delivered)
    (hqueued : w.live?.isSome → sent'.filterMap Sent.push? ++ (n'.channel c).outbox.pushes =
      delivered) : n'.Relayed i arrived delivered sent' ring' := by
  have hshake : (n.line i).reader.isHandshake = false := by
    rw [Bool.eq_false_iff]
    intro hs
    rw [ho.handshake i hs] at hc
    cases hc
  have hmine (d : Nat) (hd : (n'.line i).Owns d) : d = c := by
    rw [hl] at hd
    rcases hd with hd | hd
    · exact ho.one i d c (.inl hd) (.inr hc)
    · exact hw d hd
  have hsame : (n'.line i).handed = ws ++ w.inHand := by
    rw [hl, Line.handed, Reader.inHand_eq_nil hshake, List.append_nil]
  refine ⟨?_, ?_, ?_, ?_, ?_, hpushes, ?_, ?_⟩
  · rw [hl, hsofar]
    exact h.answered
  · rw [hl, hshake]
    nofun
  · intro d hd
    rw [hmine d hd.owns]
    exact hring
  · rw [hsame]
    exact hhanded
  · rw [hsame, hl, hshake]
    rintro (hs | hlive)
    · cases hs
    · exact hfull hlive
  · intro d hd
    rw [hmine d (.inr (Writer.channel?_of_live? hd))]
    rw [hl] at hd
    exact hqueued (Option.isSome_of_eq_some hd)
  · rw [hl]
    exact fun hw => absurd hw hne

theorem Relayed.handed_eq {c : Nat} (h : n.Relayed i arrived delivered sent ring) (ho : n.Owned)
    (hc : (n.line i).writer.live? = some c) :
    sent.map Sent.item = (n.line i).written ++ (n.line i).writer.inHand := by
  have hshake : (n.line i).reader.isHandshake = false := by
    rw [Bool.eq_false_iff]
    intro hs
    rw [ho.handshake i hs] at hc
    cases hc
  rw [h.full (.inr (Option.isSome_of_eq_some hc)), Line.handed, Reader.inHand_eq_nil hshake,
    List.append_nil]

theorem Writer.channel?_eq_of_live? {w : Writer} {c : Nat} (h : w.live? = some c) :
    ∀ d, w.channel? = some d → d = c := by
  intro d hd
  exact Option.some.inj (hd.symm.trans (Writer.channel?_of_live? h))

theorem Relayed.keeps {c k : Nat} {w : Writer} {ws : List Outgoing}
    (h : n.Relayed i arrived delivered sent ring) (ho : n.Owned)
    (hc : (n.line i).writer.live? = some c)
    (hl : n'.line i = { n.line i with writer := w, written := ws, flushed := k })
    (hw : w.live? = some c) (hin : (n'.channel c).inbound = (n.channel c).inbound)
    (hp : (n'.channel c).outbox.pushes = (n.channel c).outbox.pushes)
    (hh : ws ++ w.inHand = (n.line i).written ++ (n.line i).writer.inHand) :
    n'.Relayed i arrived delivered sent ring := by
  have hch := Writer.channel?_of_live? hc
  have hsent : sent.map Sent.item = ws ++ w.inHand := (h.handed_eq ho hc).trans hh.symm
  refine h.writes ho hch hl (Writer.channel?_eq_of_live? hw) ?_ ?_ rfl ?_ (fun _ => hsent) h.pushes
    fun _ => ?_
  · rintro rfl
    cases hw
  · rw [hin]
    exact h.ring c (.inr hch)
  · exact hsent ▸ List.prefix_rfl
  · rw [hp]
    exact h.queued c hc

theorem Relayed.stops {c : Nat} {w : Writer} (h : n.Relayed i arrived delivered sent ring)
    (ho : n.Owned) (hc : (n.line i).writer.channel? = some c)
    (hl : n'.line i = { n.line i with writer := w }) (hw : w = .discarding c ∨ w = .gone)
    (hin : (n'.channel c).inbound = (n.channel c).inbound) :
    n'.Relayed i arrived delivered sent ring := by
  have hlive : w.live? = none := by rcases hw with rfl | rfl <;> rfl
  have hhand : w.inHand = [] := by rcases hw with rfl | rfl <;> rfl
  have hnot : ¬ w.live?.isSome := by
    rw [hlive]
    nofun
  refine h.writes ho hc hl ?_ ?_ ?_ rfl ?_ (fun hs => absurd hs hnot) h.pushes fun hs =>
    absurd hs hnot
  · rintro d hd
    rcases hw with rfl | rfl
    · exact (Option.some.inj hd).symm
    · cases hd
  · rcases hw with rfl | rfl <;> nofun
  · rw [hin]
    exact h.ring c (.inr hc)
  · rw [hhand, List.append_nil]
    refine List.IsPrefix.trans ?_ h.handed
    rw [Line.handed, List.append_assoc]
    exact List.prefix_append _ _

theorem Relayed.takesPush {c : Nat} {f : Frame} (h : n.Relayed i arrived delivered sent ring)
    (ho : n.Owned) (hc : (n.line i).writer = .waiting c)
    (ht : n.LineChange i (fun l => { l with writer := .writing c (.frame f) }) n')
    (htouch : n.OnlyChannel c (Channel.TakesPush [f]) n') :
    n'.Relayed i arrived delivered (sent ++ [Sent.push f]) ring := by
  have hlive : (n.line i).writer.live? = some c := congrArg Writer.live? hc
  have hch := Writer.channel?_of_live? hlive
  have hsent : (sent ++ [Sent.push f]).map Sent.item = (n.line i).written ++ [.frame f] := by
    rw [List.map_append, h.handed_eq ho hlive, hc]
    simp only [Writer.inHand, List.append_nil]
    rfl
  have hqueue : (sent ++ [Sent.push f]).filterMap Sent.push? ++ (n'.channel c).outbox.pushes =
      delivered := by
    rw [← h.queued c hlive, htouch.here.pushes, List.filterMap_append, List.append_assoc]
    rfl
  refine h.writes ho hch ht.here (fun d hd => (Option.some.inj hd).symm) nofun ?_ ?_ ?_
    (fun _ => hsent) ?_ fun _ => hqueue
  · rw [htouch.here.inbound]
    exact h.ring c (.inr hch)
  · rw [List.filterMap_append]
    exact congrArg (· ++ ring) (List.append_nil _)
  · exact hsent ▸ List.prefix_rfl
  · exact hqueue ▸ List.prefix_append _ _

theorem Relayed.popsReply {c : Nat} {f : Frame} {online : Int32}
    (h : n.Relayed i arrived delivered sent ring) (ho : n.Owned)
    (hc : (n.line i).writer = .draining c)
    (ht : n.LineChange i (fun l => { l with writer := .writing c (.reply f online) }) n')
    (htouch : n.OnlyChannel c (Channel.PopsReply f) n') :
    ∃ rest, n'.Relayed i arrived delivered (sent ++ [Sent.reply f online]) rest := by
  have hlive : (n.line i).writer.live? = some c := congrArg Writer.live? hc
  have hch := Writer.channel?_of_live? hlive
  obtain ⟨rest, rfl, hring⟩ := (h.ring c (.inr hch)).of_pop? htouch.here.inbound
  have hsent : (sent ++ [Sent.reply f online]).map Sent.item =
      (n.line i).written ++ [.reply f online] := by
    rw [List.map_append, h.handed_eq ho hlive, hc]
    simp only [Writer.inHand, List.append_nil]
    rfl
  have hpush : (sent ++ [Sent.reply f online]).filterMap Sent.push? =
      sent.filterMap Sent.push? := by
    rw [List.filterMap_append]
    exact List.append_nil _
  refine ⟨rest, h.writes ho hch ht.here (fun d hd => (Option.some.inj hd).symm) nofun hring ?_ ?_
    (fun _ => hsent) ?_ fun _ => ?_⟩
  · rw [List.filterMap_append, List.append_assoc]
    rfl
  · exact hsent ▸ List.prefix_rfl
  · exact hpush ▸ h.pushes
  · rw [hpush, htouch.here.pushes]
    exact h.queued c hlive

theorem Relayed.writing (h : n.Relayed i arrived delivered sent ring) (ho : n.Owned)
    (hw : n.Writing i n') : ∃ sent' ring', n'.Relayed i arrived delivered sent' ring' := by
  have hquiet {g : Line → Line} {c : Nat} (hq : n.QuietLineChange i g n')
      (hc : (n.line i).writer.channel? = some c) : (n.channel c).Receives [] (n'.channel c) :=
    hq.lobby.channel c (ho.lt i c (.inr hc))
  cases hw with
  | takesPush c f hc ht htouch => exact ⟨_, ring, h.takesPush ho hc ht htouch⟩
  | popsReply c f online hc ht htouch =>
    obtain ⟨rest, hr⟩ := h.popsReply ho hc ht htouch
    exact ⟨_, rest, hr⟩
  | woken c hc ht htouch =>
    refine ⟨sent, ring, h.keeps ho (congrArg Writer.live? hc) ht.here rfl htouch.here.inbound
      htouch.here.pushes.symm ?_⟩
    rw [hc]
    rfl
  | wrote c item hc hq =>
    have hheard := hquiet hq (congrArg Writer.channel? hc)
    refine ⟨sent, ring, h.keeps ho (congrArg Writer.live? hc) hq.here rfl hheard.inbound
      (hheard.pushes.trans (List.append_nil _)) ?_⟩
    rw [hc]
    exact List.append_nil _
  | drained c hc hq =>
    have hheard := hquiet hq (congrArg Writer.channel? hc)
    refine ⟨sent, ring, h.keeps ho (congrArg Writer.live? hc) hq.here rfl hheard.inbound
      (hheard.pushes.trans (List.append_nil _)) ?_⟩
    rw [hc]
    rfl
  | flushed c hc hq =>
    have hheard := hquiet hq (congrArg Writer.channel? hc)
    refine ⟨sent, ring, h.keeps ho (congrArg Writer.live? hc) hq.here rfl hheard.inbound
      (hheard.pushes.trans (List.append_nil _)) ?_⟩
    rw [hc]
    rfl
  | failed c hc hq => exact ⟨sent, ring, h.stops ho hc hq.here (.inl rfl) (hquiet hq hc).inbound⟩
  | ended c w hc hw ht htouch => exact ⟨sent, ring, h.stops ho hc ht.here hw htouch.here⟩

/-! Runs -/

theorem Relayed.onlyArrivals (h : n.Relayed i arrived delivered sent ring) (ho : n.Owned)
    (ha : n.OnlyArrivals m n') :
    n'.Relayed i (arrived ++ n.arrived i m) (delivered ++ n.pushed i m) sent ring := by
  rcases ha.line i with hl | ⟨hb, hl⟩
  · exact h.receives hl fun c hc => ha.lobby.channel c (ho.lt i c hc)
  · have hw : (n.line i).writer = .absent := by rw [hb]; rfl
    have hpushed : n.pushed i m = [] := by
      rw [pushed, hw]
      rfl
    refine ⟨?_, ?_, ?_, ?_, ?_, h.pushes.trans (List.prefix_append _ _), ?_, ?_⟩ <;> rw [hl]
    · exact h.answered.within.trans (answers_mono _ _)
    · nofun
    · rintro c (⟨s, hs, -⟩ | hc)
      · cases hs
      · cases hc
    · exact List.nil_prefix
    · rintro (hs | hlive)
      · cases hs
      · cases hlive
    · nofun
    · intro _
      rw [h.absent hw, hpushed]
      rfl

theorem Relayed.move (h : n.Relayed i arrived delivered sent ring) (ho : n.Owned) (m : Move) :
    ∃ sent' ring',
      (n.move m).Relayed i (arrived ++ n.arrived i m) (delivered ++ n.pushed i m) sent' ring' := by
  -- A task of some connection brings nothing in from outside.
  have hinside {t : Task} (hm : m = .task t) (ht : ∀ b w, t ≠ .worker b w) :
      arrived ++ n.arrived i m = arrived ∧ delivered ++ n.pushed i m = delivered := by
    have hnone (c : Nat) : n.accepted c m = [] := by
      rw [hm]
      cases t with
      | worker b w => exact absurd rfl (ht b w)
      | _ => rfl
    have hpushed : n.pushed i m = [] := Writer.taken_none _ hnone
    rw [hpushed, hm]
    exact ⟨List.append_nil _, List.append_nil _⟩
  cases ho.moveCases m with
  | onlyArrivals _ ha => exact ⟨sent, ring, h.onlyArrivals ho ha⟩
  | reading j hm hr =>
    obtain ⟨harr, hdel⟩ := hinside hm nofun
    rw [harr, hdel]
    by_cases hij : i = j
    · subst hij
      exact h.reading ho hr
    · obtain ⟨g, ht⟩ := hr.lineChange
      refine ⟨sent, ring, h.elsewhere (ht.elsewhere i hij) fun c hc => ?_⟩
      exact hr.others (ho.lt i c hc) fun hcj => hij (ho.alone i j c hc hcj)
  | writing j hm hw =>
    obtain ⟨harr, hdel⟩ := hinside hm nofun
    rw [harr, hdel]
    by_cases hij : i = j
    · subst hij
      exact h.writing ho hw
    · obtain ⟨d, g, ht⟩ := ho.writerLineChange hw
      refine ⟨sent, ring, h.elsewhere (ht.elsewhere i hij) fun c hc => ?_⟩
      exact ht.others (ho.lt i c hc) fun hcj => hij (ho.alone i j c hc hcj)

theorem new_relayed (config : Config) (hostname : Option String) (entropy : Entropy) (i : Nat) :
    (new config hostname entropy).Relayed i [] [] [] [] := by
  refine ⟨?_, fun _ => rfl, ?_, ?_, ?_, List.prefix_rfl, ?_, fun _ => rfl⟩ <;> rw [new_line]
  · exact ⟨rfl, rfl⟩
  · intro c hc
    exact absurd hc.owns line_blank_owns
  · exact List.prefix_rfl
  · exact fun _ => rfl
  · nofun

theorem relayed_after (config : Config) (hostname : Option String) (entropy : Entropy)
    (ms : List Move) (i : Nat) :
    let start := new config hostname entropy
    ∃ sent ring,
      (start.after ms).Relayed i (start.arrivals i ms) (start.deliveries i ms) sent ring := by
  intro start
  induction ms with
  | nil => exact ⟨[], [], new_relayed config hostname entropy i⟩
  | cons m ms ih =>
    obtain ⟨sent, ring, h⟩ := ih
    -- Whose channel is whose is known at every point, so no other connection takes from this one's
    -- ring.
    exact h.move ((new_owned config hostname entropy).after ms) m

def caughtUp (n : Node) (i : Nat) : Bool :=
  match (n.line i).reader, (n.line i).writer with
  | .serving _, .waiting c =>
    (n.line i).incoming.isEmpty && (n.channel c).inbound.isEmpty &&
    (n.channel c).outbox.queue.isEmpty
  | _, _ => false

theorem caughtUp_cases (h : n.caughtUp i) : ∃ s c, (n.line i).reader = .serving s ∧
    (n.line i).writer = .waiting c ∧ (n.line i).incoming = [] ∧ (n.channel c).inbound.isEmpty ∧
    (n.channel c).outbox.queue = [] := by
  rw [caughtUp] at h
  split at h
  · rename_i s c hr hw
    simp only [Bool.and_eq_true, List.isEmpty_iff] at h
    exact ⟨s, c, hr, hw, h.1.1, h.1.2, h.2⟩
  · cases h

theorem Relayed.all (h : n.Relayed i arrived delivered sent ring) (hc : n.caughtUp i) :
    sent.map Sent.item = (n.line i).handed ∧ sent.filterMap Sent.reply? = answers arrived ∧
      sent.filterMap Sent.push? = delivered := by
  obtain ⟨s, c, hr, hw, hin, hempty, hqueue⟩ := caughtUp_cases hc
  have hlive : (n.line i).writer.live? = some c := by rw [hw]; rfl
  have hring : ring = [] :=
    (h.ring c (.inr (Writer.channel?_of_live? hlive))).isEmpty_iff.1 hempty
  refine ⟨h.full (.inr (Option.isSome_of_eq_some hlive)), ?_, ?_⟩
  · have ha := h.answered
    rw [hr, hin, hring, List.append_nil] at ha
    exact ReadUpTo.eq_answers ha
  · have hq := h.queued c hlive
    rw [Outbox.pushes, hqueue] at hq
    exact (List.append_nil _).symm.trans hq

/-- What a connection has handed to its transport, the item in hand included, is at every point of
every history a shuffle of pushes and replies: the replies are a prefix of the answers to what has
arrived, and the pushes a prefix of those whose delivery to it succeeded. Nothing is missing once
both tasks have caught up. -/
theorem after_handed (config : Config) (hostname : Option String) (entropy : Entropy)
    (ms : List Move) (i : Nat) :
    let start := new config hostname entropy
    ∃ sent : List Sent, ((start.after ms).line i).handed = sent.map Sent.item ∧
      sent.filterMap Sent.reply? <+: answers (start.arrivals i ms) ∧
      sent.filterMap Sent.push? <+: start.deliveries i ms ∧
      ((start.after ms).caughtUp i → sent.filterMap Sent.reply? = answers (start.arrivals i ms) ∧
        sent.filterMap Sent.push? = start.deliveries i ms) := by
  intro start
  obtain ⟨sent, ring, h⟩ := relayed_after config hostname entropy ms i
  by_cases hc : (start.after ms).caughtUp i
  · obtain ⟨hsent, hreplies, hpushes⟩ := h.all hc
    exact ⟨sent, hsent.symm, hreplies ▸ List.prefix_rfl, hpushes ▸ List.prefix_rfl,
      fun _ => ⟨hreplies, hpushes⟩⟩
  · obtain ⟨lost, hlost⟩ := h.handed
    obtain ⟨out, left, rfl, hout, -⟩ := List.map_eq_append_iff.1 hlost.symm
    refine ⟨out, hout.symm, ?_, ?_, fun hc' => absurd hc' hc⟩
    · refine List.IsPrefix.trans ?_ h.answered.within
      rw [List.filterMap_append, List.append_assoc]
      exact List.prefix_append _ _
    · refine List.IsPrefix.trans ?_ h.pushes
      rw [List.filterMap_append]
      exact List.prefix_append _ _

def subscribedVisit : List Move :=
  List.replicate 12 (.task (.writer 0)) ++
  [.deliver 0 { op := 5, seq := 9 }, .task (.reader 0),
    .event (.arrive 0 [.ok { ver := 1, op := Op.sub, seq := 2, body := [49] }]), .task (.reader 0),
    .task (.reader 0), .task (.reader 0),
    .event (.arrive 0 [
      .ok { ver := 1, op := Op.auth, seq := 1, body := [49, 124, 107, 124, 124, 124] }]),
    .event (.open "ip" "")]

theorem after_handed_subscribedVisit :
    let start := new Config.testing none ⟨0⟩
    ((start.after subscribedVisit).line 0).handed =
    [.frame { ver := 1, op := Op.authReply, seq := 1 },
      .frame { ver := 1, op := Op.subReply, seq := 2, body := [49] },
      .frame { op := 5, seq := 9 }] ∧
    ∃ sent : List Sent, ((start.after subscribedVisit).line 0).handed = sent.map Sent.item ∧
      sent.filterMap Sent.reply? = answers (start.arrivals 0 subscribedVisit) ∧
      sent.filterMap Sent.push? = start.deliveries 0 subscribedVisit := by
  intro start
  have hc : (start.after subscribedVisit).caughtUp 0 := by decide +kernel
  obtain ⟨sent, hsent, -, -, hall⟩ := after_handed Config.testing none ⟨0⟩ subscribedVisit 0
  exact ⟨by decide +kernel, sent, hsent, hall hc⟩

end Node

end PushGateway
