import Mathlib.Data.List.DropRight
import PushGateway.Proofs.Node.HeartbeatPace
import PushGateway.Proofs.Node.Replies
import PushGateway.Proofs.Node.Service

/-!
Business frames. The control plane hears of each of them once, as it came and in the order its
client sent it, and of nothing else; what becomes of the call does not matter to the client. Of the
calls that succeed the newest are kept.
-/

namespace PushGateway

def Frame.IsBusiness (f : Frame) : Prop := 1000 ≤ f.op ∧ f.op ≤ 10000

instance (f : Frame) : Decidable f.IsBusiness := inferInstanceAs (Decidable (_ ∧ _))

theorem Frame.isBusiness_iff {f : Frame} : Op.isBusiness f.op ↔ f.IsBusiness := by
  rw [Op.isBusiness, Bool.and_eq_true, decide_eq_true_eq, decide_eq_true_eq, IsBusiness]

theorem Frame.IsBusiness.op_ne {f : Frame} (h : f.IsBusiness) {op : Int32} (hop : op < 1000) :
    f.op ≠ op := by
  rintro rfl
  exact absurd h.1 (Int32.not_le.2 hop)

theorem drop_one_rtake {α : Type} (xs : List α) (k : Nat) :
    (if (xs.rtake (k + 1)).length = k + 1 then (xs.rtake (k + 1)).drop 1 else xs.rtake (k + 1)) =
      xs.rtake k := by
  rw [List.rtake, List.rtake, List.length_drop]
  split_ifs with hfull
  · rw [List.drop_drop, show xs.length - (k + 1) + 1 = xs.length - k by omega]
  · rw [show xs.length - (k + 1) = xs.length - k by omega]

namespace ControlPlane

variable {p : ControlPlane} {calls : List (Int64 × Frame)}

theorem receive_received (h : p.received = calls.rtake capacity) (mid : Int64) (f : Frame) :
    (p.receive mid f).received = (calls ++ [(mid, f)]).rtake capacity := by
  have hroom : (if p.received.length = capacity then p.received.drop 1 else p.received) =
      calls.rtake 1023 := by
    rw [h]
    exact drop_one_rtake calls 1023
  exact (congrArg (· ++ [(mid, f)]) hroom).trans (List.rtake_concat_succ calls 1023 (mid, f)).symm

theorem foldl_receive_received (calls : List (Int64 × Frame)) :
    (calls.foldl (fun p call => p.receive call.1 call.2) ({} : ControlPlane)).received =
      calls.rtake capacity := by
  induction calls using List.reverseRecOn with
  | nil => rfl
  | append_singleton calls call ih =>
    rw [List.foldl_append]
    exact receive_received ih call.1 call.2

end ControlPlane

namespace Node

/-- The frames that a history serves, the first of them first, with their connections and
sessions. -/
def services (n : Node) : List Move → List (Nat × Session × Frame)
  | [] => []
  | m :: h => n.services h ++ ((n.after h).served m).toList

def framesOf (i : Nat) (xs : List (Nat × Session × Frame)) : List Frame :=
  (xs.filter fun x => x.1 = i).map fun x => x.2.2

def forwarding? : Nat × Session × Frame → Option (Option Nat × Int64 × Frame)
  | (i, s, f) => if f.IsBusiness then some (some i, s.grant.mid, f) else none

def keptIn (n : Node) (m : Move) : List (Int64 × Frame) :=
  if n.faults.get? .receive = none then
    ((n.move m).forwarded.drop n.forwarded.length).map (·.2)
  else []

def kept (n : Node) : List Move → List (Int64 × Frame)
  | [] => []
  | m :: h => n.kept h ++ (n.after h).keptIn m

/-- The control plane is told of `calls` and has a place for each, unless there is a fault. -/
structure MakesCalls (n : Node) (calls : List (Option Nat × Int64 × Frame)) (n' : Node) : Prop where
  forwarded : n'.forwarded = n.forwarded ++ calls
  received : ∀ xs, n.plane.received = xs.rtake ControlPlane.capacity → n'.plane.received =
    (xs ++ if n.faults.get? .receive = none then calls.map (·.2)
    else []).rtake ControlPlane.capacity

/-- How far serving has come among all that has arrived, when the frames `fs` have been served. What
arrives first asks for the session and is not served in it. -/
def ServedUpTo (r : Reader) (arrived incoming : List (Except GatewayError Frame))
    (fs : List Frame) : Prop :=
  match r with
  | .awaitingAuth => fs = [] ∧ arrived = incoming
  | .greeting _ _ | .greeted _ | .serving _ | .calling _ _ _ =>
      ∃ x, arrived = x :: (fs.map .ok ++ incoming)
  | .connecting _ | .leaving _ _ | .returned | .crashed => fs.map .ok <+: arrived.tail

structure ReaderBecomes (n : Node) (i : Nat) (r : Reader) (n' : Node) : Prop where
  reader : (n'.connection i).reader = r
  writer : (n'.connection i).writer = (n.connection i).writer
  closed : (n'.connection i).closed = (n.connection i).closed

structure QueuesReply (n : Node) (i : Nat) (s : Session) (r : Frame) (n' : Node) : Prop
    extends ReaderBecomes n i (.serving s) n' where
  ring : (n.channel s.channel).inbound.push? r = some (n'.channel s.channel).inbound

structure DefersReply (n : Node) (i : Nat) (s : Session) (r : Frame) (u : Nanos) (n' : Node) : Prop
    extends ReaderBecomes n i (.calling s r u) n' where
  channel : n'.channel s.channel = n.channel s.channel

variable {n n' k : Node} {i c : Nat} {m : Move} {s : Session} {f : Frame}
  {fs : List Frame} {u : Nanos}
  {arrived incoming : List (Except GatewayError Frame)}

theorem MakesCalls.keepsWatches {calls : List (Option Nat × Int64 × Frame)}
    (h : n.MakesCalls calls k) (ha : k.KeepsWatches n') : n.MakesCalls calls n' :=
  ⟨ha.forwarded.trans h.forwarded, fun xs hxs => ha.received.trans (h.received xs hxs)⟩

theorem MakesCalls.nothing (hf : n'.forwarded = n.forwarded)
    (hr : n'.plane.received = n.plane.received) : n.MakesCalls [] n' := by
  refine ⟨hf.trans (List.append_nil _).symm, fun xs hxs => ?_⟩
  rw [List.map_nil, ite_self, List.append_nil]
  exact hr.trans hxs

theorem callReceive_makesCalls (n : Node) (caller : Option Nat) (mid : Int64) (f : Frame) :
    n.MakesCalls [(caller, mid, f)] (n.callReceive caller mid f).2 := by
  constructor
  · have hlog : (n.callReceive caller mid f).2.log = (n.record caller (.receive mid f)).log :=
      answer_log ..
    rw [forwarded, hlog]
    exact n.forwarded_record caller (.receive mid f)
  · intro xs hxs
    simp only [callReceive, answer, record]
    cases n.faults.get? .receive with
    | none => exact ControlPlane.receive_received hxs mid f
    | some fault =>
      rw [if_neg (Option.some_ne_none fault), List.append_nil]
      cases fault <;> exact hxs

theorem operate_business (n : Node) (caller : Option Nat) (c b : Nat) (hf : f.IsBusiness) :
    n.operate caller c b f =
      (if n.faults.get? .receive = some .hangs then .awaiting (f.emptied f.op)
      else .reply (f.emptied f.op),
        (n.callReceive caller (n.channel c).mid f).2) := by
  have hroom : f.op ≠ Op.changeRoom := hf.op_ne (by decide)
  have hsub : f.op ≠ Op.sub := hf.op_ne (by decide)
  have hunsub : f.op ≠ Op.unsub := hf.op_ne (by decide)
  simp only [operate, if_neg hroom, if_neg hsub, if_neg hunsub, if_pos (Frame.isBusiness_iff.2 hf),
    callReceive, answer, record]
  cases n.faults.get? .receive with
  | none => rfl
  | some fault => cases fault <;> rfl

theorem operate_makesCalls (n : Node) (caller : Option Nat) (c b : Nat) (f : Frame) :
    n.MakesCalls (if f.IsBusiness then [(caller, (n.channel c).mid, f)]
      else []) (n.operate caller c b f).2 := by
  by_cases hf : f.IsBusiness
  · rw [if_pos hf, operate_business n caller c b hf]
    exact n.callReceive_makesCalls caller (n.channel c).mid f
  · rw [if_neg hf]
    simp only [operate, if_neg (mt Frame.isBusiness_iff.1 hf)]
    split_ifs
    · generalize n.directory.changeRoom b _ c = moved
      obtain ⟨e | u, d⟩ := moved <;> exact .nothing rfl rfl
    · exact .nothing rfl rfl
    · exact .nothing rfl rfl
    · exact .nothing rfl rfl

theorem Owned.move_makesCalls (ho : n.Owned) (m : Move) :
    n.MakesCalls ((n.served m).bind forwarding?).toList (n.move m) := by
  have hquiet (ha : n.KeepsWatches (n.move m)) : n.MakesCalls [] (n.move m) :=
    .nothing ha.forwarded ha.received
  cases hs : n.served m with
  | none => exact hquiet (move_keepsWatches hs)
  | some served =>
    obtain ⟨i, s, f⟩ := served
    rw [Option.bind_some, forwarding?]
    by_cases hbeat : f.op = Op.heartbeat
    · rw [if_neg fun hf => hf.op_ne (by decide) hbeat]
      exact hquiet (heartbeat_keepsWatches hs hbeat)
    · obtain ⟨-, hservice⟩ := served_eq_some hs
      obtain ⟨k, hk, hserve⟩ := move_of_served hs
      have hreader : (n.line i).reader = .serving s := (service?_eq_some hservice).1
      have hmid : (n.channel s.channel).mid = s.grant.mid := (ho.names i s (by rw [hreader]; rfl)).1
      have htold := k.operate_makesCalls (some i) s.channel (k.directory.bucketOf s.grant.key) f
      have hserved := htold.keepsWatches (k.serve_keepsWatches i s hbeat)
      rw [← hserve] at hserved
      -- Taking the frame off the transport changes nothing that the call depends on.
      obtain ⟨g, rfl⟩ := nextIncoming_eq hk
      have hcalls :
          (if f.IsBusiness then [(some i, ((n.modifyWire i g).channel s.channel).mid, f)] else []) =
          (if f.IsBusiness then some (some i, s.grant.mid, f) else none).toList := by
        change (if f.IsBusiness then [(some i, (n.channel s.channel).mid, f)] else []) = _
        rw [hmid]
        split_ifs <;> rfl
      rw [hcalls] at hserved
      exact ⟨hserved.forwarded, hserved.received⟩

theorem Owned.keptIn_eq (ho : n.Owned) (m : Move) : n.keptIn m =
    if n.faults.get? .receive = none then ((n.served m).bind forwarding?).toList.map (·.2)
    else [] := by
  rw [keptIn, (ho.move_makesCalls m).forwarded, List.drop_left]

theorem after_told (config : Config) (hostname : Option String) (entropy : Entropy)
    (h : List Move) :
    let start := new config hostname entropy
    (start.after h).forwarded = (start.services h).filterMap forwarding? ∧
      (start.after h).plane.received = (start.kept h).rtake ControlPlane.capacity := by
  intro start
  induction h with
  | nil => exact ⟨rfl, (List.rtake_nil _).symm⟩
  | cons m h ih =>
    obtain ⟨hforwarded, hreceived⟩ := ih
    have ho := (new_owned config hostname entropy).after h
    have htold := ho.move_makesCalls m
    constructor
    · rw [services, List.filterMap_append, ← hforwarded]
      refine htold.forwarded.trans (congrArg _ ?_)
      cases ((new config hostname entropy).after h).served m <;> rfl
    · rw [kept, ho.keptIn_eq]
      exact htold.received _ hreceived

theorem framesOf_append (i : Nat) (xs ys : List (Nat × Session × Frame)) :
    framesOf i (xs ++ ys) = framesOf i xs ++ framesOf i ys := by
  rw [framesOf, List.filter_append, List.map_append, framesOf, framesOf]

theorem filter_forwarding? (i : Nat) (xs : List (Nat × Session × Frame)) :
    ((xs.filterMap forwarding?).filter fun call => call.1 = some i).map (fun call => call.2.2) =
      (framesOf i xs).filter fun f => f.IsBusiness := by
  induction xs with
  | nil => rfl
  | cons x xs ih =>
    obtain ⟨j, s, f⟩ := x
    rw [← List.singleton_append, List.filterMap_append, List.filter_append, List.map_append,
      framesOf_append, List.filter_append, ih]
    refine congrArg (· ++ _) ?_
    by_cases hf : f.IsBusiness <;> by_cases hj : j = i <;> simp [forwarding?, framesOf, hf, hj]

theorem framesOf_own (n : Node) (i : Nat) :
    framesOf i (n.served (.task (.reader i))).toList = ((n.service? i).map (·.2)).toList := by
  rw [served]
  cases n.service? i <;> simp [framesOf]

theorem framesOf_elsewhere (hm : m ≠ .task (.reader i)) : framesOf i (n.served m).toList = [] := by
  cases hs : n.served m with
  | none => rfl
  | some served =>
    obtain ⟨j, s, f⟩ := served
    obtain ⟨rfl, -⟩ := served_eq_some hs
    have hj : j ≠ i := fun hj => hm (by rw [hj])
    simp [framesOf, hj]

theorem ServedUpTo.within {r : Reader} (h : ServedUpTo r arrived incoming fs) :
    fs.map .ok <+: arrived.tail := by
  cases r with
  | awaitingAuth => exact h.1 ▸ List.nil_prefix
  | greeting f g => exact h.elim fun x hx => hx ▸ List.prefix_append _ _
  | greeted g => exact h.elim fun x hx => hx ▸ List.prefix_append _ _
  | serving s => exact h.elim fun x hx => hx ▸ List.prefix_append _ _
  | calling s f u => exact h.elim fun x hx => hx ▸ List.prefix_append _ _
  | connecting u => exact h
  | leaving c u => exact h
  | returned => exact h
  | crashed => exact h

theorem ServedUpTo.arrive {r : Reader} (h : ServedUpTo r arrived incoming fs)
    (more : List (Except GatewayError Frame)) :
    ServedUpTo r (arrived ++ more) (incoming ++ more) fs := by
  have hlater (h : fs.map .ok <+: arrived.tail) : fs.map .ok <+: (arrived ++ more).tail := by
    cases arrived with
    | nil => exact h.trans List.nil_prefix
    | cons x xs => exact h.trans (List.prefix_append xs more)
  have hahead (h : ∃ x, arrived = x :: (fs.map .ok ++ incoming)) :
      ∃ x, arrived ++ more = x :: (fs.map .ok ++ (incoming ++ more)) := by
    obtain ⟨x, rfl⟩ := h
    exact ⟨x, congrArg (x :: ·) (List.append_assoc _ _ _)⟩
  cases r with
  | awaitingAuth => exact ⟨h.1, congrArg (· ++ more) h.2⟩
  | greeting f g => exact hahead h
  | greeted g => exact hahead h
  | serving s => exact hahead h
  | calling s f u => exact hahead h
  | connecting u => exact hlater h
  | leaving c u => exact hlater h
  | returned => exact hlater h
  | crashed => exact hlater h

theorem ServedUpTo.of_session {r : Reader} (h : ServedUpTo r arrived incoming fs)
    (hs : r.session? = some s) : ∃ x, arrived = x :: (fs.map .ok ++ incoming) := by
  cases r with
  | serving s => exact h
  | calling s f u => exact h
  | _ => cases hs

theorem ServedUpTo.mayFollowLastCall {r : Reader} (h : fs.map .ok <+: arrived.tail)
    (hr : r.MayFollowLastCall c) : ServedUpTo r arrived incoming fs := by
  cases hr <;> exact h

theorem service?_prefix (n : Node) (i : Nat) :
    ((n.service? i).map (·.2)).toList.map .ok <+: (n.line i).incoming := by
  cases hs : n.service? i with
  | none => exact List.nil_prefix
  | some served =>
    obtain ⟨-, -, rest, hin⟩ := service?_eq_some hs
    exact ⟨rest, hin.symm⟩

theorem service?_of_owes {r : Frame} {rest : List (Except GatewayError Frame)} {s' : Session}
    (ho : (n.line i).Owes s r rest) (hstep : n.readerStep i = some n')
    (hs : (n'.line i).reader.session? = some s') :
    (n.line i).incoming = ((n.service? i).map (·.2)).toList.map .ok ++ rest := by
  cases ho with
  | read asked hr hin ha =>
    have hreader : (n.connection i).reader = .serving s := hr
    have hclosed : (n.connection i).closed = false := by
      rw [Bool.eq_false_iff]
      intro hc
      rw [readerStep, hreader] at hstep
      dsimp only at hstep
      rw [if_pos hc] at hstep
      cases hstep
      exact session?_tearDown s.channel hs
    have hservice : n.service? i = some (s, asked) := by
      have hincoming : (n.connection i).wire.incoming = .ok asked :: rest := hin
      simp only [service?, hreader, hclosed, hincoming]
    rw [hservice, hin]
    rfl
  | awaited u hr hin =>
    have hnone : n.service? i = none := service?_eq_none fun s' he => by cases hr.symm.trans he
    rw [hnone]
    exact hin

theorem Reading.servedUpTo (h : ServedUpTo (n.line i).reader arrived (n.line i).incoming fs)
    (hr : n.Reading i n') (hstep : n.readerStep i = some n') :
    ServedUpTo (n'.line i).reader arrived (n'.line i).incoming
      (fs ++ ((n.service? i).map (·.2)).toList) := by
  -- Outside a session nothing is served.
  have hidle {r : Reader} {rest : List (Except GatewayError Frame)}
      (hn : ∀ s, (n.line i).reader ≠ .serving s) (hnew : ServedUpTo r arrived rest fs) :
      ServedUpTo r arrived rest (fs ++ ((n.service? i).map (·.2)).toList) := by
    rw [service?_eq_none hn]
    exact (List.append_nil fs).symm ▸ hnew
  have hends {s : Session} (hs : (n.line i).reader.session? = some s) :
      (fs ++ ((n.service? i).map (·.2)).toList).map .ok <+: arrived.tail := by
    obtain ⟨x, hx⟩ := h.of_session hs
    rw [List.map_append, hx]
    exact (List.prefix_append_right_inj _).2 (n.service?_prefix i)
  have hgoes {s s' : Session} {f : Frame} {rest : List (Except GatewayError Frame)}
      (ho : (n.line i).Owes s f rest) (hs : (n'.line i).reader.session? = some s') :
      ∃ x, arrived = x :: ((fs ++ ((n.service? i).map (·.2)).toList).map .ok ++ rest) := by
    obtain ⟨x, hx⟩ := h.of_session ho.session?
    refine ⟨x, ?_⟩
    rw [hx, service?_of_owes ho hstep hs, List.map_append, List.append_assoc]
  cases hr with
  | rejected rest hs ha hq =>
    rw [hq.here]
    exact hidle (fun s hr => by rw [hr] at hs; cases hs) h.within
  | asked r rest ha hn hr he ho =>
    have hwithin := h.within
    rw [he.here]
    refine hidle (by rw [ha]; nofun) ?_
    rcases hr with rfl | ⟨u, rfl⟩ <;> exact hwithin
  | granted f g rest ha hn hin hop he ho =>
    rw [ha] at h
    obtain ⟨rfl, rfl⟩ := h
    rw [he.here]
    exact hidle (by rw [ha]; nofun) ⟨_, hin⟩
  | greeted f g hg hq =>
    rw [hg] at h
    rw [hq.here]
    exact hidle (by rw [hg]; nofun) h
  | enrolled g s hg hsg ht hadm =>
    rw [hg] at h
    rw [ht.here]
    exact hidle (by rw [hg]; nofun) h
  | overrun g c hg ht hadm =>
    rw [ht.here]
    exact hidle (by rw [hg]; nofun) h.within
  | unseated g c r hg hl hle hlt ht hp hs =>
    rw [ht.here]
    exact hidle (by rw [hg]; nofun) (.mayFollowLastCall h.within hl)
  | replied s s' f rest ho hg hc ht htouch =>
    have hs' : (n'.line i).reader.session? = some s' := by
      rw [ht.here]
      rfl
    have hnew := hgoes ho hs'
    rw [ht.here]
    exact hnew
  | calling s f u rest hs ho hq =>
    have hs' : (n'.line i).reader.session? = some s := by
      rw [hq.here]
      rfl
    have hnew := hgoes ho hs'
    rw [hq.here]
    exact hnew
  | tornDown s r rest hs hl ht hp hn =>
    rw [ht.here]
    exact .mayFollowLastCall (hends hs) hl
  | crashed s rest hs hq =>
    rw [hq.here]
    exact hends hs
  | left c u hl hq =>
    rw [hq.here]
    exact hidle (by rw [hl]; nofun) h.within

theorem ServedUpTo.move (h : ServedUpTo (n.line i).reader arrived (n.line i).incoming fs)
    (ho : n.Owned) (m : Move) : ServedUpTo ((n.move m).line i).reader (arrived ++ n.arrived i m)
    ((n.move m).line i).incoming
      (fs ++ framesOf i (n.served m).toList) := by
  by_cases hm : m = .task (.reader i)
  · subst hm
    rw [framesOf_own, show n.arrived i (.task (.reader i)) = [] from rfl, List.append_nil]
    cases hstep : n.readerStep i with
    | none =>
      rw [service?_of_stuck hstep, Node.move, step, hstep]
      exact (List.append_nil fs).symm ▸ h
    | some n' =>
      rw [Node.move, step, hstep]
      exact (readerStep_reading ho.buckets
        (fun s hs => ho.lt i _ (.inl (Reader.channel?_of_session? hs))) hstep).servedUpTo h hstep
  · rw [framesOf_elsewhere hm, List.append_nil]
    rcases ho.line_elsewhere hm with ⟨hr, hin⟩ | ⟨hb, hr⟩
    · rw [hr, hin]
      exact h.arrive _
    · rw [hb] at h
      obtain rfl : fs = [] := h.1
      rw [hr]
      exact List.nil_prefix

theorem after_servedUpTo (config : Config) (hostname : Option String) (entropy : Entropy)
    (h : List Move) (i : Nat) :
    let start := new config hostname entropy
    ServedUpTo ((start.after h).line i).reader (start.arrivals i h)
      ((start.after h).line i).incoming (framesOf i (start.services h)) := by
  intro start
  induction h with
  | nil =>
    change ServedUpTo (start.line i).reader [] (start.line i).incoming []
    rw [new_line]
    exact ⟨rfl, rfl⟩
  | cons m h ih =>
    rw [services, framesOf_append]
    exact ih.move ((new_owned config hostname entropy).after h) m

theorem setReader_readerBecomes (hi : i < n.connections.size) (r : Reader) :
    n.ReaderBecomes i r (n.setReader i r) := by
  have hset : (n.setReader i r).connection i = { n.connection i with reader := r } := by
    rw [setReader, connection_modifyConnection, if_pos ⟨rfl, hi⟩]
  constructor <;> rw [hset]

theorem ReaderBecomes.of_wire {r : Reader} {g : Wire → Wire}
    (h : (n.modifyWire i g).ReaderBecomes i r n') : n.ReaderBecomes i r n' := by
  have hwire : ((n.modifyWire i g).connection i).writer = (n.connection i).writer ∧
      ((n.modifyWire i g).connection i).closed = (n.connection i).closed := by
    rw [modifyWire, connection_modifyConnection]
    split_ifs <;> exact ⟨rfl, rfl⟩
  exact ⟨h.reader, h.writer.trans hwire.1, h.closed.trans hwire.2⟩

theorem reply_queuesReply (hi : i < n.connections.size)
    (hc : s.channel < n.directory.lobby.channels.size)
    (hroom : (n.channel s.channel).inbound.isFull = false) (f : Frame) :
    n.QueuesReply i s f (n.reply i s f) := by
  obtain ⟨ring, hring⟩ := Ring.push?_of_room hroom f
  have hreply : n.reply i s f = (n.modifyChannel s.channel fun _ =>
      { n.channel s.channel with inbound := ring }.wake).setReader i (.serving s) := by
    simp only [reply, Channel.pushInbound, hring]
  have hset := (n.modifyChannel s.channel fun _ =>
    { n.channel s.channel with inbound := ring }.wake).setReader_readerBecomes hi (.serving s)
  rw [hreply]
  refine ⟨⟨hset.reader, hset.writer, hset.closed⟩, ?_⟩
  change _ = some ((n.modifyChannel s.channel _).channel s.channel).inbound
  rw [modifyChannel_here hc, (Channel.wake_receives _).inbound]
  exact hring

theorem callReceive_eq (n : Node) (caller : Option Nat) (mid : Int64) (f : Frame) :
    ∃ plane, (n.callReceive caller mid f).2 = { n.record caller (.receive mid f) with plane } := by
  simp only [callReceive, answer]
  split <;> exact ⟨_, rfl⟩

/-- A business frame is answered at once, or the reply is held back for the time that a call may
take. -/
theorem Owned.business_answered (ho : n.Owned) (hs : n.service? i = some (s, f))
    (hf : f.IsBusiness) :
    if n.faults.get? .receive = some .hangs then
      n.DefersReply i s (f.emptied f.op) n.giveUp (n.move (.task (.reader i)))
      else (n.channel s.channel).inbound.isFull = false →
      n.QueuesReply i s (f.emptied f.op) (n.move (.task (.reader i))) := by
  obtain ⟨k, hk, hstep⟩ := readerStep_of_service hs
  have hi := readerStep_lt hstep
  have hreader : (n.line i).reader = .serving s := (service?_eq_some hs).1
  have hc : s.channel < n.directory.lobby.channels.size := ho.lt i _ (.inl (by rw [hreader]; rfl))
  have hmove : n.move (.task (.reader i)) = k.serve i s f := by rw [Node.move, step, hstep,
    Option.getD_some]
  obtain ⟨g, rfl⟩ := nextIncoming_eq hk
  obtain ⟨plane, hcall⟩ := (n.modifyWire i g).callReceive_eq (some i)
    ((n.modifyWire i g).channel s.channel).mid f
  have hfaults : (n.modifyWire i g).faults = n.faults := rfl
  have hsize : i < (n.modifyWire i g).connections.size :=
    Nat.lt_of_lt_of_eq hi Array.size_modify.symm
  rw [hmove, serve, if_neg (hf.op_ne (by decide)), operate_business _ _ _ _ hf, hcall, hfaults]
  split_ifs with hhangs
  · have hset := setReader_readerBecomes hsize (.calling s (f.emptied f.op) n.giveUp)
    exact ⟨.of_wire ⟨hset.reader, hset.writer, hset.closed⟩, rfl⟩
  · intro hroom
    have hreply := reply_queuesReply (n := { (n.modifyWire i g).record (some i)
      (.receive ((n.modifyWire i g).channel s.channel).mid f) with plane }) hsize hc hroom
      (f.emptied f.op)
    exact ⟨.of_wire ⟨hreply.reader, hreply.writer, hreply.closed⟩, hreply.ring⟩

/-- A reply that is held back stays with the reader until its time, and then goes where it was to
go. -/
theorem Owned.deferred_answered (ho : n.Owned) (hr : (n.connection i).reader = .calling s f u) :
    (∀ m, ((n.move m).connection i).reader = .calling s f u ∨ m = .task (.reader i) ∧ u ≤ n.now) ∧
    (u ≤ n.now → (n.channel s.channel).inbound.isFull = false →
      n.QueuesReply i s f (n.move (.task (.reader i)))) := by
  have hline : (n.line i).reader = .calling s f u := hr
  have hstep : n.readerStep i = if u ≤ n.now then some (n.reply i s f)
    else none := by rw [readerStep, hr]
  constructor
  · intro m
    by_cases hm : m = .task (.reader i)
    · subst hm
      by_cases hu : u ≤ n.now
      · exact .inr ⟨rfl, hu⟩
      · rw [Node.move, step, hstep, if_neg hu]
        exact .inl hr
    · left
      rcases ho.line_elsewhere hm with ⟨hsame, -⟩ | ⟨hb, -⟩
      · exact hsame.trans hr
      · rw [hb] at hline
        cases hline
  · intro hu hroom
    rw [if_pos hu] at hstep
    have hc : s.channel < n.directory.lobby.channels.size := ho.lt i _ (.inl (by rw [hline]; rfl))
    rw [Node.move, step, hstep]
    exact reply_queuesReply (readerStep_lt hstep) hc hroom f

/-- In every run the calls about business frames are those for the business frames that are served,
one for each, with the mid of its sender and as it came; the frames that a connection is served are
the first that arrive after its auth frame, in their order, and as long as its session lasts all
that have been read. Of the calls that succeed, in a run or in any other way, the newest 1024 are
kept. Whether a call succeeds or is refused, the reply goes into the ring if there is a place and
the session goes on; if it hangs, the reply is held back until it is given up and then goes the same
way. -/
theorem after_forwarded (config : Config) (hostname : Option String) (entropy : Entropy)
    (h : List Move) :
    let start := new config hostname entropy
    let n := start.after h
    n.forwarded = (start.services h).filterMap forwarding? ∧
    (∀ i, (framesOf i (start.services h)).map .ok <+: (start.arrivals i h).tail ∧
      (∀ s, (n.line i).reader.session? = some s →
        ∃ x, start.arrivals i h =
        x :: ((framesOf i (start.services h)).map .ok ++ (n.line i).incoming)) ∧
      (n.forwarded.filter fun call => call.1 = some i).map (fun call => call.2.2) =
        (framesOf i (start.services h)).filter fun f => f.IsBusiness) ∧
    (n.plane.received = (start.kept h).rtake 1024 ∧ ∀ calls : List (Int64 × Frame),
      (calls.foldl (fun p call => p.receive call.1 call.2) ({} : ControlPlane)).received =
      calls.rtake 1024) ∧
    (∀ i s f, n.service? i = some (s, f) → f.IsBusiness →
      if n.faults.get? .receive = some .hangs then
        n.DefersReply i s (f.emptied f.op) n.giveUp (n.move (.task (.reader i)))
      else (n.channel s.channel).inbound.isFull = false →
        n.QueuesReply i s (f.emptied f.op) (n.move (.task (.reader i)))) ∧
    ∀ i s r u, (n.connection i).reader = .calling s r u →
      (∀ m, ((n.move m).connection i).reader = .calling s r u ∨ m = .task (.reader i) ∧ u ≤ n.now) ∧
      (u ≤ n.now → (n.channel s.channel).inbound.isFull = false →
        n.QueuesReply i s r (n.move (.task (.reader i)))) := by
  intro start n
  have ho : n.Owned := (new_owned config hostname entropy).after h
  obtain ⟨hforwarded, hreceived⟩ := after_told config hostname entropy h
  refine ⟨hforwarded, fun i => ?_, ⟨hreceived, ControlPlane.foldl_receive_received⟩, ?_, ?_⟩
  · have hserved := after_servedUpTo config hostname entropy h i
    refine ⟨hserved.within, fun s hs => hserved.of_session hs, ?_⟩
    rw [hforwarded]
    exact filter_forwarding? i _
  · exact fun i s f hs hf => ho.business_answered hs hf
  · exact fun i s r u hr => ho.deferred_answered hr

/-- Two business frames at either end of the codes, from a client whose control plane refuses the
first call and hangs at the second. -/
def businessFrames : List Move :=
  [.event (.fault .receive (some .hangs)), .task (.reader 0),
    .event (.fault .receive (some (.refuses "down"))),
    .event (.arrive 0 [.ok { ver := 1, op := 1000, seq := 2, body := [5] },
      .ok { ver := 1, op := 10000, seq := 3, body := [6] }]),
    .task (.reader 0), .task (.reader 0), .task (.reader 0), .event (.arrive 0 [.ok (authFrame 1)]),
    .event (.open "ip" "")]

/-- Both are answered without their bodies, the second when the call has been given up. -/
theorem after_forwarded_businessFrames :
    let start := new Config.testing none ⟨0⟩
    let refused := start.after (businessFrames.drop 2)
    let given := start.after (.event (.advance Config.testing.rpcTimeout) :: .task (.reader 0) ::
      businessFrames)
    ∃ s s',
      refused.QueuesReply 0 s { ver := 1, op := 1000, seq := 2 }
      (refused.move (.task (.reader 0))) ∧
      given.QueuesReply 0 s' { ver := 1, op := 10000, seq := 3 } (given.move (.task (.reader 0))) ∧
      given.forwarded = [(some 0, 1, { ver := 1, op := 1000, seq := 2, body := [5] }),
        (some 0, 1, { ver := 1, op := 10000, seq := 3, body := [6] })] := by
  intro start refused given
  let hung := start.after businessFrames
  obtain ⟨⟨s, f⟩, hs, hsf⟩ := Option.map_eq_some_iff.1 (show (refused.service? 0).map
    (fun x => (x.1.channel, x.2)) =
    some (0, { ver := 1, op := 1000, seq := 2, body := [5] }) by decide +kernel)
  obtain ⟨⟨s', f'⟩, hs', hsf'⟩ := Option.map_eq_some_iff.1 (show (hung.service? 0).map
    (fun x => (x.1.channel, x.2)) =
    some (0, { ver := 1, op := 10000, seq := 3, body := [6] }) by decide +kernel)
  obtain ⟨hc, rfl⟩ := Prod.mk.inj hsf
  obtain ⟨hc', rfl⟩ := Prod.mk.inj hsf'
  have hroom : (refused.channel s.channel).inbound.isFull = false := by
    rw [hc]
    decide +kernel
  have hroom' : (given.channel s'.channel).inbound.isFull = false := by
    rw [hc']
    decide +kernel
  have hreplies := (after_forwarded Config.testing none ⟨0⟩ (businessFrames.drop 2)).2.2.2.1 0 s _
    hs (by decide)
  rw [if_neg (show refused.faults.get? .receive ≠ some .hangs by decide +kernel)] at hreplies
  have hdefers := (after_forwarded Config.testing none ⟨0⟩ businessFrames).2.2.2.1 0 s' _ hs'
    (by decide)
  rw [if_pos (show hung.faults.get? .receive = some .hangs by decide +kernel)] at hdefers
  have htime : hung.giveUp ≤ given.now := by decide +kernel
  have hstays :=
    ((after_forwarded Config.testing none ⟨0⟩ (.task (.reader 0) :: businessFrames)).2.2.2.2 0 s' _
    _ hdefers.reader).1 (.event (.advance Config.testing.rpcTimeout))
  have hcalling := hstays.resolve_right nofun
  refine ⟨s, s', hreplies hroom, ?_, by decide +kernel⟩
  exact ((after_forwarded Config.testing none ⟨0⟩ (.event (.advance Config.testing.rpcTimeout) ::
    .task (.reader 0) :: businessFrames)).2.2.2.2 0 s' _ _ hcalling).2 htime hroom'

end Node

end PushGateway
