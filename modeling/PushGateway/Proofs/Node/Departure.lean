import PushGateway.Proofs.Node.Deadlines
import PushGateway.Proofs.Node.Presence
import PushGateway.Proofs.Node.Residence

/-!
What a connection leaves behind, and what it does to the others. Once it has returned, by whatever
way, nothing of it is in the directory, in a room or on a timer; before it is let in, nothing of it
ever was. The others have nothing of it but a request to finish, for whoever holds the key that it
takes.
-/

namespace PushGateway.Node

/-- The moves of connection `i`: that it opens, what its tasks do, and what happens to its
transport. -/
def Makes (n : Node) (i : Nat) : Move → Prop
  | .event (.open ..) => n.connections.size = i
  | .event (.arrive j _) | .event (.stall j) | .event (.resume j) | .event (.failWrites j) => j = i
  | .task (.reader j) | .task (.writer j) => j = i
  | _ => False

/-- Who loses its key when connection `i` makes a move. -/
def displaced (n : Node) (i : Nat) (m : Move) : Option Nat :=
  (n.enrolled i m).bind fun g => n.session? g.key

structure NothingLeft (n : Node) (i : Nat) (cs : List (Nat × ControlPlane.Grant)) : Prop where
  closed : (n.connection i).closed
  deadline : (n.ownHeap i).live? (n.connection i).deadline = none
  timers : ∀ t s, ((n.timer t).heap.entry s).callback ≠ some i
  once : cs.length ≤ 1
  session : ∀ p ∈ cs, ∀ b key, n.directory.session? b key ≠ some p.1
  room : ∀ p ∈ cs, n.directory.lobby.roomOf p.1 = none
  members : ∀ p ∈ cs, ∀ r, p.1 ∉ (n.directory.lobby.room r).members

/-- Every bucket counts the addresses of the channels, and those alone, whose connections have been
let in and have not left. -/
structure CountsAddresses (n : Node) (es : Nat → List (Nat × ControlPlane.Grant)) : Prop where
  ips : ∃ ts : List Nat, ts.Nodup ∧
    (∀ c, c ∈ ts ↔ ∃ i g, (c, g) ∈ es i ∧ (n.connection i).reader.hasLeft = false) ∧
    ∀ b, (n.directory.bucket b).Counts (n.directory.countAt ts b)
  names : ∀ i c g, (c, g) ∈ es i → (n.channel c).key = g.key ∧
    (n.channel c).ip = (n.connection i).ip

/-- Connection `j`, which has the channels `cs`, its deadline, keys and rooms are as they were, but
that channel `lost` has been asked to finish and stands under its key no more. -/
structure KeepsRival (n : Node) (j : Nat) (cs : List (Nat × ControlPlane.Grant)) (lost : Option Nat)
    (n' : Node) : Prop where
  connection : n'.connection j = n.connection j
  timers : ∀ t s, ((n.timer t).heap.entry s).callback = some j ∨
    ((n'.timer t).heap.entry s).callback = some j →
    ((n'.timer t).heap.entry s).unplaced = ((n.timer t).heap.entry s).unplaced ∧
      (s ∈ (n'.timer t).heap.order ↔ s ∈ (n.timer t).heap.order)
  channel : ∀ p ∈ cs, n'.channel p.1 =
    if lost = some p.1 then (n.channel p.1).close.release else n.channel p.1
  session : ∀ p ∈ cs, ∀ b key,
    n'.directory.session? b key = some p.1 ↔ n.directory.session? b key = some p.1 ∧ lost ≠ some p.1
  members : ∀ p ∈ cs, ∀ r,
    p.1 ∈ (n'.directory.lobby.room r).members ↔ p.1 ∈ (n.directory.lobby.room r).members

variable {n n' : Node} {es : Nat → List (Nat × ControlPlane.Grant)} {i j c : Nat} {m : Move}

theorem ListsChannels.staying {ts : List Nat} {g : ControlPlane.Grant} (h : n.ListsChannels es)
    (hts : ∀ c, c ∈ ts ↔ ∃ i g, (c, g) ∈ es i ∧ (n.line i).reader.hasLeft = false)
    (hmem : (c, g) ∈ es i) (hl : (n.line i).reader.hasLeft) : c ∉ ts := by
  intro hc
  obtain ⟨j, g', hmem', hl'⟩ := (hts c).1 hc
  rw [h.alone j i c g' g hmem' hmem, hl] at hl'
  cases hl'

theorem ListsChannels.nothingLeft (h : n.ListsChannels es) (hk : n.DeadlinesInOrder)
    (hl : (n.line i).reader.hasLeft) : n.NothingLeft i (es i) := by
  obtain ⟨ts, ht, hts⟩ := h.registers
  obtain ⟨hclosed, hspent⟩ := hk.gone i hl
  have hout (p : Nat × ControlPlane.Grant) (hp : p ∈ es i) : p.1 ∉ ts := h.staying hts hp hl
  have hroom (p : Nat × ControlPlane.Grant) (hp : p ∈ es i) :
      n.directory.lobby.roomOf p.1 = none := by
    cases hr : n.directory.lobby.roomOf p.1 with
    | none => rfl
    | some r => exact absurd (ht.roomOf p.1 r hr) (hout p hp)
  refine ⟨hclosed, hspent.live?_eq_none, fun t s hcall => ?_, h.one i,
    fun p hp b key hs => ?_, hroom, fun p hp r hmem => ?_⟩
  · exact hspent.not_armed (hk.named t s i hcall).2.2.2
  · exact hout p hp (ht.session b key p.1 hs).1
  · rw [h.wellFormed.seatsAgree.mem_members, hroom p hp] at hmem
    cases hmem

theorem ListsChannels.countsAddresses (h : n.ListsChannels es) : n.CountsAddresses es := by
  obtain ⟨ts, ht, hts⟩ := h.registers
  exact ⟨⟨ts, ht.nodup, hts, ht.ips⟩, h.names⟩

theorem ReaderEffect.onlyConnection (h : n.ReaderEffect i n') : n.OnlyConnection i n' := by
  cases h with
  | shaking hs he hs' hserve hk => exact hserve.toOnlyConnection
  | rejected hs he hr hquit hk => exact hquit.toOnlyConnection
  | enrollEffect g he hn' henr =>
    have hflush := n.modifyWire_keepsDeadline i Wire.flush
    cases henr with
    | seated hok hh hr => exact (hflush.trans hh.toKeepsDeadline).toOnlyConnection
    | unseated hq hd hr => exact (hflush.dropsDeadline hq).toOnlyConnection
  | served s s' hs hs' hch ha => exact ha.toOnlyConnection
  | crashed s hs hr ha => exact ha.toOnlyConnection
  | tornDown s m hs ha hv => exact ha.toOnlyConnection.trans hv.toOnlyConnection
  | left c u hl hr hserve hd ht => exact hserve.toOnlyConnection

theorem ReaderEffect.timers (h : n.ReaderEffect i n') : n'.timers = n.timers ∨
    (n.line i).reader.isTimed := by
  cases h with
  | shaking hs he hs' hserve hk => exact .inr (Reader.isTimed_of_isHandshake hs)
  | rejected hs he hr hquit hk => exact .inr (Reader.isTimed_of_isHandshake hs)
  | enrollEffect g he hn' henr =>
    exact .inr (Reader.isTimed_of_isHandshake (enrollment?_isHandshake he))
  | served s s' hs hs' hch ha => exact .inr (Reader.isTimed_of_session? hs)
  | crashed s hs hr ha => exact .inr (Reader.isTimed_of_session? hs)
  | tornDown s m hs ha hv => exact .inr (Reader.isTimed_of_session? hs)
  | left c u hl hr hserve hd ht => exact .inl ht

theorem enrollment?_of_session? {s : Session} (h : (n.line i).reader.session? = some s) :
    n.enrollment? i = none := by
  refine enrollment?_eq_none fun g hg => ?_
  have hg' : (n.line i).reader = .greeted g := hg
  rw [hg'] at h
  cases h

def Private (es : Nat → List (Nat × ControlPlane.Grant)) (i c : Nat) : Prop :=
  ∀ j, j ≠ i → ∀ p ∈ es j, p.1 ≠ c

theorem ListsChannels.own_private (h : n.ListsChannels es) (hc : (n.line i).Owns c) :
    Private es i c := by
  rintro j hj ⟨d, g'⟩ hp rfl
  obtain ⟨g, hmem⟩ := h.owned i d hc
  exact hj (h.alone j i d g' g hp hmem)

theorem ListsChannels.new_private (h : n.ListsChannels es) (i : Nat) :
    Private es i n.directory.lobby.channels.size :=
  fun j _ p hp => Nat.ne_of_lt (h.lt j p.1 p.2 hp)

theorem DeletesChannel.keepsOthers (h : n.DeletesChannel i c n')
    (hb : 0 < n.directory.buckets.size) : n.directory.KeepsOthers c none n'.directory := by
  have hlt := Directory.bucketOf_lt hb (n.channel c).key
  exact (Directory.del_keepsOthers hlt c).trans h.directory.onlyMoves.toOnlyChanges.keepsOthers

theorem EnrollEffect.keepsOthers {g : ControlPlane.Grant} {ts : List Nat}
    (h : n.EnrollEffect i g n') (ho : n.directory.WellFormed) (ht : n.directory.Registers ts)
    (hb : 0 < n.directory.buckets.size) :
    n.directory.KeepsOthers n.directory.lobby.channels.size (n.session? g.key) n'.directory := by
  obtain ⟨hbuckets, -⟩ := n.putNewChannel_names i g
  obtain ⟨-, -, hby, -⟩ := putNewChannel_new ho ht hb i g
  cases h with
  | seated hok hh hr => exact hby.trans hh.directory.onlyMoves.toOnlyChanges.keepsOthers
  | unseated hq hd hr =>
    have hlt := Directory.bucketOf_lt hb g.key
    rw [← hbuckets] at hlt
    exact (hby.trans (Directory.del_keepsOthers hlt _)).trans hd.onlyMoves.toOnlyChanges.keepsOthers

theorem ReaderEffect.keepsOthers (hc : n.ReaderEffect i n') (h : n.ListsChannels es)
    (hb : 0 < n.directory.buckets.size) :
    ∃ c, Private es i c ∧ n.directory.KeepsOthers c (n.displaced i (.task (.reader i)))
      n'.directory := by
  have hkeyless (he : n.enrollment? i = none) : n.displaced i (.task (.reader i)) = none := by
    rw [displaced, enrolled_reader, if_pos rfl, he, Option.bind_none]
  have hsame (he : n.enrollment? i = none) (hd : n'.directory = n.directory) :
      ∃ c, Private es i c ∧ n.directory.KeepsOthers c (n.displaced i (.task (.reader i)))
        n'.directory := by
    rw [hkeyless he, hd]
    exact ⟨_, h.new_private i, (Directory.OnlyChanges.refl _ _).keepsOthers⟩
  have hown {s : Session} (hs : (n.line i).reader.session? = some s) : Private es i s.channel :=
    h.own_private (.inl (Reader.channel?_of_session? hs))
  cases hc with
  | shaking hs he hs' hserve hk => exact hsame he hk.directory
  | rejected hs he hr hquit hk => exact hsame he hk.directory
  | enrollEffect g he hn' henr =>
    obtain ⟨ts, ht, -⟩ := h.registers
    have hlost : n.displaced i (.task (.reader i)) = n.session? g.key := by
      rw [displaced, enrolled_reader, if_pos rfl, he, Option.bind_some]
    rw [hlost]
    exact ⟨_, h.new_private i, henr.keepsOthers h.wellFormed ht hb⟩
  | served s s' hs hs' hch ha =>
    rw [hkeyless (enrollment?_of_session? hs)]
    exact ⟨_, hown hs, ha.directory.toOnlyChanges.keepsOthers⟩
  | crashed s hs hr ha =>
    rw [hkeyless (enrollment?_of_session? hs)]
    exact ⟨_, hown hs, ha.directory.toOnlyChanges.keepsOthers⟩
  | tornDown s m hs ha hv =>
    rw [hkeyless (enrollment?_of_session? hs)]
    have hb' : 0 < m.directory.buckets.size := ha.directory.buckets.symm ▸ hb
    exact ⟨_, hown hs, ha.directory.toOnlyChanges.keepsOthers.trans (hv.keepsOthers hb')⟩
  | left c u hl hr hserve hd ht =>
    rw [hkeyless (enrollment?_eq_none (by simp [show (n.connection i).reader = _ from hl]))]
    exact ⟨c, h.own_private (.inl (by rw [hl]; rfl)), hd.onlyMoves.toOnlyChanges.keepsOthers⟩

theorem ListsChannels.keepsRival {es' : Nat → List (Nat × ControlPlane.Grant)} {lost : Option Nat}
    (h : n.ListsChannels es) (h' : n'.ListsChannels es') (hc : Private es i c) (hj : j ≠ i)
    (hconn : n'.connection j = n.connection j) (hby : n.directory.KeepsOthers c lost n'.directory)
    (ht : ∀ t s, ((n.timer t).heap.entry s).callback = some j ∨
        ((n'.timer t).heap.entry s).callback = some j →
      ((n'.timer t).heap.entry s).unplaced = ((n.timer t).heap.entry s).unplaced ∧
        (s ∈ (n'.timer t).heap.order ↔ s ∈ (n.timer t).heap.order)) :
    n.KeepsRival j (es j) lost n' := by
  refine ⟨hconn, ht, fun p hp => hby.channel p.1 (hc j hj p hp),
    fun p hp => hby.session p.1 (hc j hj p hp), fun p hp r => ?_⟩
  rw [h'.wellFormed.seatsAgree.mem_members, h.wellFormed.seatsAgree.mem_members,
    hby.roomOf (hc j hj p hp)]

theorem same_entries (ht : n'.timers = n.timers) (j t s : Nat)
    (_ : ((n.timer t).heap.entry s).callback = some j ∨
      ((n'.timer t).heap.entry s).callback = some j) :
    ((n'.timer t).heap.entry s).unplaced = ((n.timer t).heap.entry s).unplaced ∧
      (s ∈ (n'.timer t).heap.order ↔ s ∈ (n.timer t).heap.order) := by
  rw [Node.timer, ht, Node.timer]
  exact ⟨rfl, .rfl⟩

theorem DeadlinesInOrder.entries (h : n.DeadlinesInOrder) (hi : i < n.connections.size)
    (ha : n.OnlyConnection i n') (ht : (n.line i).reader.isTimed) (hj : j ≠ i) (t s : Nat)
    (hcall : ((n.timer t).heap.entry s).callback = some j ∨
      ((n'.timer t).heap.entry s).callback = some j) :
    ((n'.timer t).heap.entry s).unplaced = ((n.timer t).heap.entry s).unplaced ∧
      (s ∈ (n'.timer t).heap.order ↔ s ∈ (n.timer t).heap.order) := by
  have harmed := h.armed i hi ht
  have hm := ha.heap (h.hasTimer hi)
  by_cases hte : t = (n.connection i).timer
  · have htimer : n'.timer t = n'.timer (n'.connection i).timer := by rw [ha.timer, hte]
    by_cases hs : s = (n.connection i).deadline.slot
    · subst hs hte
      rw [htimer] at hcall
      rcases hcall with hcall | hcall
      · exact absurd (Option.some.inj (hcall.symm.trans harmed.callback)) hj
      · rcases hm.own with heffect | ⟨hnone, -⟩
        · exact absurd (Option.some.inj (hcall.symm.trans (heffect.callback.trans harmed.callback)))
            hj
        · exact absurd (hnone.symm.trans hcall) nofun
    · subst hte
      rw [htimer]
      exact ⟨hm.keepsOthers.entry s hs, hm.keepsOthers.scheduled s hs⟩
  · rw [ha.elsewhere t hte]
    exact ⟨rfl, .rfl⟩

theorem DeadlinesInOrder.entries_opensConnection (h : n.DeadlinesInOrder)
    (ho : n.OpensConnection n') (hj : j ≠ n.connections.size) (t s : Nat)
    (hcall : ((n.timer t).heap.entry s).callback = some j ∨
      ((n'.timer t).heap.entry s).callback = some j) :
    ((n'.timer t).heap.entry s).unplaced = ((n.timer t).heap.entry s).unplaced ∧
      (s ∈ (n'.timer t).heap.order ↔ s ∈ (n.timer t).heap.order) := by
  rcases h.handsOut ho with ⟨-, ht⟩ | ⟨-, hrest, hgives⟩
  · exact same_entries ht j t s hcall
  · by_cases hte : t = (n'.connection n.connections.size).timer
    · subst hte
      by_cases hs : s = (n'.connection n.connections.size).deadline.slot
      · subst hs
        rcases hcall with hcall | hcall
        · obtain ⟨-, ht, hs, harmed⟩ := h.named _ _ j hcall
          have hu := harmed.inUse
          rw [ownHeap, ht, hs, hgives.vacant] at hu
          cases hu
        · exact absurd (Option.some.inj (hcall.symm.trans hgives.armed.callback)) hj
      · exact ⟨hgives.keepsOthers.entry s hs, hgives.keepsOthers.scheduled s hs⟩
    · rw [hrest t hte]
      exact ⟨rfl, .rfl⟩

inductive OwnMove (n : Node) (i : Nat) (m : Move) (n' : Node) : Prop
  | wire : n.enrolled i m = none → n.OnlyConnection i n' → n'.directory = n.directory →
      n'.timers = n.timers → OwnMove n i m n'
  | opensConnection : n.enrolled i m = none → n.connections.size = i → n.OpensConnection n' →
      OwnMove n i m n'
  | reading : m = .task (.reader i) → i < n.connections.size → n.ReaderEffect i n' →
      OwnMove n i m n'
  | writing (c : Nat) : m = .task (.writer i) → (n.line i).writer.channel? = some c →
      n.WriterEffect i c n' → OwnMove n i m n'

theorem Makes.ownMove (h : n.Makes i m) (ho : n.Owned) : n.OwnMove i m (n.move m) := by
  have hwire (f : Wire → Wire) (hm : n.enrolled i m = none) : n.OwnMove i m (n.onWire i f) :=
    .wire hm (n.onWire_writerEffect i 0 f).toOnlyConnection (n.onWire_directory i f)
      (n.onWire_writerEffect i 0 f).timers_eq
  have hstuck {t : Task} (hs : n.step t = none) : n.OwnMove i (.task t) (n.move (.task t)) := by
    rw [Node.move, hs]
    exact .wire (enrolled_of_stuck hs i) (KeepsDeadline.refl n i).toOnlyConnection rfl rfl
  cases m with
  | event e =>
    cases e with
    | «open» ip cookie => exact .opensConnection rfl h (n.accept_opensConnection ip cookie)
    | arrive j items => cases h; exact hwire _ rfl
    | stall j => cases h; exact hwire _ rfl
    | resume j => cases h; exact hwire _ rfl
    | failWrites j => cases h; exact hwire _ rfl
    | _ => cases h
  | deliver c f => cases h
  | task t =>
    cases t with
    | reader j =>
      cases h
      cases hs : n.step (.reader i) with
      | none => exact hstuck hs
      | some n' =>
        rw [Node.move, hs]
        exact .reading rfl (readerStep_lt hs) (readerStep_readerEffect
          (fun s hs => ho.lt i _ (.inl (Reader.channel?_of_session? hs))) hs)
    | writer j =>
      cases h
      cases hs : n.step (.writer i) with
      | none => exact hstuck hs
      | some n' =>
        rw [Node.move, hs]
        obtain ⟨c, hc, hw⟩ := writerStep_writerEffect hs
        exact .writing c rfl hc hw
    | _ => cases h

theorem displaced_none (h : n.enrolled i m = none) : n.displaced i m = none := by
  rw [displaced, h, Option.bind_none]

theorem OwnMove.keepsRival {es' : Nat → List (Nat × ControlPlane.Grant)} (hm : n.OwnMove i m n')
    (h : n.ListsChannels es) (h' : n'.ListsChannels es') (hk : n.DeadlinesInOrder)
    (hb : 0 < n.directory.buckets.size) (hj : j ≠ i) :
    n.KeepsRival j (es j) (n.displaced i m) n' := by
  have hsame (hd : n'.directory = n.directory) :
      n.directory.KeepsOthers n.directory.lobby.channels.size none n'.directory := by
    rw [hd]
    exact (Directory.OnlyChanges.refl _ _).keepsOthers
  cases hm with
  | wire he ha hd ht =>
    rw [displaced_none he]
    exact h.keepsRival h' (h.new_private i) hj (ha.others j hj) (hsame hd) (same_entries ht j)
  | opensConnection he hi ho =>
    rw [displaced_none he]
    subst hi
    exact h.keepsRival h' (h.new_private _) hj (ho.others j hj) (hsame ho.directory)
      (hk.entries_opensConnection ho hj)
  | reading hm hi hc =>
    subst hm
    obtain ⟨c, hc', hby⟩ := hc.keepsOthers h hb
    refine h.keepsRival h' hc' hj (hc.onlyConnection.others j hj) hby ?_
    rcases hc.timers with ht | ht
    · exact same_entries ht j
    · exact hk.entries hi hc.onlyConnection ht hj
  | writing c hm hc hw =>
    rw [displaced_none (by rw [hm]; rfl)]
    exact h.keepsRival h' (h.own_private (.inr hc)) hj (hw.others j hj)
      hw.directory.onlyMoves.toOnlyChanges.keepsOthers
      (same_entries hw.timers_eq j)

theorem OwnMove.directory (hm : n.OwnMove i m n') (h : n.ListsChannels es)
    (he : n.letIn es m i = []) : n'.directory = n.directory := by
  have hes : es i = [] := (List.append_eq_nil_iff.1 he).1
  have hnone : n.enrolled i m = none := by
    have := (List.append_eq_nil_iff.1 he).2
    rw [List.map_eq_nil_iff] at this
    exact Option.toList_eq_nil_iff.1 this
  have hown {c : Nat} (hc : (n.line i).Owns c) : n'.directory = n.directory := by
    obtain ⟨g, hmem⟩ := h.owned i c hc
    rw [hes] at hmem
    cases hmem
  cases hm with
  | wire _ ha hd ht => exact hd
  | opensConnection _ hi ho => exact ho.directory
  | writing c hm hc hw => exact hown (.inr hc)
  | reading hm hi hc =>
    cases hc with
    | shaking hs he hs' hserve hk => exact hk.directory
    | rejected hs he hr hquit hk => exact hk.directory
    | enrollEffect g he hn' henr =>
      rw [hm, enrolled_reader, if_pos rfl, he] at hnone
      cases hnone
    | served s s' hs hs' hch ha => exact hown (.inl (Reader.channel?_of_session? hs))
    | crashed s hs hr ha => exact hown (.inl (Reader.channel?_of_session? hs))
    | tornDown s m hs ha hv => exact hown (.inl (Reader.channel?_of_session? hs))
    | left c u hl hr hserve hd ht =>
      have hc : (n.line i).reader.channel? = some c := by rw [hl]; rfl
      exact hown (.inl hc)

/-- In every run a connection that has returned is closed, has no deadline, and its channel stands
under no key and sits in no room; the buckets count the connections that have been let in and have
not left. What a connection does before it is let in does not touch the directory, and never does it
touch what is another's, but that whoever held its key when it is let in loses the key and is asked
to finish. -/
theorem after_departure (config : Config) (hostname : Option String) (entropy : Entropy)
    (ms : List Move) :
    let start := new config hostname entropy
    let n := start.after ms
    (∀ i, (n.connection i).reader = .returned → n.NothingLeft i (start.enrolments i ms)) ∧
    n.CountsAddresses (fun i => start.enrolments i ms) ∧
    (∀ i m, n.Makes i m → start.enrolments i (m :: ms) = [] → (n.move m).directory = n.directory) ∧
    ∀ i m, n.Makes i m → ∀ j, j ≠ i →
      n.KeepsRival j (start.enrolments j ms) (n.displaced i m) (n.move m) := by
  intro start n
  have howned := (new_owned config hostname entropy).after ms
  have hplaced := (new_listsChannels config hostname entropy).after
    (new_owned config hostname entropy) ms
  have hdeadlines := (new_deadlinesInOrder config hostname entropy).after
    (new_owned config hostname entropy) ms
  refine ⟨fun i hr => ?_, hplaced.countsAddresses, fun i m hm he => ?_, fun i m hm j hj => ?_⟩
  · have hl : (n.line i).reader.hasLeft := by
      rw [show (n.line i).reader = .returned from hr]
      rfl
    exact hplaced.nothingLeft hdeadlines hl
  · exact (hm.ownMove howned).directory hplaced he
  · exact (hm.ownMove howned).keepsRival hplaced (hplaced.move howned m) hdeadlines
      howned.buckets hj

/-- A client has been let in under the key k, and another one has asked for the same key. -/
def sameKeyLogins : List Move :=
  [.task (.reader 1), .task (.reader 1), .event (.arrive 1 [.ok (authFrame 2)]),
    .event (.open "ip" ""), .task (.reader 0), .task (.reader 0), .task (.reader 0),
    .event (.arrive 0 [.ok (authFrame 1)]), .event (.open "ip" "")]

theorem after_departure_takeover :
    let start := new Config.testing none ⟨0⟩
    let n := start.after sameKeyLogins
    (start.after (takeover 2)).NothingLeft 0 (start.enrolments 0 (takeover 2)) ∧
      start.enrolments 0 (takeover 2) ≠ [] ∧
      (n.move (.event (.stall 1))).directory = n.directory ∧
      n.KeepsRival 0 (start.enrolments 0 sameKeyLogins) (some 0) (n.move (.task (.reader 1))) := by
  intro start n
  have hr : ((start.after (takeover 2)).connection 0).reader = .returned :=
    Reader.eq_returned (by decide +kernel)
  have hnone : start.enrolments 1 (.event (.stall 1) :: sameKeyLogins) = [] :=
    List.isEmpty_iff.1 (by decide +kernel)
  have hlost : n.displaced 1 (.task (.reader 1)) = some 0 := by decide +kernel
  refine ⟨(after_departure Config.testing none ⟨0⟩ (takeover 2)).1 0 hr, ?_,
    (after_departure Config.testing none ⟨0⟩ sameKeyLogins).2.2.1 1 _ rfl hnone,
    hlost ▸ (after_departure Config.testing none ⟨0⟩ sameKeyLogins).2.2.2 1 (.task (.reader 1)) rfl
    0 (by decide)⟩
  exact fun h => absurd (List.isEmpty_iff.2 h) (by decide +kernel)

/-- The first client is served, and the step that lets the second one in takes its key from it. -/
theorem sameKeyLogins_displaced :
    let n := (new Config.testing none ⟨0⟩).after sameKeyLogins
    n.Makes 1 (.task (.reader 1)) ∧ (n.connection 0).reader.session?.map (·.channel) = some 0 ∧
      n.session? "k" = some 0 ∧ (n.move (.task (.reader 1))).session? "k" = some 1 ∧
      ((n.move (.task (.reader 1))).connection 0).reader.session?.map (·.channel) = some 0 := by
  intro n
  exact ⟨rfl, by decide +kernel, by decide +kernel, by decide +kernel, by decide +kernel⟩

end PushGateway.Node
