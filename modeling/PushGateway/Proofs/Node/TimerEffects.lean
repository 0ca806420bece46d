import PushGateway.Proofs.Node.Authentication
import PushGateway.Proofs.Node.DeadlineEffects

/-!
The supervision of a connection by its timer. Whenever the connection is heard of, its deadline is
asked to be moved, and may be left where it is; what stands then is near what was asked, however
many times it was left, and nothing else moves it. So the timer gives the close signal neither too
early nor too late.
-/

namespace PushGateway.Node

def Waiting (n : Node) (i : Nat) : Prop := (n.ownHeap i).Waits (n.connection i).deadline

def dueTime (n : Node) (i : Nat) : Nanos :=
  ((n.ownHeap i).entry (n.connection i).deadline.slot).deadline

/-- The timer of connection `i` has taken its deadline off the heap, and is about to close it. -/
def InHand (n : Node) (i : Nat) : Prop := i ∈ (n.ownTimer i).phase.hand

def heardIn (n : Node) (i : Nat) : Move → Option LastHeard
  | .task (.reader j) => if j = i then n.hearing? i else none
  | _ => none

def lastHeard (n : Node) (i : Nat) : List Move → Option LastHeard
  | [] => none
  | m :: h => ((n.after h).heardIn i m).or (n.lastHeard i h)

def Alert (n : Node) : Prop := ∀ t, (n.timer t).Alert

/-- Connection `i` is closed, or its timer is going to see to it. -/
def Guarded (n : Node) (i : Nat) : Prop := (n.connection i).closed ∨ n.Waiting i ∨ n.InHand i

structure DeadlineStays (n : Node) (i : Nat) (n' : Node) : Prop where
  waiting : n'.Waiting i → n.Waiting i ∧ n'.dueTime i = n.dueTime i
  guarded : n.Guarded i → n'.Guarded i

/-- The entry of connection `i` is still the same, and its close signal is not taken back. -/
structure KeepsEntry (n : Node) (i : Nat) (n' : Node) : Prop where
  timer : (n'.connection i).timer = (n.connection i).timer
  deadline : (n'.connection i).deadline = (n.connection i).deadline
  closed : (n.connection i).closed → (n'.connection i).closed

variable {n n' : Node} {i j : Nat} {m : Move} {v : LastHeard}

theorem closeRoom_frame (n : Node) (id : String) :
    ∃ d cs, (n.closeRoom id).2 = { n with directory := d, connections := cs } := by
  rw [closeRoom]
  generalize (0 : Nat) = k
  generalize List.range n.directory.buckets.size = bs
  induction bs generalizing k n with
  | nil => exact ⟨_, _, rfl⟩
  | cons b bs ih => exact ih { n with directory := _ } _

theorem onWire_frame (n : Node) (i : Nat) (f : Wire → Wire) :
    ∃ d cs, n.onWire i f = { n with directory := d, connections := cs } := by
  rw [onWire]
  split_ifs <;> exact ⟨_, _, rfl⟩

theorem useWire_frame {c : Nat} {f : Wire → Wire} {next : Writer}
    (h : n.useWire i c f next = some n') :
    ∃ d cs, n' = { n with directory := d, connections := cs } := by
  simp only [useWire] at h
  split_ifs at h <;> cases h <;> exact ⟨_, _, rfl⟩

theorem writerStep_frame (h : n.writerStep i = some n') :
    ∃ d cs, n' = { n with directory := d, connections := cs } := by
  rw [writerStep] at h
  split at h
  · cases h
  · cases h
  · obtain ⟨⟨signal, ch⟩, -, rfl⟩ := Option.map_eq_some_iff.1 h
    cases signal <;> exact ⟨_, _, rfl⟩
  · exact useWire_frame h
  · split_ifs at h
    · cases h
      exact ⟨_, _, rfl⟩
    · split at h <;> cases h <;> exact ⟨_, _, rfl⟩
  · exact useWire_frame h
  · obtain ⟨⟨signal, ch⟩, -, rfl⟩ := Option.map_eq_some_iff.1 h
    cases signal <;> exact ⟨_, _, rfl⟩

theorem accept_timers (n : Node) (ip cookie : String) : (n.accept ip cookie).timers = n.timers ∨
    ∃ t a s, (n.timer t).add? n.now n.config.handshakeTimeout "" n.connections.size = some (a, s) ∧
      (n.accept ip cookie).timers = n.timers.setIfInBounds t s := by
  simp only [accept]
  generalize n.rotation.next = taken
  obtain ⟨index, rotation⟩ := taken
  dsimp only
  split
  · exact .inl rfl
  · rename_i a s hs
    exact .inr ⟨_, a, s, hs, rfl⟩

theorem accept_phase (n : Node) (ip cookie : String) (t : Nat) :
    ((n.accept ip cookie).timer t).phase = (n.timer t).phase := by
  rcases n.accept_timers ip cookie with hts | ⟨t', a, s, hadd, hts⟩
  · rw [Node.timer, hts, Node.timer]
  · have hset := n.timer_setTimer t' s t
    have htimer : (n.accept ip cookie).timer t = (n.setTimer t' s).timer t := by
      rw [Node.timer, hts, Node.timer, setTimer]
    rw [htimer, hset]
    split_ifs with htt
    · rw [htt.1, Timer.Shard.add?_phase hadd]
    · rfl

theorem tickerStep_timers {k : Nat} (h : n.tickerStep k = some n') :
    n'.timers = n.timers ∧ n'.now = n.now := by
  have hcall : n.callRenewOnline.2.timers = n.timers ∧ n.callRenewOnline.2.now = n.now := by
    simp only [callRenewOnline, answer]
    split <;> rename_i heq <;> split at heq <;> cases heq <;> exact ⟨rfl, rfl⟩
  simp only [tickerStep] at h
  split at h
  · split_ifs at h
    generalize n.callRenewOnline = called at h hcall
    obtain ⟨answer | _, n''⟩ := called <;>
    · cases h
      exact hcall
  · split_ifs at h
    cases h
    exact ⟨rfl, rfl⟩
  · cases h
  · cases h

theorem timerStep_cases {t : Nat} (h : n.timerStep t = some n') : ∃ callback s, t < n.timers.size ∧
    (n.timer t).Stepped n.now callback s ∧ n'.timers = n.timers.setIfInBounds t s ∧ n'.now = n.now ∧
    (∀ i < n.connections.size, callback = some i → (n'.connection i).closed) ∧
    ∀ i, (n'.connection i).closed → (n.connection i).closed ∨ callback = some i := by
  obtain ⟨⟨callback, s⟩, hs, rfl⟩ := Option.map_eq_some_iff.1 h
  obtain ⟨s₀, hs₀, hstep⟩ := Option.bind_eq_some_iff.1 hs
  have htimer : n.timer t = s₀ := by
    rw [Node.timer, Array.getD_eq_getD_getElem?, hs₀]
    rfl
  refine ⟨callback, s, (Array.getElem?_eq_some_iff.1 hs₀).1, ?_, ?_⟩
  · rw [htimer]
    exact Timer.Shard.stepBy_stepped (Timer.Shard.stepBy_false hstep)
  cases callback with
  | none =>
    exact ⟨rfl, rfl, fun _ _ hc => absurd hc.symm (Option.some_ne_none _), fun i hc => .inl hc⟩
  | some k =>
    refine ⟨rfl, rfl, fun i hi he => ?_, fun i hc => ?_⟩
    · cases he
      dsimp only
      rw [close, connection_modifyConnection, if_pos ⟨rfl, hi⟩]
    · by_cases hik : i = k
      · exact .inr (hik ▸ rfl)
      · dsimp only at hc
        rw [close, connection_modifyConnection, if_neg fun h => hik h.1] at hc
        exact .inl hc

theorem hearing?_of_stuck (h : n.readerStep i = none) : n.hearing? i = none := by
  have he := enrollment?_of_stuck h
  rw [readerStep] at h
  rw [hearing?, he]
  generalize (n.connection i).reader = r at h
  cases r with
  | serving s =>
    dsimp only at h ⊢
    split_ifs at h ⊢
    cases hin : n.nextIncoming i with
    | none =>
      rw [nextIncoming] at hin
      split at hin
      · rename_i hnil
        rw [hnil]
        rfl
      · cases hin
    | some next => obtain ⟨e | f, m⟩ := next <;> simp [hin] at h
  | _ => rfl

inductive TimerEffect (n : Node) (m : Move) (n' : Node) : Prop
  | calm : n'.timers = n.timers → n.now ≤ n'.now → (∀ i, n.heardIn i m = none) → TimerEffect n m n'
  | opensConnection (ip cookie : String) : m = .event (.open ip cookie) → n.OpensConnection n' →
      TimerEffect n m n'
  | timer (t : Nat) : m = .task (.timer t) → n.timerStep t = some n' → TimerEffect n m n'
  | reading (j : Nat) : m = .task (.reader j) → n.readerStep j = some n' → n.ReaderEffect j n' →
      n.DeadlineEffect j n' → TimerEffect n m n'

theorem TimerEffect.of_frame (h : ∃ d cs, n' = { n with directory := d, connections := cs })
    (hv : ∀ i, n.heardIn i m = none) : n.TimerEffect m n' := by
  obtain ⟨d, cs, rfl⟩ := h
  exact .calm rfl (Nat.le_refl n.now) hv

theorem Owned.reading_of_step (ho : n.Owned) (h : n.readerStep i = some n') : n.Reading i n' :=
  readerStep_reading ho.buckets (fun _ hs => ho.lt i _ (.inl (Reader.channel?_of_session? hs))) h

theorem Owned.readerEffect_of_step (ho : n.Owned) (h : n.readerStep i = some n') :
    n.ReaderEffect i n' :=
  readerStep_readerEffect (fun _ hs => ho.lt i _ (.inl (Reader.channel?_of_session? hs))) h

theorem DeadlinesInOrder.timerEffect (h : n.DeadlinesInOrder) (ho : n.Owned) (m : Move) :
    n.TimerEffect m (n.move m) := by
  cases m with
  | event e =>
    cases e with
    | «open» ip cookie => exact .opensConnection ip cookie rfl (n.accept_opensConnection ip cookie)
    | arrive i items => exact .of_frame (n.onWire_frame i _) fun _ => rfl
    | stall i => exact .of_frame (n.onWire_frame i _) fun _ => rfl
    | resume i => exact .of_frame (n.onWire_frame i _) fun _ => rfl
    | failWrites i => exact .of_frame (n.onWire_frame i _) fun _ => rfl
    | closeRoom id => exact .of_frame (n.closeRoom_frame id) fun _ => rfl
    | advance d => exact .calm rfl (Nat.le_add_right n.now d) fun _ => rfl
    | _ => exact .calm rfl (Nat.le_refl n.now) fun _ => rfl
  | deliver c f => exact .calm rfl (Nat.le_refl n.now) fun _ => rfl
  | task t =>
    cases hs : n.step t with
    | none =>
      rw [Node.move, hs, Option.getD_none]
      refine .calm rfl (Nat.le_refl n.now) fun i => ?_
      cases t with
      | reader j =>
        rw [heardIn]
        split_ifs with hij
        · exact hij ▸ hearing?_of_stuck hs
        · rfl
      | _ => rfl
    | some n' =>
      rw [Node.move, hs, Option.getD_some]
      cases t with
      | timer t => exact .timer t rfl hs
      | ticker k =>
        obtain ⟨hts, hnow⟩ := tickerStep_timers hs
        exact .calm hts (Nat.le_of_eq hnow.symm) fun _ => rfl
      | reader j =>
        exact .reading j rfl hs (ho.readerEffect_of_step hs)
          (readerStep_deadlineEffect (h.hasTimer (readerStep_lt hs)) hs)
      | writer i => exact .of_frame (writerStep_frame hs) fun _ => rfl
      | worker b w =>
        obtain ⟨d, -, rfl⟩ := Option.map_eq_some_iff.1 hs
        exact .of_frame ⟨d, n.connections, rfl⟩ fun _ => rfl

theorem accept_now (n : Node) (ip cookie : String) : (n.accept ip cookie).now = n.now := by
  simp only [accept]
  split <;> rfl

theorem DeadlineEffect.now (h : n.DeadlineEffect i n') : n'.now = n.now := by
  cases h with
  | still _ _ hn _ => exact hn
  | heard _ _ _ _ _ _ hn _ => exact hn
  | overrun _ _ _ _ hn _ => exact hn
  | leaves _ hn _ => exact hn

theorem DeadlinesInOrder.now_le (h : n.DeadlinesInOrder) (ho : n.Owned) (m : Move) :
    n.now ≤ (n.move m).now := by
  cases h.timerEffect ho m with
  | calm _ hn _ => exact hn
  | opensConnection ip cookie hm _ => exact hm ▸ Nat.le_of_eq (n.accept_now ip cookie).symm
  | timer t hm hs =>
    obtain ⟨_, _, _, _, _, hn, _⟩ := timerStep_cases hs
    exact Nat.le_of_eq hn.symm
  | reading j hm hs hc hedit => exact Nat.le_of_eq hedit.now.symm

theorem timer_of_timers (h : n'.timers = n.timers) (t : Nat) : n'.timer t = n.timer t := by
  rw [Node.timer, h, Node.timer]

theorem timer_of_set {t : Nat} {s : Timer.Shard Nat} (h : n'.timers = n.timers.setIfInBounds t s)
    (t' : Nat) : n'.timer t' = if t' = t ∧ t < n.timers.size then s else n.timer t' := by
  rw [← timer_setTimer]
  exact timer_of_timers h t'

theorem DeadlineEffect.holderEffect (h : n.DeadlineEffect i n') (ht : n.HasTimer i)
    (hc : n'.ownTimer i = n'.timer (n.connection i).timer) :
    (n.ownTimer i).HolderEffect (n.connection i).deadline (n'.ownTimer i) := by
  cases h with
  | still hn hts _ hr =>
    rw [hc, timer_of_timers hts]
    exact .refl
  | heard v k ok hv hk hset _ hr => exact (hk.holderEffect ht).set hset
  | overrun v hv hle heffect _ hr => exact heffect
  | leaves heffect _ hl => exact heffect

theorem DeadlinesInOrder.shardEffect (h : n.DeadlinesInOrder) (ho : n.Owned) (m : Move) (t : Nat) :
    (n.timer t).ShardEffect n.now ((n.move m).timer t) := by
  have hsame {s : Timer.Shard Nat} (hs : s = n.timer t) : (n.timer t).ShardEffect n.now s := by
    rw [hs]
    exact .holderEffect default .refl
  cases h.timerEffect ho m with
  | calm hts _ _ => exact hsame (timer_of_timers hts t)
  | opensConnection ip cookie hm _ =>
    subst hm
    rcases n.accept_timers ip cookie with hts | ⟨t', a, s, hadd, hts⟩
    · exact hsame (timer_of_timers hts t)
    · have hset : (n.move (.event (.open ip cookie))).timer t = _ := timer_of_set hts t
      split_ifs at hset with htt
      · rw [hset, htt.1]
        exact .added a hadd
      · exact hsame hset
  | timer t' hm hs =>
    obtain ⟨callback, s, -, hstep, hts, -⟩ := timerStep_cases hs
    have hset := timer_of_set hts t
    split_ifs at hset with htt
    · rw [hset, htt.1]
      exact .stepped callback hstep
    · exact hsame hset
  | reading j hm hs hc hedit =>
    have hlt := readerStep_lt hs
    have ha := hc.onlyConnection
    by_cases htj : t = (n.connection j).timer
    · have hown : (n.move m).ownTimer j = (n.move m).timer (n.connection j).timer := by
        rw [ownTimer, ha.timer]
      have heffect := hedit.holderEffect (h.hasTimer hlt) hown
      rw [hown] at heffect
      exact htj ▸ .holderEffect _ heffect
    · exact hsame (ha.elsewhere t htj)

theorem DeadlinesInOrder.phase_reading (h : n.DeadlinesInOrder) (hs : n.readerStep j = some n')
    (hc : n.ReaderEffect j n') (hedit : n.DeadlineEffect j n') (t : Nat) :
    (n'.timer t).phase = (n.timer t).phase := by
  by_cases htj : t = (n.connection j).timer
  · have hown : n'.ownTimer j = n'.timer (n.connection j).timer := by rw [ownTimer,
      hc.onlyConnection.timer]
    have hphase := (hedit.holderEffect (h.hasTimer (readerStep_lt hs)) hown).phase
    rw [hown, ownTimer, ← htj] at hphase
    exact hphase
  · rw [hc.onlyConnection.elsewhere t htj]

theorem Alert.move (ha : n.Alert) (h : n.DeadlinesInOrder) (ho : n.Owned) (m : Move) :
    (n.move m).Alert :=
  fun t => (h.shardEffect ho m t).alert (h.fit t) (ha t)

theorem new_alert (config : Config) (hostname : Option String) (entropy : Entropy) :
    (new config hostname entropy).Alert := by
  intro t
  rw [Node.timer, new, Array.getD_eq_getD_getElem?, Array.getElem?_replicate]
  split_ifs <;> exact Timer.Shard.new_alert _

theorem Alert.after (ha : n.Alert) (h : n.DeadlinesInOrder) (ho : n.Owned) (ms : List Move) :
    (n.after ms).Alert := by
  induction ms with
  | nil => exact ha
  | cons m ms ih => exact ih.move (h.after ho ms) (ho.after ms) m

theorem ReaderEffect.timed_before (h : n.ReaderEffect i n') (ht : (n'.line i).reader.isTimed) :
    (n.line i).reader.isTimed := by
  cases h with
  | shaking hs he hs' hserve hk => exact Reader.isTimed_of_isHandshake hs
  | rejected hs he hr hq hk => exact Reader.isTimed_of_isHandshake hs
  | enrollEffect g he hn' _ => exact Reader.isTimed_of_isHandshake (enrollment?_isHandshake he)
  | served s s' hs hs' hch ha => exact Reader.isTimed_of_session? hs
  | crashed s hs hr ha => exact Reader.isTimed_of_session? hs
  | tornDown s m hs ha hv => exact Reader.isTimed_of_session? hs
  | left c u hl hr hserve hd htimers =>
    rw [hr] at ht
    cases ht

theorem Owned.timed_before (h : n.Owned) (ht : ((n.move m).line i).reader.isTimed) :
    (n.line i).reader.isTimed := by
  by_cases hm : m = .task (.reader i)
  · subst hm
    rcases h.own i with hn | ⟨-, hc⟩
    · exact hn ▸ ht
    · exact hc.timed_before ht
  · rcases (h.elsewhere hm).2 with hr | hr <;> rw [hr] at ht
    · exact ht
    · cases ht

theorem MoveEffect.keepsEntry (h : n.MoveEffect m n') (hi : i < n.connections.size) :
    n.KeepsEntry i n' := by
  have hacts {j : Nat} (ha : n.OnlyConnection j n') : n.KeepsEntry i n' := by
    by_cases hij : i = j
    · subst hij
      exact ⟨ha.timer, ha.deadline, ha.closed⟩
    · have hc := ha.others i hij
      exact ⟨by rw [hc], by rw [hc], fun h => by rw [hc]; exact h⟩
  cases h with
  | background he hd =>
    obtain ⟨closed, wire, hc, hm⟩ := hd.connection i
    exact ⟨by rw [hc], by rw [hc], fun h => by rw [hc]; exact hm h⟩
  | opensConnection ip cookie hm ho =>
    have hc := ho.others i (Nat.ne_of_lt hi)
    exact ⟨by rw [hc], by rw [hc], fun h => by rw [hc]; exact h⟩
  | reading j hm hj hc => exact hacts hc.onlyConnection
  | writing j c hm hc hw => exact hacts hw.toOnlyConnection

theorem KeepsEntry.ownTimer (h : n.KeepsEntry i n') :
    n'.ownTimer i = n'.timer (n.connection i).timer := by
  rw [Node.ownTimer, h.timer]

theorem KeepsEntry.waiting_iff (h : n.KeepsEntry i n') : n'.Waiting i ↔
    (n'.timer (n.connection i).timer).heap.Waits (n.connection i).deadline := by
  rw [Waiting, ownHeap, h.timer, h.deadline]

theorem KeepsEntry.dueTime (h : n.KeepsEntry i n') : n'.dueTime i =
    ((n'.timer (n.connection i).timer).heap.entry (n.connection i).deadline.slot).deadline := by
  rw [Node.dueTime, ownHeap, h.timer, h.deadline]

theorem KeepsEntry.inHand_iff (h : n.KeepsEntry i n') :
    n'.InHand i ↔ i ∈ (n'.timer (n.connection i).timer).phase.hand := by
  rw [InHand, h.ownTimer]

theorem KeepsEntry.deadlineStays_of_entry (h : n.KeepsEntry i n')
    (he : ((n'.timer (n.connection i).timer).heap.entry (n.connection i).deadline.slot).unplaced =
        ((n.ownHeap i).entry (n.connection i).deadline.slot).unplaced ∧
      ((n.connection i).deadline.slot ∈ (n'.timer (n.connection i).timer).heap.order ↔
        (n.connection i).deadline.slot ∈ (n.ownHeap i).order))
    (hp : (n'.timer (n.connection i).timer).phase = (n.ownTimer i).phase) :
    n.DeadlineStays i n' := by
  have hgen : ((n'.timer (n.connection i).timer).heap.entry
    (n.connection i).deadline.slot).generation =
      ((n.ownHeap i).entry (n.connection i).deadline.slot).generation :=
      congrArg (·.generation) he.1
  have hdue : ((n'.timer (n.connection i).timer).heap.entry
    (n.connection i).deadline.slot).deadline =
      n.dueTime i := congrArg (·.deadline) he.1
  have hw : n'.Waiting i ↔ n.Waiting i := by
    rw [h.waiting_iff, Timer.Heap.Waits, he.2, hgen]
    rfl
  refine ⟨fun hw' => ⟨hw.1 hw', h.dueTime.trans hdue⟩, ?_⟩
  · rintro (hc | hwait | hhand)
    · exact .inl (h.closed hc)
    · exact .inr (.inl (hw.2 hwait))
    · exact .inr (.inr (h.inHand_iff.2 (hp ▸ hhand)))

theorem KeepsEntry.deadlineStays_of_timers (h : n.KeepsEntry i n') (ht : n'.timers = n.timers) :
    n.DeadlineStays i n' := by
  have hs := timer_of_timers ht (n.connection i).timer
  apply h.deadlineStays_of_entry
  · rw [hs]
    exact ⟨rfl, .rfl⟩
  · rw [hs]
    rfl

theorem DeadlinesInOrder.deadlineStays_timer (h : n.DeadlinesInOrder) {t : Nat}
    (hh : n.KeepsEntry i n') (hi : i < n.connections.size)
    (ha : (n.ownHeap i).Armed (n.connection i).deadline i) (hs : n.timerStep t = some n') :
    n.DeadlineStays i n' := by
  obtain ⟨callback, s, -, hstep, hts, -, hclose, -⟩ := timerStep_cases hs
  have hset := timer_of_set hts (n.connection i).timer
  split_ifs at hset with hit
  · obtain ⟨rfl, -⟩ := hit
    have hf := h.fit (n.connection i).timer
    refine ⟨fun hw => ?_, ?_⟩
    · rw [hh.waiting_iff, hset] at hw
      refine ⟨hstep.waits hf hw, ?_⟩
      rw [hh.dueTime, hset]
      exact hstep.onlyReorders.deadline _
    · rintro (hc | hg)
      · exact .inl (hh.closed hc)
      · rcases hstep.guards hf ha hg with hw | hhand | hrun
        · exact .inr (.inl (hh.waiting_iff.2 (hset ▸ hw)))
        · exact .inr (.inr (hh.inHand_iff.2 (hset ▸ hhand)))
        · exact .inl (hclose i hi hrun)
  · apply hh.deadlineStays_of_entry <;> rw [hset]
    · exact ⟨rfl, .rfl⟩
    · rfl

theorem DeadlinesInOrder.deadlineStays (h : n.DeadlinesInOrder) (ho : n.Owned)
    (hi : i < n.connections.size) (hv : n.heardIn i m = none)
    (ht : ((n.move m).line i).reader.isTimed) : n.DeadlineStays i (n.move m) := by
  have hh := (ho.moveEffect m).keepsEntry hi
  have harmed := h.armed i hi (ho.timed_before ht)
  cases h.timerEffect ho m with
  | calm hts _ _ => exact hh.deadlineStays_of_timers hts
  | opensConnection ip cookie hm hopen =>
    subst hm
    exact hh.deadlineStays_of_entry
      (h.entries_opensConnection hopen (Nat.ne_of_lt hi) _ _ (.inl harmed.callback))
      (n.accept_phase ip cookie _)
  | timer t hm hs => exact h.deadlineStays_timer hh hi harmed hs
  | reading j hm hs hc hedit =>
    have hlt := readerStep_lt hs
    by_cases hij : i = j
    · subst hij hm
      have hn : n.hearing? i = none := by simpa [heardIn] using hv
      cases hedit with
      | still _ hts _ _ => exact hh.deadlineStays_of_timers hts
      | heard v k ok hv' _ _ _ _ => cases hn.symm.trans hv'
      | overrun v hv' _ _ _ _ => cases hn.symm.trans hv'
      | leaves _ _ hl =>
        rw [Reader.hasLeft_of_isTimed ht] at hl
        cases hl
    · rcases hc.timers with hts | htj
      · exact hh.deadlineStays_of_timers hts
      · apply hh.deadlineStays_of_entry
          (h.entries hlt hc.onlyConnection htj hij _ _ (.inl harmed.callback))
        exact h.phase_reading hs hc hedit _

theorem Owned.reader_elsewhere (h : n.Owned) (hi : i < n.connections.size)
    (hm : m ≠ .task (.reader i)) : ((n.move m).line i).reader = (n.line i).reader := by
  cases h.moveEffect m with
  | background he hd =>
    obtain ⟨closed, wire, hc, -⟩ := hd.connection i
    rw [line, hc]
    rfl
  | opensConnection ip cookie he ho => rw [line, ho.others i (Nat.ne_of_lt hi), line]
  | reading j he hj hc =>
    have hij : i ≠ j := by
      rintro rfl
      exact hm he
    rw [line, hc.onlyConnection.others i hij, line]
  | writing j c he hc hw =>
    by_cases hij : i = j
    · exact hij ▸ hw.reader
    · rw [line, hw.others i hij, line]

theorem Reading.grant_before {s : Session} (h : n.Reading i n')
    (hs : (n'.line i).reader.session? = some s) :
    (∃ s₀, (n.line i).reader.session? = some s₀ ∧ s.grant = s₀.grant) ∨
      (n.line i).reader = .greeted s.grant := by
  cases h with
  | rejected rest _ _ hq =>
    rw [hq.here] at hs
    cases hs
  | asked r rest _ _ hr he _ =>
    rw [he.here] at hs
    rcases hr with rfl | ⟨u, rfl⟩ <;> cases hs
  | granted f g rest _ _ _ _ he _ =>
    rw [he.here] at hs
    cases hs
  | greeted f g _ hq =>
    rw [hq.here] at hs
    cases hs
  | enrolled g s' hg hsg ht _ =>
    rw [ht.here] at hs
    cases hs
    exact .inr (hsg ▸ hg)
  | overrun g c _ ht _ =>
    rw [ht.here] at hs
    cases hs
  | unseated g c r _ hl _ _ ht _ _ =>
    rw [ht.here] at hs
    cases hl.session?.symm.trans hs
  | replied s₀ s' f rest ho hg hc ht _ =>
    rw [ht.here] at hs
    cases hs
    exact .inl ⟨s₀, ho.session?, hg⟩
  | calling s₀ f u rest hr _ hq =>
    rw [hq.here] at hs
    cases hs
    exact .inl ⟨s, by rw [hr]; rfl, rfl⟩
  | tornDown s₀ r rest _ hl ht _ _ =>
    rw [ht.here] at hs
    cases hl.session?.symm.trans hs
  | crashed s₀ rest _ hq =>
    rw [hq.here] at hs
    cases hs
  | left c u _ hq =>
    rw [hq.here] at hs
    cases hs

theorem hearing?_cases (h : n.hearing? i = some v) :
    (∃ g, (n.line i).reader = .greeted g ∧ n.enrollment? i = some g ∧ v = ⟨n.now, g.heartbeat⟩) ∨
      ∃ s, (n.line i).reader = .serving s ∧ v = ⟨n.now, s.grant.heartbeat⟩ := by
  rw [hearing?] at h
  split at h
  · rename_i g hr
    obtain ⟨g', he, rfl⟩ := Option.map_eq_some_iff.1 h
    have hg := (enrollment?_some he).1
    exact .inl ⟨g', hg, he, rfl⟩
  · rename_i s hr
    split_ifs at h
    split at h
    · split_ifs at h
      exact .inr ⟨s, hr, (Option.some.inj h).symm⟩
    · cases h
  · cases h

end PushGateway.Node
