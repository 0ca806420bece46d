import PushGateway.Proofs.Node.TimerEffects

/-!
What the supervision of a connection comes to in a run. The time that stands for its deadline is off
from what was last asked by less than the lazy delay; so the close signal comes no earlier than that
before the connection is due to be heard of, and no later than that after it.
-/

namespace PushGateway

theorem Reader.timed_or_left {r : Reader} (h : r ≠ .crashed) : r.isTimed ∨ r.hasLeft := by
  cases r with
  | crashed => exact absurd rfl h
  | leaving c u => exact .inr rfl
  | returned => exact .inr rfl
  | _ => exact .inl rfl

theorem Reader.isTimed_ne_crashed {r : Reader} (h : r.isTimed) : r ≠ .crashed := by
  rintro rfl
  cases h

def Move.timer? : Move → Option Nat
  | .task (.timer t) => some t
  | _ => none

namespace Node

open Timer (lazyDelay)
open Timer.Heap (distance distance_lt_iff)

/-- The deadline of connection `i` is near the time by which it has to be heard of again, and there
is somebody to see to it. -/
structure Supervised (n : Node) (i : Nat) (v : Option LastHeard) : Prop where
  handshake : (n.line i).reader.isHandshake → v = none
  session : ∀ s, (n.line i).reader.session? = some s → ∃ w, v = some w ∧
    w.interval = s.grant.heartbeat
  near : ∀ w, v = some w → (n.line i).reader ≠ .crashed → n.Waiting i →
    distance w.due (n.dueTime i) < lazyDelay
  guarded : v.isSome → (n.line i).reader ≠ .crashed → n.Guarded i
  overrun : ∀ w, v = some w → (n.line i).reader = .crashed → Nanos.clockEnd ≤ w.due

/-- What the timers have in their hands of connection `i` was due, give or take the lazy delay. -/
def Timely (n : Node) (i : Nat) (v : Option LastHeard) : Prop :=
  ∀ t, i ∈ (n.timer t).phase.hand → ∀ w, v = some w → w.due < Nanos.clockEnd →
  w.due < n.now + lazyDelay

/-- A timer task does not wait between its look at the heap and the callbacks that it has taken:
where one task runs at a time, nothing else moves until its hands are empty. -/
def Undivided (n : Node) (m : Move) : Prop :=
  ∀ t < n.timers.size, (n.timer t).phase.hand ≠ [] → m.timer? = some t

instance (n : Node) (i : Nat) : Decidable (n.Waiting i) :=
  inferInstanceAs (Decidable ((n.ownHeap i).Waits (n.connection i).deadline))

instance (n : Node) (m : Move) : Decidable (n.Undivided m) :=
  inferInstanceAs (Decidable (∀ t < n.timers.size, (n.timer t).phase.hand ≠ [] → m.timer? = some t))

variable {n n' : Node} {i : Nat} {m : Move} {v : Option LastHeard} {w : LastHeard}

theorem Supervised.lt (h : n.Supervised i v) (hv : v = some w) : i < n.connections.size := by
  by_contra hi
  have hnone := h.handshake (by rw [line_of_le (Nat.not_lt.1 hi)]; rfl)
  rw [hv] at hnone
  cases hnone

theorem DeadlinesInOrder.left_not_waiting (h : n.DeadlinesInOrder)
    (hl : (n.line i).reader.hasLeft) : ¬ n.Waiting i :=
  (h.gone i hl).2.not_waits

theorem Owned.session_before {s : Session} (h : n.Owned) (hv : n.heardIn i m = none)
    (hs : ((n.move m).line i).reader.session? = some s) :
    ∃ s₀, (n.line i).reader.session? = some s₀ ∧ s.grant = s₀.grant := by
  by_cases hm : m = .task (.reader i)
  · subst hm
    rcases h.own i with hn | ⟨hstep, hc⟩
    · exact ⟨s, hn ▸ hs, rfl⟩
    · rcases (h.reading_of_step hstep).grant_before hs with hsame | hg
      · exact hsame
      · -- Whoever is let in has been heard of.
        have he : n.enrollment? i = none := by
          simp only [heardIn, if_pos, hearing?, show (n.connection i).reader = _ from hg] at hv
          simpa using hv
        cases hc with
        | enrollEffect g he' _ _ => cases he.symm.trans he'
        | served s₁ s₂ hs₁ _ _ _ =>
          rw [hg] at hs₁
          cases hs₁
        | shaking _ _ hh _ _ =>
          rw [Reader.isHandshake_of_session? hs] at hh
          cases hh
        | rejected _ _ hr' _ _ =>
          rw [hr'] at hs
          cases hs
        | crashed s₁ hs₁ _ _ =>
          rw [hg] at hs₁
          cases hs₁
        | tornDown s₁ k hs₁ _ _ =>
          rw [hg] at hs₁
          cases hs₁
        | left c u hl _ _ _ _ =>
          rw [hg] at hl
          cases hl
  · rcases (h.elsewhere hm).2 with hr | hr <;> rw [hr] at hs
    · exact ⟨s, hs, rfl⟩
    · cases hs

theorem DeadlinesInOrder.crashed_before (h : n.DeadlinesInOrder) (ho : n.Owned)
    (hi : i < n.connections.size) (hv : n.heardIn i m = none)
    (hr : ((n.move m).line i).reader = .crashed) : (n.line i).reader = .crashed := by
  by_cases hm : m = .task (.reader i)
  · subst hm
    have hn : n.hearing? i = none := by simpa [heardIn] using hv
    rcases ho.own i with hn' | ⟨hstep, -⟩
    · exact hn' ▸ hr
    · cases readerStep_deadlineEffect (h.hasTimer hi) hstep with
      | still _ _ _ hne => exact absurd hr hne
      | heard v k ok hv' _ _ _ _ => cases hn.symm.trans hv'
      | overrun v hv' _ _ _ _ => cases hn.symm.trans hv'
      | leaves _ _ hl =>
        rw [hr] at hl
        cases hl
  · exact (ho.reader_elsewhere hi hm) ▸ hr

theorem Owned.crashed_move (h : n.Owned) (hi : i < n.connections.size)
    (hr : (n.line i).reader = .crashed) (m : Move) : ((n.move m).line i).reader = .crashed := by
  by_cases hm : m = .task (.reader i)
  · have hstuck : n.readerStep i = none := by
      rw [readerStep]
      simp [show (n.connection i).reader = _ from hr]
    rw [hm, Node.move, step, hstuck]
    exact hr
  · rw [h.reader_elsewhere hi hm, hr]

theorem Supervised.calm (h : n.Supervised i v) (hk : n.DeadlinesInOrder) (ho : n.Owned)
    (hv : n.heardIn i m = none) : (n.move m).Supervised i v := by
  have hstays {w : LastHeard} (hw : v = some w) (hr : ((n.move m).line i).reader ≠ .crashed) :
      ((n.move m).line i).reader.hasLeft ∨ (n.line i).reader ≠ .crashed ∧
      n.DeadlineStays i (n.move m) := by
    rcases Reader.timed_or_left hr with ht | hl
    · exact .inr ⟨Reader.isTimed_ne_crashed (ho.timed_before ht),
        hk.deadlineStays ho (h.lt hw) hv ht⟩
    · exact .inl hl
  have hk' := hk.move ho m
  constructor
  · exact fun hh => h.handshake (ho.handshake_before hh)
  · intro s hs
    obtain ⟨s₀, hs₀, hg⟩ := ho.session_before hv hs
    exact hg ▸ h.session s₀ hs₀
  · intro w hw hr hwait
    rcases hstays hw hr with hl | ⟨hr₀, hst⟩
    · exact absurd hwait (hk'.left_not_waiting hl)
    · obtain ⟨hwait₀, hdue⟩ := hst.waiting hwait
      exact hdue ▸ h.near w hw hr₀ hwait₀
  · intro hsome hr
    obtain ⟨w, hw⟩ := Option.isSome_iff_exists.1 hsome
    rcases hstays hw hr with hl | ⟨hr₀, hst⟩
    · exact .inl (hk'.gone i hl).1
    · exact hst.guarded (h.guarded hsome hr₀)
  · intro w hw hr
    exact h.overrun w hw (hk.crashed_before ho (h.lt hw) hv hr)

theorem Reading.handshake_after (h : n.Reading i n') (hs : (n'.line i).reader.isHandshake) :
    (n.line i).reader = .awaitingAuth ∨ ∃ f g, (n.line i).reader = .greeting f g := by
  cases h with
  | rejected rest _ _ hq =>
    rw [hq.here] at hs
    cases hs
  | asked r rest hr _ _ _ _ => exact .inl hr
  | granted f g rest hr _ _ _ _ _ => exact .inl hr
  | greeted f g hr _ => exact .inr ⟨f, g, hr⟩
  | enrolled g s _ _ ht _ =>
    rw [ht.here] at hs
    cases hs
  | overrun g c _ ht _ =>
    rw [ht.here] at hs
    cases hs
  | unseated g c r _ hl _ _ ht _ _ =>
    rw [ht.here] at hs
    cases hl.isHandshake.symm.trans hs
  | replied s s' f rest _ _ _ ht _ =>
    rw [ht.here] at hs
    cases hs
  | calling s f u rest _ _ hq =>
    rw [hq.here] at hs
    cases hs
  | tornDown s r rest _ hl ht _ _ =>
    rw [ht.here] at hs
    cases hl.isHandshake.symm.trans hs
  | crashed s rest _ hq =>
    rw [hq.here] at hs
    cases hs
  | left c u _ hq =>
    rw [hq.here] at hs
    cases hs

theorem heardIn_some (h : n.heardIn i m = some w) :
    m = .task (.reader i) ∧ n.hearing? i = some w ∧ n.readerStep i = some (n.move m) := by
  unfold heardIn at h
  split at h
  · rename_i j
    split_ifs at h with hij
    subst hij
    refine ⟨rfl, h, ?_⟩
    cases hs : n.readerStep j with
    | none => cases (hearing?_of_stuck hs).symm.trans h
    | some n' => rw [Node.move, step, hs, Option.getD_some]
  · cases h

theorem Reading.session_heard {s : Session} (hv : n.hearing? i = some w) (hr : n.Reading i n')
    (hs : (n'.line i).reader.session? = some s) : w.interval = s.grant.heartbeat := by
  rcases hr.grant_before hs with ⟨s₀, hs₀, hg⟩ | hg <;>
    rcases hearing?_cases hv with ⟨g, hgr, -, rfl⟩ | ⟨s₁, hsr, rfl⟩
  · rw [hgr] at hs₀
    cases hs₀
  · rw [hsr] at hs₀
    cases hs₀
    rw [hg]
  · rw [hgr] at hg
    cases hg
    rfl
  · rw [hsr] at hg
    cases hg

theorem DeadlineEffect.near {k : Node} {ok : Bool} (hk : n.DeadlinesInOrder)
    (hi : i < n.connections.size)
    (ht : (n.line i).reader.isTimed) (hc : n.ReaderEffect i n') (hh : n.HandlesDeadline i k)
    (hw : w.heard = n.now) (hset : (k.ownTimer i).set? n.now (n.connection i).deadline w.interval =
      some (ok, n'.ownTimer i)) : n'.Waiting i ∧ distance w.due (n'.dueTime i) < lazyDelay := by
  have htimed := hk.hasTimer hi
  have harmed := hh.armed htimed i (hk.armed i hi ht)
  have hlive : (k.ownTimer i).heap.live? (n.connection i).deadline ≠ none := fun hnone =>
    (Timer.Heap.live?_eq_none _ _).1 hnone ⟨harmed.inUse, harmed.generation⟩
  have hnear := Timer.Shard.set?_near (hh.hasTimer htimed).fit hlive hset
  rw [Waiting, dueTime, hc.onlyConnection.deadline, LastHeard.due, hw]
  exact hnear

theorem DeadlinesInOrder.heard_outcome (hk : n.DeadlinesInOrder) (ho : n.Owned)
    (hv : n.heardIn i m = some w) :
    (n.move m).Waiting i ∧ distance w.due ((n.move m).dueTime i) < lazyDelay ∧
        ((n.move m).line i).reader ≠ .crashed ∨
      ((n.move m).line i).reader.hasLeft ∨
      ((n.move m).line i).reader = .crashed ∧ Nanos.clockEnd ≤ w.due := by
  obtain ⟨rfl, hhear, hstep⟩ := heardIn_some hv
  have hi := readerStep_lt hstep
  have ht : (n.line i).reader.isTimed := by
    rcases hearing?_cases hhear with ⟨g, hr, -⟩ | ⟨s, hr, -⟩ <;> rw [hr] <;> rfl
  cases readerStep_deadlineEffect (hk.hasTimer hi) hstep with
  | still hn _ _ _ => cases hn.symm.trans hhear
  | heard w' k ok hw' hh hset _ hr =>
    cases hw'.symm.trans hhear
    obtain ⟨hwait, hnear⟩ := DeadlineEffect.near hk hi ht (ho.readerEffect_of_step hstep) hh
      (hearing?_heard hhear) hset
    exact .inl ⟨hwait, hnear, hr⟩
  | overrun w' hw' hle _ _ hr =>
    cases hw'.symm.trans hhear
    exact .inr (.inr ⟨hr, hle⟩)
  | leaves _ _ hl => exact .inr (.inl hl)

theorem Supervised.heard (hk : n.DeadlinesInOrder) (ho : n.Owned) (hv : n.heardIn i m = some w) :
    (n.move m).Supervised i (some w) := by
  have hk' := hk.move ho m
  have hout := hk.heard_outcome ho hv
  obtain ⟨rfl, hhear, hstep⟩ := heardIn_some hv
  have hread := ho.reading_of_step hstep
  constructor
  · intro hh
    rcases hread.handshake_after hh with hr | ⟨f, g, hr⟩ <;>
      rcases hearing?_cases hhear with ⟨g', hr', -⟩ | ⟨s, hr', -⟩ <;> cases hr.symm.trans hr'
  · exact fun s hs => ⟨w, rfl, Reading.session_heard hhear hread hs⟩
  · rintro _ ⟨⟩ hr hwait
    rcases hout with ⟨-, hnear, -⟩ | hl | ⟨hr', -⟩
    · exact hnear
    · exact absurd hwait (hk'.left_not_waiting hl)
    · exact absurd hr' hr
  · intro _ hr
    rcases hout with ⟨hwait, -⟩ | hl | ⟨hr', -⟩
    · exact .inr (.inl hwait)
    · exact .inl (hk'.gone i hl).1
    · exact absurd hr' hr
  · rintro _ ⟨⟩ hr
    rcases hout with ⟨-, -, hr'⟩ | hl | ⟨-, hle⟩
    · exact absurd hr hr'
    · rw [hr] at hl
      cases hl
    · exact hle

theorem Supervised.move (h : n.Supervised i v) (hk : n.DeadlinesInOrder) (ho : n.Owned) (m : Move) :
    (n.move m).Supervised i ((n.heardIn i m).or v) := by
  cases hv : n.heardIn i m with
  | none => exact h.calm hk ho hv
  | some w => exact .heard hk ho hv

theorem Supervised.after (h : n.Supervised i none) (hk : n.DeadlinesInOrder) (ho : n.Owned)
    (ms : List Move) : (n.after ms).Supervised i (n.lastHeard i ms) := by
  induction ms with
  | nil => exact h
  | cons m ms ih => exact ih.move (hk.after ho ms) (ho.after ms) m

theorem new_supervised (config : Config) (hostname : Option String) (entropy : Entropy) (i : Nat) :
    (new config hostname entropy).Supervised i none := by
  refine ⟨fun _ => rfl, ?_, nofun, nofun, nofun⟩
  rw [new_line]
  nofun

theorem Supervised.clock (h : n.Supervised i v) (hv : v = some w) (hw : w.due < Nanos.clockEnd) :
    (n.line i).reader ≠ .crashed := fun hr => Nat.not_le.2 hw (h.overrun w hv hr)

/-- When the node hears of a connection, no timer is about to close anything. -/
theorem Undivided.hand (hu : n.Undivided m) (hm : n.heardIn i m = some w) (t : Nat) :
    (n.timer t).phase.hand = [] := by
  by_cases ht : t < n.timers.size
  · by_contra hne
    have hmove := hu t ht hne
    rw [(heardIn_some hm).1] at hmove
    cases hmove
  · rw [Node.timer, Array.getD_eq_getD_getElem?, Array.getElem?_eq_none (Nat.not_lt.1 ht)]
    rfl

theorem Timely.move (ht : n.Timely i v) (h : n.Supervised i v) (hk : n.DeadlinesInOrder)
    (ho : n.Owned) (hu : n.Undivided m) : (n.move m).Timely i ((n.heardIn i m).or v) := by
  intro t hhand w hv hw
  cases hm : n.heardIn i m with
  | some w' =>
    have hempty := hu.hand hm t
    obtain ⟨rfl, -, hs⟩ := heardIn_some hm
    rw [hk.phase_reading hs (ho.readerEffect_of_step hs)
      (readerStep_deadlineEffect (hk.hasTimer (readerStep_lt hs)) hs), hempty] at hhand
    cases hhand
  | none =>
    rw [hm, Option.none_or] at hv
    have hnow := hk.now_le ho m
    rcases (hk.shardEffect ho m t).hand (hk.fit t) hhand with hold | ⟨slot, hmem, hcall, hdue⟩
    · exact Nat.lt_of_lt_of_le (ht t hold w hv hw) (Nat.add_le_add_right hnow _)
    · obtain ⟨-, rfl, rfl, harmed⟩ := hk.named t slot i hcall
      have hnear := (distance_lt_iff.1 (h.near w hv (h.clock hv hw) ⟨hmem, harmed.generation⟩)).1
      calc w.due < n.dueTime i + lazyDelay := hnear
        _ ≤ n.now + lazyDelay := Nat.add_le_add_right hdue _
        _ ≤ (n.move m).now + lazyDelay := Nat.add_le_add_right hnow _

theorem new_timely (config : Config) (hostname : Option String) (entropy : Entropy) (i : Nat) :
    (new config hostname entropy).Timely i none := nofun

theorem Timely.after (ht : n.Timely i none) (h : n.Supervised i none) (hk : n.DeadlinesInOrder)
    (ho : n.Owned) {ms : List Move} (hu : Along Undivided n ms) :
    (n.after ms).Timely i (n.lastHeard i ms) := by
  induction ms with
  | nil => exact ht
  | cons m ms ih => exact (ih hu.1).move (h.after hk ho ms) (hk.after ho ms) (ho.after ms) hu.2

theorem closed_by {t : Nat} (hc : (n.connection i).closed = false)
    (hc' : ((n.move (.task (.timer t))).connection i).closed) : i ∈ (n.timer t).phase.hand := by
  cases hs : n.timerStep t with
  | none =>
    rw [Node.move, step, hs, Option.getD_none, hc] at hc'
    cases hc'
  | some n' =>
    rw [Node.move, step, hs, Option.getD_some] at hc'
    obtain ⟨callback, s, -, hstep, -, -, -, hclose⟩ := timerStep_cases hs
    rcases hclose i hc' with hbefore | rfl
    · rw [hc] at hbefore
      cases hbefore
    · exact hstep.runs

/-- Where nothing moves, no timer has anything in its hands, and nothing that is scheduled is
due. -/
theorem Settled.guarded (h : n.Settled) (ha : n.Alert) (hk : n.DeadlinesInOrder)
    (hi : i < n.connections.size) (hg : n.Guarded i) :
    (n.connection i).closed ∨ n.now < n.dueTime i ∧ n.Waiting i := by
  have hlt := hk.assigned i hi
  have hstep : (n.ownTimer i).step n.now = none := by
    have hnone : n.timerStep (n.connection i).timer = none := h (.timer (n.connection i).timer)
    rw [timerStep, Option.map_eq_none_iff, Array.getElem?_eq_getElem hlt, Option.bind_some] at hnone
    rw [ownTimer, Node.timer, Array.getD_eq_getD_getElem?, Array.getElem?_eq_getElem hlt,
      Option.getD_some]
    exact hnone
  rcases hg with hc | hw | hhand
  · exact .inl hc
  · exact .inr ⟨(ha _).rested hstep _ hw.1, hw⟩
  · obtain ⟨wake, hp, -⟩ := Timer.Shard.step_eq_none.1 hstep
    rw [InHand, hp] at hhand
    cases hhand

/-- In every run a session that is registered is supervised. While its deadline is scheduled, it
stands less than the lazy delay from one interval after the connection was last heard of, and only
what is heard of the connection moves it. So where timer tasks are not interrupted, a timer gives
the close signal no earlier than the lazy delay before that time; and when nothing can move, it has
been given if the lazy delay has passed since. -/
theorem after_supervised (config : Config) (hostname : Option String) (entropy : Entropy)
    (ms : List Move) (i : Nat) :
    let start := new config hostname entropy
    let n := start.after ms
    (∀ s, (n.connection i).reader.session? = some s →
      ∃ w, start.lastHeard i ms = some w ∧ w.interval = s.grant.heartbeat) ∧
    ∀ w, start.lastHeard i ms = some w → w.heard + w.interval < Nanos.clockEnd →
      (n.Waiting i → distance (w.heard + w.interval) (n.dueTime i) < lazyDelay) ∧
      (∀ m, n.heardIn i m = none → (n.move m).Waiting i →
        n.Waiting i ∧ (n.move m).dueTime i = n.dueTime i) ∧
      (Along Undivided start ms → ∀ t, (n.connection i).closed = false →
        ((n.move (.task (.timer t))).connection i).closed →
        w.heard + w.interval < n.now + lazyDelay) ∧
      (n.Settled → w.heard + w.interval + lazyDelay ≤ n.now → (n.connection i).closed) := by
  intro start n
  have howned := (new_owned config hostname entropy).after ms
  have hdeadlines := (new_deadlinesInOrder config hostname entropy).after
    (new_owned config hostname entropy) ms
  have hwatched := (new_supervised config hostname entropy i).after
    (new_deadlinesInOrder config hostname entropy) (new_owned config hostname entropy) ms
  have halert := (new_alert config hostname entropy).after
    (new_deadlinesInOrder config hostname entropy) (new_owned config hostname entropy) ms
  refine ⟨hwatched.session, fun w hw hclock => ?_⟩
  have hr := hwatched.clock hw hclock
  have hi := hwatched.lt hw
  have hnear := hwatched.near w hw hr
  refine ⟨hnear, fun m hm hwait => ?_, fun hu t hc hc' => ?_, fun hs hpast => ?_⟩
  · rcases Reader.timed_or_left (hwatched.calm hdeadlines howned hm |>.clock hw hclock) with ht | hl
    · exact (hdeadlines.deadlineStays howned hi hm ht).waiting hwait
    · exact absurd hwait ((hdeadlines.move howned m).left_not_waiting hl)
  · have htimely := (new_timely config hostname entropy i).after
      (new_supervised config hostname entropy i)
      (new_deadlinesInOrder config hostname entropy) (new_owned config hostname entropy) hu
    exact htimely t (closed_by hc hc') w hw hclock
  · rcases hs.guarded halert hdeadlines hi (hwatched.guarded (hw ▸ rfl) hr) with hc | ⟨hlt, hwait⟩
    · exact hc
    · have hfar : n.dueTime i < w.due + lazyDelay := (distance_lt_iff.1 (hnear hwait)).2
      exact absurd hpast (Nat.not_le.2 (Nat.lt_trans hlt hfar))

/-- A client that has got five seconds sends a heartbeat a tenth of a second after it is let in. -/
def oneHeartbeat : List Move :=
  let auth : Frame := { authFrame 1 with body := (authFrame 1).body ++ [124, 53] }
  let beat : Frame := { ver := 1, op := Op.heartbeat, seq := 2, body := [] }
  [.task (.reader 0), .event (.arrive 0 [.ok beat]), .event (.advance (.ofMillis 100)),
    .task (.reader 0), .task (.reader 0), .task (.reader 0), .event (.arrive 0 [.ok auth]),
    .event (.open "ip" "")]

/-- Its timer has looked at the heap five seconds after the client was let in. -/
def fiveSecondsLater : List Move :=
  [.task (.timer 0), .event (.advance (.ofMillis 4900))] ++ oneHeartbeat

def closedAtDeadline : List Move :=
  List.replicate 4 (.task (.timer 1)) ++ List.replicate 12 (.task (.writer 0)) ++
    [.task (.reader 0), .event (.advance (.ofMillis 400))] ++ List.replicate 8 (.task (.timer 0)) ++
    fiveSecondsLater

/-- The deadline has been left where it was: it stands a tenth of a second early, and that is when
the close signal is given. -/
theorem after_supervised_oneHeartbeat :
    let start := new Config.testing none ⟨0⟩
    let n := start.after oneHeartbeat
    start.lastHeard 0 oneHeartbeat = some ⟨.ofMillis 100, .ofSeconds 5⟩ ∧
    n.dueTime 0 = .ofSeconds 5 ∧ distance (.ofMillis 100 + .ofSeconds 5) (n.dueTime 0) < lazyDelay ∧
    (n.move (.event (.stall 0))).dueTime 0 = n.dueTime 0 ∧
    (start.after fiveSecondsLater).now = .ofSeconds 5 ∧
    Nanos.ofMillis 100 + .ofSeconds 5 < (start.after fiveSecondsLater).now + lazyDelay ∧
    ((start.after closedAtDeadline).connection 0).closed := by
  intro start n
  have hmid : start.lastHeard 0 oneHeartbeat =
    some ⟨.ofMillis 100, .ofSeconds 5⟩ := by decide +kernel
  have hlater : start.lastHeard 0 fiveSecondsLater =
    some ⟨.ofMillis 100, .ofSeconds 5⟩ := by decide +kernel
  have hlast : start.lastHeard 0 closedAtDeadline =
    some ⟨.ofMillis 100, .ofSeconds 5⟩ := by decide +kernel
  have hclock : Nanos.ofMillis 100 + Nanos.ofSeconds 5 < Nanos.clockEnd := by decide
  have hearly := (after_supervised Config.testing none ⟨0⟩ oneHeartbeat 0).2 _ hmid hclock
  have hpast := (after_supervised Config.testing none ⟨0⟩ fiveSecondsLater 0).2 _ hlater hclock
  have hsettled := (after_supervised Config.testing none ⟨0⟩ closedAtDeadline 0).2 _ hlast hclock
  refine ⟨hmid, by decide +kernel, hearly.1 (by decide +kernel), ?_, by decide +kernel, ?_, ?_⟩
  · exact (hearly.2.1 (.event (.stall 0)) rfl (by decide +kernel)).2
  · exact hpast.2.2.1 (by decide +kernel) 0 (by decide +kernel) (by decide +kernel)
  · exact hsettled.2.2.2 (settled_of_tasks (by decide +kernel)) (by decide +kernel)

end Node

end PushGateway
