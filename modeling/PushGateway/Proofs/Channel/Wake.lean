import PushGateway.Proofs.Channel.Outbox
import PushGateway.Proofs.Ring

/-!
One reader and one writer on a channel, step by step. The reader puts a reply into the ring and
wakes the writer, by three accesses that others may come between: it marks a wake as queued, queues
it, and takes the mark back if the queue refused. The writer takes a signal, takes back the mark if
that was a wake, and empties the ring before it waits again. Others push and ask it to finish as
they like.

The mark, the wake in the queue and the places where the two tasks stand account for each other: a
mark belongs to a wake that is queued, or about to be, or just taken. So there is never a second
wake in the queue, and whenever the reader is done with a reply the writer has a signal ahead or has
seen the ring empty since.
-/

namespace PushGateway

namespace Channel

def mark (c : Channel) : Bool × Channel := (c.wakePending, { c with wakePending := true })

def announce (c : Channel) : Bool × Channel :=
  match c.outbox.offer? .ready with
  | some outbox => (true, { c with outbox })
  | none => (false, c)

theorem announce_cases (c : Channel) :
    (∃ outbox, c.outbox.Appends [.ready] outbox ∧ c.outbox.hasReceiver = true ∧
      c.announce = (true, { c with outbox })) ∨
    (c.outbox.hasReceiver = false ∨ c.outbox.places ≤ c.outbox.queue.length) ∧
      c.announce = (false, c) := by
  rw [announce]
  cases ho : c.outbox.offer? .ready with
  | some outbox =>
    exact .inl ⟨outbox, Outbox.offer?_appends ho, Outbox.hasReceiver_of_offer? ho, rfl⟩
  | none => exact .inr ⟨Outbox.offer?_eq_none ho, rfl⟩

end Channel

/-- Where the reader stands: between replies, or with one in the ring and the wake not marked,
marked and not queued, or refused and still marked. -/
inductive ReaderAt
  | idle
  | pushed
  | marked
  | refused
  deriving DecidableEq, Repr

def ReaderAt.wakes : ReaderAt → Nat
  | .idle | .pushed => 0
  | .marked | .refused => 1

/-- Where the writer stands. It is `woken` with a wake in its hand whose mark is still there. -/
inductive WriterAt
  | waiting
  | woken
  | draining
  | ended
  deriving DecidableEq, Repr

def WriterAt.wakes : WriterAt → Nat
  | .woken => 1
  | .waiting | .draining | .ended => 0

structure WakeProtocol where
  channel : Channel
  reader : ReaderAt := .idle
  writer : WriterAt := .waiting
  deriving Repr

namespace WakeProtocol

/-- The reader makes one access; between replies it starts with the reply `f`, which a full ring
refuses. -/
def readerStep (e : WakeProtocol) (f : Frame) : WakeProtocol :=
  match e.reader with
  | .idle =>
    match e.channel.pushInbound f with
    | .ok channel => { e with channel, reader := .pushed }
    | .error _ => e
  | .pushed =>
    let (before, channel) := e.channel.mark
    { e with channel, reader := if before then .idle else .marked }
  | .marked =>
    let (queued, channel) := e.channel.announce
    { e with channel, reader := if queued then .idle else .refused }
  | .refused => { e with channel := e.channel.clearWake, reader := .idle }

def writerStep (e : WakeProtocol) : WakeProtocol :=
  match e.writer with
  | .waiting =>
    match e.channel.receive with
    | none => e
    | some (.ready, channel) => { e with channel, writer := .woken }
    | some (.data _, channel) => { e with channel, writer := .draining }
    | some (.finish, channel) => { e with channel := channel.dropReceiver, writer := .ended }
  | .woken => { e with channel := e.channel.clearWake, writer := .draining }
  | .draining =>
    match e.channel.popInbound with
    | none => { e with writer := .waiting }
    | some (_, channel) => { e with channel }
  | .ended => e

inductive Act
  | reader (f : Frame)
  | writer
  | deliver (f : Frame)
  | close

def act (e : WakeProtocol) : Act → WakeProtocol
  | .reader f => e.readerStep f
  | .writer => e.writerStep
  | .deliver f => { e with channel := (e.channel.deliver f).2 }
  | .close => { e with channel := e.channel.close }

def run (e : WakeProtocol) (acts : List Act) : WakeProtocol := acts.foldl act e

structure Sound (e : WakeProtocol) (xs : List Frame) : Prop where
  ring : e.channel.inbound.Holds xs
  places : 0 < e.channel.outbox.places
  ended : e.writer = .ended → e.channel.outbox.queue = [] ∧ e.channel.outbox.hasReceiver = false
  receiver : e.writer ≠ .ended → e.channel.outbox.hasReceiver = true
  /-- A mark stands for one wake, in the queue or in a hand. -/
  marks : e.writer ≠ .ended →
    e.channel.outbox.queue.count .ready + e.reader.wakes + e.writer.wakes =
    e.channel.wakePending.toNat
  /-- Only a reader that has yet to queue its wake may leave the ring to a writer with nothing
  ahead. -/
  ahead : e.writer = .waiting → e.reader = .idle ∨ e.reader = .refused →
    e.channel.outbox.queue = [] → xs = []

variable {e : WakeProtocol} {xs : List Frame}

theorem start_sound (mid : Int64) (key ip : String) (cli svr : Nat) (canWait : Bool) :
    Sound { channel := .new mid key ip cli svr canWait } [] := by
  refine ⟨Ring.new_holds cli, ?_, ?_, fun _ => rfl, fun _ => rfl, fun _ _ _ => rfl⟩
  · exact Nat.lt_of_lt_of_le Nat.one_pos (Nat.le_max_right svr 1)
  · intro h
    cases h

theorem Sound.appends (h : e.Sound xs) {outbox : Outbox} {extra : List Signal}
    (hf : e.channel.outbox.Appends extra outbox) (hr : extra.count .ready = 0)
    (hd : e.channel.outbox.hasReceiver = false → extra = []) :
    Sound { e with channel := { e.channel with outbox } } xs := by
  refine ⟨h.ring, hf.places ▸ h.places, ?_, ?_, ?_, ?_⟩
  · intro he
    obtain ⟨hq, hn⟩ := h.ended he
    refine ⟨?_, hf.hasReceiver.trans hn⟩
    rw [hf.queue, hq, hd hn]
    rfl
  · intro he
    exact hf.hasReceiver.trans (h.receiver he)
  · intro he
    have hm := h.marks he
    change outbox.queue.count .ready + _ + _ = _
    rw [hf.count_ready, hr]
    exact hm
  · intro hw hi hq
    apply h.ahead hw hi
    rw [hf.queue] at hq
    exact (List.append_eq_nil_iff.1 hq).1

theorem Sound.deliver (h : e.Sound xs) (f : Frame) : (e.act (.deliver f)).Sound xs := by
  simp only [act, Channel.deliver]
  cases ho : e.channel.outbox.offer? (.data f) with
  | none => exact h
  | some outbox =>
    apply h.appends (Outbox.offer?_appends ho) rfl
    intro hn
    rw [Outbox.hasReceiver_of_offer? ho] at hn
    cases hn

theorem Sound.close (h : e.Sound xs) : (e.act .close).Sound xs := by
  obtain ⟨k, hk⟩ := Outbox.finish_appends e.channel.outbox
  apply h.appends hk (Outbox.count_finish k)
  intro hn
  have hq := hk.queue
  rw [Outbox.finish, hn] at hq
  exact List.self_eq_append_right.1 hq

theorem Sound.readerStep (h : e.Sound xs) (f : Frame) : ∃ ys, (e.readerStep f).Sound ys := by
  obtain ⟨c, r, w⟩ := e
  cases r with
  | idle =>
    simp only [WakeProtocol.readerStep, Channel.pushInbound]
    cases hp : c.inbound.push? f with
    | none => exact ⟨xs, h⟩
    | some ring =>
      refine ⟨xs ++ [f], h.ring.of_push? hp, h.places, h.ended, h.receiver, h.marks, ?_⟩
      rintro - (hi | hi) <;> cases hi
  | pushed =>
    refine ⟨xs, h.ring, h.places, h.ended, h.receiver, ?_, ?_⟩
    · intro he
      have hm := h.marks he
      cases hp : c.wakePending with
      | true => simpa [WakeProtocol.readerStep, Channel.mark, ReaderAt.wakes, hp] using hm
      | false =>
        simp only [ReaderAt.wakes, hp, Bool.toNat_false] at hm
        simp only [WakeProtocol.readerStep, Channel.mark, ReaderAt.wakes, hp, Bool.toNat_true]
        simp only [Bool.false_eq_true, if_false]
        omega
    · intro hw hi hq
      change w = .waiting at hw
      subst hw
      -- The mark was there already, so the wake it stands for is queued.
      have hm := h.marks (by simp)
      change c.outbox.queue = [] at hq
      cases hp : c.wakePending with
      | true => simp [ReaderAt.wakes, WriterAt.wakes, hp, hq] at hm
      | false => simp [WakeProtocol.readerStep, Channel.mark, hp] at hi
  | marked =>
    rcases c.announce_cases with ⟨outbox, hf, hr, ha⟩ | ⟨hn, ha⟩
    · have hne : w ≠ .ended := fun he => by
        have hr' := (h.ended he).2
        rw [hr] at hr'
        cases hr'
      simp only [WakeProtocol.readerStep, ha]
      refine ⟨xs, h.ring, hf.places ▸ h.places, fun he => absurd he hne,
        fun he => hf.hasReceiver.trans (h.receiver he), ?_, ?_⟩
      · intro he
        have hm := h.marks he
        simp only [ReaderAt.wakes, if_true, hf.count_ready] at hm ⊢
        exact hm
      · intro _ _ hq
        rw [hf.queue] at hq
        cases (List.append_eq_nil_iff.1 hq).2
    · simp only [WakeProtocol.readerStep, ha]
      refine ⟨xs, h.ring, h.places, h.ended, h.receiver, h.marks, ?_⟩
      intro hw _ hq
      change w = .waiting at hw
      change c.outbox.queue = [] at hq
      subst hw
      -- A queue with a receiver refuses only when it is full, and then it is not empty.
      have hr : c.outbox.hasReceiver = true := h.receiver (by simp)
      have hp : 0 < c.outbox.places := h.places
      rw [hr, hq] at hn
      rcases hn with hn | hn
      · cases hn
      · exact absurd hp (Nat.not_lt.2 hn)
  | refused =>
    refine ⟨xs, h.ring, h.places, h.ended, h.receiver, ?_, ?_⟩
    · intro he
      have hm := h.marks he
      have hb : c.wakePending.toNat ≤ 1 := Bool.toNat_le _
      simp only [ReaderAt.wakes] at hm
      simp only [WakeProtocol.readerStep, Channel.clearWake, ReaderAt.wakes, Bool.toNat_false]
      omega
    · intro hw _ hq
      exact h.ahead hw (.inr rfl) hq

/-- Taking a signal turns a wake in the queue into one in the hand. -/
theorem Sound.receive (h : e.Sound xs) (hw : e.writer = .waiting) : (e.writerStep).Sound xs := by
  obtain ⟨c, r, w⟩ := e
  cases hw
  simp only [writerStep, Channel.receive]
  cases ht : c.outbox.take? with
  | none => exact h
  | some p =>
    obtain ⟨s, outbox⟩ := p
    obtain ⟨q, k, hq, hf⟩ := Outbox.take?_appends ht
    have hr := hf.hasReceiver.trans (h.receiver (by simp))
    have hp : 0 < outbox.places := hf.places ▸ h.places
    have hm := h.marks (by simp)
    have hc := hf.count_ready
    simp only [hq, List.count_cons, WriterAt.wakes] at hm
    simp only [Outbox.count_finish, Nat.add_zero] at hc
    cases s with
    | data f =>
      refine ⟨h.ring, hp, by simp, fun _ => hr, fun _ => ?_, by simp⟩
      change outbox.queue.count .ready + r.wakes + 0 = c.wakePending.toNat
      rw [hc]
      simpa using hm
    | ready =>
      refine ⟨h.ring, hp, by simp, fun _ => hr, fun _ => ?_, by simp⟩
      change outbox.queue.count .ready + r.wakes + 1 = c.wakePending.toNat
      simp only [beq_self_eq_true, if_true] at hm
      omega
    | finish =>
      exact ⟨h.ring, hp, fun _ => ⟨rfl, rfl⟩, fun he => absurd rfl he,
        fun he => absurd rfl he, by simp⟩

theorem Sound.writerStep (h : e.Sound xs) : ∃ ys, (e.writerStep).Sound ys := by
  cases hw : e.writer with
  | waiting => exact ⟨xs, h.receive hw⟩
  | woken =>
    obtain ⟨c, r, w⟩ := e
    cases hw
    have hm := h.marks (by simp)
    have hb : c.wakePending.toNat ≤ 1 := Bool.toNat_le _
    refine ⟨xs, h.ring, h.places, ?_, fun _ => h.receiver (by simp), fun _ => ?_, ?_⟩
    · intro he
      cases he
    · simp only [WriterAt.wakes] at hm
      simp only [WakeProtocol.writerStep, Channel.clearWake, WriterAt.wakes, Bool.toNat_false]
      omega
    · intro hw
      cases hw
  | draining =>
    obtain ⟨c, r, w⟩ := e
    cases hw
    have hr := h.receiver (by simp)
    have hm := h.marks (by simp)
    simp only [WakeProtocol.writerStep, Channel.popInbound]
    cases hp : c.inbound.pop? with
    | none =>
      have hx := h.ring.of_pop?_none hp
      exact ⟨xs, h.ring, h.places, by simp, fun _ => hr, fun _ => hm, fun _ _ _ => hx⟩
    | some p =>
      obtain ⟨f, ring⟩ := p
      obtain ⟨ys, -, hh⟩ := h.ring.of_pop? hp
      exact ⟨ys, hh, h.places, by simp, fun _ => hr, fun _ => hm, by simp⟩
  | ended =>
    rw [WakeProtocol.writerStep, hw]
    exact ⟨xs, h⟩

theorem Sound.act (h : e.Sound xs) (a : Act) : ∃ ys, (e.act a).Sound ys := by
  cases a with
  | reader f => exact h.readerStep f
  | writer => exact h.writerStep
  | deliver f => exact ⟨xs, h.deliver f⟩
  | close => exact ⟨xs, h.close⟩

theorem Sound.run (h : e.Sound xs) (acts : List Act) : ∃ ys, (e.run acts).Sound ys := by
  induction acts generalizing e xs with
  | nil => exact ⟨xs, h⟩
  | cons a acts ih =>
    obtain ⟨ys, ha⟩ := h.act a
    exact ih ha

theorem Sound.count_ready_le (h : e.Sound xs) : e.channel.outbox.queue.count .ready ≤ 1 := by
  by_cases he : e.writer = .ended
  · rw [(h.ended he).1]
    exact Nat.zero_le 1
  · have hm := h.marks he
    have hb : e.channel.wakePending.toNat ≤ 1 := Bool.toNat_le _
    omega

/-- However the tasks and the others take turns: there is at most one wake in the queue, and a
writer that waits with nothing ahead has left nothing in the ring, unless the reader is still on its
way to wake it. -/
theorem run_awake (mid : Int64) (key ip : String) (cli svr : Nat) (canWait : Bool)
    (acts : List Act) :
    let e := run { channel := .new mid key ip cli svr canWait } acts
    e.channel.outbox.queue.count .ready ≤ 1 ∧
      (e.writer = .waiting → e.channel.outbox.queue = [] → e.reader = .idle →
        e.channel.inbound.isEmpty) := by
  obtain ⟨xs, h⟩ := (start_sound mid key ip cli svr canWait).run acts
  refine ⟨h.count_ready_le, ?_⟩
  intro hw hq hr
  rw [h.ring.isEmpty_iff]
  exact h.ahead hw (.inl hr) hq

/-- A push takes the only place in the queue, so the wake for the reply is refused; the writer finds
the reply behind the push. -/
def refusedWake : List Act :=
  [.deliver {}, .reader { op := 15 }, .reader {}, .reader {}, .reader {}, .writer, .writer, .writer]

theorem run_awake_refusedWake :
    let e := run { channel := .new 7 "k" "10.0.0.1" 1 1 true } refusedWake
    (e.writer = .waiting ∧ e.channel.outbox.queue = [] ∧ e.reader = .idle) ∧
      e.channel.outbox.queue.count .ready ≤ 1 ∧ e.channel.inbound.isEmpty := by
  have hw : (run { channel := .new 7 "k" "10.0.0.1" 1 1 true } refusedWake).writer = .waiting ∧
      (run { channel := .new 7 "k" "10.0.0.1" 1 1 true } refusedWake).channel.outbox.queue = [] ∧
      (run { channel := .new 7 "k" "10.0.0.1" 1 1 true } refusedWake).reader = .idle := by
    decide +kernel
  obtain ⟨hc, he⟩ := run_awake 7 "k" "10.0.0.1" 1 1 true refusedWake
  exact ⟨hw, hc, he hw.1 hw.2.1 hw.2.2⟩

end WakeProtocol

end PushGateway
