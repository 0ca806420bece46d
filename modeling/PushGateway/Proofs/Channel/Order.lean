import PushGateway.Proofs.Channel.Outbox

/-!
The order in which signals leave a channel. A finish request that found the queue full has its turn
already: it stands behind everything that was in the queue, and while it waits nothing else gets in.
So what the queue owes to its writer, the queued signals and then the waiting requests, is a plain
queue in the order of the calls, and every signal that was taken in comes out of it once.
-/

namespace PushGateway

namespace Outbox

/-- What comes out if nothing more comes in. -/
def owed (o : Outbox) : List Signal := o.queue ++ List.replicate o.waiting .finish

/-- A queue with a writer and with tasks around, in which nobody waits beside a free place. -/
structure FullWhileWaiting (o : Outbox) (size : Nat) : Prop where
  places : o.places = size
  pos : 0 < size
  bounded : o.queue.length ≤ size
  full : 0 < o.waiting → o.queue.length = size
  hasReceiver : o.hasReceiver = true
  canWait : o.canWait = true

variable {o o' : Outbox} {s : Signal} {size : Nat}

theorem new_fullWhileWaiting (n : Nat) : (new n true).FullWhileWaiting (max n 1) := by
  constructor
  · rfl
  · exact Nat.lt_of_lt_of_le Nat.one_pos (Nat.le_max_right n 1)
  · exact Nat.zero_le _
  · intro hw
    cases hw
  · rfl
  · rfl

theorem FullWhileWaiting.requeue (h : o.FullWhileWaiting size) {queue : List Signal} {waiting : Nat}
    (hb : queue.length ≤ size) (hf : 0 < waiting → queue.length = size) :
    ({ o with queue, waiting } : Outbox).FullWhileWaiting size :=
  ⟨h.places, h.pos, hb, hf, h.hasReceiver, h.canWait⟩

theorem FullWhileWaiting.hasPlace_iff (h : o.FullWhileWaiting size) : o.hasPlace = true ↔
    o.owed.length < size := by
  have hb := h.bounded
  have hf := h.full
  simp only [hasPlace, h.places, decide_eq_true_eq, owed, List.length_append, List.length_replicate]
  omega

/-- Nobody waits beside a free place, so what comes in now comes out last. -/
theorem FullWhileWaiting.push (h : o.FullWhileWaiting size) (hp : o.hasPlace = true) (s : Signal) :
    (o.push s).FullWhileWaiting size ∧ (o.push s).owed = o.owed ++ [s] := by
  have hlt : o.queue.length < size := by simpa [hasPlace, h.places] using hp
  have hw : o.waiting = 0 := by
    have hf := h.full
    omega
  constructor
  · apply h.requeue
    · simp only [List.length_append, List.length_singleton]
      omega
    · simp [hw]
  · simp [owed, Outbox.push, hw]

theorem FullWhileWaiting.offer? (h : o.FullWhileWaiting size) (ho : o.offer? s = some o') :
    o'.FullWhileWaiting size ∧ o'.owed = o.owed ++ [s] := by
  simp only [Outbox.offer?, h.hasReceiver, Bool.true_and] at ho
  split_ifs at ho with hp
  cases ho
  exact h.push hp s

theorem FullWhileWaiting.finish (h : o.FullWhileWaiting size) :
    o.finish.FullWhileWaiting size ∧ o.finish.owed = o.owed ++ [.finish] := by
  have hfinish : o.finish = if o.hasPlace then o.push .finish
      else { o with waiting := o.waiting + 1 } := by
    rw [Outbox.finish, if_neg (by simp [h.hasReceiver]), if_pos h.canWait]
  rw [hfinish]
  split_ifs with hp
  · exact h.push hp .finish
  · have hfull : o.queue.length = size := by
      have hb := h.bounded
      simp only [hasPlace, h.places, decide_eq_true_eq] at hp
      omega
    constructor
    · exact h.requeue h.bounded fun _ => hfull
    · simp [owed, List.replicate_succ']

theorem FullWhileWaiting.refill (h : o.FullWhileWaiting size) {rest : List Signal}
    (hq : o.queue = s :: rest) :
    ({ o with queue := rest }.refill).FullWhileWaiting size ∧
      ({ o with queue := rest }.refill).owed = rest ++ List.replicate o.waiting .finish := by
  have hb := h.bounded
  have hf := h.full
  simp only [hq, List.length_cons] at hb hf
  have hplace : hasPlace { o with queue := rest } = true := by
    simp only [hasPlace, h.places, decide_eq_true_eq]
    omega
  by_cases hw : 0 < o.waiting
  · have hfull := hf hw
    have hrefill : { o with queue := rest }.refill =
        { o with queue := rest ++ [.finish], waiting := o.waiting - 1 } := if_pos ⟨hw, hplace⟩
    rw [hrefill]
    constructor
    · apply h.requeue
      · simpa using hb
      · simp [hfull]
    · obtain ⟨n, hn⟩ := Nat.exists_eq_succ_of_ne_zero (Nat.ne_of_gt hw)
      simp [owed, hn, List.replicate_succ]
  · have hrefill : { o with queue := rest }.refill = { o with queue := rest } :=
      if_neg fun hc => hw hc.1
    rw [hrefill]
    constructor
    · apply h.requeue
      · omega
      · exact fun hc => absurd hc hw
    · rfl

theorem FullWhileWaiting.take? (h : o.FullWhileWaiting size) (ht : o.take? = some (s, o')) :
    o'.FullWhileWaiting size ∧ o.owed = s :: o'.owed := by
  simp only [Outbox.take?] at ht
  split at ht
  · rename_i s' rest hq
    cases ht
    obtain ⟨hn, howed⟩ := h.refill hq
    refine ⟨hn, ?_⟩
    simp [owed, hq] at howed ⊢
    exact howed.symm
  · cases ht

theorem FullWhileWaiting.take?_eq_none (h : o.FullWhileWaiting size) (ht : o.take? = none) :
    o.owed = [] := by
  have hq : o.queue = [] := by
    cases hq : o.queue with
    | nil => rfl
    | cons s rest => simp [Outbox.take?, hq] at ht
  have hf := h.full
  have hp := h.pos
  simp only [hq, List.length_nil] at hf
  have hw : o.waiting = 0 := by omega
  simp [owed, hq, hw]

theorem FullWhileWaiting.queue_eq (h : o.FullWhileWaiting size) : o.queue = o.owed.take size := by
  by_cases hw : 0 < o.waiting
  · rw [owed, ← h.full hw, List.take_left]
  · have hz : o.waiting = 0 := Nat.eq_zero_of_not_pos hw
    rw [owed, hz, List.replicate_zero, List.append_nil, List.take_of_length_le h.bounded]

theorem FullWhileWaiting.waiting_eq (h : o.FullWhileWaiting size) :
    o.waiting = o.owed.length - size := by
  have hb := h.bounded
  have hf := h.full
  simp only [owed, List.length_append, List.length_replicate]
  omega

end Outbox

namespace Channel

inductive Use
  | deliver (f : Frame)
  | wake
  | clearWake
  | close
  | receive

/-- What a call did to the outbound queue: took a signal in or not, or gave one out or not. -/
inductive Effect
  | delivered (f : Frame) (ok : Bool)
  | woke (queued : Bool)
  | cleared
  | closed
  | received (s : Option Signal)
  deriving DecidableEq

def Effect.accepted : Effect → Option Signal
  | .delivered f true => some (.data f)
  | .woke true => some .ready
  | .closed => some .finish
  | _ => none

def Effect.received? : Effect → Option Signal
  | .received s => s
  | _ => none

/-- A wake has queued a signal if the queue has grown. -/
def use (c : Channel) : Use → Effect × Channel
  | .deliver f => (.delivered f (c.deliver f).1, (c.deliver f).2)
  | .wake => (.woke (c.outbox.queue.length < c.wake.outbox.queue.length), c.wake)
  | .clearWake => (.cleared, c.clearWake)
  | .close => (.closed, c.close)
  | .receive =>
    match c.receive with
    | some (s, c) => (.received (some s), c)
    | none => (.received none, c)

def useAll (c : Channel) : List Use → List Effect × Channel
  | [] => ([], c)
  | u :: us => ((c.use u).1 :: ((c.use u).2.useAll us).1, ((c.use u).2.useAll us).2)

def accepted (es : List Effect) : List Signal := es.filterMap Effect.accepted

def received (es : List Effect) : List Signal := es.filterMap Effect.received?

variable {c : Channel} {size : Nat}

theorem deliver_refused_iff (h : c.outbox.FullWhileWaiting size) (f : Frame) :
    (c.deliver f).1 = false ↔ size ≤ c.outbox.owed.length := by
  have hp := h.hasPlace_iff
  simp only [deliver, Outbox.offer?, h.hasReceiver, Bool.true_and]
  split_ifs with hc
  · simp [hp.1 hc]
  · simp only [true_iff]
    exact Nat.not_lt.1 (mt hp.2 hc)

/-- Whatever the call, what the queue owed and has taken in is what it gave out and owes. -/
theorem use_owed (h : c.outbox.FullWhileWaiting size) (u : Use) :
    (c.use u).2.outbox.FullWhileWaiting size ∧ c.outbox.owed ++ (c.use u).1.accepted.toList =
      (c.use u).1.received?.toList ++ (c.use u).2.outbox.owed := by
  cases u with
  | deliver f =>
    simp only [use, deliver]
    cases ho : c.outbox.offer? (.data f) with
    | none => simpa [Effect.accepted, Effect.received?] using h
    | some outbox =>
      obtain ⟨ht, howed⟩ := h.offer? ho
      simpa [Effect.accepted, Effect.received?, howed] using ht
  | wake =>
    simp only [use, wake]
    split_ifs with hp
    · simpa [Effect.accepted, Effect.received?] using h
    · cases ho : c.outbox.offer? .ready with
      | none => simpa [Effect.accepted, Effect.received?] using h
      | some outbox =>
        obtain ⟨ht, howed⟩ := h.offer? ho
        have hq : c.outbox.queue.length < outbox.queue.length := by
          simp [(Outbox.offer?_appends ho).queue]
        simpa [Effect.accepted, Effect.received?, howed, hq] using ht
  | clearWake => simpa [use, Effect.accepted, Effect.received?, clearWake] using h
  | close =>
    obtain ⟨ht, howed⟩ := h.finish
    simpa [use, Effect.accepted, Effect.received?, close, howed] using ht
  | receive =>
    simp only [use, receive]
    cases ht : c.outbox.take? with
    | none => simpa [Effect.accepted, Effect.received?] using h
    | some taken =>
      obtain ⟨s, outbox⟩ := taken
      simpa [Effect.accepted, Effect.received?] using h.take? ht

theorem useAll_owed (h : c.outbox.FullWhileWaiting size) (us : List Use) :
    (c.useAll us).2.outbox.FullWhileWaiting size ∧ c.outbox.owed ++ accepted (c.useAll us).1 =
      received (c.useAll us).1 ++ (c.useAll us).2.outbox.owed := by
  induction us generalizing c with
  | nil => simpa [useAll, accepted, received] using h
  | cons u us ih =>
    obtain ⟨ht, hu⟩ := use_owed h u
    obtain ⟨ht', hus⟩ := ih ht
    refine ⟨ht', ?_⟩
    have haccepted : accepted (c.useAll (u :: us)).1 =
        (c.use u).1.accepted.toList ++ accepted ((c.use u).2.useAll us).1 := by
      simp only [useAll, accepted, List.filterMap_cons]
      cases (c.use u).1.accepted <;> rfl
    have hreceived : received (c.useAll (u :: us)).1 =
        (c.use u).1.received?.toList ++ received ((c.use u).2.useAll us).1 := by
      simp only [useAll, received, List.filterMap_cons]
      cases (c.use u).1.received? <;> rfl
    calc c.outbox.owed ++ accepted (c.useAll (u :: us)).1
        = (c.outbox.owed ++ (c.use u).1.accepted.toList) ++ accepted ((c.use u).2.useAll us).1 := by
          rw [haccepted, List.append_assoc]
      _ = (c.use u).1.received?.toList ++
            ((c.use u).2.outbox.owed ++ accepted ((c.use u).2.useAll us).1) := by
          rw [hu, List.append_assoc]
      _ = received (c.useAll (u :: us)).1 ++ (c.useAll (u :: us)).2.outbox.owed := by
          rw [hus, hreceived, List.append_assoc, useAll]

theorem receive_all (h : c.outbox.FullWhileWaiting size) :
    received (c.useAll (List.replicate c.outbox.owed.length .receive)).1 = c.outbox.owed := by
  generalize ho : c.outbox.owed = owed
  induction owed generalizing c with
  | nil => rfl
  | cons s owed ih =>
    cases ht : c.outbox.take? with
    | none => simp [h.take?_eq_none ht] at ho
    | some taken =>
      obtain ⟨s', outbox⟩ := taken
      obtain ⟨hn, hs⟩ := h.take? ht
      rw [ho, List.cons.injEq] at hs
      obtain ⟨rfl, hrest⟩ := hs
      have hu : c.use .receive = (.received (some s), { c with outbox }) := by
        simp [use, receive, ht]
      have hrec := ih (c := { c with outbox }) hn hrest.symm
      simpa [List.replicate_succ, useAll, hu, received, Effect.received?] using hrec

theorem count_accepted (es : List Effect) (f : Frame) :
    (accepted es).count (.data f) = es.count (.delivered f true) := by
  induction es with
  | nil => rfl
  | cons e es ih =>
    simp only [accepted, List.filterMap_cons] at ih ⊢
    rcases e with ⟨g, ok⟩ | queued | _ | _ | s
    · cases ok <;> simp [Effect.accepted, List.count_cons, ih]
    · cases queued <;> simp [Effect.accepted, ih]
    · simp [Effect.accepted, ih]
    · simp [Effect.accepted, ih]
    · simp [Effect.accepted, ih]

/-- After any calls on a new channel with a writer: what has come out, and then what the queue owes,
is what the calls left with it, in the order of the calls, and all of it comes out if it is taken. A
push is refused exactly when every place is taken or waited for, and what comes out of it has been
taken in. -/
theorem useAll_in_order (mid : Int64) (key ip : String) (cli svr : Nat) (us : List Use) :
    let run := (Channel.new mid key ip cli svr true).useAll us
    let c := run.2
    accepted run.1 = received run.1 ++ c.outbox.owed ∧
      received (c.useAll (List.replicate c.outbox.owed.length .receive)).1 = c.outbox.owed ∧
      (∀ f, (c.deliver f).1 = false ↔
        max svr 1 ≤ c.outbox.queue.length + c.outbox.waiting) ∧
      ∀ f, (received run.1).count (.data f) + c.outbox.owed.count (.data f) =
        run.1.count (.delivered f true) := by
  intro run c
  have hnew : (Channel.new mid key ip cli svr true).outbox.FullWhileWaiting (max svr 1) :=
    Outbox.new_fullWhileWaiting svr
  obtain ⟨ht, howed⟩ := useAll_owed hnew us
  have horder : accepted run.1 = received run.1 ++ c.outbox.owed := howed
  refine ⟨horder, receive_all ht, ?_, ?_⟩
  · intro f
    simpa [Outbox.owed] using deliver_refused_iff ht f
  · intro f
    rw [← List.count_append, ← horder, count_accepted]

/-- A queue of one place: two requests wait behind a push, a push is refused meanwhile, and the next
push comes out behind both. -/
example :
    let run := (Channel.new 7 "k" "10.0.0.1" 1 1 true).useAll [.deliver { op := 5 }, .close, .close,
      .deliver { op := 6 }, .receive, .receive, .receive, .deliver { op := 7 }, .receive]
    received run.1 = [.data { op := 5 }, .finish, .finish, .data { op := 7 }] ∧
      .delivered { op := 6 } false ∈ run.1 := by
  decide +kernel

end Channel

end PushGateway
