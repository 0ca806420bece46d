import PushGateway.Closing
import PushGateway.Proofs.Node.TimerEffects

/-!
The calls that the tasks of a connection make under its close signal. A call that takes time is the
same as shorter calls one after another, and every look of a task at its transport is one of no
time. A signal once given is not taken back, so from then on every call is refused.
-/

namespace PushGateway

namespace Closers

variable {α : Type}

theorem foldl_give (ps : List (Nat × Nanos)) (c : Closers) :
    ps.foldl (fun c p => c.give p.1) c =
      { c with given := ps.foldl (fun given p => given.setIfInBounds p.1 true) c.given } := by
  induction ps generalizing c with
  | nil => rfl
  | cons p ps ih => exact ih _

theorem foldl_set_getElem? (ps : List (Nat × Nanos)) (given : Array Bool) (s : Nat) :
    (ps.foldl (fun given p => given.setIfInBounds p.1 true) given)[s]? =
      given[s]?.map (· || ps.any (·.1 = s)) := by
  induction ps generalizing given with
  | nil => simp
  | cons p ps ih =>
    rw [List.foldl_cons, ih, Array.getElem?_setIfInBounds, List.any_cons]
    split_ifs with hs hlt
    · simp [hs, Array.getElem?_eq_getElem (hs ▸ hlt)]
    · simp [Array.getElem?_eq_none (hs ▸ Nat.not_lt.1 hlt)]
    · simp [hs]

theorem giveBefore_eq (c : Closers) (t : Nanos) : c.giveBefore t =
    { c with
      given :=
        (c.planned.filter (·.2 < t)).foldl (fun given p => given.setIfInBounds p.1 true) c.given
      planned := c.planned.filter (t ≤ ·.2) } :=
  foldl_give _ _

theorem giveBefore_giveBefore (c : Closers) {t u : Nanos} (h : t ≤ u) :
    (c.giveBefore t).giveBefore u = c.giveBefore u := by
  have hlate (p : Nat × Nanos) : (decide (u ≤ p.2) && decide (t ≤ p.2)) = decide (u ≤ p.2) := by
    by_cases hp : u ≤ p.2
    · simp [hp, Nat.le_trans h hp]
    · simp [hp]
  simp only [giveBefore_eq, List.filter_filter, hlate]
  congr 1
  refine Array.ext_getElem? fun s => ?_
  simp only [foldl_set_getElem?, Option.map_map]
  congr 1
  funext given
  rw [Function.comp_apply, Bool.or_assoc]
  congr 1
  rw [Bool.eq_iff_iff]
  simp only [Bool.or_eq_true, List.any_eq_true, List.mem_filter, Bool.and_eq_true,
    decide_eq_true_eq]
  constructor
  · rintro (⟨p, ⟨hp, hlt⟩, hs⟩ | ⟨p, ⟨hp, hlt, -⟩, hs⟩)
    · exact ⟨p, ⟨hp, Nat.lt_of_lt_of_le hlt h⟩, hs⟩
    · exact ⟨p, ⟨hp, hlt⟩, hs⟩
  · rintro ⟨p, ⟨hp, hlt⟩, hs⟩
    by_cases ht : p.2 < t
    · exact .inl ⟨p, ⟨hp, ht⟩, hs⟩
    · exact .inr ⟨p, ⟨hp, hlt, Nat.not_lt.1 ht⟩, hs⟩

variable {c : Closers} {k : Nat} {d : Nanos} {outcome : Except GatewayError α}

/-- The signal behind handle `k` has not been given and will not be before `t`. -/
structure OpenUntil (c : Closers) (k : Nat) (t : Nanos) : Prop where
  isClosed : c.isClosed k = false
  planned : (c.closingTime (c.signal k)).filter (· < t) = none

theorem closingTime_filter (c : Closers) (s : Nat) (t : Nanos) :
    (c.closingTime s).filter (· < t) = none ↔ ∀ p ∈ c.planned, p.1 = s → t ≤ p.2 := by
  rw [closingTime]
  cases hmin : ((c.planned.filter (·.1 = s)).map (·.2)).min? with
  | none =>
    rw [List.min?_eq_none_iff, List.map_eq_nil_iff, List.filter_eq_nil_iff] at hmin
    exact iff_of_true rfl fun p hp hs => absurd (decide_eq_true hs) (hmin p hp)
  | some u =>
    obtain ⟨hmem, hle⟩ := List.min?_eq_some_iff.1 hmin
    obtain ⟨p, hp, rfl⟩ := List.mem_map.1 hmem
    obtain ⟨hp, hs⟩ := List.mem_filter.1 hp
    rw [Option.filter_eq_none_iff]
    constructor
    · intro h q hq hqs
      have ht : t ≤ p.2 := by simpa using h p.2 rfl
      exact Nat.le_trans ht (hle _
        (List.mem_map.2 ⟨q, List.mem_filter.2 ⟨hq, decide_eq_true hqs⟩, rfl⟩))
    · rintro h u ⟨⟩
      simpa using h p hp (of_decide_eq_true hs)

theorem guard_closed (h : c.isClosed k) (d : Nanos) (outcome : Except GatewayError α) :
    c.guard k d outcome = (.error .connectionClosed, 0, c) :=
  if_pos h

theorem OpenUntil.guard (h : c.OpenUntil k (c.now + d)) (outcome : Except GatewayError α) :
    c.guard k d outcome = (outcome, d, { c with now := c.now + d }.giveBefore (c.now + d)) := by
  rw [Closers.guard, if_neg (Bool.eq_false_iff.1 h.isClosed)]
  dsimp only
  rw [h.planned]

theorem guard_interrupted {t : Nanos} (h : c.isClosed k = false)
    (ht : (c.closingTime (c.signal k)).filter (· < c.now + d) = some t)
    (outcome : Except GatewayError α) :
    c.guard k d outcome =
      (.error .connectionClosed, t - c.now, { c with now := max c.now t }.giveBefore (t + 1)) := by
  rw [Closers.guard, if_neg (Bool.eq_false_iff.1 h)]
  dsimp only
  rw [ht]

theorem OpenUntil.passed {t : Nanos} (h : c.OpenUntil k t) (now : Nanos) :
    let c' := { c with now }.giveBefore t
    c'.isClosed k = false ∧ c'.closingTime (c'.signal k) = c.closingTime (c.signal k) := by
  intro c'
  have hsignal : c'.signal k = c.signal k := by
    simp only [c', giveBefore_eq]
    rfl
  have hplanned := (closingTime_filter _ _ _).1 h.planned
  have hlate (p : Nat × Nanos) (hp : p ∈ c.planned) :
      (decide (p.1 = c.signal k) && decide (t ≤ p.2)) = decide (p.1 = c.signal k) := by
    by_cases hs : p.1 = c.signal k
    · simp [hs, hplanned p hp hs]
    · simp [hs]
  constructor
  · have hnone : (c.planned.filter (·.2 < t)).any (·.1 = c.signal k) = false := by
      refine List.any_eq_false.2 fun p hp hs => ?_
      obtain ⟨hp, hlt⟩ := List.mem_filter.1 hp
      exact absurd (of_decide_eq_true hlt) (Nat.not_lt.2 (hplanned p hp (of_decide_eq_true hs)))
    have hgiven : c'.given[c.signal k]? = c.given[c.signal k]? := by
      simp only [c', giveBefore_eq, foldl_set_getElem?, hnone, Bool.or_false, Option.map_id']
    rw [Closers.isClosed, hsignal, Array.getD_eq_getD_getElem?, hgiven,
      ← Array.getD_eq_getD_getElem?]
    exact h.isClosed
  · rw [hsignal]
    simp only [c', giveBefore_eq, closingTime, List.filter_filter]
    rw [List.filter_congr hlate]

/-- A call that has lasted for `d` is as good as one that begins then. -/
theorem guard_add (c : Closers) (k : Nat) (d e : Nanos) (outcome : Except GatewayError α) :
    c.guard k (d + e) outcome = match c.guard k d (.ok ()) with
      | (.error err, waited, c') => (.error err, waited, c')
      | (.ok (), waited, c') =>
        let (result, more, c'') := c'.guard k e outcome
        (result, waited + more, c'') := by
  have hle : c.now + d ≤ c.now + (d + e) := Nat.add_le_add_left (Nat.le_add_right d e) c.now
  cases hclosed : c.isClosed k with
  | true => rw [guard_closed hclosed, guard_closed hclosed]
  | false =>
    cases hd : (c.closingTime (c.signal k)).filter (· < c.now + d) with
    | some t =>
      obtain ⟨ht, hlt⟩ := Option.filter_eq_some_iff.1 hd
      have hde : (c.closingTime (c.signal k)).filter (· < c.now + (d + e)) = some t :=
        Option.filter_eq_some_iff.2
          ⟨ht, decide_eq_true (Nat.lt_of_lt_of_le (of_decide_eq_true hlt) hle)⟩
      rw [guard_interrupted hclosed hd, guard_interrupted hclosed hde]
    | none =>
      have hopen : c.OpenUntil k (c.now + d) := ⟨hclosed, hd⟩
      rw [hopen.guard]
      dsimp only
      obtain ⟨hclosed', htime⟩ := hopen.passed (c.now + d)
      have hlater (now u : Nanos) (hu : c.now + d ≤ u) :
          { { c with now := c.now + d }.giveBefore (c.now + d) with now }.giveBefore u =
            { c with now }.giveBefore u := by
        rw [← giveBefore_giveBefore { c with now } hu]
        simp only [giveBefore_eq]
      have hnow : ({ c with now := c.now + d }.giveBefore (c.now + d)).now = c.now + d := by
        rw [giveBefore_eq]
      generalize { c with now := c.now + d }.giveBefore (c.now + d) = c' at *
      cases hde : (c.closingTime (c.signal k)).filter (· < c.now + (d + e)) with
      | some t =>
        obtain ⟨ht, -⟩ := Option.filter_eq_some_iff.1 hde
        have hle : c.now + d ≤ t := by
          rw [ht, Option.filter_eq_none_iff] at hd
          simpa using hd t rfl
        have hde' : (c'.closingTime (c'.signal k)).filter (· < c'.now + e) = some t := by
          rw [htime, hnow, Nat.add_assoc]
          exact hde
        have hwait : d + (t - (c.now + d)) = t - c.now := by
          rw [Nat.sub_add_eq, Nat.add_sub_of_le (Nat.le_sub_of_add_le' hle)]
        rw [guard_interrupted hclosed hde, guard_interrupted hclosed' hde', hnow,
          Nat.max_eq_right hle, Nat.max_eq_right (Nat.le_of_add_right_le hle)]
        dsimp only
        rw [hwait, hlater t (t + 1) (Nat.le_succ_of_le hle)]
      | none =>
        have hopen' : c'.OpenUntil k (c'.now + e) :=
          ⟨hclosed', by rw [htime, hnow, Nat.add_assoc]; exact hde⟩
        rw [OpenUntil.guard ⟨hclosed, hde⟩, hopen'.guard, hnow, Nat.add_assoc]
        dsimp only
        rw [hlater _ _ hle]

end Closers

namespace Node

variable {α : Type} {n n' : Node} {i c : Nat}

/-- The close signals of the connections, each behind the handle with its number. -/
def closers (n : Node) : Closers where
  given := n.connections.map (·.closed)
  handles := Array.range n.connections.size
  now := n.now

theorem closers_signal (hi : i < n.connections.size) : n.closers.signal i = i := by
  rw [Closers.signal, closers, Array.getD_eq_getD_getElem?, Array.getElem?_range, if_pos hi,
    Option.getD_some]

theorem closers_isClosed (hi : i < n.connections.size) :
    n.closers.isClosed i = (n.connection i).closed := by
  rw [Closers.isClosed, closers_signal hi, connection, closers, Array.getD_eq_getD_getElem?,
    Array.getD_eq_getD_getElem?, Array.getElem?_map, Array.getElem?_eq_getElem hi]
  rfl

theorem closers_close (hi : i < n.connections.size) : (n.close i).closers = n.closers.close i := by
  rw [Closers.close, Closers.give, closers_signal hi]
  simp only [closers, close, modifyConnection, Array.size_modify]
  congr 1
  refine Array.ext_getElem? fun j => ?_
  rw [Array.getElem?_map, Array.getElem?_modify, Array.getElem?_setIfInBounds, Array.getElem?_map,
    Array.size_map]
  split_ifs with hj
  · rw [← hj, Array.getElem?_eq_getElem hi]
    rfl
  · rfl

theorem closers_accept (n : Node) (ip cookie : String) :
    (n.accept ip cookie).closers = n.closers.new.2 := by
  have hpush (n' : Node) (conn : Connection) (hc : n'.connections = n.connections)
      (hn : n'.now = n.now) (hopen : conn.closed = false) :
      closers { n' with connections := n'.connections.push conn } = n.closers.new.2 := by
    simp only [closers, Closers.new, hc, hn, Array.map_push, hopen, Array.size_push,
      Array.range_succ, Array.size_map]
    rfl
  simp only [accept]
  split
  · exact hpush _ _ rfl rfl rfl
  · exact hpush _ _ rfl rfl rfl

/-- One look at a call under the close signal of connection `i`. The call is `none` as long as it
has to wait; it is not touched any more when the signal has been given. -/
def guard (n : Node) (i : Nat) (call : Option (Except GatewayError α × Node)) :
    Option (Except GatewayError α × Node) :=
  if (n.connection i).closed then some (.error .connectionClosed, n) else call

theorem closers_guard (hi : i < n.connections.size) (outcome : Except GatewayError α) :
    n.closers.guard i 0 outcome =
      (if (n.connection i).closed then .error .connectionClosed else outcome, 0, n.closers) := by
  rw [← closers_isClosed hi]
  cases hc : n.closers.isClosed i with
  | true => exact Closers.guard_closed hc _ _
  | false => exact Closers.OpenUntil.guard ⟨hc, rfl⟩ outcome

/-- The caller gets what it would get of a call that takes no time, once there is something to
get. -/
theorem guard_fst (hi : i < n.connections.size) (call : Option (Except GatewayError α × Node)) :
    (n.guard i call).map (·.1) = match call with
      | some (outcome, _) => some (n.closers.guard i 0 outcome).1
      | none => if n.closers.isClosed i then some (.error .connectionClosed) else none := by
  rw [guard, closers_isClosed hi]
  cases call with
  | none => split_ifs <;> rfl
  | some call =>
    obtain ⟨outcome, n'⟩ := call
    dsimp only
    rw [closers_guard hi]
    split_ifs <;> rfl

def transport (n : Node) (i : Nat) (e : GatewayError) (f : Wire → Wire) :
    Option (Except GatewayError Unit × Node) :=
  if (n.connection i).wire.stalled then none
  else if (n.connection i).wire.failing then some (.error e, n)
  else some (.ok (), n.modifyWire i f)

theorem useWire_guard (e : GatewayError) (f : Wire → Wire) (next : Writer) :
    n.useWire i c f next = (n.guard i (n.transport i e f)).map fun (r, n) => match r with
      | .ok () => n.setWriter i next
      | .error _ => n.failWriter i c := by
  simp only [useWire, guard, transport]
  split_ifs <;> rfl

/-- Whatever the reader does with the transport is a call under the close signal, and so is the wait
for an answer of the control plane to the first frame. Other answers are waited for all the same. -/
theorem readerStep_guard (n : Node) (i : Nat) (e : GatewayError) :
    n.readerStep i = match (n.connection i).reader with
      | .awaitingAuth => (n.guard i (n.nextIncoming i)).map fun (item, n) => match item with
        | .ok f => n.authenticate i f
        | .error _ => n.reject i
      | .connecting until' =>
        let call : Option (Except GatewayError Unit × Node) :=
          if until' ≤ n.now then some (.error .timeout, n) else none
        (n.guard i call).map fun (_, n) => n.reject i
      | .greeting f g => (n.guard i (n.transport i e (·.write (.frame f)))).map fun (r, n) =>
        match r with
        | .ok () => n.setReader i (.greeted g)
        | .error _ => n.reject i
      | .greeted g => (n.guard i (n.transport i e Wire.flush)).map fun (r, n) => match r with
        | .ok () => n.enroll i g
        | .error _ => n.reject i
      | .serving s => (n.guard i (n.nextIncoming i)).map fun (item, n) => match item with
        | .ok f => n.serve i s f
        | .error _ => n.tearDown i s.channel
      | .calling s f until' => if until' ≤ n.now then some (n.reply i s f) else none
      | .leaving c until' => if until' ≤ n.now then some (n.finishReader i c) else none
      | .returned | .crashed => none := by
  rw [readerStep]
  dsimp only
  cases (n.connection i).reader with
  | awaitingAuth =>
    dsimp only
    rw [guard]
    split_ifs
    · rfl
    · rcases n.nextIncoming i with - | ⟨item | item, n'⟩ <;> rfl
  | connecting until' =>
    dsimp only
    rw [guard]
    by_cases hc : (n.connection i).closed <;> by_cases hu : until' ≤ n.now <;> simp [hc, hu]
  | greeting f g =>
    simp only [guard, transport]
    split_ifs <;> rfl
  | greeted g =>
    simp only [guard, transport]
    split_ifs <;> rfl
  | serving s =>
    dsimp only
    rw [guard]
    split_ifs
    · rfl
    · rcases n.nextIncoming i with - | ⟨item | item, n'⟩ <;> rfl
  | calling s f until' => rfl
  | leaving c until' => rfl
  | returned => rfl
  | crashed => rfl

theorem writerStep_guard (n : Node) (i : Nat) (e : GatewayError) :
    n.writerStep i = match (n.connection i).writer with
      | .writing c item => (n.guard i (n.transport i e (·.write item))).map fun (r, n) =>
        match r with
        | .ok () => n.setWriter i (.draining c)
        | .error _ => n.failWriter i c
      | .draining c => (n.guard i (some (.ok ((n.channel c).popInbound), n))).map fun (r, n) =>
        match r with
        | .ok none => n.setWriter i (.flushing c)
        | .ok (some (f, ch)) =>
          (n.modifyChannel c fun _ => ch).setWriter i (.writing c (n.outgoing c f))
        | .error _ => n.failWriter i c
      | .flushing c => (n.guard i (n.transport i e Wire.flush)).map fun (r, n) => match r with
        | .ok () => n.setWriter i (.waiting c)
        | .error _ => n.failWriter i c
      | _ => n.writerStep i := by
  cases hw : (n.connection i).writer with
  | writing c item =>
    rw [writerStep, hw]
    exact useWire_guard e _ _
  | draining c =>
    rw [writerStep, hw]
    dsimp only
    rw [guard]
    split_ifs
    · rfl
    · rcases (n.channel c).popInbound with - | ⟨f, ch⟩ <;> rfl
  | flushing c =>
    rw [writerStep, hw]
    exact useWire_guard e _ _
  | _ => rfl

theorem lt_of_closed (h : (n.connection i).closed) : i < n.connections.size := by
  by_contra hi
  rw [connection_of_le (Nat.not_lt.1 hi)] at h
  cases h

/-- A signal once given is not taken back: from then on every call of the connection is refused. -/
theorem after_guard (config : Config) (hostname : Option String) (entropy : Entropy)
    (h later : List Move) :
    let n := (new config hostname entropy).after h
    ∀ i < n.connections.size, n.closers.isClosed i → ∀ call : Option (Except GatewayError α × Node),
      (n.after later).guard i call = some (.error .connectionClosed, n.after later) := by
  intro n i hi hc call
  have howned := (new_owned config hostname entropy).after h
  have hclosed : ((n.after later).connection i).closed := by
    induction later with
    | nil => exact (closers_isClosed hi).symm.trans hc
    | cons m later ih =>
      have heffect := (howned.after later).moveEffect m
      exact (heffect.keepsEntry (lt_of_closed ih)).closed ih
  exact if_pos hclosed

end Node

end PushGateway
