import PushGateway.Node.Event
import PushGateway.Proofs.Frame.RoundTrip
import PushGateway.Proofs.Ring.Protocol

/-!
What five parts of a gateway need of its settings, against what the check of the settings asks. A
queue between tasks has at least one place, and at most as many as a word of 64 bits can count with
three bits to spare; the slots of a ring are counted in one such word; a task that ticks needs time
between its ticks; the length of a frame has to fit into its header. Whether the machine has room
for the tables, timers and buffers that the other settings size is not asked here.
-/

namespace PushGateway

/-- The most places there can be in a queue between tasks. -/
def placeLimit : Nat := 2 ^ 61 - 1

def Makeable (places : Nat) : Prop := 0 < places ∧ places ≤ placeLimit

instance (places : Nat) : Decidable (Makeable places) := inferInstanceAs (Decidable (_ ∧ _))

theorem makeable_max_iff (n : Nat) : Makeable (max n 1) ↔ n ≤ placeLimit := by
  have hone : 1 ≤ placeLimit := by decide
  rw [Makeable]
  omega

theorem RoundsUp.lt_word_iff {n c : Nat} (h : RoundsUp n c) : c < 2 ^ 64 ↔ n ≤ 2 ^ 63 := by
  refine ⟨fun hlt => ?_, fun hn => ?_⟩
  · obtain ⟨k, rfl⟩ := h.isPowerOfTwo
    have hk : k < 64 := (Nat.pow_lt_pow_iff_right (by decide)).1 hlt
    calc n ≤ max n 1 := Nat.le_max_left n 1
      _ ≤ 2 ^ k := h.le
      _ ≤ 2 ^ 63 := Nat.pow_le_pow_right (by decide) (Nat.le_of_lt_succ hk)
  · calc c ≤ 2 ^ 63 := h.least 63 (Nat.max_le.2 ⟨hn, by decide⟩)
      _ < 2 ^ 64 := by decide

namespace Config

/-- The settings meet five preconditions: the task that renews the online counts outlives its start,
the outbound queues, the queues of the workers and the rings can be made, and every frame whose body
is within the limit has a length that a header can carry. The other settings are not looked at. -/
structure MeetsPreconditions (c : Config) : Prop where
  ticker : ∀ hostname entropy, Ticker.crashed ∉ (Node.new c hostname entropy).startTicker.tickers
  outbox : ∀ mid key ip, Makeable (Channel.new mid key ip c.cliProto c.svrProto true).outbox.places
  workers : ∀ hostname entropy, ∀ b ∈ (Node.new c hostname entropy).directory.buckets,
    Makeable b.depth
  ring : ∀ mid key ip, (Channel.new mid key ip c.cliProto c.svrProto true).inbound.capacity < 2 ^ 64
  carried : ∀ f : Frame, f.op ≠ Op.raw → f.body.length ≤ c.maxBodySize →
    Frame.decode c.maxBodySize f.encode = .ok (some (f, []))

variable {c : Config}

theorem validate_eq_ok_iff : c.validate = .ok () ↔ ¬ (c.tcpBind.isEmpty ∧ c.websocketBind.isEmpty) ∧
    (∀ p ∈ c.counts, p.2 ≠ 0) ∧ ¬ (c.handshakeTimeout = 0 ∨ c.heartbeatInterval = 0) ∧
    c.maxBodySize ≤ largestBody := by
  have hnone : c.validate = .ok () ↔ c.problem? = none := by
    rw [validate]
    cases c.problem? with
    | none => exact ⟨fun _ => rfl, fun _ => rfl⟩
    | some p => exact ⟨nofun, nofun⟩
  have hcounts : (∀ p ∈ c.counts, p.2 ≠ 0) ↔ c.counts.find? (·.2 = 0) = none := by
    simp [List.find?_eq_none]
  rw [hnone, hcounts, problem?]
  by_cases hbinds : c.tcpBind.isEmpty ∧ c.websocketBind.isEmpty
  · rw [if_pos hbinds]
    exact ⟨nofun, fun h => absurd hbinds h.1⟩
  · rw [if_neg hbinds]
    cases c.counts.find? (·.2 = 0) with
    | some p => exact ⟨nofun, fun h => nomatch h.2.1⟩
    | none =>
      dsimp only
      split_ifs with htimes hsize
      · exact ⟨nofun, fun h => absurd htimes h.2.2.1⟩
      · exact ⟨nofun, fun h => absurd hsize (Nat.not_lt.2 h.2.2.2)⟩
      · exact ⟨fun _ => ⟨hbinds, rfl, htimes, Nat.not_lt.1 hsize⟩, fun _ => rfl⟩

theorem ticker_iff (hostname : Option String) (entropy : Entropy) :
    Ticker.crashed ∉ (Node.new c hostname entropy).startTicker.tickers ↔ 0 < c.onlineTick := by
  have hticker : (Node.new c hostname entropy).startTicker.tickers =
      #[if c.onlineTick = 0 then .crashed else .idle (0 + c.onlineTick)] := rfl
  rw [hticker, Array.mem_singleton]
  split_ifs with h
  · exact ⟨fun hne => absurd rfl hne, fun hpos => absurd h (Nat.ne_of_gt hpos)⟩
  · exact ⟨fun _ => Nat.pos_of_ne_zero h, fun _ => nofun⟩

theorem workers_iff (hostname : Option String) (entropy : Entropy) :
    (∀ b ∈ (Node.new c hostname entropy).directory.buckets, Makeable b.depth) ↔
      c.routineSize ≤ placeLimit := by
  have hbuckets : (Node.new c hostname entropy).directory.buckets =
      .replicate (max c.bucketSize 1) (.new c.routineAmount c.routineSize) := rfl
  rw [hbuckets, ← makeable_max_iff]
  refine ⟨fun h => h _ (Array.mem_replicate.2 ⟨?_, rfl⟩), fun h b hb => ?_⟩
  · exact Nat.ne_of_gt (Nat.lt_of_lt_of_le Nat.one_pos (Nat.le_max_right _ _))
  · rw [(Array.mem_replicate.1 hb).2]
    exact h

theorem ring_iff (mid : Int64) (key ip : String) :
    (Channel.new mid key ip c.cliProto c.svrProto true).inbound.capacity < 2 ^ 64 ↔
      c.cliProto ≤ 2 ^ 63 :=
  (Ring.new_roundsUp c.cliProto).lt_word_iff

theorem carried_of_le (h : c.maxBodySize ≤ largestBody) {f : Frame} (hf : f.op ≠ Op.raw)
    (hb : f.body.length ≤ c.maxBodySize) :
    Frame.decode c.maxBodySize f.encode = .ok (some (f, [])) := by
  have hm : c.maxBodySize + Frame.headerSize < 2 ^ 31 := by
    rw [largestBody] at h
    rw [Frame.headerSize]
    omega
  have hdecode := Frame.decode_putHeader hm f hb []
  rw [List.append_nil] at hdecode
  rw [Frame.encode, if_neg hf, hdecode]

/-- The check grants one of the five preconditions, that frames can be carried. Settings that pass
it meet the other four if they leave time between the renewals of the online counts and ask for no
queue and no ring that cannot be made, and only then. -/
theorem validate_preconditions_iff (h : c.validate = .ok ()) : c.MeetsPreconditions ↔
    0 < c.onlineTick ∧ c.svrProto ≤ placeLimit ∧ c.routineSize ≤ placeLimit ∧
    c.cliProto ≤ 2 ^ 63 := by
  refine ⟨fun hr => ⟨?_, ?_, ?_, ?_⟩, fun ⟨htick, hsvr, hroutine, hcli⟩ => ?_⟩
  · exact (ticker_iff none ⟨0⟩).1 (hr.ticker none ⟨0⟩)
  · exact (makeable_max_iff _).1 (hr.outbox 0 "" "")
  · exact (workers_iff none ⟨0⟩).1 (hr.workers none ⟨0⟩)
  · exact (ring_iff 0 "" "").1 (hr.ring 0 "" "")
  · constructor
    · exact fun hostname entropy => (ticker_iff hostname entropy).2 htick
    · exact fun _ _ _ => (makeable_max_iff _).2 hsvr
    · exact fun hostname entropy => (workers_iff hostname entropy).2 hroutine
    · exact fun mid key ip => (ring_iff mid key ip).2 hcli
    · exact fun f hf hb => carried_of_le (validate_eq_ok_iff.1 h).2.2.2 hf hb

theorem validate_preconditions_testing : testing.validate = .ok () ∧
    testing.MeetsPreconditions := by
  have hvalid : testing.validate = .ok () := by decide +kernel
  exact ⟨hvalid, (validate_preconditions_iff hvalid).2 (by decide +kernel)⟩

/-- Settings that pass the check, each with one number that breaks a precondition. -/
theorem unfit_accepted :
    (validate { testing with onlineTick := 0 } = .ok () ∧
      ¬ MeetsPreconditions { testing with onlineTick := 0 }) ∧
      (validate { testing with svrProto := 2 ^ 61 } = .ok () ∧
      ¬ MeetsPreconditions { testing with svrProto := 2 ^ 61 }) ∧
      (validate { testing with routineSize := 2 ^ 61 } = .ok () ∧
      ¬ MeetsPreconditions { testing with routineSize := 2 ^ 61 }) ∧
      (validate { testing with cliProto := 2 ^ 63 + 1 } = .ok () ∧
      ¬ MeetsPreconditions { testing with cliProto := 2 ^ 63 + 1 }) := by
  refine ⟨⟨?_, fun h => ?_⟩, ⟨?_, fun h => ?_⟩, ⟨?_, fun h => ?_⟩, ?_, fun h => ?_⟩
  · decide +kernel
  · exact absurd ((ticker_iff none ⟨0⟩).1 (h.ticker none ⟨0⟩)) (by decide)
  · decide +kernel
  · exact absurd ((makeable_max_iff _).1 (h.outbox 0 "" "")) (by decide +kernel)
  · decide +kernel
  · exact absurd ((workers_iff none ⟨0⟩).1 (h.workers none ⟨0⟩)) (by decide +kernel)
  · decide +kernel
  · exact absurd ((ring_iff 0 "" "").1 (h.ring 0 "" "")) (by decide +kernel)

end Config

end PushGateway
