import PushGateway.Proofs.Node.Load

/-!
The background work comes to rest. What is left to do is bounded by a number that every step of
every task lowers, where a push to a room is worth more than a signal to everybody who may be in the
room when a worker comes to it. So the fuel of `Node.settle`, which is that number, is enough, and
the node it ends with is settled.
-/

namespace PushGateway

namespace Node

variable {n n' : Node}

structure Workable (n : Node) : Prop where
  fit : ∀ t, (n.timer t).heap.Fit
  ring : ∀ i c, (n.connection i).writer = .draining c → ∃ xs, (n.channel c).inbound.Holds xs
  ticks : n.Ticks

theorem work_lt_of_load (hk : n.KeepsWaiting n')
    (h : ∀ x y, n'.load x y + x ≤ n.load x y) : n'.work < n.work := by
  have hsteps := h 1 0
  have hseats := Nat.mul_le_mul_left n.directory.pushes
    (Nat.add_le_add_right (Nat.mul_le_mul_left 4 (Nat.le_of_add_right_le (h 0 1))) 1)
  rw [work, work, hk.now, hk.config, hk.tickers, hk.pushes]
  omega

theorem worker_work_lt {b w : Nat} {d : Directory} (h : n.directory.workerStep b w = some d) :
    work { n with directory := d } < n.work := by
  obtain ⟨hsteps, hseats, hpushes⟩ := Directory.workerStep_load h
  have hload : load 1 0 { n with directory := d } ≤ n.load 1 0 + 4 * n.load 0 1 := by
    rw [load, load, load]
    dsimp only
    omega
  have hwidth : load 0 1 { n with directory := d } ≤ n.load 0 1 := by
    rw [load, load]
    exact Nat.add_le_add_left hseats _
  have hrest := Nat.mul_le_mul_left d.pushes (Nat.add_le_add_right (Nat.mul_le_mul_left 4 hwidth) 1)
  have hserved := Nat.add_one_mul d.pushes (4 * n.load 0 1 + 1)
  rw [work, work, ← hpushes]
  dsimp only at hload hrest ⊢
  omega

/-- Every step of every task lowers the bound on the work that is left. -/
theorem Workable.step_work_lt {t : Task} (hn : n.Workable) (h : n.step t = some n') :
    n'.work < n.work := by
  have hlower (hl : ∀ x y, n.KeepsWaiting n' ∧ n'.load x y + x ≤ n.load x y) :
      n'.work < n.work := work_lt_of_load (hl 0 0).1 fun x y => (hl x y).2
  cases t with
  | timer t => exact hlower fun _ _ => timerStep_load (hn.fit t) h
  | ticker k =>
    have hload (x y : Nat) := tickerStep_load (x := x) (y := y) (hn.ticks.pos h) h
    obtain ⟨hsteps, hnow, hconfig, hpushes, hlt⟩ := hload 1 0
    have hseats := Nat.mul_le_mul_left n.directory.pushes
      (Nat.add_le_add_right (Nat.mul_le_mul_left 4 (hload 0 1).1) 1)
    rw [work, work, hnow, hconfig, hpushes]
    omega
  | reader i => exact hlower fun _ _ => readerStep_load h
  | worker b w =>
    obtain ⟨d, hd, rfl⟩ := Option.map_eq_some_iff.1 h
    exact worker_work_lt hd
  | writer i => exact hlower fun _ _ => writerStep_load (hn.ring i) h

theorem apply_ticks (hn : n.Ticks) (e : Event) : (e.apply n).Ticks := by
  have hsame {n' : Node} (hc : n'.config = n.config) (ht : n'.tickers = n.tickers) : n'.Ticks := by
    rw [Ticks, hc, ht]
    exact hn
  have hwire (i : Nat) (f : Wire → Wire) : (n.onWire i f).Ticks := by
    rw [onWire]
    split_ifs
    · exact hn
    · exact hsame rfl rfl
  cases e with
  | «open» ip cookie =>
    simp only [Event.apply, accept]
    split <;> exact hsame rfl rfl
  | arrive i items => exact hwire i _
  | stall i => exact hwire i _
  | resume i => exact hwire i _
  | failWrites i => exact hwire i _
  | startTicker =>
    intro hzero t ht
    rcases Array.mem_push.1 ht with ht | rfl
    · exact hn hzero t ht
    · exact if_pos hzero
  | closeRoom id =>
    rw [Event.apply, closeRoom]
    generalize List.range n.directory.buckets.size = bs
    generalize 0 = k
    clear hsame hwire
    induction bs generalizing n k with
    | nil => exact hn
    | cons b bs ih => exact ih (n := { n with directory := (n.directory.closeRoom b id).2 }) hn _
  | _ => exact hsame rfl rfl

theorem Workable.step_ticks {t : Task} (hn : n.Workable) (h : n.step t = some n') : n'.Ticks := by
  have hkeep (hk : n.KeepsWaiting n') : n'.Ticks := by
    rw [Ticks, hk.config, hk.tickers]
    exact hn.ticks
  cases t with
  | timer t => exact hkeep (timerStep_load (x := 0) (y := 0) (hn.fit t) h).1
  | ticker k =>
    intro hzero
    have hpos := hn.ticks.pos h
    rw [(tickerStep_load (x := 0) (y := 0) hpos h).2.2.1] at hzero
    exact absurd hzero (Nat.ne_of_gt hpos)
  | reader i => exact hkeep (readerStep_load (x := 0) (y := 0) h).1
  | worker b w =>
    obtain ⟨d, hd, rfl⟩ := Option.map_eq_some_iff.1 h
    exact hn.ticks
  | writer i => exact hkeep (writerStep_load (x := 0) (y := 0) (hn.ring i) h).1

theorem Workable.move_ticks (hn : n.Workable) (m : Move) : (n.move m).Ticks := by
  cases m with
  | event e => exact apply_ticks hn.ticks e
  | task t =>
    rw [move]
    cases hs : n.step t with
    | none => exact hn.ticks
    | some n' => exact hn.step_ticks hs
  | deliver c f => exact hn.ticks

theorem after_workable (config : Config) (hostname : Option String) (entropy : Entropy)
    (h : List Move) : ((new config hostname entropy).after h).Workable := by
  have howned := new_owned config hostname entropy
  have hdeadlines := new_deadlinesInOrder config hostname entropy
  have hticks (h : List Move) (ht : ((new config hostname entropy).after h).Ticks) :
      ((new config hostname entropy).after h).Workable := by
    refine ⟨(hdeadlines.after howned h).fit, fun i c hw => ?_, ht⟩
    obtain ⟨sent, ring, hr⟩ := relayed_after config hostname entropy h i
    exact ⟨ring, hr.ring c (.inr (congrArg Writer.channel? hw))⟩
  induction h with
  | nil => exact hticks [] fun _ t ht => absurd ht (Array.not_mem_empty t)
  | cons m h ih => exact hticks _ (ih.move_ticks m)

def StaysWorkable (n : Node) : Prop := ∀ later, (n.after later).Workable

/-- The tasks have come from `n` to a node, and `moved` tells if they made a step. -/
inductive Ran (n : Node) : Bool → Node → Prop
  | still : Ran n false n
  | moves {moved : Bool} {n' n'' : Node} {t : Task} : Ran n moved n' → n'.step t = some n'' →
      Ran n true n''

variable {t : Task} {ts : List Task} {moved : Bool} {s : Bool × Node} {fuel more : Nat}

theorem step_eq_after (h : n.step t = some n') : n' = n.after [.task t] := by
  rw [after, after, move, h, Option.getD_some]

theorem StaysWorkable.of_step (hn : n.StaysWorkable) (h : n.step t = some n') :
    n'.StaysWorkable := by
  intro later
  rw [step_eq_after h, ← after_append]
  exact hn _

theorem Ran.stays (h : n.Ran moved n') (hn : n.StaysWorkable) : n'.StaysWorkable := by
  induction h with
  | still => exact hn
  | moves _ hs ih => exact ih.of_step hs

theorem Ran.work (h : n.Ran moved n') (hn : n.StaysWorkable) :
    moved = false ∧ n' = n ∨ moved = true ∧ n'.work < n.work := by
  induction h with
  | still => exact .inl ⟨rfl, rfl⟩
  | moves hr hs ih =>
    have hlt := (hr.stays hn []).step_work_lt hs
    rcases ih with ⟨-, rfl⟩ | ⟨-, hlt'⟩
    · exact .inr ⟨rfl, hlt⟩
    · exact .inr ⟨rfl, Nat.lt_trans hlt hlt'⟩

theorem Ran.eq_after (h : n.Ran moved n') : ∃ ts : List Task, n' = n.after (ts.map .task) := by
  induction h with
  | still => exact ⟨[], rfl⟩
  | @moves _ n' n'' t _ hs ih =>
    obtain ⟨ts, rfl⟩ := ih
    refine ⟨t :: ts, ?_⟩
    rw [step_eq_after hs, ← after_append]
    rfl

theorem Ran.runTask (h : n.Ran s.1 s.2) (t : Task) (fuel : Nat) :
    n.Ran (runTask t fuel s).1 (runTask t fuel s).2 := by
  induction fuel generalizing s with
  | zero => exact h
  | succ fuel ih =>
    obtain ⟨moved, n'⟩ := s
    rw [Node.runTask]
    cases hs : n'.step t with
    | none => exact h
    | some n'' => exact ih (s := (true, n'')) (h.moves hs)

theorem Ran.round (h : n.Ran s.1 s.2) (ts : List Task) (fuel : Nat) :
    let s' := ts.foldl (fun s t => Node.runTask t fuel s) s
    n.Ran s'.1 s'.2 := by
  induction ts generalizing s with
  | nil => exact h
  | cons t ts ih => exact ih (h.runTask t fuel)

theorem runTask_true (t : Task) (fuel : Nat) (hs : s.1 = true) : (runTask t fuel s).1 = true := by
  induction fuel generalizing s with
  | zero => exact hs
  | succ fuel ih =>
    obtain ⟨moved, n⟩ := s
    rw [runTask]
    cases n.step t with
    | none => exact hs
    | some n' => exact ih rfl

theorem round_true (ts : List Task) (fuel : Nat) (hs : s.1 = true) :
    (ts.foldl (fun s t => runTask t fuel s) s).1 = true := by
  induction ts generalizing s with
  | nil => exact hs
  | cons t ts ih => exact ih (runTask_true t fuel hs)

theorem round_still (hf : 0 < fuel)
    (h : (ts.foldl (fun s t => runTask t fuel s) (false, n)).1 = false) :
    ∀ t ∈ ts, n.step t = none := by
  obtain ⟨fuel, rfl⟩ := Nat.exists_eq_succ_of_ne_zero (Nat.ne_of_gt hf)
  induction ts with
  | nil => exact fun t ht => absurd ht List.not_mem_nil
  | cons t ts ih =>
    rw [List.foldl_cons, runTask] at h
    cases hs : n.step t with
    | none =>
      rw [hs] at h
      exact List.forall_mem_cons.2 ⟨hs, ih h⟩
    | some n' =>
      rw [hs, round_true ts _ (runTask_true t fuel rfl)] at h
      cases h

theorem settled_of_work (hn : n.StaysWorkable) (hz : n.work = 0) : n.Settled := by
  intro t
  cases hs : n.step t with
  | none => rfl
  | some n' => exact absurd ((hn []).step_work_lt hs) (hz ▸ Nat.not_lt_zero _)

/-- Every round but the last lowers the work, and after the last nobody has anything to do. -/
theorem rounds_settled (hn : n.StaysWorkable) (hf : n.work ≤ fuel) (hm : n.work ≤ more) :
    (n.rounds fuel more).Settled ∧ ∃ ts : List Task,
      n.rounds fuel more = n.after (ts.map .task) := by
  induction more generalizing n with
  | zero => exact ⟨settled_of_work hn (Nat.le_zero.1 hm), [], rfl⟩
  | succ more ih =>
    have hround := (Ran.still (n := n)).round (s := (false, n)) n.tasks fuel
    have hstill (hpos : 0 < fuel)
        (h : (n.tasks.foldl (fun s t => runTask t fuel s) (false, n)).1 = false) :
        ∀ t ∈ n.tasks, n.step t = none := round_still hpos h
    rw [rounds]
    generalize n.tasks.foldl (fun s t => runTask t fuel s) (false, n) = s at hround hstill
    obtain ⟨moved, n'⟩ := s
    rcases hround.work hn with ⟨rfl, rfl⟩ | ⟨rfl, hlt⟩
    · refine ⟨?_, [], rfl⟩
      rcases Nat.eq_zero_or_pos fuel with rfl | hpos
      · exact settled_of_work hn (Nat.le_zero.1 hf)
      · exact settled_of_tasks fun t ht => Option.isNone_iff_eq_none.2 (hstill hpos rfl t ht)
    · obtain ⟨hsettled, rest, hrest⟩ := ih (hround.stays hn) (by omega) (by omega)
      obtain ⟨ts, rfl⟩ := hround.eq_after
      refine ⟨hsettled, rest ++ ts, ?_⟩
      rw [List.map_append, after_append]
      exact hrest

theorem after_staysWorkable (config : Config) (hostname : Option String) (entropy : Entropy)
    (h : List Move) : ((new config hostname entropy).after h).StaysWorkable := by
  intro later
  rw [← after_append]
  exact after_workable config hostname entropy _

/-- The background work of a node that has been run in any way comes to rest, and what `Node.settle`
ends with is the node at rest. -/
theorem settle_settled (config : Config) (hostname : Option String) (entropy : Entropy)
    (h : List Move) :
    let n := (new config hostname entropy).after h
    n.settle.Settled ∧ ∃ ts : List Task, n.settle = n.after (ts.map .task) := by
  intro n
  exact rounds_settled (after_staysWorkable config hostname entropy h) (Nat.le_refl n.work)
    (Nat.le_refl n.work)

end Node

end PushGateway
