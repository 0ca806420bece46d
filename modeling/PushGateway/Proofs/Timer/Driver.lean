import PushGateway.Proofs.Timer.Expiry

/-!
The task behind a deadline heap. It decides how long to sleep at its look at the heap, and the heap
may change before it sleeps and while it does. What comes in earlier than everything there is stands
at the root, and then there is a notice; what leaves, or comes in behind the root, cannot make the
sleep too long. With the time standing still the task comes to rest after a bounded number of steps,
and then nothing that is scheduled is due.
-/

namespace PushGateway.Timer

variable {κ : Type}

def Phase.hand : Phase κ → List κ
  | .firing due _ => due.map (·.2)
  | _ => []

def Phase.wake? : Phase κ → Option (Option Nanos)
  | .looking => none
  | .firing _ next => some next
  | .parked wake => some wake

def Heap.Covered (h : Heap κ) (wake : Option Nanos) : Prop :=
  ∀ s ∈ h.order, ∃ w, wake = some w ∧ w ≤ (h.entry s).deadline

namespace Shard

/-- The sleep the task has decided on is not too long, or it is going to be cut short. -/
def Alert (s : Shard κ) : Prop :=
  ∀ wake, s.phase.wake? = some wake → s.notice = true ∨ s.heap.Covered wake

/-- A step of the task. When the deadline and a notice wake it together, either may be what it sees
first: if it is the deadline, the notice is kept. -/
def stepBy (alarm : Bool) (s : Shard κ) (now : Nanos) : Option (Option κ × Shard κ) :=
  match s.phase with
  | .parked wake =>
    if alarm ∧ wake.any (· ≤ now) then some (none, { s with phase := .looking }) else s.step now
  | _ => s.step now

section
variable {s s' : Shard κ} {a : Handle} {now : Nanos} {alarm : Bool} {heap : Heap κ}
  {callback : Option κ} {wake : Option Nanos}

theorem new_alert (size : Nat) : (new size : Shard κ).Alert := by
  intro wake hw
  cases hw

/-- Only an entry that comes to stand at the root can be due before the wake. -/
theorem covered_of_root (hf : heap.Fit) (hc : s.heap.Covered wake)
    (hr : ∀ r, heap.order[0]? = some r →
      r ∈ s.heap.order ∧ (heap.entry r).unplaced = (s.heap.entry r).unplaced) :
    heap.Covered wake := by
  intro t ht
  obtain ⟨r, hroot⟩ := Heap.exists_root ht
  obtain ⟨hmem, he⟩ := hr r hroot
  obtain ⟨w, hw, hle⟩ := hc r hmem
  have hd : (heap.entry r).deadline = (s.heap.entry r).deadline := congrArg (·.deadline) he
  refine ⟨w, hw, ?_⟩
  calc w ≤ (heap.entry r).deadline := hd ▸ hle
    _ ≤ (heap.entry t).deadline := hf.sound.ordered.root_deadline_le hroot ht

theorem Alert.rearm (h : s.Alert) (hf : heap.Fit) (hs : s.heap.KeepsOthers a.slot heap) :
    ({ s with heap }.rearm a).Alert := by
  intro wake hw
  rw [Shard.rearm] at hw ⊢
  split_ifs at hw ⊢ with hroot
  · exact .inl rfl
  · refine (h wake hw).imp_right fun hc => covered_of_root hf hc ?_
    intro r hr
    have hne : r ≠ a.slot := by
      rintro rfl
      exact hroot (decide_eq_true hr)
    exact ⟨(hs.scheduled r hne).1 (Heap.root_mem hr), hs.entry r hne⟩

@[simp] theorem rearm_phase (s : Shard κ) (a : Handle) : (s.rearm a).phase = s.phase := by
  rw [Shard.rearm]
  split <;> rfl

theorem add?_phase {delay : Nanos} {key : String} {x : κ}
    (ha : s.add? now delay key x = some (a, s')) : s'.phase = s.phase := by
  obtain ⟨deadline, -, he⟩ := Option.map_eq_some_iff.1 ha
  cases he
  rw [rearm_phase]

theorem set?_phase {delay : Nanos} {ok : Bool} (ha : s.set? now a delay = some (ok, s')) :
    s'.phase = s.phase := by
  obtain ⟨deadline, -, he⟩ := Option.map_eq_some_iff.1 ha
  generalize s.heap.set a deadline = set at he
  cases he
  split
  · rw [rearm_phase]
  · rfl

theorem set?_waits {delay : Nanos} {ok : Bool} {b : Handle} (hf : s.heap.Fit)
    (ha : s.set? now a delay = some (ok, s')) (hb : s'.heap.Waits b) (hn : ¬ s.heap.Waits b) :
    ok = true ∧ b = a := by
  obtain ⟨deadline, -, he⟩ := Option.map_eq_some_iff.1 ha
  have hset : s'.heap = (s.heap.set a deadline).2 ∧ ok = (s.heap.set a deadline).1 := by
    generalize s.heap.set a deadline = set at he
    cases he
    split
    · rw [rearm_heap]
      exact ⟨rfl, rfl⟩
    · exact ⟨rfl, rfl⟩
  rw [hset.1] at hb
  by_cases hl : s.heap.live? a = none
  · rw [Heap.set_stale hl] at hb
    exact absurd hb hn
  · refine ⟨hset.2.trans (Heap.set_live hl deadline), ?_⟩
    by_contra hne
    exact hn (Heap.set_waits hf hne hb)

theorem Alert.add? {delay : Nanos} {key : String} {x : κ} (h : s.Alert) (hf : s.heap.Fit)
    (ha : s.add? now delay key x = some (a, s')) : s'.Alert := by
  obtain ⟨deadline, -, he⟩ := Option.map_eq_some_iff.1 ha
  have hg := Heap.add_handsOut hf deadline key x
  cases he
  exact h.rearm hg.fit hg.keepsOthers

theorem Alert.set? {delay : Nanos} {ok : Bool} (h : s.Alert) (hf : s.heap.Fit)
    (ha : s.set? now a delay = some (ok, s')) : s'.Alert := by
  obtain ⟨deadline, -, he⟩ := Option.map_eq_some_iff.1 ha
  by_cases hl : s.heap.live? a = none
  · rw [Heap.set_stale hl] at he
    cases he
    exact h
  · have hm := (Heap.set_keepsCallbacks hf a deadline).1
    have hok := Heap.set_live hl deadline
    generalize s.heap.set a deadline = set at he hm hok
    obtain ⟨ok', heap⟩ := set
    cases he
    rw [if_pos hok]
    exact h.rearm hm.fit hm.keepsOthers

theorem Alert.del (h : s.Alert) (hf : s.heap.Fit) (a : Handle) : (s.del a).2.Alert := by
  intro wake hw
  refine (h wake hw).imp_right fun hc => covered_of_root (Heap.del_holderUses hf a).fit hc ?_
  exact fun r hr => Heap.del_order hf (Heap.root_mem hr)

theorem Alert.setKey (h : s.Alert) (a : Handle) (key : String) : (s.setKey a key).Alert := by
  intro wake hw
  refine (h wake hw).imp_right fun hc => ?_
  obtain ⟨ho, hd⟩ := Heap.setKey_kept s.heap a key
  intro t ht
  rw [Shard.setKey, ho] at ht
  obtain ⟨w, hw, hle⟩ := hc t ht
  exact ⟨w, hw, (hd t).1 ▸ hle⟩

inductive Stepped (now : Nanos) (s : Shard κ) : Option κ → Shard κ → Prop
  | look : s.phase = .looking →
      Stepped now s none { s with
        heap := (s.heap.expire now).2
        phase := .firing (s.heap.expire now).1 (s.heap.expire now).2.peek? }
  | fire {key : String} {x : κ} {due : List (String × κ)} {next : Option Nanos} :
      s.phase = .firing ((key, x) :: due) next →
      Stepped now s (some x) { s with phase := .firing due next }
  | park {next : Option Nanos} : s.phase = .firing [] next →
      Stepped now s none { s with phase := .parked next }
  | notice {wake : Option Nanos} : s.phase = .parked wake → s.notice = true →
      Stepped now s none { s with notice := false, phase := .looking }
  | alarm {wake : Option Nanos} : s.phase = .parked wake → wake.any (· ≤ now) = true →
      Stepped now s none { s with phase := .looking }

theorem stepBy_stepped (h : s.stepBy alarm now = some (callback, s')) :
    Stepped now s callback s' := by
  rw [stepBy] at h
  split at h
  · rename_i wake hp
    split_ifs at h with ha
    · cases h
      exact .alarm hp ha.2
    · simp only [step, hp] at h
      split_ifs at h with hn hw
      · cases h
        exact .notice hp hn
      · cases h
        exact .alarm hp hw
  · rename_i hnp
    rw [step] at h
    split at h
    · cases h
      exact .look ‹_›
    · cases h
      exact .fire ‹_›
    · cases h
      exact .park ‹_›
    · exact absurd ‹_› (hnp _)

theorem Stepped.fit (hf : s.heap.Fit) (h : Stepped now s callback s') : s'.heap.Fit := by
  cases h with
  | look => exact Heap.expire_fit hf now
  | fire => exact hf
  | park => exact hf
  | notice => exact hf
  | alarm => exact hf

theorem Stepped.onlyReorders (h : Stepped now s callback s') : s.heap.OnlyReorders s'.heap := by
  cases h with
  | look => exact Heap.expire_onlyReorders s.heap now
  | fire => exact .refl _
  | park => exact .refl _
  | notice => exact .refl _
  | alarm => exact .refl _

theorem Stepped.alert (hf : s.heap.Fit) (h : Stepped now s callback s') (ha : s.Alert) :
    s'.Alert := by
  intro wake hw
  cases h with
  | look =>
    cases hw
    right
    intro t ht
    obtain ⟨r, hr⟩ := Heap.exists_root ht
    exact ⟨_, (Heap.peek?_eq_some _ _).2 ⟨r, hr, rfl⟩,
      (Heap.expire_fit hf now).sound.ordered.root_deadline_le hr ht⟩
  | fire hp => exact ha wake (by rw [hp]; exact hw)
  | park hp => exact ha wake (by rw [hp]; exact hw)
  | notice => cases hw
  | alarm => cases hw

theorem stepBy_false {t : Option (Option κ × Shard κ)} (h : s.step now = t) :
    s.stepBy false now = t := by
  rw [stepBy]
  split
  · simpa using h
  · exact h

theorem stepBy_eq_none (alarm : Bool) : s.stepBy alarm now = none ↔ s.step now = none := by
  rw [stepBy]
  split
  · rename_i wake hp
    split_ifs with ha
    · cases hn : s.notice <;> simp [step, hp, ha.2, hn]
    · rfl
  · rfl

/-- A task at rest sleeps, and nothing is going to wake it at this time. -/
theorem step_eq_none : s.step now = none ↔
    ∃ wake, s.phase = .parked wake ∧ s.notice = false ∧ wake.any (· ≤ now) = false := by
  rw [step]
  split
  · simp [*]
  · simp [*]
  · simp [*]
  · rename_i wake hp
    cases hn : s.notice <;> cases hw : wake.any (· ≤ now) <;> simp [hw, hp]

theorem step_of_todo (h : s.todo now = 0) : s.step now = none := by
  rw [step_eq_none]
  rw [todo] at h
  cases hp : s.phase with
  | looking => simp [hp] at h
  | firing due next => simp [hp] at h
  | parked wake =>
    cases hn : s.notice <;> cases hw : wake.any (· ≤ now) <;> simp [hp, hn, hw] at h ⊢

theorem todo_le (s : Shard κ) (now : Nanos) :
    s.todo now ≤ s.phase.hand.length + s.heap.size + 7 := by
  have hn := Bool.toNat_le s.notice
  rw [todo]
  cases s.phase with
  | looking =>
    dsimp only
    omega
  | firing due next =>
    simp only [Phase.hand, List.length_map]
    split_ifs <;> omega
  | parked wake =>
    dsimp only
    split_ifs <;> omega

theorem Stepped.todo_lt (hf : s.heap.Fit) (h : Stepped now s callback s') :
    s'.todo now < s.todo now := by
  cases h with
  | look hp =>
    obtain ⟨out, he⟩ := Heap.expire_expired hf.sound now
    have hlen := he.length_le
    have hnext := he.peek?_later (Heap.expire_onlyReorders s.heap now)
    simp only [todo, hp, hnext, Bool.false_eq_true, if_false]
    omega
  | fire hp =>
    simp only [todo, hp, List.length_cons]
    omega
  | park hp =>
    simp only [todo, hp, List.length_nil]
    omega
  | notice hp hn =>
    simp only [todo, hp, hn, Bool.toNat_false, Bool.toNat_true]
    omega
  | alarm hp hw =>
    simp only [todo, hp, hw, if_true]
    omega

theorem run_rested (hf : s.heap.Fit) {fuel : Nat} (hn : s.todo now ≤ fuel) :
    (s.run now fuel).2.step now = none := by
  induction fuel generalizing s with
  | zero => exact step_of_todo (Nat.le_zero.1 hn)
  | succ fuel ih =>
    rw [run]
    cases hs : s.step now with
    | none => exact hs
    | some taken =>
      obtain ⟨callback, s'⟩ := taken
      have hstep := stepBy_stepped (stepBy_false hs)
      exact ih (hstep.fit hf) (by have hlt := hstep.todo_lt hf; omega)

/-- A task with empty hands gets enough steps to come to rest. -/
theorem rest_rested (hf : s.heap.Fit) (hh : s.phase.hand = []) :
    (s.rest now).2.step now = none := by
  have hle := s.todo_le now
  rw [hh, List.length_nil] at hle
  exact run_rested hf (by omega)

theorem Alert.rested (h : s.Alert) (hs : s.step now = none) :
    ∀ t ∈ s.heap.order, now < (s.heap.entry t).deadline := by
  obtain ⟨wake, hp, hn, hw⟩ := step_eq_none.1 hs
  intro t ht
  rcases h wake (by rw [hp]; rfl) with hn' | hc
  · rw [hn] at hn'
    cases hn'
  · obtain ⟨w, rfl, hle⟩ := hc t ht
    have hlt : now < w := by simpa using hw
    exact Nat.lt_of_lt_of_le hlt hle

end

end Shard

end PushGateway.Timer
