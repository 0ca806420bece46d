import PushGateway.Proofs.Timer.Driver

/-!
Runs of a deadline heap together with its task: calls from outside, steps of the task and time
passing, in any order. Every call that adds an entry has a number, which is the callback of the
entry, and the log tells which numbers have run. An entry is run for once for each time it was
armed: it is scheduled, or in the hands of the task, or has run.
-/

namespace PushGateway.Timer

structure Heap.Lists (h : Heap Nat) (hs : List Handle) : Prop where
  owner : ∀ k a, hs[k]? = some a → h.Armed a k ∨ h.Spent a
  owned : ∀ s k, (h.entry s).callback = some k → hs[k]? = some ⟨s, (h.entry s).generation⟩

theorem getElem?_snoc {α : Type} {xs : List α} {x y : α} {k : Nat} :
    (xs ++ [x])[k]? = some y ↔ xs[k]? = some y ∨ k = xs.length ∧ x = y := by
  rw [List.getElem?_append]
  split_ifs with hk
  · have hne : k ≠ xs.length := Nat.ne_of_lt hk
    simp [hne]
  · have hnone : xs[k]? = none := List.getElem?_eq_none (Nat.not_lt.1 hk)
    rw [hnone, List.getElem?_singleton]
    split_ifs with h0
    · have he : k = xs.length := by omega
      simp [he]
    · have hne : k ≠ xs.length := by omega
      simp [hne]

namespace Heap

variable {h h' : Heap Nat} {hs : List Handle} {a : Handle} {k : Nat}

theorem OnlyReorders.keepsCallbacks (hk : h.OnlyReorders h') (a : Handle) : h.KeepsCallbacks a h' :=
  ⟨hk.callback _, hk.inUse _, hk.generation _⟩

theorem HolderUses.keepsCallbacks (hm : h.HolderUses a h') (ht : h.KeepsCallbacks a h')
    (b : Handle) : h.KeepsCallbacks b h' := by
  by_cases hs : b.slot = a.slot
  · constructor
    · exact hs ▸ ht.callback
    · exact hs ▸ ht.inUse
    · exact hs ▸ ht.generation
  · constructor
    · exact hm.keepsOthers.callback_eq hs
    · exact congrArg (·.inUse) (hm.keepsOthers.entry _ hs)
    · exact hm.keepsOthers.generation hs

theorem new_lists (size : Nat) : (new size : Heap Nat).Lists [] := by
  constructor
  · intro k a hk
    cases hk
  · intro s k hc
    rw [new_entry] at hc
    cases hc

theorem Lists.keepsCallbacks (hl : h.Lists hs) (ht : ∀ a, h.KeepsCallbacks a h') : h'.Lists hs := by
  constructor
  · intro k a hk
    refine (hl.owner k a hk).imp (ht a).armed ?_
    exact fun hs => Nat.lt_of_lt_of_eq hs (ht a).generation.symm
  · intro s k hc
    have hs := ht ⟨s, 0⟩
    rw [hs.generation]
    exact hl.owned s k (hs.callback.symm.trans hc)

theorem Lists.del (hl : h.Lists hs) (hf : h.Fit) (a : Handle) : (h.del a).2.Lists hs := by
  have hm := del_holderUses hf a
  rcases hm.own with ht | ⟨hnone, hlt⟩
  · exact hl.keepsCallbacks (hm.keepsCallbacks ht)
  · constructor
    · intro k b hk
      rcases hl.owner k b hk with hb | hb
      · by_cases hs : b.slot = a.slot
        · right
          rw [Spent, ← hb.generation, hs]
          exact hlt
        · exact .inl (hm.keepsOthers.armed hb hs)
      · exact .inr (hm.spent hb)
    · intro s k hc
      have hs : s ≠ a.slot := by
        rintro rfl
        rw [hnone] at hc
        cases hc
      rw [hm.keepsOthers.generation hs]
      exact hl.owned s k ((hm.keepsOthers.callback_eq hs).symm.trans hc)

theorem Lists.handsOut (hl : h.Lists hs) (hg : h.HandsOut a hs.length h') :
    h'.Lists (hs ++ [a]) := by
  constructor
  · intro k b hk
    rcases getElem?_snoc.1 hk with hk | ⟨rfl, rfl⟩
    · exact (hl.owner k b hk).imp hg.armed_old hg.spent
    · exact .inl hg.armed
  · intro s k hc
    rw [getElem?_snoc]
    by_cases hs : s = a.slot
    · subst hs
      rw [hg.armed.callback] at hc
      cases hc
      exact .inr ⟨rfl, handle_ext rfl hg.armed.generation.symm⟩
    · rw [hg.keepsOthers.generation hs]
      exact .inl (hl.owned s k ((hg.keepsOthers.callback_eq hs).symm.trans hc))

theorem Lists.ne_of_handsOut (hl : h.Lists hs) (hg : h.HandsOut a hs.length h') {b : Handle}
    (hb : hs[k]? = some b) : b ≠ a := by
  rintro rfl
  rcases hl.owner k b hb with ha | hs
  · have hu := ha.inUse
    rw [hg.vacant] at hu
    cases hu
  · rw [Spent, hg.generation] at hs
    exact Nat.lt_irrefl _ hs

end Heap

inductive Act
  | add (delay : Nanos) (key : String)
  | del (a : Handle)
  | set (a : Handle) (delay : Nanos)
  | setKey (a : Handle) (key : String)
  | drive (alarm : Bool)
  | pass (time : Nanos)

/-- What is told of a run. A handle is armed again when it is set while its entry is not
scheduled. -/
inductive Event
  | rearmed (a : Handle)
  | deleted (a : Handle)
  | ran (k : Nat) (deadline time : Nanos)
  deriving DecidableEq

def Event.runs (k : Nat) : Event → Bool
  | .ran k' _ _ => k' = k
  | _ => false

structure Trace where
  shard : Shard Nat
  now : Nanos
  /-- The handles that were given out, in order. -/
  handles : List Handle := []
  /-- The heap the task looked at last. -/
  seen : Heap Nat
  log : List Event := []

namespace Trace

def start (size : Nat) (now : Nanos) : Trace := { shard := .new size, now, seen := .new size }

def stored (c : Trace) (k : Nat) : Nanos := (c.seen.entry (c.handles.getD k default).slot).deadline

/-- Calls with a deadline the clock cannot show change nothing. -/
def act (c : Trace) : Act → Trace
  | .add delay key =>
    match c.shard.add? c.now delay key c.handles.length with
    | none => c
    | some (a, shard) => { c with shard, handles := c.handles ++ [a] }
  | .del a =>
    { c with
      shard := (c.shard.del a).2
      log := c.log ++ if (c.shard.del a).1 then [.deleted a] else [] }
  | .set a delay =>
    match c.shard.set? c.now a delay with
    | none => c
    | some (ok, shard) =>
      { c with shard, log := c.log ++ if ok ∧ ¬ c.shard.heap.Waits a then [.rearmed a] else [] }
  | .setKey a key => { c with shard := c.shard.setKey a key }
  | .drive alarm =>
    match c.shard.stepBy alarm c.now with
    | none => c
    | some (ran, shard) =>
      { c with
        shard
        seen := if c.shard.phase = .looking then c.shard.heap else c.seen
        log := c.log ++ (ran.map fun k => .ran k (c.stored k) c.now).toList }
  | .pass time => { c with now := c.now + time }

def run (c : Trace) (acts : List Act) : Trace := acts.foldl act c

def runs (c : Trace) (k : Nat) : Nat := c.log.countP (Event.runs k)

def Settled (c : Trace) : Prop := c.shard.step c.now = none

structure Invariant (c : Trace) : Prop where
  fit : c.shard.heap.Fit
  alert : c.shard.Alert
  lists : c.shard.heap.Lists c.handles
  hand : ∀ k ∈ c.shard.phase.hand, k < c.handles.length ∧ c.stored k ≤ c.now
  deleted : ∀ a, .deleted a ∈ c.log → c.shard.heap.Spent a
  ran : ∀ k d t, .ran k d t ∈ c.log → k < c.handles.length ∧ d ≤ t
  once : ∀ k a, c.handles[k]? = some a →
    c.runs k + c.shard.phase.hand.count k + (if c.shard.heap.Waits a then 1 else 0) ≤
      1 + c.log.count (.rearmed a)

section
variable {c c' : Trace} {k : Nat} {a : Handle}

theorem start_invariant (size : Nat) (now : Nanos) : (start size now).Invariant := by
  constructor
  · exact Heap.new_fit size
  · exact Shard.new_alert size
  · exact Heap.new_lists size
  · intro k hk
    cases hk
  · intro a ha
    cases ha
  · intro k d t hr
    cases hr
  · intro k a hk
    cases hk

theorem runs_eq_zero (hr : ∀ k d t, .ran k d t ∈ c.log → k < c.handles.length ∧ d ≤ t)
    (hk : c.handles.length ≤ k) : c.runs k = 0 := by
  rw [runs, List.countP_eq_zero]
  rintro (a | a | ⟨k', d, t⟩) hm
  · simp [Event.runs]
  · simp [Event.runs]
  · have hlt := (hr k' d t hm).1
    simp only [Event.runs, decide_eq_true_eq]
    omega

structure CallEffect (c : Trace) (shard : Shard Nat) (told : List Event) : Prop where
  fit : shard.heap.Fit
  alert : shard.Alert
  lists : shard.heap.Lists c.handles
  phase : shard.phase = c.shard.phase
  silent : ∀ e ∈ told, ∀ k, e.runs k = false
  spent : ∀ a, c.shard.heap.Spent a ∨ .deleted a ∈ told → shard.heap.Spent a
  waits : ∀ a, shard.heap.Waits a → c.shard.heap.Waits a ∨ .rearmed a ∈ told

inductive ActEffect (c : Trace) : Trace → Prop
  | call {shard : Shard Nat} {now : Nanos} {told : List Event} : c.CallEffect shard told →
      c.now ≤ now → ActEffect c { c with shard, now, log := c.log ++ told }
  | add {shard : Shard Nat} {a : Handle} : c.shard.heap.HandsOut a c.handles.length shard.heap →
      shard.Alert → shard.phase = c.shard.phase →
      ActEffect c { c with shard, handles := c.handles ++ [a] }
  | drive {shard : Shard Nat} {callback : Option Nat} : c.shard.Stepped c.now callback shard →
      ActEffect c { c with
        shard
        seen := if c.shard.phase = .looking then c.shard.heap else c.seen
        log := c.log ++ (callback.map fun k => .ran k (c.stored k) c.now).toList }

theorem Invariant.still (h : c.Invariant) : c.CallEffect c.shard [] := by
  constructor
  · exact h.fit
  · exact h.alert
  · exact h.lists
  · rfl
  · intro e he
    cases he
  · rintro a (ha | ha)
    · exact ha
    · cases ha
  · exact fun a ha => .inl ha

theorem Invariant.calledDel (h : c.Invariant) (a : Handle) :
    c.CallEffect (c.shard.del a).2 (if (c.shard.del a).1 then [.deleted a] else []) := by
  have hm := Heap.del_holderUses h.fit a
  constructor
  · exact hm.fit
  · exact h.alert.del h.fit a
  · exact h.lists.del h.fit a
  · rfl
  · intro e he k
    split_ifs at he with hd
    · cases List.mem_singleton.1 he
      rfl
    · cases he
  · rintro b (hb | hb)
    · exact hm.spent hb
    · split_ifs at hb with hd
      · cases List.mem_singleton.1 hb
        exact Heap.del_true h.fit hd
      · cases hb
  · exact fun b hb => .inl (Heap.del_waits h.fit hb)

theorem Invariant.calledSet (h : c.Invariant) {delay : Nanos} {ok : Bool} {shard : Shard Nat}
    (hs : c.shard.set? c.now a delay = some (ok, shard)) :
    c.CallEffect shard (if ok ∧ ¬ c.shard.heap.Waits a then [.rearmed a] else []) := by
  obtain ⟨hm, ht⟩ := Shard.set?_keepsCallbacks h.fit hs
  constructor
  · exact hm.fit
  · exact h.alert.set? h.fit hs
  · exact h.lists.keepsCallbacks (hm.keepsCallbacks ht)
  · exact Shard.set?_phase hs
  · intro e he k
    split_ifs at he
    · cases List.mem_singleton.1 he
      rfl
    · cases he
  · rintro b (hb | hb)
    · exact hm.spent hb
    · split_ifs at hb
      · cases List.mem_singleton.1 hb
      · cases hb
  · intro b hb
    by_cases hw : c.shard.heap.Waits b
    · exact .inl hw
    · right
      obtain ⟨rfl, rfl⟩ := Shard.set?_waits h.fit hs hb hw
      rw [if_pos ⟨rfl, hw⟩]
      exact .head _

theorem Invariant.calledSetKey (h : c.Invariant) (a : Handle) (key : String) :
    c.CallEffect (c.shard.setKey a key) [] := by
  obtain ⟨hm, ht⟩ := Heap.setKey_keepsCallbacks h.fit a key
  obtain ⟨ho, hd⟩ := Heap.setKey_kept c.shard.heap a key
  constructor
  · exact hm.fit
  · exact h.alert.setKey a key
  · exact h.lists.keepsCallbacks (hm.keepsCallbacks ht)
  · rfl
  · intro e he
    cases he
  · rintro b (hb | hb)
    · exact hm.spent hb
    · cases hb
  · intro b hb
    left
    rw [Heap.Waits, Shard.setKey, ho, (hd b.slot).2] at hb
    exact hb

theorem Invariant.actEffect (h : c.Invariant) (x : Act) : c.ActEffect (c.act x) := by
  have hstill : c.ActEffect { c with log := c.log ++ [] } := .call h.still (Nat.le_refl _)
  rw [List.append_nil] at hstill
  cases x with
  | add delay key =>
    rw [act]
    cases ha : c.shard.add? c.now delay key c.handles.length with
    | none => exact hstill
    | some given =>
      exact .add (Shard.add?_handsOut h.fit ha) (h.alert.add? h.fit ha) (Shard.add?_phase ha)
  | del a => exact .call (h.calledDel a) (Nat.le_refl _)
  | set a delay =>
    rw [act]
    cases hs : c.shard.set? c.now a delay with
    | none => exact hstill
    | some done => exact .call (h.calledSet hs) (Nat.le_refl _)
  | setKey a key =>
    have hcall := ActEffect.call (h.calledSetKey a key) (Nat.le_refl c.now)
    rw [List.append_nil] at hcall
    exact hcall
  | drive alarm =>
    rw [act]
    cases hs : c.shard.stepBy alarm c.now with
    | none => exact hstill
    | some taken => exact .drive (Shard.stepBy_stepped hs)
  | pass time =>
    have hcall := ActEffect.call h.still (Nat.le_add_right c.now time)
    rw [List.append_nil] at hcall
    exact hcall

theorem stored_append (hk : k < c.handles.length) (shard : Shard Nat) (a : Handle) :
    stored { c with shard, handles := c.handles ++ [a] } k = c.stored k := by
  simp only [stored, List.getD_eq_getElem?_getD, List.getElem?_append_left hk]

theorem Invariant.call (h : c.Invariant) {shard : Shard Nat} {now : Nanos} {told : List Event}
    (hc : c.CallEffect shard told) (hn : c.now ≤ now) :
    Invariant { c with shard, now, log := c.log ++ told } := by
  constructor
  · exact hc.fit
  · exact hc.alert
  · exact hc.lists
  · intro k hk
    obtain ⟨hlt, hle⟩ := h.hand k (hc.phase ▸ hk)
    exact ⟨hlt, Nat.le_trans hle hn⟩
  · intro a ha
    exact hc.spent a ((List.mem_append.1 ha).imp_left (h.deleted a))
  · intro k d t hr
    rcases List.mem_append.1 hr with hr | hr
    · exact h.ran k d t hr
    · have hs := hc.silent _ hr k
      simp [Event.runs] at hs
  · intro k a ha
    have hold := h.once k a ha
    have hsilent : told.countP (Event.runs k) = 0 := by
      rw [List.countP_eq_zero]
      intro e he
      simp [hc.silent e he k]
    have hwaits : (if shard.heap.Waits a then 1 else 0) ≤
        (if c.shard.heap.Waits a then 1 else 0) + told.count (.rearmed a) := by
      split_ifs with hw hw'
      · omega
      · have hpos := List.count_pos_iff.2 ((hc.waits a hw).resolve_left hw')
        omega
      · omega
      · omega
    simp only [runs, List.countP_append, List.count_append, hc.phase, hsilent] at hold ⊢
    omega

theorem Invariant.add (h : c.Invariant) {shard : Shard Nat}
    (hg : c.shard.heap.HandsOut a c.handles.length shard.heap) (ha : shard.Alert)
    (hp : shard.phase = c.shard.phase) :
    Invariant { c with shard, handles := c.handles ++ [a] } := by
  constructor
  · exact hg.fit
  · exact ha
  · exact h.lists.handsOut hg
  · intro k hk
    obtain ⟨hlt, hle⟩ := h.hand k (hp ▸ hk)
    constructor
    · exact Nat.lt_of_lt_of_le hlt (by simp)
    · rw [stored_append hlt]
      exact hle
  · exact fun b hb => hg.spent (h.deleted b hb)
  · intro k d t hr
    obtain ⟨hlt, hle⟩ := h.ran k d t hr
    exact ⟨Nat.lt_of_lt_of_le hlt (by simp), hle⟩
  · intro k b hb
    simp only [hp]
    rcases getElem?_snoc.1 hb with hb | ⟨rfl, rfl⟩
    · have hold := h.once k b hb
      have hne := h.lists.ne_of_handsOut hg hb
      have hwaits : shard.heap.Waits b → c.shard.heap.Waits b :=
        fun hw => (hg.waits hw).resolve_left hne
      simp only [runs] at hold ⊢
      split_ifs at hold ⊢ with hw hw'
      · omega
      · exact absurd (hwaits hw) hw'
      · omega
      · omega
    · have hruns : c.runs c.handles.length = 0 := runs_eq_zero h.ran (Nat.le_refl _)
      have hhand : c.shard.phase.hand.count c.handles.length = 0 := by
        rw [List.count_eq_zero]
        exact fun hm => Nat.lt_irrefl _ (h.hand _ hm).1
      simp only [runs] at hruns ⊢
      rw [hruns, hhand]
      split_ifs <;> omega

/-- What the task takes at a look is for handles that were given out, and due. -/
theorem Invariant.look (h : c.Invariant) (hk : k ∈ (c.shard.heap.expire c.now).1.map (·.2)) :
    ∃ s, c.handles[k]? = some ⟨s, (c.shard.heap.entry s).generation⟩ ∧
      (c.shard.heap.entry s).deadline ≤ c.now := by
  obtain ⟨out, he⟩ := Heap.expire_expired h.fit.sound c.now
  rw [he.due] at hk
  obtain ⟨⟨key, k'⟩, hm, rfl⟩ := List.mem_map.1 hk
  obtain ⟨s, hs, hdue⟩ := List.mem_filterMap.1 hm
  obtain ⟨x, hx, hpair⟩ := Option.map_eq_some_iff.1 hdue
  cases hpair
  exact ⟨s, h.lists.owned s _ hx, he.passed s hs⟩

theorem Invariant.drive (h : c.Invariant) {shard : Shard Nat} {callback : Option Nat}
    (hs : c.shard.Stepped c.now callback shard) : Invariant { c with
      shard
      seen := if c.shard.phase = .looking then c.shard.heap else c.seen
      log := c.log ++ (callback.map fun k => .ran k (c.stored k) c.now).toList } := by
  have hkept := hs.onlyReorders
  constructor
  · exact hs.fit h.fit
  · exact hs.alert h.fit h.alert
  · exact h.lists.keepsCallbacks hkept.keepsCallbacks
  · intro k hk
    cases hs with
    | look hp =>
      obtain ⟨s, hget, hle⟩ := h.look hk
      refine ⟨(List.getElem?_eq_some_iff.1 hget).1, ?_⟩
      simpa only [stored, List.getD_eq_getElem?_getD, hget, Option.getD_some, hp, if_true] using hle
    | fire hp =>
      have hold := h.hand k (by rw [hp]; exact .tail _ hk)
      simpa only [stored, hp, reduceCtorEq, if_false] using hold
    | park => cases hk
    | notice => cases hk
    | alarm => cases hk
  · intro a ha
    apply hkept.spent
    rcases List.mem_append.1 ha with ha | ha
    · exact h.deleted a ha
    · obtain ⟨k, -, he⟩ := Option.map_eq_some_iff.1 (Option.mem_toList.1 ha)
      cases he
  · intro k d t hr
    rcases List.mem_append.1 hr with hr | hr
    · exact h.ran k d t hr
    · obtain ⟨k', hc, he⟩ := Option.map_eq_some_iff.1 (Option.mem_toList.1 hr)
      cases he
      cases hs with
      | fire hp =>
        cases hc
        exact h.hand k (by rw [hp]; exact .head _)
      | look => cases hc
      | park => cases hc
      | notice => cases hc
      | alarm => cases hc
  · intro k a ha
    have hold := h.once k a ha
    cases hs with
    | look hp =>
      obtain ⟨out, he⟩ := Heap.expire_expired h.fit.sound c.now
      have hown (s : Nat) (hc : (c.shard.heap.entry s).callback = some k) :
          s = a.slot ∧ (c.shard.heap.entry s).generation = a.generation := by
        have hget := (h.lists.owned s k hc).symm.trans ha
        cases hget
        exact ⟨rfl, rfl⟩
      have hcount := he.count_due h.fit.sound hkept hown
      simp only [runs, hp, Phase.hand, Option.map_none, Option.toList_none, List.append_nil,
        List.count_nil] at hold ⊢
      omega
    | @fire key x due next hp =>
      have hcount : (c.log ++ [Event.ran x (c.stored x) c.now]).countP (Event.runs k) +
          (due.map (·.2)).count k =
          c.log.countP (Event.runs k) + (((key, x) :: due).map (·.2)).count k := by
        simp only [List.countP_append, List.countP_cons, List.countP_nil, Event.runs, List.map_cons,
          List.count_cons, decide_eq_true_eq, beq_iff_eq]
        omega
      have hre : (c.log ++ [Event.ran x (c.stored x) c.now]).count (.rearmed a) =
          c.log.count (.rearmed a) := by
        simp
      simp only [runs, hp, Phase.hand] at hold ⊢
      simp only [Option.map_some, Option.toList_some, hcount, hre]
      exact hold
    | park hp => simpa [runs, hp, Phase.hand] using hold
    | notice hp => simpa [runs, hp, Phase.hand] using hold
    | alarm hp => simpa [runs, hp, Phase.hand] using hold

theorem ActEffect.invariant (ha : c.ActEffect c') (h : c.Invariant) : c'.Invariant := by
  cases ha with
  | call hc hn => exact h.call hc hn
  | add hg ha hp => exact h.add hg ha hp
  | drive hs => exact h.drive hs

theorem Invariant.run (h : c.Invariant) (acts : List Act) : (c.run acts).Invariant := by
  induction acts generalizing c with
  | nil => exact h
  | cons x acts ih => exact ih ((h.actEffect x).invariant h)

structure Finished (c : Trace) (k : Nat) (a : Handle) : Prop where
  handle : c.handles[k]? = some a
  spent : c.shard.heap.Spent a
  hand : k ∉ c.shard.phase.hand

theorem Finished.actEffect (ho : c.Finished k a) (h : c.Invariant) (ha : c.ActEffect c') :
    c'.Finished k a ∧ c'.runs k = c.runs k := by
  cases ha with
  | call hc hn =>
    refine ⟨⟨ho.handle, hc.spent a (.inl ho.spent), hc.phase ▸ ho.hand⟩, ?_⟩
    rw [runs, List.countP_append, runs, Nat.add_eq_left, List.countP_eq_zero]
    intro e he
    simp [hc.silent e he k]
  | add hg ha hp =>
    refine ⟨⟨getElem?_snoc.2 (.inl ho.handle), hg.spent ho.spent, ?_⟩, rfl⟩
    rw [hp]
    exact ho.hand
  | drive hs =>
    have hspent := hs.onlyReorders.spent ho.spent
    cases hs with
    | look hp =>
      refine ⟨⟨ho.handle, hspent, ?_⟩, by simp [runs]⟩
      intro hk
      obtain ⟨s, hget, -⟩ := h.look hk
      have he := ho.handle.symm.trans hget
      cases he
      exact Nat.lt_irrefl _ ho.spent
    | @fire key x due next hp =>
      have hhand := ho.hand
      rw [hp, Phase.hand, List.map_cons, List.mem_cons, not_or] at hhand
      refine ⟨⟨ho.handle, hspent, hhand.2⟩, ?_⟩
      simp [runs, Event.runs, Ne.symm hhand.1]
    | park => exact ⟨⟨ho.handle, hspent, List.not_mem_nil⟩, by simp [runs]⟩
    | notice => exact ⟨⟨ho.handle, hspent, List.not_mem_nil⟩, by simp [runs]⟩
    | alarm => exact ⟨⟨ho.handle, hspent, List.not_mem_nil⟩, by simp [runs]⟩

theorem Finished.run (ho : c.Finished k a) (h : c.Invariant) (acts : List Act) :
    (c.run acts).runs k = c.runs k := by
  induction acts generalizing c with
  | nil => rfl
  | cons x acts ih =>
    obtain ⟨ho', hr⟩ := ho.actEffect h (h.actEffect x)
    exact (ih ho' ((h.actEffect x).invariant h)).trans hr

theorem drive_of_settled (h : c.Settled) (alarms : List Bool) : c.run (alarms.map .drive) = c := by
  induction alarms with
  | nil => rfl
  | cons alarm alarms ih =>
    have hact : c.act (.drive alarm) = c := by rw [act, (Shard.stepBy_eq_none alarm).2 h]
    exact (congrArg (fun c => run c (alarms.map .drive)) hact).trans ih

theorem drive_settled (hf : c.shard.heap.Fit) (alarms : List Bool)
    (hn : c.shard.todo c.now ≤ alarms.length) : (c.run (alarms.map .drive)).Settled := by
  induction alarms generalizing c with
  | nil => exact Shard.step_of_todo (Nat.le_zero.1 hn)
  | cons alarm alarms ih =>
    have hact : c.run ((alarm :: alarms).map .drive) = (c.act (.drive alarm)).run
      (alarms.map .drive) := rfl
    cases hs : c.shard.stepBy alarm c.now with
    | none =>
      have hset : c.Settled := (Shard.stepBy_eq_none alarm).1 hs
      rw [drive_of_settled hset]
      exact hset
    | some taken =>
      rw [hact, act, hs]
      have hstep := Shard.stepBy_stepped hs
      have hlt := hstep.todo_lt hf
      rw [List.length_cons] at hn
      exact ih (hstep.fit hf) (by dsimp only; omega)

structure Punctual (c : Trace) : Prop where
  /-- The task does not sleep too long, or is going to be woken. -/
  parked : ∀ wake, c.shard.phase = .parked wake → c.shard.notice = true ∨
    c.shard.heap.isEmpty = true ∨ ∃ w d, wake = some w ∧ c.shard.heap.peek? = some d ∧ w ≤ d
  earliest : ∀ d, c.shard.heap.peek? = some d →
    ∀ s ∈ c.shard.heap.order, d ≤ (c.shard.heap.entry s).deadline
  /-- The task comes to rest, whatever it sees first when two things wake it. -/
  settles : ∀ alarms : List Bool, c.shard.phase.hand.length + c.shard.heap.size + 7 ≤
    alarms.length → (c.run (alarms.map .drive)).Settled
  settled : c.Settled → c.shard.phase.hand = [] ∧
    ∀ s ∈ c.shard.heap.order, c.now < (c.shard.heap.entry s).deadline
  ran : ∀ k deadline time, .ran k deadline time ∈ c.log →
    (∃ a, c.handles[k]? = some a) ∧ deadline ≤ time
  once : ∀ k a, c.handles[k]? = some a → c.runs k ≤ 1 + c.log.count (.rearmed a)
  /-- A callback whose entry was given back does not run, unless the task has it in its hands by
  then. -/
  deleted : ∀ k a, c.handles[k]? = some a → .deleted a ∈ c.log → k ∉ c.shard.phase.hand →
    ∀ acts, (c.run acts).runs k = c.runs k

theorem Invariant.punctual (h : c.Invariant) : c.Punctual := by
  constructor
  · intro wake hp
    refine (h.alert wake (by rw [hp]; rfl)).imp_right fun hc => ?_
    cases hr : c.shard.heap.order[0]? with
    | none =>
      left
      simpa [Heap.isEmpty] using hr
    | some r =>
      obtain ⟨w, hw, hle⟩ := hc r (Heap.root_mem hr)
      exact .inr ⟨w, _, hw, (Heap.peek?_eq_some _ _).2 ⟨r, hr, rfl⟩, hle⟩
  · intro d hd s hs
    obtain ⟨r, hr, rfl⟩ := (Heap.peek?_eq_some _ d).1 hd
    exact h.fit.sound.ordered.root_deadline_le hr hs
  · intro alarms hn
    apply drive_settled h.fit
    exact Nat.le_trans (Shard.todo_le ..) hn
  · intro hs
    obtain ⟨wake, hp, -⟩ := Shard.step_eq_none.1 hs
    exact ⟨by rw [hp]; rfl, h.alert.rested hs⟩
  · intro k d t hr
    obtain ⟨hlt, hle⟩ := h.ran k d t hr
    exact ⟨⟨_, List.getElem?_eq_getElem hlt⟩, hle⟩
  · intro k a ha
    exact Nat.le_trans (by omega) (h.once k a ha)
  · intro k a ha hd hh acts
    exact Finished.run ⟨ha, h.deleted a hd, hh⟩ h acts

/-- Whatever is called, and however the task and the clock get on in between. -/
theorem run_punctual (size : Nat) (now : Nanos) (acts : List Act) :
    ((start size now).run acts).Punctual :=
  ((start_invariant size now).run acts).punctual

/-- The entry that comes in later is due first and cuts the sleep short; the other is given back. -/
example :
    let rest : List Act := .replicate 9 (.drive false)
    ((start 2 0).run ([.add 50 "late"] ++ rest ++ [.add 20 "early"] ++ rest ++ [.pass 20] ++ rest ++
      [.del ⟨0, 0⟩, .pass 30] ++ rest)).log = [.ran 1 20 20, .deleted ⟨0, 0⟩] := by
  decide +kernel

end

end Trace

end PushGateway.Timer
