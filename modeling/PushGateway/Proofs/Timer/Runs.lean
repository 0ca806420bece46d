import PushGateway.Proofs.Timer.Bounds

/-!
Runs of a deadline heap: operations in any order, on handles that name an entry and on handles
that name nothing. Along a run we keep the handles that were given out and not given back, and
find that the heap is sound, that it holds these handles, and that no access was out of range.
-/

namespace PushGateway.Timer.Heap

variable {κ : Type}

inductive Op (κ : Type)
  | add (deadline : Nanos) (key : String) (callback : κ)
  | del (handle : Handle)
  | set (handle : Handle) (deadline : Nanos)
  | setKey (handle : Handle) (key : String)
  | expire (now : Nanos)

/-- A heap with the handles that were added and not deleted. -/
structure Held (κ : Type) where
  heap : Heap κ
  out : List Handle

namespace Held

def step (s : Held κ) : Op κ → Held κ
  | .add deadline key callback =>
    let (handle, h) := s.heap.add deadline key callback
    ⟨h, handle :: s.out⟩
  | .del handle => ⟨(s.heap.del handle).2, s.out.erase handle⟩
  | .set handle deadline => ⟨(s.heap.set handle deadline).2, s.out⟩
  | .setKey handle key => ⟨s.heap.setKey handle key, s.out⟩
  | .expire now => ⟨(s.heap.expire now).2, s.out⟩

def step? (s : Held κ) : Op κ → Option (Held κ)
  | .add deadline key callback => do
    let (handle, h) ← s.heap.add? deadline key callback
    return ⟨h, handle :: s.out⟩
  | .del handle => do
    let (_, h) ← s.heap.del? handle
    return ⟨h, s.out.erase handle⟩
  | .set handle deadline => do
    let (_, h) ← s.heap.set? handle deadline
    return ⟨h, s.out⟩
  | .setKey handle key => do
    let h ← s.heap.setKey? handle key
    return ⟨h, s.out⟩
  | .expire now => do
    let (_, h) ← s.heap.expire? now
    return ⟨h, s.out⟩

def run (size : Nat) (ops : List (Op κ)) : Held κ := ops.foldl step ⟨new size, []⟩

def run? (size : Nat) (ops : List (Op κ)) : Option (Held κ) := ops.foldlM step? ⟨new size, []⟩

structure Valid (s : Held κ) : Prop where
  sound : s.heap.Sound
  holds : s.heap.Holds s.out

theorem step_valid {s : Held κ} (hv : s.Valid) (op : Op κ) : (s.step op).Valid := by
  obtain ⟨hw, hh⟩ := hv
  cases op with
  | add deadline key callback =>
    obtain ⟨hw', hh'⟩ := add_spec hw hh deadline key callback
    exact ⟨hw', hh'⟩
  | del handle =>
    obtain ⟨hw', hh', -⟩ := del_spec hw hh handle
    exact ⟨hw', hh'⟩
  | set handle deadline =>
    obtain ⟨hw', hh', -⟩ := set_spec hw hh handle deadline
    exact ⟨hw', hh'⟩
  | setKey handle key =>
    obtain ⟨hw', hh'⟩ := setKey_spec hw hh handle key
    exact ⟨hw', hh'⟩
  | expire now =>
    obtain ⟨hw', hh'⟩ := expireLoop_spec now s.heap.order.size s.heap hw hh
    exact ⟨hw', hh'⟩

theorem step?_eq {s : Held κ} (hv : s.Valid) (op : Op κ) : s.step? op = some (s.step op) := by
  have hw := hv.sound
  cases op with
  | add deadline key callback => rw [step?, add?_eq hw]; rfl
  | del handle => rw [step?, del?_eq hw]; rfl
  | set handle deadline => rw [step?, set?_eq hw]; rfl
  | setKey handle key => rw [step?, setKey?_eq]; rfl
  | expire now => rw [step?, expire?_eq hw]; rfl

theorem foldl_valid (ops : List (Op κ)) {s : Held κ} (hv : s.Valid) :
    (ops.foldl step s).Valid ∧ ops.foldlM step? s = some (ops.foldl step s) := by
  induction ops generalizing s with
  | nil => exact ⟨hv, rfl⟩
  | cons op ops ih =>
    obtain ⟨hv', hr⟩ := ih (step_valid hv op)
    refine ⟨hv', ?_⟩
    rw [List.foldlM_cons, step?_eq hv, Option.bind_eq_bind, Option.bind_some]
    exact hr

end Held

theorem entryAt?_eq {h : Heap κ} (hr : h.InRange) {i : Nat} (hi : i < h.order.size) :
    h.entryAt? i = some (h.entry (h.slotAt i)) := by
  rw [entryAt?, order_slotAt hi, Option.bind_some, entries_entry (hr i hi)]

theorem Sound.consistent {h : Heap κ} (hw : h.Sound) : h.consistent = true := by
  have hr := hw.linked.inRange
  simp only [Heap.consistent, decide_eq_true_eq, List.all_eq_true, List.mem_range,
    Array.all_eq_true]
  constructor
  · intro i hi
    rw [entryAt?_eq hr hi, Option.any_some, decide_eq_true_eq]
    refine ⟨(hw.linked _ i).2 (order_slotAt hi), ?_⟩
    intro h0
    rw [entryAt?_eq hr (by omega), Option.any_some, decide_eq_true_eq]
    exact hw.ordered i h0 hi
  · intro i hi hp
    have he : h.entries[i] = h.entry i := by simp [entry, hi]
    rw [he] at hp ⊢
    exact hw.scheduled i (hw.linked.mem_iff.2 hp)

theorem Sound.order_nodup {h : Heap κ} (hw : h.Sound) : h.order.toList.Nodup := by
  apply List.pairwise_iff_getElem.2
  intro i j hi hj hij he
  have hi' : h.order[i]? = some h.order.toList[i] := Array.getElem?_eq_getElem hi
  have hj' : h.order[j]? = some h.order.toList[j] := Array.getElem?_eq_getElem hj
  have := hw.linked.inj hi' (he ▸ hj')
  omega

namespace Held

structure WellFormed (s : Held κ) : Prop where
  ordered : ∀ i, 0 < i → i < s.heap.size → s.heap.deadlineAt ((i - 1) / 2) ≤ s.heap.deadlineAt i
  place : ∀ i, i < s.heap.size → (s.heap.entry (s.heap.slotAt i)).place = some i
  unplaced : ∀ slot, slot ∉ s.heap.order → (s.heap.entry slot).place = none
  order_nodup : s.heap.order.toList.Nodup
  free_nodup : s.heap.free.Nodup
  free : ∀ slot, slot ∈ s.heap.free ↔ slot < s.heap.entries.size ∧ (s.heap.entry slot).inUse = false
  scheduled : ∀ slot ∈ s.heap.order, slot < s.heap.entries.size ∧
    (s.heap.entry slot).inUse = true ∧ (s.heap.entry slot).callback.isSome
  pool : s.heap.free.length + s.out.length = s.heap.entries.size
  allocated : s.heap.allocated = s.out.length
  consistent : s.heap.consistent = true

theorem Valid.wellFormed {s : Held κ} (hv : s.Valid) : s.WellFormed := by
  obtain ⟨hw, hh⟩ := hv
  have hle := hw.free_le
  have hal := hh.allocated
  refine ⟨hw.ordered, fun i hi => (hw.linked _ i).2 (order_slotAt hi),
    fun _ hs => hw.linked.place_none hs, hw.order_nodup, hw.free_nodup, hw.mem_free, ?_, ?_,
    hal, hw.consistent⟩
  · intro slot hs
    have hu := hw.scheduled slot hs
    exact ⟨lt_of_inUse hu, hu, hw.callback slot hu⟩
  · rw [Heap.allocated] at hal
    omega

/-- A run from any number of preallocated slots never goes out of range, and ends well formed. -/
theorem run_wellFormed (size : Nat) (ops : List (Op κ)) :
    run? size ops = some (run size ops) ∧ (run size ops).WellFormed := by
  obtain ⟨hv, hr⟩ := foldl_valid ops (s := ⟨new size, []⟩) ⟨new_sound size, new_holds size⟩
  exact ⟨hr, hv.wellFormed⟩

end Held

end PushGateway.Timer.Heap
