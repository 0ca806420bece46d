import Mathlib.Tactic.Common
import PushGateway.Ring

/-!
A ring is a queue: it takes values in at the back until it is full, and gives them out at the front.
The slots between the counters hold the queue in order, each in a slot of its own because fewer than
all of them are outstanding.
-/

namespace PushGateway.Ring

variable {α : Type} {r r' : Ring α} {x : α} {xs : List α}

structure Holds (r : Ring α) (xs : List α) : Prop where
  pos : 0 < r.capacity
  writes : r.writes = r.reads + xs.length
  fits : xs.length ≤ r.capacity
  stored : ∀ i (h : i < xs.length), r.slots[r.slot (r.reads + i)]? = some xs[i]

theorem new_holds [Inhabited α] (n : Nat) : (Ring.new n : Ring α).Holds [] := by
  refine ⟨?_, rfl, Nat.zero_le _, ?_⟩
  · simpa [Ring.new, capacity] using Nat.pos_of_isPowerOfTwo (Nat.isPowerOfTwo_nextPowerOfTwo _)
  · intro i hi
    cases hi

theorem slot_lt (hp : 0 < r.capacity) (k : Nat) : r.slot k < r.slots.size := Nat.mod_lt k hp

theorem slot_ne {i j : Nat} (hij : i < j) (hj : j < i + r.capacity) : r.slot i ≠ r.slot j := by
  intro he
  have hz : (j - i) % r.capacity = 0 := Nat.sub_mod_eq_zero_of_mod_eq he.symm
  rw [Nat.mod_eq_of_lt (by omega)] at hz
  omega

theorem Holds.size (h : r.Holds xs) : r.size = xs.length := by
  have hw := h.writes
  rw [Ring.size]
  omega

theorem Holds.isEmpty_iff (h : r.Holds xs) : r.isEmpty ↔ xs = [] := by
  rw [isEmpty, decide_eq_true_eq, h.writes, Nat.left_eq_add, List.length_eq_zero_iff]

theorem Holds.isFull_iff (h : r.Holds xs) : r.isFull ↔ xs.length = r.capacity := by
  have hf := h.fits
  rw [isFull, h.size, decide_eq_true_eq]
  omega

theorem Holds.reserveWrite?_eq_none (h : r.Holds xs) : r.reserveWrite? = none ↔
    xs.length = r.capacity := by
  rw [reserveWrite?, ← h.isFull_iff]
  split
  · rename_i hf
    exact iff_of_true rfl hf
  · rename_i hf
    rw [Array.getElem?_eq_getElem (slot_lt h.pos r.writes)]
    exact iff_of_false (Option.some_ne_none _) hf

theorem Holds.reserveRead? (h : r.Holds xs) : r.reserveRead? = xs.head? := by
  cases xs with
  | nil => rw [Ring.reserveRead?, if_pos (h.isEmpty_iff.2 rfl), List.head?_nil]
  | cons x xs =>
    have h0 := h.stored 0 (Nat.succ_pos _)
    rw [Nat.add_zero] at h0
    rw [Ring.reserveRead?, if_neg (by simp [h.isEmpty_iff]), h0]
    rfl

theorem Holds.toList (h : r.Holds xs) : r.toList = xs := by
  have hall : (List.range xs.length).map (fun i => r.slots[r.slot (r.reads + i)]?) =
      xs.map some := by
    refine List.ext_getElem (by simp) ?_
    intro i hi hi'
    rw [List.getElem_map, List.getElem_range, List.getElem_map, h.stored i (by simpa using hi')]
  have hid := congrArg (List.filterMap id) hall
  rw [List.filterMap_map, List.filterMap_map] at hid
  rw [Ring.toList, h.size]
  exact hid.trans List.filterMap_some

theorem capacity_fill (r : Ring α) (x : α) : (r.fill x).capacity = r.capacity :=
  Array.size_setIfInBounds

theorem slot_fill (r : Ring α) (x : α) (k : Nat) : (r.fill x).slot k = r.slot k :=
  congrArg (k % ·) (capacity_fill r x)

/-- What is written ahead of the commit stands outside the queue. -/
theorem Holds.fill (h : r.Holds xs) (hf : xs.length < r.capacity) (x : α) :
    (r.fill x).Holds xs := by
  have hcap := capacity_fill r x
  refine ⟨hcap ▸ h.pos, h.writes, hcap ▸ h.fits, ?_⟩
  intro i hi
  have hne : r.slot r.writes ≠ r.slot (r.reads + i) := by
    have hw := h.writes
    exact (slot_ne (by omega) (by omega)).symm
  rw [slot_fill]
  change (r.slots.setIfInBounds (r.slot r.writes) x)[r.slot (r.reads + i)]? = _
  rw [Array.getElem?_setIfInBounds_ne hne, h.stored i hi]

theorem Holds.written (h : r.Holds xs) (x : α) :
    (r.fill x).slots[(r.fill x).slot r.writes]? = some x := by
  rw [slot_fill]
  exact Array.getElem?_setIfInBounds_self_of_lt (slot_lt h.pos r.writes)

theorem Holds.commitWrite (h : r.Holds xs) (hf : xs.length < r.capacity)
    (hx : r.slots[r.slot r.writes]? = some x) : r.commitWrite.Holds (xs ++ [x]) := by
  have hlen : (xs ++ [x]).length = xs.length + 1 := List.length_append
  refine ⟨h.pos, ?_, hlen ▸ hf, ?_⟩
  · rw [hlen, ← Nat.add_assoc]
    exact congrArg (· + 1) h.writes
  · intro i hi
    change r.slots[r.slot (r.reads + i)]? = _
    rcases Nat.lt_succ_iff_lt_or_eq.1 (hlen ▸ hi) with hlt | rfl
    · rw [h.stored i hlt, List.getElem_append_left hlt]
    · rw [← h.writes, hx]
      simp

theorem Holds.push?_full (h : r.Holds xs) (hf : xs.length = r.capacity) (x : α) :
    r.push? x = none := by
  rw [push?, h.reserveWrite?_eq_none.2 hf]
  rfl

theorem Holds.push? (h : r.Holds xs) (hf : xs.length < r.capacity) (x : α) :
    ∃ r', r.push? x = some r' ∧ r'.Holds (xs ++ [x]) ∧ r'.capacity = r.capacity := by
  have hcap := capacity_fill r x
  obtain ⟨y, hy⟩ := Option.ne_none_iff_exists'.1 (mt h.reserveWrite?_eq_none.1 (Nat.ne_of_lt hf))
  refine ⟨(r.fill x).commitWrite, ?_, (h.fill hf x).commitWrite (hcap ▸ hf) (h.written x), hcap⟩
  rw [Ring.push?, hy]
  rfl

theorem push?_of_room (h : r.isFull = false) (x : α) : ∃ r', r.push? x = some r' := by
  have hroom : r.size < r.capacity := Nat.not_le.1 (of_decide_eq_false h)
  refine ⟨(r.fill x).commitWrite, ?_⟩
  rw [Ring.push?, reserveWrite?, h, if_neg Bool.false_ne_true,
    Array.getElem?_eq_getElem (slot_lt (Nat.zero_lt_of_lt hroom) r.writes), Option.map_some]

theorem Holds.of_push? (h : r.Holds xs) (hp : r.push? x = some r') : r'.Holds (xs ++ [x]) := by
  rcases Nat.lt_or_eq_of_le h.fits with hf | hf
  · obtain ⟨r'', hp', hh, -⟩ := h.push? hf x
    rw [hp] at hp'
    cases hp'
    exact hh
  · rw [h.push?_full hf] at hp
    cases hp

theorem Holds.commitRead (h : r.Holds (x :: xs)) : r.commitRead.Holds xs := by
  refine ⟨h.pos, ?_, Nat.le_of_succ_le h.fits, ?_⟩
  · rw [show r.commitRead.writes = _ from h.writes, List.length_cons, Nat.add_comm xs.length,
      ← Nat.add_assoc]
    rfl
  · intro i hi
    have hs := h.stored (i + 1) (Nat.succ_lt_succ hi)
    change r.slots[r.slot (r.reads + 1 + i)]? = _
    rw [Nat.add_right_comm, Nat.add_assoc, hs, List.getElem_cons_succ]

variable [Inhabited α]

theorem capacity_vacate (r : Ring α) : r.vacate.capacity = r.capacity := Array.size_setIfInBounds

theorem slot_vacate (r : Ring α) (k : Nat) : r.vacate.slot k = r.slot k :=
  congrArg (k % ·) (capacity_vacate r)

theorem Holds.vacate (h : r.Holds xs) : r.vacate.Holds (xs.set 0 default) := by
  have hcap := capacity_vacate r
  have hlen : (xs.set 0 default).length = xs.length := List.length_set
  refine ⟨hcap ▸ h.pos, hlen.symm ▸ h.writes, hcap ▸ hlen ▸ h.fits, ?_⟩
  intro i hi
  rw [hlen] at hi
  have hfits := h.fits
  rw [slot_vacate]
  change (r.slots.setIfInBounds (r.slot r.reads) default)[r.slot (r.reads + i)]? = _
  cases i with
  | zero =>
    rw [Nat.add_zero, Array.getElem?_setIfInBounds_self_of_lt (slot_lt h.pos r.reads),
      List.getElem_set_self]
  | succ i =>
    rw [Array.getElem?_setIfInBounds_ne (slot_ne (by omega) (by omega)), h.stored _ hi,
      List.getElem_set_ne (Nat.succ_ne_zero i).symm]

theorem Holds.pop?_nil (h : r.Holds []) : r.pop? = none := by
  rw [pop?, h.reserveRead?]
  rfl

theorem Holds.pop?_cons (h : r.Holds (x :: xs)) :
    ∃ r', r.pop? = some (x, r') ∧ r'.Holds xs ∧ r'.capacity = r.capacity := by
  refine ⟨r.vacate.commitRead, ?_, h.vacate.commitRead, capacity_vacate r⟩
  rw [pop?, h.reserveRead?]
  rfl

theorem Holds.of_pop? (h : r.Holds xs) (hp : r.pop? = some (x, r')) : ∃ ys, xs = x :: ys ∧
    r'.Holds ys := by
  cases xs with
  | nil =>
    rw [h.pop?_nil] at hp
    cases hp
  | cons y ys =>
    obtain ⟨r'', hp', hh, -⟩ := h.pop?_cons
    rw [hp] at hp'
    cases hp'
    exact ⟨ys, rfl, hh⟩

theorem Holds.of_pop?_none (h : r.Holds xs) (hp : r.pop? = none) : xs = [] := by
  cases xs with
  | nil => rfl
  | cons y ys =>
    obtain ⟨r'', hp', -⟩ := h.pop?_cons
    rw [hp] at hp'
    cases hp'

end PushGateway.Ring
