import Mathlib.Tactic.Common
import PushGateway.Timer.Heap

/-!
Sifting puts a heap in order again. Going up, the slot that moves is the only one that may be
earlier than its parent; going down, the only one that may be later than a child. Where a slot has
been replaced both may be wrong, and one of the two ways finds nothing to do.
-/

namespace PushGateway.Timer.Heap

variable {κ : Type}

theorem entry_modify (h : Heap κ) (s t : Nat) (f : Entry κ → Entry κ) : (h.modify s f).entry t =
    if t = s ∧ s < h.entries.size then f (h.entry s) else h.entry t := by
  simp only [entry, modify, Array.getD_eq_getD_getElem?, Array.getElem?_modify]
  by_cases ht : s = t
  · subst ht
    by_cases hs : s < h.entries.size
    · simp [hs]
    · simp [hs]
  · simp [ht, Ne.symm ht]

theorem deadline_settle (h : Heap κ) (i s : Nat) :
    ((h.settle i).entry s).deadline = (h.entry s).deadline := by
  rw [settle, entry_modify]
  split_ifs with hs
  · rw [hs.1]
  · rfl

section
variable {h : Heap κ} {i j : Nat}

theorem slotAt_swap (hi : i < h.order.size) (hj : j < h.order.size) (k : Nat) :
    (h.swap i j).slotAt k =
    if k = i then h.slotAt j else if k = j then h.slotAt i else h.slotAt k := by
  simp only [swap, settle, modify, slotAt, Array.getD_eq_getD_getElem?]
  by_cases hk : k < h.order.size
  · simp only [Array.getElem?_eq_getElem, Array.size_swapIfInBounds, hi, hj, hk, Option.getD_some,
      Array.getElem_swapIfInBounds]
    split_ifs <;> simp_all
  · have hki : k ≠ i := by omega
    have hkj : k ≠ j := by omega
    simp [hk, hki, hkj]

theorem deadlineAt_swap (hi : i < h.order.size) (hj : j < h.order.size) (k : Nat) :
    (h.swap i j).deadlineAt k =
      if k = i then h.deadlineAt j else if k = j then h.deadlineAt i else h.deadlineAt k := by
  have hd (s : Nat) : ((h.swap i j).entry s).deadline = (h.entry s).deadline := by
    rw [swap, deadline_settle, deadline_settle]; rfl
  simp only [deadlineAt, hd, slotAt_swap hi hj]
  split_ifs <;> rfl

end

def Ordered (h : Heap κ) : Prop :=
  ∀ k, 0 < k → k < h.order.size → h.deadlineAt ((k - 1) / 2) ≤ h.deadlineAt k

def Spans (h : Heap κ) (j : Nat) : Prop :=
  0 < j → ∀ k, 0 < k → k < h.order.size → (k - 1) / 2 = j →
    h.deadlineAt ((j - 1) / 2) ≤ h.deadlineAt k

/-- In order but for place `j`, which may be earlier than its parent. -/
structure OrderedButUp (h : Heap κ) (j : Nat) : Prop where
  rest : ∀ k, 0 < k → k < h.order.size → k ≠ j → h.deadlineAt ((k - 1) / 2) ≤ h.deadlineAt k
  spans : h.Spans j

structure OrderedButDown (h : Heap κ) (i : Nat) : Prop where
  rest : ∀ k, 0 < k → k < h.order.size → (k - 1) / 2 ≠ i →
    h.deadlineAt ((k - 1) / 2) ≤ h.deadlineAt k
  spans : h.Spans i

/-- In order but for place `i`, which may hold anything. -/
structure OrderedBut (h : Heap κ) (i : Nat) : Prop where
  rest : ∀ k, 0 < k → k < h.order.size → k ≠ i → (k - 1) / 2 ≠ i →
    h.deadlineAt ((k - 1) / 2) ≤ h.deadlineAt k
  spans : h.Spans i

section
variable {h : Heap κ} {i j : Nat}

theorem Ordered.spans (ho : h.Ordered) (hj : j < h.order.size) : h.Spans j := by
  intro h0 k hk0 hk hkj
  have hp := ho j h0 hj
  have hc := ho k hk0 hk
  rw [hkj] at hc
  exact Nat.le_trans hp hc

theorem Ordered.orderedButUp (ho : h.Ordered) (hj : j < h.order.size) : h.OrderedButUp j :=
  ⟨fun k h0 hk _ => ho k h0 hk, ho.spans hj⟩

theorem OrderedButDown.orderedBut (hs : h.OrderedButDown i) : h.OrderedBut i :=
  ⟨fun k h0 hk _ hp => hs.rest k h0 hk hp, hs.spans⟩

theorem less_eq_true (h : Heap κ) (i j : Nat) :
    h.less i j = true ↔ h.deadlineAt i < h.deadlineAt j := by
  simp [less]

theorem OrderedButUp.stop (hr : h.OrderedButUp j) (hn : ¬(0 < j ∧ h.less j ((j - 1) / 2))) :
    h.Ordered := by
  intro k h0 hk
  by_cases hkj : k = j
  · subst hkj
    rw [less_eq_true] at hn
    exact Nat.not_lt.1 fun hl => hn ⟨h0, hl⟩
  · exact hr.rest k h0 hk hkj

theorem OrderedButUp.swap (hr : h.OrderedButUp j) (hj : j < h.order.size) (h0 : 0 < j)
    (hl : h.deadlineAt j < h.deadlineAt ((j - 1) / 2)) :
    (h.swap ((j - 1) / 2) j).OrderedButUp ((j - 1) / 2) := by
  have hd := deadlineAt_swap (h := h) (show (j - 1) / 2 < h.order.size by omega) hj
  generalize hp : (j - 1) / 2 = p at hd hl ⊢
  have hup (k : Nat) (hk0 : 0 < k) (hk : k < h.order.size) (hkp : (k - 1) / 2 = p) :
      h.deadlineAt p ≤ h.deadlineAt k ∨ k = j := by
    by_cases hkj : k = j
    · exact .inr hkj
    · exact .inl (hkp ▸ hr.rest k hk0 hk hkj)
  constructor
  · intro k hk0 hk hkp
    rw [swap_size] at hk
    rw [hd, hd, if_neg hkp]
    by_cases hkj : k = j
    · subst hkj
      rw [if_pos hp, if_pos rfl]
      exact Nat.le_of_lt hl
    · rw [if_neg hkj]
      by_cases hkp' : (k - 1) / 2 = p
      · rw [if_pos hkp']
        exact Nat.le_trans (Nat.le_of_lt hl) ((hup k hk0 hk hkp').resolve_right hkj)
      · rw [if_neg hkp']
        by_cases hkj' : (k - 1) / 2 = j
        · rw [if_pos hkj', ← hp]
          exact hr.spans h0 k hk0 hk hkj'
        · rw [if_neg hkj']
          exact hr.rest k hk0 hk hkj
  · intro hp0 k hk0 hk hkp
    rw [swap_size] at hk
    rw [hd, hd, if_neg (by omega), if_neg (by omega), if_neg (by omega)]
    have hpp : h.deadlineAt ((p - 1) / 2) ≤ h.deadlineAt p := hr.rest p hp0 (by omega) (by omega)
    by_cases hkj : k = j
    · rw [if_pos hkj]
      exact hpp
    · rw [if_neg hkj]
      exact Nat.le_trans hpp ((hup k hk0 hk hkp).resolve_right hkj)

theorem up_ordered (h : Heap κ) (j : Nat) (hr : h.OrderedButUp j) (hj : j < h.order.size) :
    (h.up j).Ordered := by
  induction h, j using up.induct with
  | case1 h j hc ih =>
    rw [up, if_pos hc]
    exact ih (hr.swap hj hc.1 ((less_eq_true ..).1 hc.2)) (by rw [swap_size]; omega)
  | case2 h j hc =>
    rw [up, if_neg hc]
    exact hr.stop hc

theorem child_eq (h : Heap κ) (i : Nat) : h.child i = 2 * i + 1 ∨ h.child i = 2 * i + 2 := by
  simp only [child]
  split_ifs <;> simp

theorem child_le (h : Heap κ) {i k : Nat} (h0 : 0 < k) (hk : k < h.order.size)
    (hp : (k - 1) / 2 = i) : h.deadlineAt (h.child i) ≤ h.deadlineAt k := by
  have hk' : k = 2 * i + 1 ∨ k = 2 * i + 2 := by omega
  simp only [child, less_eq_true]
  split_ifs with hc
  · rcases hk' with rfl | rfl
    · exact Nat.le_of_lt hc.2
    · exact Nat.le_refl _
  · rcases hk' with rfl | rfl
    · exact Nat.le_refl _
    · exact Nat.not_lt.1 fun hl => hc ⟨hk, hl⟩

theorem OrderedButDown.stop (hs : h.OrderedButDown i)
    (hn : ¬(2 * i + 1 < h.order.size ∧ h.less (h.child i) i)) : h.Ordered := by
  intro k h0 hk
  by_cases hki : (k - 1) / 2 = i
  · have hc := child_le h h0 hk hki
    rw [less_eq_true] at hn
    rw [hki]
    exact Nat.le_trans (Nat.not_lt.1 fun hl => hn ⟨by omega, hl⟩) hc
  · exact hs.rest k h0 hk hki

theorem OrderedBut.swap (hs : h.OrderedBut i) (hi : 2 * i + 1 < h.order.size)
    (hl : h.deadlineAt (h.child i) < h.deadlineAt i) :
    (h.swap i (h.child i)).OrderedButDown (h.child i) := by
  have hc := child_lt h hi
  have hce := child_eq h i
  have hle (k : Nat) := child_le h (i := i) (k := k)
  have hd := deadlineAt_swap (h := h) (show i < h.order.size by omega) hc
  generalize h.child i = c at hc hce hle hd hl ⊢
  have hci : (c - 1) / 2 = i := by omega
  constructor
  · intro k hk0 hk hkc
    rw [swap_size] at hk
    rw [hd, hd, if_neg hkc]
    by_cases hki : k = i
    · subst hki
      rw [if_neg (by omega), if_pos rfl]
      exact hs.spans hk0 c (by omega) hc hci
    · rw [if_neg hki]
      by_cases hpi : (k - 1) / 2 = i
      · rw [if_pos hpi]
        by_cases hkc' : k = c
        · rw [if_pos hkc']
          exact Nat.le_of_lt hl
        · rw [if_neg hkc']
          exact hle k hk0 hk hpi
      · rw [if_neg hpi, if_neg (by omega)]
        exact hs.rest k hk0 hk hki hpi
  · intro hc0 k hk0 hk hkc
    rw [swap_size] at hk
    rw [hd, hd, if_pos hci, if_neg (by omega), if_neg (by omega), ← hkc]
    exact hs.rest k hk0 hk (by omega) (by omega)

theorem down_ordered (h : Heap κ) (i : Nat) (hs : h.OrderedButDown i) : (h.down i).Ordered := by
  induction h, i using down.induct with
  | case1 h i hc ih =>
    rw [down, if_pos hc]
    exact ih (hs.orderedBut.swap hc.1 ((less_eq_true ..).1 hc.2))
  | case2 h i hc =>
    rw [down, if_neg hc]
    exact hs.stop hc

@[simp] theorem up_size (h : Heap κ) (j : Nat) : (h.up j).order.size = h.order.size := by
  induction h, j using up.induct with
  | case1 h j hc ih => rw [up, if_pos hc, ih, swap_size]
  | case2 h j hc => rw [up, if_neg hc]

@[simp] theorem down_size (h : Heap κ) (i : Nat) : (h.down i).order.size = h.order.size := by
  induction h, i using down.induct with
  | case1 h i hc ih => rw [down, if_pos hc, ih, swap_size]
  | case2 h i hc => rw [down, if_neg hc]

/-- Down and then up mends a place that has got another slot: if the way down moves it, the slot
that comes in its place is no earlier than the parent. -/
theorem OrderedBut.mend (hs : h.OrderedBut i) (hi : i < h.order.size) :
    ((h.down i).up i).Ordered := by
  refine up_ordered _ i ?_ (by rw [down_size]; exact hi)
  by_cases hc : 2 * i + 1 < h.order.size ∧ h.less (h.child i) i
  · have ho : (h.down i).Ordered := by
      rw [down, if_pos hc]
      exact down_ordered _ _ (hs.swap hc.1 ((less_eq_true ..).1 hc.2))
    exact ho.orderedButUp (by rw [down_size]; exact hi)
  · rw [down, if_neg hc]
    refine ⟨?_, hs.spans⟩
    intro k h0 hk hki
    by_cases hpi : (k - 1) / 2 = i
    · have hle := child_le h h0 hk hpi
      rw [less_eq_true] at hc
      rw [hpi]
      exact Nat.le_trans (Nat.not_lt.1 fun hl => hc ⟨by omega, hl⟩) hle
    · exact hs.rest k h0 hk hki hpi

end

end PushGateway.Timer.Heap
