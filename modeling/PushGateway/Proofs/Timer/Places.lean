import PushGateway.Proofs.Timer.Sift

/-!
The places of the scheduled entries. A slot stands at place `i` of the heap exactly when its entry
says so; swaps keep that, and touch nothing else of an entry. From it comes what scheduling a slot
and unscheduling a place do: which slots are scheduled after, and that the order is kept.
-/

namespace PushGateway.Timer

variable {κ : Type}

def Entry.unplaced (e : Entry κ) : Entry κ := { e with place := none }

namespace Heap

def Linked (h : Heap κ) : Prop := ∀ s i, (h.entry s).place = some i ↔ h.order[i]? = some s

/-- Nothing but places and the order of the heap has changed. -/
structure OnlyReorders (h h' : Heap κ) : Prop where
  size : h'.entries.size = h.entries.size
  free : h'.free = h.free
  entry : ∀ s, (h'.entry s).unplaced = (h.entry s).unplaced

theorem OnlyReorders.refl (h : Heap κ) : h.OnlyReorders h := ⟨rfl, rfl, fun _ => rfl⟩

theorem OnlyReorders.trans {h₁ h₂ h₃ : Heap κ} (h : h₁.OnlyReorders h₂) (h' : h₂.OnlyReorders h₃) :
    h₁.OnlyReorders h₃ :=
  ⟨h'.size.trans h.size, h'.free.trans h.free, fun s => (h'.entry s).trans (h.entry s)⟩

section
variable {h h' : Heap κ}

theorem OnlyReorders.deadline (hk : h.OnlyReorders h') (s : Nat) :
    (h'.entry s).deadline = (h.entry s).deadline :=
  congrArg (·.deadline) (hk.entry s)

theorem OnlyReorders.callback (hk : h.OnlyReorders h') (s : Nat) :
    (h'.entry s).callback = (h.entry s).callback :=
  congrArg (·.callback) (hk.entry s)

theorem OnlyReorders.generation (hk : h.OnlyReorders h') (s : Nat) :
    (h'.entry s).generation = (h.entry s).generation :=
  congrArg (·.generation) (hk.entry s)

theorem OnlyReorders.inUse (hk : h.OnlyReorders h') (s : Nat) :
    (h'.entry s).inUse = (h.entry s).inUse :=
  congrArg (·.inUse) (hk.entry s)

theorem entry_of_size_le {s : Nat} (hs : h.entries.size ≤ s) : h.entry s = {} := by
  simp [entry, hs]

theorem Linked.lt (hl : h.Linked) {s i : Nat} (hs : h.order[i]? = some s) : s < h.entries.size := by
  by_contra hn
  have hp := (hl s i).2 hs
  rw [entry_of_size_le (by omega)] at hp
  cases hp

theorem Linked.inj (hl : h.Linked) {s i j : Nat} (hi : h.order[i]? = some s)
    (hj : h.order[j]? = some s) : i = j := by
  have hp := (hl s i).2 hi
  rw [(hl s j).2 hj] at hp
  exact (Option.some.inj hp).symm

theorem slotAt_eq {s i : Nat} (hs : h.order[i]? = some s) : h.slotAt i = s := by
  simp [slotAt, hs]

theorem order_slotAt {i : Nat} (hi : i < h.order.size) : h.order[i]? = some (h.slotAt i) := by
  simp [slotAt, hi]

theorem Linked.slotAt_lt (hl : h.Linked) {i : Nat} (hi : i < h.order.size) :
    h.slotAt i < h.entries.size := hl.lt (order_slotAt hi)

theorem Linked.slotAt_iff (hl : h.Linked) {i : Nat} (hi : i < h.order.size) (s : Nat) :
    h.slotAt i = s ↔ (h.entry s).place = some i := by
  rw [hl, order_slotAt hi, Option.some.injEq]

theorem mem_order {s : Nat} : s ∈ h.order ↔ ∃ i, i < h.order.size ∧ h.slotAt i = s := by
  rw [Array.mem_iff_getElem?]
  constructor
  · rintro ⟨i, hi⟩
    exact ⟨i, (Array.getElem?_eq_some_iff.1 hi).1, slotAt_eq hi⟩
  · rintro ⟨i, hi, rfl⟩
    exact ⟨i, order_slotAt hi⟩

theorem Linked.place_none (hl : h.Linked) {s : Nat} (hs : s ∉ h.order) :
    (h.entry s).place = none := by
  rw [Option.eq_none_iff_forall_ne_some]
  intro i hi
  exact hs (Array.mem_iff_getElem?.2 ⟨i, (hl s i).1 hi⟩)

theorem modify_onlyReorders {s : Nat} (f : Entry κ → Entry κ)
    (hf : ∀ e, (f e).unplaced = e.unplaced) : h.OnlyReorders (h.modify s f) := by
  refine ⟨Array.size_modify, rfl, ?_⟩
  intro t
  rw [entry_modify]
  split_ifs with ht
  · rw [ht.1, hf]
  · rfl

theorem settle_onlyReorders (h : Heap κ) (i : Nat) : h.OnlyReorders (h.settle i) :=
  modify_onlyReorders _ fun _ => rfl

theorem swap_onlyReorders (h : Heap κ) (i j : Nat) : h.OnlyReorders (h.swap i j) :=
  have hr : h.OnlyReorders { h with order := h.order.swapIfInBounds i j } :=
    ⟨rfl, rfl, fun _ => rfl⟩
  hr.trans ((settle_onlyReorders _ i).trans (settle_onlyReorders _ j))

theorem up_onlyReorders (h : Heap κ) (j : Nat) : h.OnlyReorders (h.up j) := by
  induction h, j using up.induct with
  | case1 h j hc ih =>
    rw [up, if_pos hc]
    exact (swap_onlyReorders h _ _).trans ih
  | case2 h j hc =>
    rw [up, if_neg hc]
    exact .refl h

theorem down_onlyReorders (h : Heap κ) (i : Nat) : h.OnlyReorders (h.down i) := by
  induction h, i using down.induct with
  | case1 h i hc ih =>
    rw [down, if_pos hc]
    exact (swap_onlyReorders h _ _).trans ih
  | case2 h i hc =>
    rw [down, if_neg hc]
    exact .refl h

theorem order_swap {i j : Nat} (hi : i < h.order.size) (hj : j < h.order.size) (k : Nat) :
    (h.swap i j).order[k]? =
      if k = i then some (h.slotAt j) else if k = j then some (h.slotAt i) else h.order[k]? := by
  by_cases hk : k < h.order.size
  · rw [order_slotAt (by rw [swap_size]; exact hk), slotAt_swap hi hj]
    split_ifs <;> simp [order_slotAt hk]
  · have hki : k ≠ i := by omega
    have hkj : k ≠ j := by omega
    simp [hk, hki, hkj]

theorem place_settle (h : Heap κ) {i : Nat} (hi : h.slotAt i < h.entries.size) (s : Nat) :
    ((h.settle i).entry s).place = if s = h.slotAt i then some i else (h.entry s).place := by
  simp only [settle, entry_modify, hi, and_true]
  split_ifs <;> rfl

theorem place_swap (hl : h.Linked) {i j : Nat} (hi : i < h.order.size) (hj : j < h.order.size)
    (s : Nat) : ((h.swap i j).entry s).place =
      if s = h.slotAt i then some j else if s = h.slotAt j then some i else (h.entry s).place := by
  let t : Heap κ := { h with order := h.order.swapIfInBounds i j }
  have hti : t.slotAt i = h.slotAt j := (slotAt_swap hi hj i).trans (if_pos rfl)
  have htj : t.slotAt j = h.slotAt i := by
    refine (slotAt_swap hi hj j).trans ?_
    rw [if_pos rfl]
    split_ifs with hji
    · rw [hji]
    · rfl
  have hsi : t.slotAt i < t.entries.size := hti ▸ hl.slotAt_lt hj
  have hsj : (t.settle i).slotAt j < (t.settle i).entries.size := by
    rw [(settle_onlyReorders t i).size]
    exact htj ▸ hl.slotAt_lt hi
  change (((t.settle i).settle j).entry s).place = _
  rw [place_settle _ hsj, place_settle _ hsi]
  change (if s = t.slotAt j then _ else if s = t.slotAt i then _ else _) = _
  rw [hti, htj]
  rfl

theorem Linked.swap (hl : h.Linked) {i j : Nat} (hi : i < h.order.size) (hj : j < h.order.size) :
    (h.swap i j).Linked := by
  intro s k
  rw [place_swap hl hi hj, order_swap hi hj]
  have hpi := hl.slotAt_iff hi s
  have hpj := hl.slotAt_iff hj s
  have hpk := hl s k
  generalize h.order[k]? = o at hpk ⊢
  grind

theorem Linked.mem_iff (hl : h.Linked) {s : Nat} : s ∈ h.order ↔ ((h.entry s).place).isSome := by
  rw [Array.mem_iff_getElem?, Option.isSome_iff_exists]
  exact exists_congr fun i => (hl s i).symm

theorem mem_swap (hl : h.Linked) {i j : Nat} (hi : i < h.order.size) (hj : j < h.order.size)
    {s : Nat} : s ∈ (h.swap i j).order ↔ s ∈ h.order := by
  have hli : h.slotAt i ∈ h.order := mem_order.2 ⟨i, hi, rfl⟩
  have hlj : h.slotAt j ∈ h.order := mem_order.2 ⟨j, hj, rfl⟩
  rw [(hl.swap hi hj).mem_iff, place_swap hl hi hj]
  split_ifs with hsi hsj
  · simp [hsi, hli]
  · simp [hsj, hlj]
  · exact hl.mem_iff.symm

theorem up_linked (h : Heap κ) (j : Nat) (hl : h.Linked) (hj : j < h.order.size) :
    (h.up j).Linked ∧ ∀ s, s ∈ (h.up j).order ↔ s ∈ h.order := by
  induction h, j using up.induct with
  | case1 h j hc ih =>
    have hp : (j - 1) / 2 < h.order.size := by omega
    rw [up, if_pos hc]
    obtain ⟨hu, hm⟩ := ih (hl.swap hp hj) (by rw [swap_size]; omega)
    exact ⟨hu, fun s => (hm s).trans (mem_swap hl hp hj)⟩
  | case2 h j hc =>
    rw [up, if_neg hc]
    exact ⟨hl, fun _ => Iff.rfl⟩

theorem down_linked (h : Heap κ) (i : Nat) (hl : h.Linked) :
    (h.down i).Linked ∧ ∀ s, s ∈ (h.down i).order ↔ s ∈ h.order := by
  induction h, i using down.induct with
  | case1 h i hc ih =>
    have hi : i < h.order.size := by omega
    have hch := child_lt h hc.1
    rw [down, if_pos hc]
    obtain ⟨hd, hm⟩ := ih (hl.swap hi hch)
    exact ⟨hd, fun s => (hm s).trans (mem_swap hl hi hch)⟩
  | case2 h i hc =>
    rw [down, if_neg hc]
    exact ⟨hl, fun _ => Iff.rfl⟩

def append (h : Heap κ) (slot : Nat) : Heap κ :=
  { h with order := h.order.push slot }.settle h.order.size

theorem push_eq (h : Heap κ) (slot : Nat) : h.push slot = (h.append slot).up h.order.size := rfl

@[simp] theorem append_size (h : Heap κ) (slot : Nat) :
    (h.append slot).order.size = h.order.size + 1 :=
  Array.size_push ..

theorem append_onlyReorders (h : Heap κ) (slot : Nat) : h.OnlyReorders (h.append slot) := by
  have hr : h.OnlyReorders { h with order := h.order.push slot } := ⟨rfl, rfl, fun _ => rfl⟩
  exact hr.trans (settle_onlyReorders _ _)

theorem order_append (h : Heap κ) (slot k : Nat) : (h.append slot).order[k]? =
    if k = h.order.size then some slot else h.order[k]? :=
  Array.getElem?_push

theorem append_linked (hl : h.Linked) {slot : Nat} (hs : slot < h.entries.size)
    (hn : slot ∉ h.order) : (h.append slot).Linked := by
  intro s k
  have hlast : Heap.slotAt { h with order := h.order.push slot } h.order.size = slot := by
    simp [slotAt]
  have hp : ((h.append slot).entry s).place =
      if s = slot then some h.order.size else (h.entry s).place := by
    rw [append, place_settle _ (by rw [hlast]; exact hs), hlast]
    rfl
  have hk : h.order[k]? ≠ some slot := fun hk => hn (Array.mem_iff_getElem?.2 ⟨k, hk⟩)
  have hps : (h.entry s).place ≠ some h.order.size := by
    rw [ne_eq, hl]
    simp
  have hpk := hl s k
  rw [hp, order_append]
  generalize h.order[k]? = o at hk hpk ⊢
  grind

theorem deadlineAt_append (h : Heap κ) (slot : Nat) {k : Nat} (hk : k < h.order.size) :
    (h.append slot).deadlineAt k = h.deadlineAt k := by
  have hs : (h.append slot).slotAt k = h.slotAt k :=
    slotAt_eq (by rw [order_append, if_neg (by omega), order_slotAt hk])
  rw [deadlineAt, hs, (append_onlyReorders h slot).deadline]
  rfl

theorem append_orderedButUp (ho : h.Ordered) (slot : Nat) :
    (h.append slot).OrderedButUp h.order.size := by
  constructor
  · intro k h0 hk hkn
    rw [append_size] at hk
    rw [deadlineAt_append h slot (by omega), deadlineAt_append h slot (by omega)]
    exact ho k h0 (by omega)
  · intro _ k h0 hk hp
    rw [append_size] at hk
    omega

theorem push_onlyReorders (h : Heap κ) (slot : Nat) : h.OnlyReorders (h.push slot) :=
  (append_onlyReorders h slot).trans (up_onlyReorders _ _)

theorem push_ordered (ho : h.Ordered) (slot : Nat) : (h.push slot).Ordered := by
  rw [push_eq]
  exact up_ordered _ _ (append_orderedButUp ho slot) (by rw [append_size]; omega)

theorem push_linked (hl : h.Linked) {slot : Nat} (hs : slot < h.entries.size)
    (hn : slot ∉ h.order) :
    (h.push slot).Linked ∧ ∀ s, s ∈ (h.push slot).order ↔ s ∈ h.order ∨ s = slot := by
  obtain ⟨hu, hm⟩ := up_linked _ h.order.size (append_linked hl hs hn) (by rw [append_size]; omega)
  refine ⟨hu, fun s => (hm s).trans ?_⟩
  exact Array.mem_push

theorem order_pop (h : Heap κ) (k : Nat) :
    h.pop.order[k]? = if k < h.order.size - 1 then h.order[k]? else none := by
  simp only [pop, modify, Array.getElem?_pop]

@[simp] theorem pop_size (h : Heap κ) : h.pop.order.size = h.order.size - 1 := by
  simp [pop, modify]

theorem pop_onlyReorders (h : Heap κ) : h.OnlyReorders h.pop := by
  have hr : h.OnlyReorders { h with order := h.order.pop } := ⟨rfl, rfl, fun _ => rfl⟩
  exact hr.trans (modify_onlyReorders _ fun _ => rfl)

theorem pop_linked (hl : h.Linked) (h0 : 0 < h.order.size) :
    h.pop.Linked ∧ ∀ s, s ∈ h.pop.order ↔ s ∈ h.order ∧ s ≠ h.slotAt (h.order.size - 1) := by
  have hlast := order_slotAt (show h.order.size - 1 < h.order.size by omega)
  have hlt := hl.lt hlast
  have hp (s : Nat) : (h.pop.entry s).place =
      if s = h.slotAt (h.order.size - 1) then none else (h.entry s).place := by
    simp only [pop, entry_modify, hlt, and_true]
    split_ifs <;> rfl
  have hlp : h.pop.Linked := by
    intro s k
    have hk : h.order[k]? = some s → k < h.order.size :=
      fun hk => (Array.getElem?_eq_some_iff.1 hk).1
    have hpk := hl s k
    have hpl := hl.slotAt_iff (show h.order.size - 1 < h.order.size by omega) s
    rw [hp, order_pop]
    generalize h.order[k]? = o at hk hpk ⊢
    grind
  refine ⟨hlp, ?_⟩
  intro s
  rw [hlp.mem_iff, hl.mem_iff, hp]
  split_ifs with hs <;> simp [hs]

theorem deadlineAt_pop (h : Heap κ) {k : Nat} (hk : k < h.order.size - 1) :
    h.pop.deadlineAt k = h.deadlineAt k := by
  have hs : h.pop.slotAt k = h.slotAt k :=
    slotAt_eq (by rw [order_pop, if_pos hk, order_slotAt (by omega)])
  rw [deadlineAt, hs, (pop_onlyReorders h).deadline]
  rfl

/-- The heap without place `i`, before the slot that has come there is sifted. -/
def vacate (h : Heap κ) (i : Nat) : Heap κ :=
  (if i = h.order.size - 1 then h else h.swap i (h.order.size - 1)).pop

theorem removeAt_eq (h : Heap κ) (i : Nat) : h.removeAt i =
    if i < (h.vacate i).order.size then ((h.vacate i).down i).up i else h.vacate i := rfl

@[simp] theorem vacate_size (h : Heap κ) (i : Nat) :
    (h.vacate i).order.size = h.order.size - 1 := by
  rw [vacate, pop_size]
  split_ifs
  · rfl
  · rw [swap_size]

theorem vacate_onlyReorders (h : Heap κ) (i : Nat) : h.OnlyReorders (h.vacate i) := by
  rw [vacate]
  split_ifs
  · exact pop_onlyReorders h
  · exact (swap_onlyReorders h _ _).trans (pop_onlyReorders _)

theorem vacate_linked (hl : h.Linked) {i : Nat} (hi : i < h.order.size) :
    (h.vacate i).Linked ∧ ∀ s, s ∈ (h.vacate i).order ↔ s ∈ h.order ∧ s ≠ h.slotAt i := by
  have h0 : 0 < h.order.size := by omega
  have hlast : h.order.size - 1 < h.order.size := by omega
  rw [vacate]
  split_ifs with hil
  · rw [hil]
    exact pop_linked hl h0
  · obtain ⟨hp, hm⟩ := pop_linked (hl.swap hi hlast) (by rw [swap_size]; exact h0)
    refine ⟨hp, fun s => (hm s).trans ?_⟩
    rw [mem_swap hl hi hlast, swap_size, slotAt_swap hi hlast, if_neg (Ne.symm hil), if_pos rfl]

theorem deadlineAt_vacate {i : Nat} (hi : i < h.order.size) {k : Nat} (hk : k < h.order.size - 1)
    (hki : k ≠ i) : (h.vacate i).deadlineAt k = h.deadlineAt k := by
  rw [vacate]
  split_ifs with hil
  · exact deadlineAt_pop h hk
  · rw [deadlineAt_pop _ (by rw [swap_size]; exact hk), deadlineAt_swap hi (by omega), if_neg hki,
      if_neg (by omega)]

theorem vacate_orderedBut (ho : h.Ordered) {i : Nat} (hi : i < h.order.size) :
    (h.vacate i).OrderedBut i := by
  constructor
  · intro k h0 hk hki hpi
    rw [vacate_size] at hk
    rw [deadlineAt_vacate hi (by omega) hpi, deadlineAt_vacate hi hk hki]
    exact ho k h0 (by omega)
  · intro hi0 k h0 hk hpi
    rw [vacate_size] at hk
    rw [deadlineAt_vacate hi (by omega) (by omega), deadlineAt_vacate hi hk (by omega)]
    exact ho.spans hi hi0 k h0 (by omega) hpi

theorem removeAt_onlyReorders (h : Heap κ) (i : Nat) : h.OnlyReorders (h.removeAt i) := by
  rw [removeAt_eq]
  split_ifs
  · exact (vacate_onlyReorders h i).trans ((down_onlyReorders _ i).trans (up_onlyReorders _ i))
  · exact vacate_onlyReorders h i

theorem removeAt_ordered (ho : h.Ordered) {i : Nat} (hi : i < h.order.size) :
    (h.removeAt i).Ordered := by
  rw [removeAt_eq]
  split_ifs with hv
  · exact (vacate_orderedBut ho hi).mend hv
  · intro k h0 hk
    rw [vacate_size] at hk hv
    exact (vacate_orderedBut ho hi).rest k h0 (by rw [vacate_size]; exact hk) (by omega) (by omega)

theorem removeAt_linked (hl : h.Linked) {i : Nat} (hi : i < h.order.size) :
    (h.removeAt i).Linked ∧ ∀ s, s ∈ (h.removeAt i).order ↔ s ∈ h.order ∧ s ≠ h.slotAt i := by
  obtain ⟨hv, hm⟩ := vacate_linked hl hi
  rw [removeAt_eq]
  split_ifs with hlt
  · obtain ⟨hd, hmd⟩ := down_linked _ i hv
    obtain ⟨hu, hmu⟩ := up_linked _ i hd (by rw [down_size]; exact hlt)
    exact ⟨hu, fun s => (hmu s).trans ((hmd s).trans (hm s))⟩
  · exact ⟨hv, hm⟩

@[simp] theorem removeAt_size (h : Heap κ) (i : Nat) :
    (h.removeAt i).order.size = h.order.size - 1 := by
  rw [removeAt_eq]
  split_ifs
  · rw [up_size, down_size, vacate_size]
  · exact vacate_size h i

end

end Heap

end PushGateway.Timer
