import PushGateway.Proofs.Timer.Invariant

/-!
The operations with every access to the arena and to the heap checked: a slot or a place that is
out of range, or the last place of an empty heap, stops them with nothing. On a sound heap none of
them stops, and they do what the operations without checks do.
-/

namespace PushGateway.Timer.Heap

variable {κ : Type}

def modify? (h : Heap κ) (slot : Nat) (f : Entry κ → Entry κ) : Option (Heap κ) :=
  if slot < h.entries.size then some (h.modify slot f) else none

def deadlineAt? (h : Heap κ) (i : Nat) : Option Nanos := do
  let slot ← h.order[i]?
  let e ← h.entries[slot]?
  return e.deadline

def less? (h : Heap κ) (i j : Nat) : Option Bool := do
  let a ← h.deadlineAt? i
  let b ← h.deadlineAt? j
  return a < b

def settle? (h : Heap κ) (i : Nat) : Option (Heap κ) := do
  let slot ← h.order[i]?
  h.modify? slot fun e => { e with place := some i }

def swap? (h : Heap κ) (i j : Nat) : Option (Heap κ) := do
  if i < h.order.size ∧ j < h.order.size then
    let h ← settle? { h with order := h.order.swapIfInBounds i j } i
    h.settle? j
  else none

def up? (h : Heap κ) (j : Nat) : Option (Heap κ) := do
  if _h0 : 0 < j then
    if ← h.less? j ((j - 1) / 2) then
      let h ← h.swap? ((j - 1) / 2) j
      h.up? ((j - 1) / 2)
    else some h
  else some h
termination_by j
decreasing_by omega

def right? (n : Nat) (h : Heap κ) (i : Nat) : Option Bool :=
  if 2 * i + 2 < n then h.less? (2 * i + 2) (2 * i + 1) else some false

/-- `n` is the size of the heap, read once before the first step. -/
def down? (n : Nat) (h : Heap κ) (i : Nat) : Option (Heap κ) := do
  if _hn : 2 * i + 1 < n then
    let right ← h.right? n i
    let child := if right then 2 * i + 2 else 2 * i + 1
    if ← h.less? child i then
      let h ← h.swap? i child
      h.down? n child
    else some h
  else some h
termination_by n - i
decreasing_by split <;> omega

def push? (h : Heap κ) (slot : Nat) : Option (Heap κ) := do
  let i := h.order.size
  let h ← h.modify? slot fun e => { e with place := some i }
  up? { h with order := h.order.push slot } i

def pop? (h : Heap κ) : Option (Heap κ) := do
  let slot ← h.order.back?
  modify? { h with order := h.order.pop } slot fun e => { e with place := none }

def vacate? (h : Heap κ) (i : Nat) : Option (Heap κ) :=
  if h.order.size = 0 then none
  else if i = h.order.size - 1 then h.pop?
  else do
    let h ← h.swap? i (h.order.size - 1)
    h.pop?

def removeAt? (h : Heap κ) (i : Nat) : Option (Heap κ) := do
  let h ← h.vacate? i
  if i < h.order.size then
    let h ← h.down? h.order.size i
    h.up? i
  else some h

def unschedule? (h : Heap κ) (e : Entry κ) : Option (Heap κ) :=
  match e.place with
  | some i => h.removeAt? i
  | none => some h

def add? (h : Heap κ) (deadline : Nanos) (key : String) (callback : κ) :
    Option (Handle × Heap κ) := do
  let (slot, h) := h.reserve
  let e ← h.entries[slot]?
  let h ← h.modify? slot fun e => { e with deadline, key, callback := some callback, inUse := true }
  let h ← h.push? slot
  return (⟨slot, e.generation⟩, h)

def del? (h : Heap κ) (handle : Handle) : Option (Bool × Heap κ) := do
  match h.live? handle with
  | none => return (false, h)
  | some e =>
    let h ← h.unschedule? e
    let h ← h.modify? handle.slot fun e =>
      { e with inUse := false, callback := none, key := "", generation := e.generation + 1 }
    return (true, { h with free := handle.slot :: h.free })

def set? (h : Heap κ) (handle : Handle) (deadline : Nanos) : Option (Bool × Heap κ) := do
  match h.live? handle with
  | none => return (false, h)
  | some e =>
    if e.place.isSome ∧ distance deadline e.deadline < lazyDelay then return (true, h)
    else
      let h ← h.unschedule? e
      let h ← h.modify? handle.slot fun e => { e with deadline }
      let h ← h.push? handle.slot
      return (true, h)

def setKey? (h : Heap κ) (handle : Handle) (key : String) : Option (Heap κ) :=
  match h.live? handle with
  | none => some h
  | some _ => h.modify? handle.slot fun e => { e with key }

/-- Stops too when the fuel runs out with entries left. -/
def expireLoop? (now : Nanos) : Nat → Heap κ → Option (List (String × κ) × Heap κ)
  | 0, h => if h.order.size = 0 then some ([], h) else none
  | fuel + 1, h =>
    match h.order[0]? with
    | none => some ([], h)
    | some slot => do
      let e ← h.entries[slot]?
      if now < e.deadline then return ([], h)
      else
        let h ← h.removeAt? 0
        let e ← h.entries[slot]?
        let (fired, h) ← expireLoop? now fuel h
        return (e.callback.toList.map (e.key, ·) ++ fired, h)

def expire? (h : Heap κ) (now : Nanos) : Option (List (String × κ) × Heap κ) :=
  expireLoop? now h.order.size h

section
variable {h : Heap κ}

def InRange (h : Heap κ) : Prop := ∀ i, i < h.order.size → h.slotAt i < h.entries.size

theorem Linked.inRange (hl : h.Linked) : h.InRange := fun _ hi => hl.slotAt_lt hi

theorem entries_entry {s : Nat} (hs : s < h.entries.size) : h.entries[s]? = some (h.entry s) := by
  simp [entry, hs]

theorem modify?_eq {s : Nat} (hs : s < h.entries.size) (f : Entry κ → Entry κ) :
    h.modify? s f = some (h.modify s f) := if_pos hs

theorem settle?_eq {i : Nat} (hi : i < h.order.size) (hs : h.slotAt i < h.entries.size) :
    h.settle? i = some (h.settle i) := by
  rw [settle?, order_slotAt hi, Option.bind_eq_bind, Option.bind_some, modify?_eq hs]
  rfl

theorem less?_eq (hr : h.InRange) {i j : Nat} (hi : i < h.order.size) (hj : j < h.order.size) :
    h.less? i j = some (h.less i j) := by
  simp only [less?, deadlineAt?, order_slotAt hi, order_slotAt hj, entries_entry (hr i hi),
    entries_entry (hr j hj), Option.bind_eq_bind, Option.bind_some, Option.pure_def]
  rfl

theorem InRange.swap (hr : h.InRange) {i j : Nat} (hi : i < h.order.size) (hj : j < h.order.size) :
    (h.swap i j).InRange := by
  intro k hk
  rw [swap_size] at hk
  rw [(swap_onlyReorders h i j).size, slotAt_swap hi hj]
  split_ifs
  · exact hr j hj
  · exact hr i hi
  · exact hr k hk

theorem swap?_eq (hr : h.InRange) {i j : Nat} (hi : i < h.order.size) (hj : j < h.order.size) :
    h.swap? i j = some (h.swap i j) := by
  let t : Heap κ := { h with order := h.order.swapIfInBounds i j }
  have hsize : t.order.size = h.order.size := Array.size_swapIfInBounds
  have ht (k : Nat) (hk : k < h.order.size) : t.slotAt k < t.entries.size := by
    have hs := hr.swap hi hj k (by rw [swap_size]; exact hk)
    rwa [(swap_onlyReorders h i j).size] at hs
  have hi' : t.settle? i = some (t.settle i) := settle?_eq (by rw [hsize]; exact hi) (ht i hi)
  have hj' : (t.settle i).settle? j = some ((t.settle i).settle j) := by
    refine settle?_eq (Nat.lt_of_lt_of_eq hj hsize.symm) ?_
    rw [(settle_onlyReorders t i).size]
    exact ht j hj
  rw [swap?, if_pos ⟨hi, hj⟩]
  change (t.settle? i).bind _ = _
  rw [hi', Option.bind_some, hj']
  rfl

theorem up?_eq (h : Heap κ) (j : Nat) (hr : h.InRange) (hj : j < h.order.size) :
    h.up? j = some (h.up j) := by
  induction h, j using up.induct with
  | case1 h j hc ih =>
    have hp : (j - 1) / 2 < h.order.size := by omega
    have hn := ih (hr.swap hp hj) (by rw [swap_size]; exact hp)
    rw [up?, up, if_pos hc, dif_pos hc.1, less?_eq hr hj hp, hc.2]
    simpa [swap?_eq hr hp hj] using hn
  | case2 h j hc =>
    rw [up?, up, if_neg hc]
    split_ifs with h0
    · have hp : (j - 1) / 2 < h.order.size := by omega
      have hl : h.less j ((j - 1) / 2) = false := Bool.eq_false_iff.2 fun hl => hc ⟨h0, hl⟩
      rw [less?_eq hr hj hp, hl]
      rfl
    · rfl

theorem right?_eq (hr : h.InRange) {i : Nat} (hn : 2 * i + 1 < h.order.size) :
    ∃ b, h.right? h.order.size i = some b ∧ h.child i = if b then 2 * i + 2 else 2 * i + 1 := by
  by_cases hr2 : 2 * i + 2 < h.order.size
  · refine ⟨h.less (2 * i + 2) (2 * i + 1), ?_, ?_⟩
    · rw [right?, if_pos hr2, less?_eq hr hr2 hn]
    · simp only [child, hr2, true_and]
  · refine ⟨false, if_neg hr2, ?_⟩
    rw [child, if_neg fun hc => hr2 hc.1]
    rfl

theorem down?_eq (h : Heap κ) (i : Nat) (hr : h.InRange) :
    h.down? h.order.size i = some (h.down i) := by
  induction h, i using down.induct with
  | case1 h i hc ih =>
    have hi : i < h.order.size := by omega
    have hch := child_lt h hc.1
    have hn := ih (hr.swap hi hch)
    rw [swap_size] at hn
    obtain ⟨b, hb, hcb⟩ := right?_eq hr hc.1
    rw [down?, down, if_pos hc, dif_pos hc.1, hb]
    simp only [Option.bind_eq_bind, Option.bind_some, ← hcb, less?_eq hr hch hi, hc.2, if_pos,
      swap?_eq hr hi hch, hn]
  | case2 h i hc =>
    rw [down?, down, if_neg hc]
    split_ifs with hn
    · have hi : i < h.order.size := by omega
      have hl : h.less (h.child i) i = false := Bool.eq_false_iff.2 fun hl => hc ⟨hn, hl⟩
      obtain ⟨b, hb, hcb⟩ := right?_eq hr hn
      rw [hb]
      simp only [Option.bind_eq_bind, Option.bind_some, ← hcb, less?_eq hr (child_lt h hn) hi, hl]
      rfl
    · rfl

theorem append_order (h : Heap κ) (slot : Nat) : h.append slot =
    { h.modify slot (fun e => { e with place := some h.order.size }) with
      order := h.order.push slot } := by
  have hs : Heap.slotAt { h with order := h.order.push slot } h.order.size =
    slot := by simp [slotAt]
  rw [append, settle, hs]
  rfl

theorem push?_eq (hl : h.Linked) {slot : Nat} (hs : slot < h.entries.size) (hn : slot ∉ h.order) :
    h.push? slot = some (h.push slot) := by
  have hu := up?_eq (h.append slot) h.order.size (append_linked hl hs hn).inRange
    (by rw [append_size]; omega)
  rw [push?, modify?_eq hs, Option.bind_eq_bind, Option.bind_some, push_eq, ← hu, append_order]
  rfl

theorem pop?_eq (hr : h.InRange) (h0 : 0 < h.order.size) : h.pop? = some h.pop := by
  have hlast : h.order.size - 1 < h.order.size := by omega
  rw [pop?, Array.back?_eq_getElem?, order_slotAt hlast, Option.bind_eq_bind, Option.bind_some]
  exact if_pos (hr _ hlast)

theorem vacate?_eq (hr : h.InRange) {i : Nat} (hi : i < h.order.size) :
    h.vacate? i = some (h.vacate i) := by
  have hlast : h.order.size - 1 < h.order.size := by omega
  rw [vacate?, vacate, if_neg (by omega)]
  split_ifs
  · exact pop?_eq hr (by omega)
  · rw [swap?_eq hr hi hlast, Option.bind_eq_bind, Option.bind_some]
    exact pop?_eq (hr.swap hi hlast) (by rw [swap_size]; omega)

theorem removeAt?_eq (hl : h.Linked) {i : Nat} (hi : i < h.order.size) :
    h.removeAt? i = some (h.removeAt i) := by
  have hv := (vacate_linked hl hi).1
  have hd := (down_linked _ i hv).1
  rw [removeAt?, removeAt_eq, vacate?_eq hl.inRange hi, Option.bind_eq_bind, Option.bind_some]
  split_ifs with hlt
  · rw [down?_eq _ _ hv.inRange, Option.bind_some]
    exact up?_eq _ _ hd.inRange (by rw [down_size]; exact hlt)
  · rfl

theorem unschedule?_eq (hl : h.Linked) (s : Nat) :
    h.unschedule? (h.entry s) = some (h.unschedule (h.entry s)) := by
  rw [unschedule?, unschedule]
  cases hp : (h.entry s).place with
  | none => rfl
  | some i => exact removeAt?_eq hl (Array.getElem?_eq_some_iff.1 ((hl s i).1 hp)).1

theorem add?_eq (hw : h.Sound) (deadline : Nanos) (key : String) (callback : κ) :
    h.add? deadline key callback = some (h.add deadline key callback) := by
  have hr := reserve_reserved hw
  rcases hre : h.reserve with ⟨slot, h₁⟩
  rw [hre] at hr
  obtain ⟨hw₂, hn⟩ := hr.modify_sound hw
    (f := fun e => { e with deadline, key, callback := some callback, inUse := true })
    (fun _ => rfl) (fun _ => rfl) (fun _ => rfl)
  have hp := push?_eq hw₂.linked (by rw [modify, Array.size_modify]; exact hr.lt) hn
  simp only [add?, add, hre, entries_entry hr.lt, modify?_eq hr.lt, hp, Option.bind_eq_bind,
    Option.bind_some, Option.pure_def]

theorem del?_eq (hw : h.Sound) (a : Handle) : h.del? a = some (h.del a) := by
  cases hl : h.live? a with
  | none => simp only [del?, del, hl, Option.pure_def]
  | some e =>
    obtain ⟨rfl, hu, -⟩ := (live?_eq_some h a e).1 hl
    have hs : a.slot < (h.unschedule (h.entry a.slot)).entries.size := by
      rw [(unschedule_onlyReorders h _).size]
      exact lt_of_inUse hu
    simp only [del?, del, hl, unschedule?_eq hw.linked, modify?_eq hs, Option.bind_eq_bind,
      Option.bind_some, Option.pure_def]

theorem set?_eq (hw : h.Sound) (a : Handle) (deadline : Nanos) :
    h.set? a deadline = some (h.set a deadline) := by
  cases hl : h.live? a with
  | none => simp only [set?, set, hl, Option.pure_def]
  | some e =>
    obtain ⟨rfl, hu, -⟩ := (live?_eq_some h a e).1 hl
    have hs : a.slot < (h.unschedule (h.entry a.slot)).entries.size := by
      rw [(unschedule_onlyReorders h _).size]
      exact lt_of_inUse hu
    have hn := (unschedule_sound hw a.slot).2
    have hm := modify_linked (unschedule_sound hw a.slot).1.linked a.slot
      (f := fun e => { e with deadline }) fun _ => rfl
    simp only [set?, set, hl]
    split_ifs
    · rfl
    · have hp := push?_eq hm (by rw [modify, Array.size_modify]; exact hs) hn
      simp only [unschedule?_eq hw.linked, modify?_eq hs, Option.bind_eq_bind, Option.bind_some, hp,
        Option.pure_def]

theorem setKey?_eq (h : Heap κ) (a : Handle) (key : String) :
    h.setKey? a key = some (h.setKey a key) := by
  cases hl : h.live? a with
  | none => simp only [setKey?, setKey, hl]
  | some e =>
    obtain ⟨rfl, hu, -⟩ := (live?_eq_some h a e).1 hl
    simp only [setKey?, setKey, hl]
    exact modify?_eq (lt_of_inUse hu) _

-- Every turn takes one place off the heap, so its size is fuel enough.
theorem expireLoop?_eq (now : Nanos) (fuel : Nat) (h : Heap κ) (hw : h.Sound)
    (hf : h.order.size ≤ fuel) : expireLoop? now fuel h = some (expireLoop now fuel h) := by
  induction fuel generalizing h with
  | zero => exact if_pos (by omega)
  | succ fuel ih =>
    simp only [expireLoop?, expireLoop]
    cases hr : h.order[0]? with
    | none => rfl
    | some slot =>
      have h0 := (Array.getElem?_eq_some_iff.1 hr).1
      have hs := hw.linked.lt hr
      have hs' : slot < (h.removeAt 0).entries.size := by
        rw [(removeAt_onlyReorders h 0).size]
        exact hs
      have hn := ih (h.removeAt 0) (removeAt_sound hw h0) (by rw [removeAt_size]; omega)
      dsimp only
      rw [entries_entry hs]
      simp only [Option.bind_eq_bind, Option.bind_some]
      split_ifs
      · rfl
      · simp only [removeAt?_eq hw.linked h0, entries_entry hs', hn, Option.bind_some,
          Option.pure_def]

theorem expire?_eq (hw : h.Sound) (now : Nanos) : h.expire? now = some (h.expire now) :=
  expireLoop?_eq now _ h hw (Nat.le_refl _)

end

end PushGateway.Timer.Heap
