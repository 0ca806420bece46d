import PushGateway.Proofs.Timer.Expiry

/-!
What fires when a heap is asked for all that is due. Every scheduled entry that is due leaves the
heap, once, the earliest first, and is told with its key and its callback; its handle stays good and
can arm it again. The other entries stay as they are, and all of them are due later, so asking again
gives nothing.
-/

namespace PushGateway.Timer.Heap

variable {κ : Type}

/-- The entries of the slots `out` are those due by `now`. They have left the heap in this order,
`due` is what they called for, and nothing else has changed. -/
structure Fires (h : Heap κ) (now : Nanos) (out : List Nat) (due : List (String × κ))
    (h' : Heap κ) :
    Prop where
  nodup : out.Nodup
  mem : ∀ s, s ∈ out ↔ s ∈ h.order ∧ (h.entry s).deadline ≤ now
  sorted : out.Pairwise fun s t => (h.entry s).deadline ≤ (h.entry t).deadline
  due : due.map some = out.map fun s => (h.entry s).callback.map ((h.entry s).key, ·)
  scheduled : ∀ s, s ∈ h'.order ↔ s ∈ h.order ∧ s ∉ out
  place : ∀ s, (h'.entry s).place.isSome ↔ s ∈ h'.order
  onlyReorders : h.OnlyReorders h'
  allocated : h'.allocated = h.allocated
  live : ∀ a, (h'.live? a).map Entry.unplaced = (h.live? a).map Entry.unplaced
  rearmed : ∀ a, h.live? a ≠ none → a.slot ∈ out → ∀ d, (h'.set a d).1 = true ∧
    (h'.set a d).2.live? a ≠ none ∧ a.slot ∈ (h'.set a d).2.order ∧
    ((h'.set a d).2.entry a.slot).deadline = d
  later : ∀ s ∈ h'.order, now < (h'.entry s).deadline
  peek : h'.peek? = (h'.order.toList.map fun s => (h'.entry s).deadline).min?

section
variable {h h' : Heap κ} {a : Handle} {now : Nanos} {out : List Nat} {due : List (String × κ)}

theorem Ordered.peek?_eq_min? (ho : h.Ordered) :
    h.peek? = (h.order.toList.map fun s => (h.entry s).deadline).min? := by
  cases hr : h.order[0]? with
  | none =>
    have hn : h.order = #[] := by simpa using hr
    rw [peek?, hn]
    rfl
  | some r =>
    have hp : h.peek? = some (h.entry r).deadline := (peek?_eq_some h _).2 ⟨r, hr, rfl⟩
    rw [hp, eq_comm, List.min?_eq_some_iff]
    constructor
    · exact List.mem_map.2 ⟨r, Array.mem_toList_iff.2 (root_mem hr), rfl⟩
    · intro d hd
      obtain ⟨s, hs, rfl⟩ := List.mem_map.1 hd
      exact ho.root_deadline_le hr (Array.mem_toList_iff.1 hs)

theorem OnlyReorders.live? (hk : h.OnlyReorders h') (a : Handle) :
    (h'.live? a).map Entry.unplaced = (h.live? a).map Entry.unplaced := by
  cases hl : h.live? a with
  | none =>
    have hl' : h'.live? a = none := by
      rw [live?_eq_none] at hl ⊢
      rwa [hk.inUse, hk.generation]
    rw [hl']
  | some e =>
    obtain ⟨rfl, hu, hg⟩ := (live?_eq_some h a e).1 hl
    have hl' : h'.live? a = some (h'.entry a.slot) :=
      (live?_eq_some h' a _).2 ⟨rfl, (hk.inUse _).trans hu, (hk.generation _).trans hg⟩
    rw [hl', Option.map_some, Option.map_some, hk.entry]

theorem OnlyReorders.allocated (hk : h.OnlyReorders h') : h'.allocated = h.allocated := by
  rw [Heap.allocated, hk.size, hk.free, Heap.allocated]

/-- A live entry that is not scheduled is armed again, for the very deadline that it is given. -/
theorem Sound.set_unscheduled (hw : h.Sound) (hl : h.live? a ≠ none) (hs : a.slot ∉ h.order)
    (d : Nanos) :
    (h.set a d).1 = true ∧ (h.set a d).2.live? a ≠ none ∧ a.slot ∈ (h.set a d).2.order ∧
      ((h.set a d).2.entry a.slot).deadline = d := by
  obtain ⟨e, he⟩ := Option.ne_none_iff_exists'.1 hl
  obtain ⟨rfl, hu, hg⟩ := (live?_eq_some h a e).1 he
  have hp : (h.entry a.slot).place = none := hw.linked.place_none hs
  let h₁ := h.modify a.slot fun e => { e with deadline := d }
  have hset : h.set a d = (true, h₁.push a.slot) := by
    simp only [set, he, unschedule, hp, Option.isSome_none, Bool.false_eq_true, false_and, if_false]
    rfl
  have hlt : a.slot < h₁.entries.size := by
    rw [modify_size]
    exact lt_of_inUse hu
  have he₁ : h₁.entry a.slot = { h.entry a.slot with deadline := d } := by
    rw [entry_modify, if_pos ⟨rfl, lt_of_inUse hu⟩]
  have hl₁ : h₁.Linked := modify_linked hw.linked a.slot fun _ => rfl
  have hk := push_onlyReorders h₁ a.slot
  rw [hset]
  refine ⟨rfl, ?_, ((push_linked hl₁ hlt hs).2 a.slot).2 (.inr rfl), ?_⟩
  · rw [ne_eq, live?_eq_none, hk.inUse, hk.generation, he₁]
    exact not_not_intro ⟨hu, hg⟩
  · rw [hk.deadline, he₁]

theorem expire_of_later (hl : ∀ s ∈ h.order, now < (h.entry s).deadline) :
    h.expire now = ([], h) := by
  rw [expire]
  cases h.order.size with
  | zero => rfl
  | succ fuel =>
    simp only [expireLoop]
    cases hr : h.order[0]? with
    | none => rfl
    | some r => exact if_pos (hl r (root_mem hr))

theorem Expired.fires (hw : h.Sound) (hw' : h'.Sound) (hk : h.OnlyReorders h')
    (he : h.Expired now out due h') : h.Fires now out due h' := by
  obtain ⟨hnd, -, hdisj⟩ := List.nodup_append.1 (he.order.nodup_iff.1 hw.order_nodup)
  have hmem := he.mem_order
  have hgone (s : Nat) (hs : s ∈ out) : s ∉ h'.order := fun hs' =>
    hdisj s hs s (Array.mem_toList_iff.2 hs') rfl
  constructor
  · exact hnd
  · intro s
    constructor
    · exact fun hs => ⟨(hmem s).2 (.inl hs), he.passed s hs⟩
    · rintro ⟨hs, hd⟩
      exact ((hmem s).1 hs).resolve_right fun hs' => Nat.not_lt.2 hd (he.later s hs')
  · exact he.sorted
  · -- Whoever is scheduled has a callback, so no slot is passed over.
    rw [he.due, List.map_filterMap_some_eq_filter_map_isSome]
    refine List.filter_eq_self.2 ?_
    intro p hp
    obtain ⟨s, hs, rfl⟩ := List.mem_map.1 hp
    have hc := hw.callback s (hw.scheduled s ((hmem s).2 (.inl hs)))
    simpa [due?] using hc
  · intro s
    rw [hmem]
    constructor
    · exact fun hs => ⟨.inr hs, fun ho => hgone s ho hs⟩
    · exact fun hs => hs.1.resolve_left hs.2
  · exact fun s => hw'.linked.mem_iff.symm
  · exact hk
  · exact hk.allocated
  · exact hk.live?
  · intro a hl hs
    refine hw'.set_unscheduled ?_ (hgone a.slot hs)
    intro hl'
    have hle := hk.live? a
    rw [hl', Option.map_none, eq_comm, Option.map_eq_none_iff] at hle
    exact hl hle
  · intro s hs
    rw [hk.deadline]
    exact he.later s hs
  · exact hw'.ordered.peek?_eq_min?

end

namespace Held

/-- After any run, asking for what is due by some time ends, with what the scheduled entries that
are due call for and a heap without them, on which asking again changes nothing. -/
theorem run_fires (size : Nat) (ops : List (Op κ)) (now : Nanos) :
    ∃ out due h', (run size ops).heap.expire? now = some (due, h') ∧
      (run size ops).heap.expire now = (due, h') ∧ (run size ops).heap.Fires now out due h' ∧
      h'.expire now = ([], h') := by
  obtain ⟨⟨hw, hh⟩, -⟩ := foldl_valid ops (s := ⟨new size, []⟩) ⟨new_sound size, new_holds size⟩
  change (run size ops).heap.Sound at hw
  change (run size ops).heap.Holds (run size ops).out at hh
  obtain ⟨hw', -⟩ := expireLoop_spec now (run size ops).heap.order.size _ hw hh
  obtain ⟨out, he⟩ := expire_expired hw now
  have hfires := he.fires hw hw' (expire_onlyReorders _ now)
  exact ⟨out, _, _, expire?_eq hw now, rfl, hfires, expire_of_later hfires.later⟩

end Held

end PushGateway.Timer.Heap
