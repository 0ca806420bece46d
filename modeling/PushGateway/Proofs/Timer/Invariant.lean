import Mathlib.Data.List.Perm.Subperm
import PushGateway.Proofs.Timer.Places

/-!
The invariant of a deadline heap, kept by every operation, and what the operations do to the handles
that have been given out and not given back. An operation on a handle that names nothing leaves the
heap alone, so the invariant does not ask where handles come from.
-/

namespace PushGateway.Timer.Heap

variable {κ : Type}

structure Sound (h : Heap κ) : Prop where
  ordered : h.Ordered
  linked : h.Linked
  free_nodup : h.free.Nodup
  mem_free : ∀ s, s ∈ h.free ↔ s < h.entries.size ∧ (h.entry s).inUse = false
  scheduled : ∀ s, s ∈ h.order → (h.entry s).inUse = true
  callback : ∀ s, (h.entry s).inUse = true → (h.entry s).callback.isSome

/-- `hs` are the handles that have been given out and not given back. -/
structure Holds (h : Heap κ) (hs : List Handle) : Prop where
  nodup : hs.Nodup
  mem : ∀ a : Handle, a ∈ hs ↔
    (h.entry a.slot).inUse = true ∧ (h.entry a.slot).generation = a.generation
  allocated : h.allocated = hs.length

theorem new_sound (size : Nat) : (new size : Heap κ).Sound := by
  have he (s : Nat) : (new size : Heap κ).entry s = {} := by
    simp [new, entry, Array.getElem?_replicate]
    split_ifs <;> rfl
  constructor
  · intro k h0 hk
    simp [new] at hk
  · intro s i
    rw [he]
    simp [new]
  · exact List.nodup_range
  · intro s
    rw [he]
    simp [new]
  · intro s hs
    simp [new] at hs
  · intro s hs
    rw [he] at hs
    cases hs

theorem new_holds (size : Nat) : (new size : Heap κ).Holds [] := by
  have he (s : Nat) : (new size : Heap κ).entry s = {} := by
    simp [new, entry, Array.getElem?_replicate]
    split_ifs <;> rfl
  refine ⟨List.nodup_nil, ?_, ?_⟩
  · intro a
    rw [he]
    simp
  · simp [allocated, new]

section
variable {h h' : Heap κ} {hs : List Handle}

theorem handle_ext {a b : Handle} (hs : a.slot = b.slot) (hg : a.generation = b.generation) :
    a = b := by
  cases a
  cases b
  simp only at hs hg
  rw [hs, hg]

theorem lt_of_inUse {s : Nat} (hu : (h.entry s).inUse = true) : s < h.entries.size := by
  by_contra hn
  rw [entry_of_size_le (by omega)] at hu
  cases hu

theorem Sound.free_le (hw : h.Sound) : h.free.length ≤ h.entries.size := by
  have hsub : h.free ⊆ List.range h.entries.size := by
    intro s hs
    exact List.mem_range.2 ((hw.mem_free s).1 hs).1
  simpa using (hw.free_nodup.subperm hsub).length_le

theorem live?_eq_some (h : Heap κ) (a : Handle) (e : Entry κ) : h.live? a = some e ↔
    h.entry a.slot = e ∧ e.inUse = true ∧ e.generation = a.generation := by
  by_cases hs : a.slot < h.entries.size
  · simp only [live?, entry, Array.getD_eq_getD_getElem?, Array.getElem?_eq_getElem hs,
      Option.getD_some, Option.filter_eq_some_iff, Option.some.injEq, Bool.and_eq_true, beq_iff_eq]
  · have hn : h.live? a = none := by simp [live?, hs]
    rw [hn, entry_of_size_le (by omega)]
    constructor
    · intro hf; cases hf
    · rintro ⟨rfl, hu, -⟩; cases hu

theorem live?_eq_none (h : Heap κ) (a : Handle) : h.live? a = none ↔
    ¬((h.entry a.slot).inUse = true ∧ (h.entry a.slot).generation = a.generation) := by
  rw [Option.eq_none_iff_forall_ne_some]
  constructor
  · intro hn hu
    exact hn _ ((live?_eq_some h a _).2 ⟨rfl, hu⟩)
  · rintro hn e he
    obtain ⟨rfl, hu⟩ := (live?_eq_some h a e).1 he
    exact hn hu

theorem OnlyReorders.holds (hk : h.OnlyReorders h') (hh : h.Holds hs) : h'.Holds hs := by
  refine ⟨hh.nodup, ?_, ?_⟩
  · intro a
    rw [hk.inUse, hk.generation]
    exact hh.mem a
  · rw [allocated, hk.size, hk.free]
    exact hh.allocated

theorem removeAt_sound (hw : h.Sound) {i : Nat} (hi : i < h.order.size) : (h.removeAt i).Sound := by
  have hk := removeAt_onlyReorders h i
  obtain ⟨hl, hm⟩ := removeAt_linked hw.linked hi
  refine ⟨removeAt_ordered hw.ordered hi, hl, hk.free ▸ hw.free_nodup, ?_, ?_, ?_⟩
  · intro s
    rw [hk.free, hk.size, hk.inUse]
    exact hw.mem_free s
  · intro s hs
    rw [hk.inUse]
    exact hw.scheduled s ((hm s).1 hs).1
  · intro s hs
    rw [hk.inUse] at hs
    rw [hk.callback]
    exact hw.callback s hs

theorem push_sound (hw : h.Sound) {slot : Nat} (hu : (h.entry slot).inUse = true)
    (hn : slot ∉ h.order) : (h.push slot).Sound := by
  have hk := push_onlyReorders h slot
  obtain ⟨hl, hm⟩ := push_linked hw.linked (lt_of_inUse hu) hn
  refine ⟨push_ordered hw.ordered slot, hl, hk.free ▸ hw.free_nodup, ?_, ?_, ?_⟩
  · intro s
    rw [hk.free, hk.size, hk.inUse]
    exact hw.mem_free s
  · intro s hs
    rw [hk.inUse]
    rcases (hm s).1 hs with hs | rfl
    · exact hw.scheduled s hs
    · exact hu
  · intro s hs
    rw [hk.inUse] at hs
    rw [hk.callback]
    exact hw.callback s hs

theorem unschedule_onlyReorders (h : Heap κ) (e : Entry κ) : h.OnlyReorders (h.unschedule e) := by
  rw [unschedule]
  cases e.place with
  | none => exact .refl h
  | some i => exact removeAt_onlyReorders h i

theorem unschedule_sound (hw : h.Sound) (s : Nat) :
    (h.unschedule (h.entry s)).Sound ∧ s ∉ (h.unschedule (h.entry s)).order := by
  rw [unschedule]
  cases hp : (h.entry s).place with
  | none =>
    refine ⟨hw, ?_⟩
    intro hs
    rw [hw.linked.mem_iff, hp] at hs
    cases hs
  | some i =>
    have hi := (hw.linked s i).1 hp
    have hlt := (Array.getElem?_eq_some_iff.1 hi).1
    refine ⟨removeAt_sound hw hlt, ?_⟩
    intro hs
    exact (((removeAt_linked hw.linked hlt).2 s).1 hs).2 (slotAt_eq hi).symm

theorem modify_linked (hl : h.Linked) (s : Nat) {f : Entry κ → Entry κ}
    (hf : ∀ e, (f e).place = e.place) : (h.modify s f).Linked := by
  intro t i
  rw [entry_modify]
  split_ifs with ht
  · rw [hf, ← ht.1]
    exact hl t i
  · exact hl t i

theorem modify_ordered (ho : h.Ordered) {s : Nat} (hs : s ∉ h.order) (f : Entry κ → Entry κ) :
    (h.modify s f).Ordered := by
  have hd (k : Nat) (hk : k < h.order.size) : (h.modify s f).deadlineAt k = h.deadlineAt k := by
    have hne : h.slotAt k ≠ s := fun he => hs (mem_order.2 ⟨k, hk, he⟩)
    change ((h.modify s f).entry (h.slotAt k)).deadline = _
    rw [entry_modify, if_neg fun hc => hne hc.1]
    rfl
  intro k h0 hk
  have hk' : k < h.order.size := hk
  rw [hd _ (by omega), hd _ hk']
  exact ho k h0 hk'

theorem ordered_of_deadline (ho : h.Ordered) (hr : h'.order = h.order)
    (hd : ∀ s, (h'.entry s).deadline = (h.entry s).deadline) : h'.Ordered := by
  have hda (k : Nat) : h'.deadlineAt k = h.deadlineAt k := by
    rw [deadlineAt, hd, slotAt, hr]
    rfl
  intro k h0 hk
  rw [hda, hda]
  exact ho k h0 (hr ▸ hk)

theorem modify_sound (hw : h.Sound) (s : Nat) {f : Entry κ → Entry κ}
    (hp : ∀ e, (f e).place = e.place) (hu : ∀ e, (f e).inUse = e.inUse)
    (hc : ∀ e, (f e).callback = e.callback) (ho : (h.modify s f).Ordered) :
    (h.modify s f).Sound := by
  have hin (t : Nat) : ((h.modify s f).entry t).inUse = (h.entry t).inUse := by
    rw [entry_modify]
    split_ifs with ht
    · rw [hu, ht.1]
    · rfl
  have hcb (t : Nat) : ((h.modify s f).entry t).callback = (h.entry t).callback := by
    rw [entry_modify]
    split_ifs with ht
    · rw [hc, ht.1]
    · rfl
  have hsize : (h.modify s f).entries.size = h.entries.size := Array.size_modify
  refine ⟨ho, modify_linked hw.linked s hp, hw.free_nodup, ?_, ?_, ?_⟩
  · intro t
    rw [hin, hsize]
    exact hw.mem_free t
  · intro t ht
    rw [hin]
    exact hw.scheduled t ht
  · intro t ht
    rw [hin] at ht
    rw [hcb]
    exact hw.callback t ht

theorem modify_holds (hh : h.Holds hs) (s : Nat) {f : Entry κ → Entry κ}
    (hu : ∀ e, (f e).inUse = e.inUse) (hg : ∀ e, (f e).generation = e.generation) :
    (h.modify s f).Holds hs := by
  refine ⟨hh.nodup, ?_, ?_⟩
  · intro a
    rw [hh.mem, entry_modify]
    split_ifs with ha
    · rw [hu, hg, ha.1]
    · rfl
  · have hsize : (h.modify s f).entries.size = h.entries.size := Array.size_modify
    rw [← hh.allocated, allocated, hsize]
    rfl

structure Reserved (h : Heap κ) (slot : Nat) (h' : Heap κ) : Prop where
  lt : slot < h'.entries.size
  vacant : (h.entry slot).inUse = false
  order : h'.order = h.order
  entry : ∀ t, h'.entry t = h.entry t
  free_nodup : h'.free.Nodup
  mem_free : ∀ s, s ∈ h'.free ↔ s < h'.entries.size ∧ (h.entry s).inUse = false ∧ s ≠ slot
  allocated : h'.allocated = h.allocated + 1

theorem reserve_reserved (hw : h.Sound) : h.Reserved h.reserve.1 h.reserve.2 := by
  have hle := hw.free_le
  have hfree := hw.mem_free
  have hnd := hw.free_nodup
  cases hf : h.free with
  | nil =>
    rw [hf] at hfree
    have hused (s : Nat) (hs : s < h.entries.size) : (h.entry s).inUse ≠ false := fun hu => by
      have := (hfree s).2 ⟨hs, hu⟩
      cases this
    have hsize : (h.entries.push ({} : Entry κ)).size = h.entries.size + 1 := Array.size_push _
    have hr : h.reserve = (h.entries.size, { h with entries := h.entries.push {} }) := by
      simp only [reserve, hf]
    rw [hr]
    refine ⟨by rw [hsize]; omega, by rw [entry_of_size_le (by omega)], rfl, ?_, hnd,
      ?_, ?_⟩
    · intro t
      by_cases ht : t = h.entries.size
      · simp [entry, ht]
      · simp [Heap.entry, Array.getElem?_push, ht]
    · intro s
      rw [hf, hsize]
      constructor
      · intro hs
        cases hs
      · rintro ⟨hlt, hu, hne⟩
        exact absurd hu (hused s (by omega))
    · simp [Heap.allocated, hf]
  | cons slot r =>
    have hr : h.reserve = (slot, { h with free := r }) := by simp only [reserve, hf]
    rw [hf] at hfree hnd hle
    obtain ⟨hslt, hsu⟩ := (hfree slot).1 (by simp)
    obtain ⟨hnr, hnd'⟩ := List.nodup_cons.1 hnd
    rw [hr]
    change h.Reserved slot { h with free := r }
    refine ⟨hslt, hsu, rfl, fun _ => rfl, hnd', ?_, ?_⟩
    · intro s
      rw [← and_assoc, ← hfree s, List.mem_cons]
      constructor
      · intro hs
        exact ⟨.inr hs, fun he => hnr (he ▸ hs)⟩
      · rintro ⟨rfl | hs, hne⟩
        · exact absurd rfl hne
        · exact hs
    · simp only [List.length_cons] at hle
      simp only [Heap.allocated, hf, List.length_cons]
      omega

theorem Reserved.entry_modify {slot : Nat} (hr : h.Reserved slot h') (f : Entry κ → Entry κ)
    (t : Nat) : (h'.modify slot f).entry t = if t = slot then f (h.entry t) else h.entry t := by
  rw [Heap.entry_modify, hr.entry, hr.entry]
  simp only [hr.lt, and_true]
  split_ifs with ht
  · rw [ht]
  · rfl

theorem Reserved.modify_sound {slot : Nat} (hr : h.Reserved slot h') (hw : h.Sound)
    {f : Entry κ → Entry κ} (hp : ∀ e, (f e).place = e.place) (hu : ∀ e, (f e).inUse = true)
    (hc : ∀ e, (f e).callback.isSome) :
    (h'.modify slot f).Sound ∧ slot ∉ (h'.modify slot f).order := by
  have hsize : (h'.modify slot f).entries.size = h'.entries.size := Array.size_modify
  have hn : slot ∉ h.order := fun hs => by
    have := hw.scheduled slot hs
    rw [hr.vacant] at this
    cases this
  have hn' : slot ∉ h'.order := hr.order ▸ hn
  have hl : h'.Linked := fun s i => by
    rw [hr.entry, hr.order]
    exact hw.linked s i
  have ho : h'.Ordered := ordered_of_deadline hw.ordered hr.order fun s => by rw [hr.entry]
  refine ⟨⟨modify_ordered ho hn' f, modify_linked hl slot hp, hr.free_nodup, ?_, ?_, ?_⟩, hn'⟩
  · intro s
    rw [hr.entry_modify, hsize]
    refine (hr.mem_free s).trans ?_
    split_ifs with hss
    · simp [hss, hu]
    · simp [hss]
  · intro s hs
    rw [hr.entry_modify]
    split_ifs with hss
    · exact hu _
    · exact hw.scheduled s (hr.order ▸ hs)
  · intro s hs
    rw [hr.entry_modify] at hs ⊢
    split_ifs at hs ⊢ with hss
    · exact hc _
    · exact hw.callback s hs

theorem Reserved.modify_holds {slot : Nat} (hr : h.Reserved slot h') (hh : h.Holds hs)
    {f : Entry κ → Entry κ} (hu : ∀ e, (f e).inUse = true)
    (hg : ∀ e, (f e).generation = e.generation) :
    (h'.modify slot f).Holds (⟨slot, (h'.entry slot).generation⟩ :: hs) := by
  have hsize : (h'.modify slot f).entries.size = h'.entries.size := Array.size_modify
  refine ⟨List.nodup_cons.2 ⟨?_, hh.nodup⟩, ?_, ?_⟩
  · intro ha
    have := ((hh.mem _).1 ha).1
    rw [hr.vacant] at this
    cases this
  · intro a
    rw [List.mem_cons, hh.mem, hr.entry_modify, hr.entry]
    by_cases ha : a.slot = slot
    · rw [if_pos ha, hu, hg, ha, hr.vacant]
      obtain ⟨as, ag⟩ := a
      simp only at ha
      simp [ha, eq_comm]
    · rw [if_neg ha]
      have hne : a ≠ ⟨slot, (h.entry slot).generation⟩ := fun hc => ha (congrArg Handle.slot hc)
      simp [hne]
  · have ha := hr.allocated
    rw [List.length_cons, ← hh.allocated, ← ha]
    simp only [Heap.allocated, hsize]
    rfl

theorem add_spec (hw : h.Sound) (hh : h.Holds hs) (deadline : Nanos) (key : String) (callback : κ) :
    (h.add deadline key callback).2.Sound ∧
      (h.add deadline key callback).2.Holds ((h.add deadline key callback).1 :: hs) := by
  have hr := reserve_reserved hw
  rcases hre : h.reserve with ⟨slot, h₁⟩
  rw [hre] at hr
  simp only [add, hre]
  obtain ⟨hw₂, hn⟩ := hr.modify_sound hw
    (f := fun e => { e with deadline, key, callback := some callback, inUse := true })
    (fun _ => rfl) (fun _ => rfl) (fun _ => rfl)
  have hh₂ := hr.modify_holds hh
    (f := fun e => { e with deadline, key, callback := some callback, inUse := true })
    (fun _ => rfl) (fun _ => rfl)
  have hu : ((h₁.modify slot fun e =>
      { e with deadline, key, callback := some callback, inUse := true }).entry slot).inUse =
        true := by
    rw [entry_modify, if_pos ⟨rfl, hr.lt⟩]
  exact ⟨push_sound hw₂ hu hn, (push_onlyReorders _ slot).holds hh₂⟩

def release (h : Heap κ) (slot : Nat) (f : Entry κ → Entry κ) : Heap κ :=
  { h.modify slot f with free := slot :: h.free }

theorem release_entry {s : Nat} (hs : s < h.entries.size) (f : Entry κ → Entry κ) (t : Nat) :
    (h.release s f).entry t = if t = s then f (h.entry t) else h.entry t := by
  refine (entry_modify h s t f).trans ?_
  simp only [hs, and_true]
  split_ifs with ht
  · rw [ht]
  · rfl

@[simp] theorem release_size (h : Heap κ) (s : Nat) (f : Entry κ → Entry κ) :
    (h.release s f).entries.size = h.entries.size := Array.size_modify

theorem release_sound (hw : h.Sound) {s : Nat} (hs : (h.entry s).inUse = true) (hn : s ∉ h.order)
    {f : Entry κ → Entry κ} (hp : ∀ e, (f e).place = e.place) (hu : ∀ e, (f e).inUse = false) :
    (h.release s f).Sound := by
  have hlt := lt_of_inUse hs
  have hnf : s ∉ h.free := by
    intro hf
    have := ((hw.mem_free _).1 hf).2
    rw [hs] at this
    cases this
  refine ⟨modify_ordered hw.ordered hn f, modify_linked hw.linked s hp, List.nodup_cons.2 ⟨hnf,
    hw.free_nodup⟩, ?_, ?_, ?_⟩
  · intro t
    change t ∈ s :: h.free ↔ _
    rw [release_entry hlt, release_size, List.mem_cons, hw.mem_free]
    split_ifs with ht
    · simp [ht, hu, hlt]
    · simp [ht]
  · intro t ht
    have hne : t ≠ s := fun hc => hn (hc ▸ ht)
    rw [release_entry hlt, if_neg hne]
    exact hw.scheduled t ht
  · intro t ht
    rw [release_entry hlt] at ht ⊢
    split_ifs at ht ⊢ with hts
    · rw [hu] at ht
      cases ht
    · exact hw.callback t ht

theorem release_holds (hh : h.Holds hs) {a : Handle} (ha : a ∈ hs)
    {f : Entry κ → Entry κ} (hu : ∀ e, (f e).inUse = false) :
    (h.release a.slot f).Holds (hs.erase a) := by
  obtain ⟨hua, hga⟩ := (hh.mem a).1 ha
  refine ⟨hh.nodup.erase a, ?_, ?_⟩
  · intro b
    rw [hh.nodup.mem_erase_iff, hh.mem, release_entry (lt_of_inUse hua)]
    split_ifs with hb
    · -- Two handles of one slot that are both out have the same generation.
      rw [hu]
      constructor
      · rintro ⟨hne, -, hgb⟩
        rw [hb] at hgb
        exact absurd (handle_ext hb (hgb.symm.trans hga)) hne
      · rintro ⟨hf, -⟩
        cases hf
    · have hne : b ≠ a := fun hc => hb (congrArg Handle.slot hc)
      simp [hne]
  · have hal := hh.allocated
    have hfl : (h.release a.slot f).free.length = h.free.length + 1 := List.length_cons
    rw [Heap.allocated] at hal ⊢
    rw [List.length_erase_of_mem ha, ← hal, release_size, hfl]
    omega

theorem del_spec (hw : h.Sound) (hh : h.Holds hs) (a : Handle) :
    (h.del a).2.Sound ∧ (h.del a).2.Holds (hs.erase a) ∧ ((h.del a).1 = true ↔ a ∈ hs) := by
  cases hl : h.live? a with
  | none =>
    have hn : a ∉ hs := fun ha => (live?_eq_none h a).1 hl ((hh.mem a).1 ha)
    simp only [del, hl, hn, List.erase_of_not_mem hn]
    exact ⟨hw, hh, by simp⟩
  | some e =>
    obtain ⟨rfl, hu, hg⟩ := (live?_eq_some h a e).1 hl
    have ha : a ∈ hs := (hh.mem a).2 ⟨hu, hg⟩
    obtain ⟨hw₁, hn⟩ := unschedule_sound hw a.slot
    have hua : ((h.unschedule (h.entry a.slot)).entry a.slot).inUse = true := by
      rw [(unschedule_onlyReorders h _).inUse]
      exact hu
    simp only [del, hl]
    exact ⟨release_sound hw₁ hua hn (fun _ => rfl) fun _ => rfl,
      release_holds ((unschedule_onlyReorders h _).holds hh) ha fun _ => rfl, by simp [ha]⟩

theorem set_spec (hw : h.Sound) (hh : h.Holds hs) (a : Handle) (deadline : Nanos) :
    (h.set a deadline).2.Sound ∧ (h.set a deadline).2.Holds hs ∧
      ((h.set a deadline).1 = true ↔ a ∈ hs) := by
  cases hl : h.live? a with
  | none =>
    have hn : a ∉ hs := fun ha => (live?_eq_none h a).1 hl ((hh.mem a).1 ha)
    simp only [set, hl]
    exact ⟨hw, hh, by simp [hn]⟩
  | some e =>
    obtain ⟨rfl, hu, hg⟩ := (live?_eq_some h a e).1 hl
    have ha : a ∈ hs := (hh.mem a).2 ⟨hu, hg⟩
    obtain ⟨hw₁, hn⟩ := unschedule_sound hw a.slot
    have hk := unschedule_onlyReorders h (h.entry a.slot)
    simp only [set, hl]
    split_ifs
    · exact ⟨hw, hh, by simp [ha]⟩
    · have hw₂ := modify_sound hw₁ a.slot (f := fun e => { e with deadline }) (fun _ => rfl)
        (fun _ => rfl)
        (fun _ => rfl) (modify_ordered hw₁.ordered hn _)
      have hu₂ : (((h.unschedule (h.entry a.slot)).modify a.slot
          fun e => { e with deadline }).entry a.slot).inUse = true := by
        rw [entry_modify, if_pos ⟨rfl, by rw [hk.size]; exact lt_of_inUse hu⟩, hk.inUse]
        exact hu
      have hh₂ := modify_holds (hk.holds hh) a.slot (f := fun e => { e with deadline })
        (fun _ => rfl)
        (fun _ => rfl)
      exact ⟨push_sound hw₂ hu₂ hn, (push_onlyReorders _ _).holds hh₂, by simp [ha]⟩

theorem setKey_spec (hw : h.Sound) (hh : h.Holds hs) (a : Handle) (key : String) :
    (h.setKey a key).Sound ∧ (h.setKey a key).Holds hs := by
  cases hl : h.live? a with
  | none =>
    simp only [setKey, hl]
    exact ⟨hw, hh⟩
  | some e =>
    simp only [setKey, hl]
    have ho : (h.modify a.slot fun e => { e with key }).Ordered := by
      refine ordered_of_deadline hw.ordered rfl ?_
      intro s
      rw [entry_modify]
      split_ifs with hs
      · rw [hs.1]
      · rfl
    exact ⟨modify_sound hw a.slot (fun _ => rfl) (fun _ => rfl) (fun _ => rfl) ho,
      modify_holds hh a.slot (fun _ => rfl) (fun _ => rfl)⟩

theorem expireLoop_spec (now : Nanos) (fuel : Nat) (h : Heap κ) (hw : h.Sound) (hh : h.Holds hs) :
    (expireLoop now fuel h).2.Sound ∧ (expireLoop now fuel h).2.Holds hs := by
  induction fuel generalizing h with
  | zero => exact ⟨hw, hh⟩
  | succ fuel ih =>
    simp only [expireLoop]
    cases hr : h.order[0]? with
    | none => exact ⟨hw, hh⟩
    | some slot =>
      dsimp only
      split_ifs
      · exact ⟨hw, hh⟩
      · have hi := (Array.getElem?_eq_some_iff.1 hr).1
        exact ih _ (removeAt_sound hw hi) ((removeAt_onlyReorders h 0).holds hh)

end

end PushGateway.Timer.Heap
