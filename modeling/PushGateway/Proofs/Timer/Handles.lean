import Mathlib.Tactic.Common
import PushGateway.Proofs.Timer.Invariant
import PushGateway.Timer.Shard

/-!
What an operation on one handle leaves alone: the entries of all other slots, and which of them are
scheduled. The generation of a slot only grows, so a handle that has been given back names nothing
for good.
-/

namespace PushGateway.Timer.Heap

variable {κ : Type}

/-- The invariant of a heap, with whatever handles are out. -/
structure Fit (h : Heap κ) : Prop where
  sound : h.Sound
  held : ∃ hs, h.Holds hs

/-- The handle is out, and its entry calls `callback`. -/
structure Armed (h : Heap κ) (a : Handle) (callback : κ) : Prop where
  callback : (h.entry a.slot).callback = some callback
  inUse : (h.entry a.slot).inUse = true
  generation : (h.entry a.slot).generation = a.generation

def Spent (h : Heap κ) (a : Handle) : Prop := a.generation < (h.entry a.slot).generation

/-- Of all slots but `s` the entries are as they were, and scheduled if they were. -/
structure KeepsOthers (h : Heap κ) (s : Nat) (h' : Heap κ) : Prop where
  entry : ∀ t, t ≠ s → (h'.entry t).unplaced = (h.entry t).unplaced
  scheduled : ∀ t, t ≠ s → (t ∈ h'.order ↔ t ∈ h.order)

structure KeepsCallbacks (h : Heap κ) (a : Handle) (h' : Heap κ) : Prop where
  callback : (h'.entry a.slot).callback = (h.entry a.slot).callback
  inUse : (h'.entry a.slot).inUse = (h.entry a.slot).inUse
  generation : (h'.entry a.slot).generation = (h.entry a.slot).generation

structure HolderUses (h : Heap κ) (a : Handle) (h' : Heap κ) : Prop where
  fit : h'.Fit
  keepsOthers : h.KeepsOthers a.slot h'
  own : h.KeepsCallbacks a h' ∨ (h'.entry a.slot).callback = none ∧
    (h.entry a.slot).generation < (h'.entry a.slot).generation

structure HandsOut (h : Heap κ) (a : Handle) (callback : κ) (h' : Heap κ) : Prop where
  fit : h'.Fit
  keepsOthers : h.KeepsOthers a.slot h'
  vacant : (h.entry a.slot).inUse = false
  armed : h'.Armed a callback
  generation : (h.entry a.slot).generation = a.generation

section
variable {h h' h'' : Heap κ} {a b : Handle} {s : Nat} {callback : κ}

theorem KeepsOthers.refl (h : Heap κ) (s : Nat) : h.KeepsOthers s h :=
  ⟨fun _ _ => rfl, fun _ _ => .rfl⟩

theorem KeepsOthers.trans (hs : h.KeepsOthers s h') (hs' : h'.KeepsOthers s h'') :
    h.KeepsOthers s h'' :=
  ⟨fun t ht => (hs'.entry t ht).trans (hs.entry t ht),
    fun t ht => (hs'.scheduled t ht).trans (hs.scheduled t ht)⟩

theorem KeepsOthers.generation (hs : h.KeepsOthers s h') {t : Nat} (ht : t ≠ s) :
    (h'.entry t).generation = (h.entry t).generation := congrArg (·.generation) (hs.entry t ht)

theorem KeepsOthers.callback_eq (hs : h.KeepsOthers s h') {t : Nat} (ht : t ≠ s) :
    (h'.entry t).callback = (h.entry t).callback := congrArg (·.callback) (hs.entry t ht)

theorem KeepsOthers.armed (hs : h.KeepsOthers s h') (ha : h.Armed a callback) (hne : a.slot ≠ s) :
    h'.Armed a callback := by
  have he := hs.entry a.slot hne
  exact ⟨(hs.callback_eq hne).trans ha.callback, (congrArg (·.inUse) he).trans ha.inUse,
    (hs.generation hne).trans ha.generation⟩

theorem KeepsCallbacks.refl (h : Heap κ) (a : Handle) : h.KeepsCallbacks a h := ⟨rfl, rfl, rfl⟩

theorem KeepsCallbacks.trans (ht : h.KeepsCallbacks a h') (ht' : h'.KeepsCallbacks a h'') :
    h.KeepsCallbacks a h'' :=
  ⟨ht'.callback.trans ht.callback, ht'.inUse.trans ht.inUse, ht'.generation.trans ht.generation⟩

theorem KeepsCallbacks.armed (ht : h.KeepsCallbacks a h') (ha : h.Armed a callback) :
    h'.Armed a callback :=
  ⟨ht.callback.trans ha.callback, ht.inUse.trans ha.inUse, ht.generation.trans ha.generation⟩

theorem HolderUses.refl (hf : h.Fit) (a : Handle) : h.HolderUses a h :=
  ⟨hf, .refl h a.slot, .inl (.refl h a)⟩

theorem HolderUses.generation (hm : h.HolderUses a h') (s : Nat) :
    (h.entry s).generation ≤ (h'.entry s).generation := by
  by_cases hs : s = a.slot
  · subst hs
    rcases hm.own with ht | ⟨-, hlt⟩
    · exact Nat.le_of_eq ht.generation.symm
    · exact Nat.le_of_lt hlt
  · exact Nat.le_of_eq (hm.keepsOthers.generation hs).symm

theorem HolderUses.trans (hm : h.HolderUses a h') (hm' : h'.HolderUses a h'') :
    h.HolderUses a h'' := by
  refine ⟨hm'.fit, hm.keepsOthers.trans hm'.keepsOthers, ?_⟩
  rcases hm'.own with ht' | ⟨hc, hlt⟩
  · rcases hm.own with ht | ⟨hc, hlt⟩
    · exact .inl (ht.trans ht')
    · exact .inr ⟨ht'.callback.trans hc, Nat.lt_of_lt_of_eq hlt ht'.generation.symm⟩
  · exact .inr ⟨hc, Nat.lt_of_le_of_lt (hm.generation a.slot) hlt⟩

theorem HolderUses.spent (hm : h.HolderUses a h') (hb : h.Spent b) : h'.Spent b :=
  Nat.lt_of_lt_of_le hb (hm.generation b.slot)

theorem HandsOut.spent (hg : h.HandsOut a callback h') (hb : h.Spent b) : h'.Spent b := by
  refine Nat.lt_of_lt_of_eq hb ?_
  by_cases hs : b.slot = a.slot
  · rw [hs, hg.generation, hg.armed.generation]
  · exact (hg.keepsOthers.generation hs).symm

theorem HandsOut.armed_old {x : κ} (hg : h.HandsOut a callback h') (hb : h.Armed b x) :
    h'.Armed b x := by
  refine hg.keepsOthers.armed hb fun hs => ?_
  have hu := hb.inUse
  rw [hs, hg.vacant] at hu
  cases hu

theorem OnlyReorders.spent (hk : h.OnlyReorders h') (hb : h.Spent b) : h'.Spent b :=
  Nat.lt_of_lt_of_eq hb (hk.generation b.slot).symm

theorem OnlyReorders.armed (hk : h.OnlyReorders h') (ha : h.Armed a callback) :
    h'.Armed a callback :=
  ⟨(hk.callback _).trans ha.callback, (hk.inUse _).trans ha.inUse,
    (hk.generation _).trans ha.generation⟩

theorem Spent.not_armed (hs : h.Spent a) : ¬ h.Armed a callback := by
  intro ha
  rw [Spent, ha.generation] at hs
  exact Nat.lt_irrefl _ hs

theorem Spent.live?_eq_none (hs : h.Spent a) : h.live? a = none := by
  rw [Heap.live?_eq_none]
  rintro ⟨-, hg⟩
  rw [Spent, hg] at hs
  exact Nat.lt_irrefl _ hs

theorem new_entry (size s : Nat) : (new size : Heap κ).entry s = {} := by
  rw [entry, new, Array.getD_eq_getD_getElem?, Array.getElem?_replicate]
  split_ifs <;> rfl

theorem new_fit (size : Nat) : (new size : Heap κ).Fit := ⟨new_sound size, [], new_holds size⟩

theorem modify_size (h : Heap κ) (s : Nat) (f : Entry κ → Entry κ) :
    (h.modify s f).entries.size = h.entries.size := Array.size_modify

theorem modify_keepsOthers (h : Heap κ) (s : Nat) (f : Entry κ → Entry κ) :
    h.KeepsOthers s (h.modify s f) := by
  refine ⟨?_, fun _ _ => .rfl⟩
  intro t ht
  rw [entry_modify, if_neg fun hc => ht hc.1]

theorem unschedule_keepsOthers (hw : h.Sound) (s : Nat) :
    h.KeepsOthers s (h.unschedule (h.entry s)) := by
  refine ⟨fun t _ => (unschedule_onlyReorders h _).entry t, ?_⟩
  intro t ht
  rw [unschedule]
  cases hp : (h.entry s).place with
  | none => exact .rfl
  | some i =>
    have hi := (hw.linked s i).1 hp
    refine ((removeAt_linked hw.linked (Array.getElem?_eq_some_iff.1 hi).1).2 t).trans ?_
    rw [slotAt_eq hi]
    exact and_iff_left ht

theorem push_keepsOthers (hl : h.Linked) (hs : s < h.entries.size) (hn : s ∉ h.order) :
    h.KeepsOthers s (h.push s) := by
  refine ⟨fun t _ => (push_onlyReorders h s).entry t, ?_⟩
  intro t ht
  rw [(push_linked hl hs hn).2]
  exact or_iff_left ht

theorem del_holderUses (hf : h.Fit) (a : Handle) : h.HolderUses a (h.del a).2 := by
  obtain ⟨hs, hh⟩ := hf.held
  have hd := del_spec hf.sound hh a
  suffices hg : h.KeepsOthers a.slot (h.del a).2 ∧ (h.KeepsCallbacks a (h.del a).2 ∨
      ((h.del a).2.entry a.slot).callback = none ∧
      (h.entry a.slot).generation < ((h.del a).2.entry a.slot).generation) from
    ⟨⟨hd.1, _, hd.2.1⟩, hg.1, hg.2⟩
  cases hl : h.live? a with
  | none =>
    simp only [del, hl]
    exact ⟨.refl h a.slot, .inl (.refl h a)⟩
  | some e =>
    obtain ⟨rfl, hu, -⟩ := (live?_eq_some h a e).1 hl
    let f (e : Entry κ) : Entry κ :=
      { e with inUse := false, callback := none, key := "", generation := e.generation + 1 }
    have hk := unschedule_onlyReorders h (h.entry a.slot)
    have hlt : a.slot < (h.unschedule (h.entry a.slot)).entries.size := hk.size ▸ lt_of_inUse hu
    have hdel : (h.del a).2 = (h.unschedule (h.entry a.slot)).release a.slot f := by
      simp only [del, hl]
      rfl
    have hentry := release_entry hlt f
    have hothers := (unschedule_keepsOthers hf.sound a.slot).trans (modify_keepsOthers _ a.slot f)
    rw [hdel]
    refine ⟨⟨hothers.entry, hothers.scheduled⟩, .inr ⟨?_, ?_⟩⟩
    · rw [hentry, if_pos rfl]
    · rw [hentry, if_pos rfl]
      exact Nat.lt_succ_of_le (Nat.le_of_eq (hk.generation a.slot).symm)

theorem del_spent (hf : h.Fit) (ha : h.Armed a callback) : (h.del a).2.Spent a := by
  rcases (del_holderUses hf a).own with ht | ⟨-, hlt⟩
  · -- A handle that is out does not stay so.
    obtain ⟨hs, hh⟩ := hf.held
    have hm : a ∈ hs := (hh.mem a).2 ⟨ha.inUse, ha.generation⟩
    have hd := (del_spec hf.sound hh a).2.1
    have hm' := (hd.mem a).2 ⟨(ht.armed ha).inUse, (ht.armed ha).generation⟩
    exact absurd hm' (hh.nodup.not_mem_erase)
  · exact Nat.lt_of_le_of_lt (Nat.le_of_eq ha.generation.symm) hlt

theorem set_keepsCallbacks (hf : h.Fit) (a : Handle) (deadline : Nanos) :
    h.HolderUses a (h.set a deadline).2 ∧ h.KeepsCallbacks a (h.set a deadline).2 := by
  obtain ⟨hs, hh⟩ := hf.held
  have hd := set_spec hf.sound hh a deadline
  suffices hg : h.KeepsOthers a.slot (h.set a deadline).2 ∧
    h.KeepsCallbacks a (h.set a deadline).2 from
    ⟨⟨⟨hd.1, _, hd.2.1⟩, hg.1, .inl hg.2⟩, hg.2⟩
  cases hl : h.live? a with
  | none =>
    simp only [set, hl]
    exact ⟨.refl h a.slot, .refl h a⟩
  | some e =>
    obtain ⟨rfl, hu, -⟩ := (live?_eq_some h a e).1 hl
    simp only [set, hl]
    split_ifs
    · exact ⟨.refl h a.slot, .refl h a⟩
    · obtain ⟨hw, hn⟩ := unschedule_sound hf.sound a.slot
      have hk := unschedule_onlyReorders h (h.entry a.slot)
      have hlt : a.slot < (h.unschedule (h.entry a.slot)).entries.size := hk.size ▸ lt_of_inUse hu
      have hm : ((h.unschedule (h.entry a.slot)).modify a.slot
          fun e => { e with deadline }).entry a.slot =
          { (h.unschedule (h.entry a.slot)).entry a.slot with deadline } := by
        rw [entry_modify, if_pos ⟨rfl, hlt⟩]
      have hp := push_onlyReorders
        ((h.unschedule (h.entry a.slot)).modify a.slot fun e => { e with deadline }) a.slot
      have hl' := modify_linked hw.linked a.slot (f := fun e => { e with deadline }) fun _ => rfl
      have hlt' := Nat.lt_of_lt_of_eq hlt
        (modify_size _ a.slot fun e : Entry κ => { e with deadline }).symm
      refine ⟨((unschedule_keepsOthers hf.sound a.slot).trans (modify_keepsOthers _ a.slot _)).trans
        (push_keepsOthers hl' hlt' hn), ?_, ?_, ?_⟩
      · rw [hp.callback, hm]
        exact hk.callback a.slot
      · rw [hp.inUse, hm]
        exact hk.inUse a.slot
      · rw [hp.generation, hm]
        exact hk.generation a.slot

theorem setKey_keepsCallbacks (hf : h.Fit) (a : Handle) (key : String) :
    h.HolderUses a (h.setKey a key) ∧ h.KeepsCallbacks a (h.setKey a key) := by
  obtain ⟨hs, hh⟩ := hf.held
  have hd := setKey_spec hf.sound hh a key
  suffices hg : h.KeepsOthers a.slot (h.setKey a key) ∧ h.KeepsCallbacks a (h.setKey a key) from
    ⟨⟨⟨hd.1, _, hd.2⟩, hg.1, .inl hg.2⟩, hg.2⟩
  cases hl : h.live? a with
  | none =>
    simp only [setKey, hl]
    exact ⟨.refl h a.slot, .refl h a⟩
  | some e =>
    obtain ⟨rfl, hu, -⟩ := (live?_eq_some h a e).1 hl
    simp only [setKey, hl]
    refine ⟨modify_keepsOthers h a.slot _, ?_, ?_, ?_⟩ <;> rw [entry_modify,
      if_pos ⟨rfl, lt_of_inUse hu⟩]

theorem add_handsOut (hf : h.Fit) (deadline : Nanos) (key : String) (callback : κ) :
    h.HandsOut (h.add deadline key callback).1 callback (h.add deadline key callback).2 := by
  obtain ⟨hs, hh⟩ := hf.held
  have hd := add_spec hf.sound hh deadline key callback
  have hr := reserve_reserved hf.sound
  have hfit : (h.add deadline key callback).2.Fit := ⟨hd.1, _, hd.2⟩
  clear hd
  simp only [add] at hfit ⊢
  generalize h.reserve = reserved at hr hfit ⊢
  obtain ⟨slot, h₁⟩ := reserved
  let f (e : Entry κ) : Entry κ :=
    { e with deadline, key, callback := some callback, inUse := true }
  obtain ⟨hw, hn⟩ := hr.modify_sound hf.sound (f := f) (fun _ => rfl) (fun _ => rfl) fun _ => rfl
  have hp := push_onlyReorders (h₁.modify slot f) slot
  have he : (h₁.modify slot f).entry slot = f (h.entry slot) :=
    (hr.entry_modify f slot).trans (if_pos rfl)
  have hsp := push_keepsOthers hw.linked (Nat.lt_of_lt_of_eq hr.lt (modify_size h₁ slot f).symm) hn
  refine ⟨hfit, ⟨?_, ?_⟩, hr.vacant, ⟨?_, ?_, ?_⟩, congrArg Entry.generation (hr.entry slot).symm⟩
  · intro t ht
    refine (hsp.entry t ht).trans ?_
    rw [hr.entry_modify, if_neg ht]
  · intro t ht
    refine (hsp.scheduled t ht).trans ?_
    change t ∈ h₁.order ↔ _
    rw [hr.order]
  · exact (hp.callback slot).trans (congrArg Entry.callback he)
  · exact (hp.inUse slot).trans (congrArg Entry.inUse he)
  · refine (hp.generation slot).trans ((congrArg Entry.generation he).trans ?_)
    exact congrArg (·.generation) (hr.entry slot).symm

theorem expire_onlyReorders (h : Heap κ) (now : Nanos) : h.OnlyReorders (h.expire now).2 := by
  rw [expire]
  generalize h.order.size = fuel
  induction fuel generalizing h with
  | zero => exact .refl h
  | succ fuel ih =>
    simp only [expireLoop]
    cases h.order[0]? with
    | none => exact .refl h
    | some slot =>
      dsimp only
      split_ifs
      · exact .refl h
      · exact (removeAt_onlyReorders h 0).trans (ih _)

theorem expire_fit (hf : h.Fit) (now : Nanos) : (h.expire now).2.Fit := by
  obtain ⟨hs, hh⟩ := hf.held
  obtain ⟨hw, hh'⟩ := expireLoop_spec now h.order.size h hf.sound hh
  exact ⟨hw, hs, hh'⟩

end

end PushGateway.Timer.Heap

namespace PushGateway.Timer.Shard

variable {κ : Type} {s s' : Shard κ} {now delay : Nanos} {a : Handle}

@[simp] theorem rearm_heap (s : Shard κ) (a : Handle) : (s.rearm a).heap = s.heap := by
  rw [rearm]
  split <;> rfl

theorem set?_keepsCallbacks (hf : s.heap.Fit) {ok : Bool} (h : s.set? now a delay = some (ok, s')) :
    s.heap.HolderUses a s'.heap ∧ s.heap.KeepsCallbacks a s'.heap := by
  obtain ⟨deadline, -, he⟩ := Option.map_eq_some_iff.1 h
  have hset := Heap.set_keepsCallbacks hf a deadline
  generalize s.heap.set a deadline = set at he hset
  obtain ⟨ok', heap⟩ := set
  cases he
  split
  · rw [rearm_heap]
    exact hset
  · exact hset

theorem add?_handsOut (hf : s.heap.Fit) {key : String} {callback : κ}
    (h : s.add? now delay key callback = some (a, s')) : s.heap.HandsOut a callback s'.heap := by
  obtain ⟨deadline, -, he⟩ := Option.map_eq_some_iff.1 h
  have hadd := Heap.add_handsOut hf deadline key callback
  generalize s.heap.add deadline key callback = added at he hadd
  obtain ⟨handle, heap⟩ := added
  cases he
  rw [rearm_heap]
  exact hadd

theorem step_onlyReorders {callback : Option κ} (h : s.step now = some (callback, s')) :
    s.heap.OnlyReorders s'.heap := by
  rw [step] at h
  split at h
  · cases h
    exact Heap.expire_onlyReorders s.heap now
  · cases h
    exact .refl _
  · cases h
    exact .refl _
  · split_ifs at h
    · cases h
      exact .refl _
    · cases h
      exact .refl _

theorem step_fit (hf : s.heap.Fit) {callback : Option κ} (h : s.step now = some (callback, s')) :
    s'.heap.Fit := by
  rw [step] at h
  split at h
  · cases h
    exact Heap.expire_fit hf now
  · cases h
    exact hf
  · cases h
    exact hf
  · split_ifs at h
    · cases h
      exact hf
    · cases h
      exact hf

end PushGateway.Timer.Shard
