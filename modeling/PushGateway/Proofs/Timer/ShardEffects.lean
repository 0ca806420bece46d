import PushGateway.Proofs.Timer.Driver

/-!
What the holder of a handle can rely on. Once it has moved its deadline, the entry is scheduled, and
for a time that is off by less than the lazy delay, be it that it was moved or that it was left.
From then on the entry is scheduled until its task takes it, which it does when the deadline has
passed, and what the task has taken it runs.
-/

namespace PushGateway.Timer

variable {κ : Type}

namespace Heap

theorem distance_lt_iff {a b e : Nat} : distance a b < e ↔ a < b + e ∧ b < a + e := by
  change max a b - min a b < e ↔ _
  omega

theorem distance_self (a : Nanos) : distance a a = 0 := by simp [distance]

theorem lazyDelay_pos : 0 < lazyDelay := by decide

section
variable {h : Heap κ} {a : Handle}

/-- However often deadlines are left where they are, the one that stands is near the last that was
asked. -/
theorem set_near (hf : h.Fit) (hl : h.live? a ≠ none) (d : Nanos) :
    (h.set a d).2.Waits a ∧ distance d ((h.set a d).2.entry a.slot).deadline < lazyDelay := by
  obtain ⟨e, he⟩ := Option.ne_none_iff_exists'.1 hl
  obtain ⟨rfl, hu, hg⟩ := (live?_eq_some h a e).1 he
  simp only [set, he]
  split_ifs with hlazy
  · exact ⟨⟨hf.sound.linked.mem_iff.2 hlazy.1, hg⟩, hlazy.2⟩
  · obtain ⟨hw, hn⟩ := unschedule_sound hf.sound a.slot
    have hk := unschedule_onlyReorders h (h.entry a.slot)
    have hlt : a.slot < (h.unschedule (h.entry a.slot)).entries.size := hk.size ▸ lt_of_inUse hu
    have hm : ((h.unschedule (h.entry a.slot)).modify a.slot fun e =>
      { e with deadline := d }).entry a.slot =
        { (h.unschedule (h.entry a.slot)).entry a.slot with deadline := d } := by
      rw [entry_modify, if_pos ⟨rfl, hlt⟩]
    have hp := push_onlyReorders
      ((h.unschedule (h.entry a.slot)).modify a.slot fun e => { e with deadline := d }) a.slot
    have hlinked := modify_linked hw.linked a.slot (f := fun e => { e with deadline := d })
      fun _ => rfl
    have hlt' := Nat.lt_of_lt_of_eq hlt
      (modify_size _ a.slot fun e : Entry κ => { e with deadline := d }).symm
    refine ⟨⟨((push_linked hlinked hlt' hn).2 a.slot).2 (.inr rfl), ?_⟩, ?_⟩
    · rw [hp.generation, hm]
      exact (hk.generation a.slot).trans hg
    · rw [hp.deadline, hm, distance_self]
      exact lazyDelay_pos

theorem Spent.not_waits (hs : h.Spent a) : ¬ h.Waits a := fun hw => Nat.ne_of_gt hs hw.2

end

end Heap

namespace Shard

inductive HolderEffect (a : Handle) (s : Shard κ) : Shard κ → Prop
  | refl : HolderEffect a s s
  | setKey {s' : Shard κ} (key : String) : HolderEffect a s s' → HolderEffect a s (s'.setKey a key)
  | set {s' s'' : Shard κ} {now delay : Nanos} {ok : Bool} : HolderEffect a s s' →
      s'.set? now a delay = some (ok, s'') → HolderEffect a s s''
  | del {s' : Shard κ} : HolderEffect a s s' → HolderEffect a s (s'.del a).2

/-- What becomes of a shard: its holders have handled it, a new entry has come in, or its task has
made a step. -/
inductive ShardEffect (now : Nanos) (s : Shard κ) (s' : Shard κ) : Prop
  | holderEffect (a : Handle) : HolderEffect a s s' → ShardEffect now s s'
  | added {delay : Nanos} {key : String} {x : κ} (a : Handle) :
      s.add? now delay key x = some (a, s') → ShardEffect now s s'
  | stepped (callback : Option κ) : Stepped now s callback s' → ShardEffect now s s'

section
variable {s s' : Shard κ} {a : Handle} {x : κ} {now delay : Nanos} {ok : Bool} {callback : Option κ}

theorem set?_eq_none : s.set? now a delay = none ↔ Nanos.clockEnd ≤ now + delay := by
  rw [set?, Option.map_eq_none_iff, Nanos.after?]
  split_ifs with hd
  · simp [hd]
  · simp [Nat.not_lt.1 hd]

theorem set?_near (hf : s.heap.Fit) (hl : s.heap.live? a ≠ none)
    (h : s.set? now a delay = some (ok, s')) :
    s'.heap.Waits a ∧ Heap.distance (now + delay) (s'.heap.entry a.slot).deadline < lazyDelay := by
  obtain ⟨d, hd, he⟩ := Option.map_eq_some_iff.1 h
  have hset := Heap.set_near hf hl d
  generalize s.heap.set a d = set at he hset
  have hheap : s'.heap = set.2 := by
    cases he
    split
    · rw [rearm_heap]
    · rfl
  have hsum : now + delay = d := by
    rw [Nanos.after?] at hd
    split_ifs at hd
    exact Option.some.inj hd
  rw [hheap, hsum]
  exact hset

theorem HolderEffect.trans {s'' : Shard κ} (h : HolderEffect a s s') (h' : HolderEffect a s' s'') :
    HolderEffect a s s'' := by
  induction h' with
  | refl => exact h
  | setKey key _ ih => exact ih.setKey key
  | set _ hset ih => exact ih.set hset
  | del _ ih => exact ih.del

theorem HolderEffect.phase (h : HolderEffect a s s') : s'.phase = s.phase := by
  induction h with
  | refl => rfl
  | setKey key _ ih => exact ih
  | set _ hset ih => exact (set?_phase hset).trans ih
  | del _ ih => exact ih

theorem HolderEffect.alert (h : HolderEffect a s s') (hf : s.heap.Fit) (ha : s.Alert) :
    s'.heap.Fit ∧ s'.Alert := by
  induction h with
  | refl => exact ⟨hf, ha⟩
  | setKey key _ ih => exact ⟨(Heap.setKey_keepsCallbacks ih.1 a key).1.fit, ih.2.setKey a key⟩
  | set _ hset ih => exact ⟨(set?_keepsCallbacks ih.1 hset).1.fit, ih.2.set? ih.1 hset⟩
  | del _ ih => exact ⟨(Heap.del_holderUses ih.1 a).fit, ih.2.del ih.1 a⟩

theorem Stepped.waits (hf : s.heap.Fit) (h : Stepped now s callback s') (hw : s'.heap.Waits a) :
    s.heap.Waits a := by
  have hg := h.onlyReorders.generation a.slot
  refine ⟨?_, hg.symm.trans hw.2⟩
  cases h with
  | look =>
    obtain ⟨out, he⟩ := Heap.expire_expired hf.sound now
    exact Array.mem_toList_iff.1
      (he.order.mem_iff.2 (List.mem_append_right _ (Array.mem_toList_iff.2 hw.1)))
  | fire => exact hw.1
  | park => exact hw.1
  | notice => exact hw.1
  | alarm => exact hw.1

theorem Stepped.guards (hf : s.heap.Fit) (ha : s.heap.Armed a x) (h : Stepped now s callback s')
    (hg : s.heap.Waits a ∨ x ∈ s.phase.hand) : s'.heap.Waits a ∨ x ∈ s'.phase.hand ∨
    callback = some x := by
  have hempty {p : Phase κ} (hp : s.phase = p) (hnil : p.hand = []) : s.heap.Waits a := by
    refine hg.resolve_right fun hx => ?_
    rw [hp, hnil] at hx
    cases hx
  cases h with
  | look hp =>
    have hw := hempty hp rfl
    obtain ⟨out, he⟩ := Heap.expire_expired hf.sound now
    have hmem := he.order.mem_iff.1 (Array.mem_toList_iff.2 hw.1)
    rcases List.mem_append.1 hmem with hout | hin
    · right; left
      have hdue : s.heap.due? a.slot = some ((s.heap.entry a.slot).key, x) := by
        rw [Heap.due?, ha.callback, Option.map_some]
      have hmem' : ((s.heap.entry a.slot).key, x) ∈ (s.heap.expire now).1 :=
        he.due ▸ List.mem_filterMap.2 ⟨a.slot, hout, hdue⟩
      exact List.mem_map.2 ⟨_, hmem', rfl⟩
    · exact .inl ⟨Array.mem_toList_iff.1 hin,
        ((Heap.expire_onlyReorders s.heap now).generation a.slot).trans hw.2⟩
  | fire hp =>
    rw [hp] at hg
    rcases hg with hw | hx
    · exact .inl hw
    · rcases List.mem_cons.1 hx with rfl | hx
      · exact .inr (.inr rfl)
      · exact .inr (.inl hx)
  | park hp => exact .inl (hempty hp rfl)
  | notice hp => exact .inl (hempty hp rfl)
  | alarm hp => exact .inl (hempty hp rfl)

theorem Stepped.hand (hf : s.heap.Fit) (h : Stepped now s callback s') (hx : x ∈ s'.phase.hand) :
    x ∈ s.phase.hand ∨
      ∃ t ∈ s.heap.order, (s.heap.entry t).callback = some x ∧ (s.heap.entry t).deadline ≤ now := by
  cases h with
  | look hp =>
    right
    obtain ⟨out, he⟩ := Heap.expire_expired hf.sound now
    obtain ⟨⟨key, y⟩, hmem, rfl⟩ := List.mem_map.1 hx
    rw [he.due] at hmem
    obtain ⟨t, hout, hdue⟩ := List.mem_filterMap.1 hmem
    obtain ⟨y', hy, hpair⟩ := Option.map_eq_some_iff.1 hdue
    cases hpair
    have horder := he.order.mem_iff.2 (List.mem_append_left _ hout)
    exact ⟨t, Array.mem_toList_iff.1 horder, hy, he.passed t hout⟩
  | fire hp =>
    left
    rw [hp]
    exact .tail _ hx
  | park hp => cases hx
  | notice hp => cases hx
  | alarm hp => cases hx

theorem ShardEffect.alert (h : ShardEffect now s s') (hf : s.heap.Fit) (ha : s.Alert) :
    s'.Alert := by
  cases h with
  | holderEffect a ht => exact (ht.alert hf ha).2
  | added a hadd => exact ha.add? hf hadd
  | stepped callback hs => exact hs.alert hf ha

theorem ShardEffect.hand (h : ShardEffect now s s') (hf : s.heap.Fit) (hx : x ∈ s'.phase.hand) :
    x ∈ s.phase.hand ∨
      ∃ t ∈ s.heap.order, (s.heap.entry t).callback = some x ∧ (s.heap.entry t).deadline ≤ now := by
  cases h with
  | holderEffect a ht => exact .inl (ht.phase ▸ hx)
  | added a hadd => exact .inl (add?_phase hadd ▸ hx)
  | stepped callback hs => exact hs.hand hf hx

theorem Stepped.runs (h : Stepped now s (some x) s') : x ∈ s.phase.hand := by
  cases h with
  | fire hp =>
    rw [hp]
    exact .head _

end

end Shard

end PushGateway.Timer
