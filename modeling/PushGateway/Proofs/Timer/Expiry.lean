import Mathlib.Data.List.Nodup
import PushGateway.Proofs.Timer.Handles
import PushGateway.Proofs.Timer.Runs

/-!
Which entries are scheduled. The root of the heap is due first, so taking roots while they are due
takes all that is due, once each, and leaves the rest. Any other operation concerns the handle it is
given alone.
-/

namespace PushGateway.Timer.Heap

variable {κ : Type}

def Waits (h : Heap κ) (a : Handle) : Prop :=
  a.slot ∈ h.order ∧ (h.entry a.slot).generation = a.generation

instance (h : Heap κ) (a : Handle) : Decidable (h.Waits a) := inferInstanceAs (Decidable (_ ∧ _))

def due? (h : Heap κ) (s : Nat) : Option (String × κ) :=
  (h.entry s).callback.map ((h.entry s).key, ·)

/-- The slots `out` have left the heap, those due by `now`, the earliest first, and `due` is what
there is to run for them. -/
structure Expired (h : Heap κ) (now : Nanos) (out : List Nat) (due : List (String × κ))
    (h' : Heap κ) :
    Prop where
  order : h.order.toList.Perm (out ++ h'.order.toList)
  sorted : out.Pairwise fun s t => (h.entry s).deadline ≤ (h.entry t).deadline
  due : due = out.filterMap h.due?
  passed : ∀ s ∈ out, (h.entry s).deadline ≤ now
  later : ∀ s ∈ h'.order, now < (h.entry s).deadline

section
variable {h h' : Heap κ} {a b : Handle} {s : Nat} {callback : κ} {d now : Nanos}

theorem Ordered.root_le (ho : h.Ordered) {i : Nat} (hi : i < h.order.size) :
    h.deadlineAt 0 ≤ h.deadlineAt i := by
  induction i using Nat.strongRecOn with
  | ind i ih =>
    rcases Nat.eq_zero_or_pos i with rfl | h0
    · exact Nat.le_refl _
    · have hp := ih ((i - 1) / 2) (by omega) (by omega)
      exact Nat.le_trans hp (ho i h0 hi)

theorem root_mem (hr : h.order[0]? = some s) : s ∈ h.order := Array.mem_iff_getElem?.2 ⟨0, hr⟩

theorem Ordered.root_deadline_le (ho : h.Ordered) (hr : h.order[0]? = some s) {t : Nat}
    (ht : t ∈ h.order) : (h.entry s).deadline ≤ (h.entry t).deadline := by
  obtain ⟨i, hi, rfl⟩ := mem_order.1 ht
  have hle := ho.root_le hi
  rw [deadlineAt, deadlineAt, slotAt_eq hr] at hle
  exact hle

theorem peek?_eq_some (h : Heap κ) (d : Nanos) :
    h.peek? = some d ↔ ∃ s, h.order[0]? = some s ∧ (h.entry s).deadline = d :=
      Option.map_eq_some_iff

theorem exists_root (hs : s ∈ h.order) : ∃ r, h.order[0]? = some r := by
  obtain ⟨i, hi, -⟩ := mem_order.1 hs
  exact ⟨_, Array.getElem?_eq_getElem (by omega)⟩

theorem OnlyReorders.due? (hk : h.OnlyReorders h') : h'.due? = h.due? := by
  funext s
  have hkey : (h'.entry s).key = (h.entry s).key := congrArg (·.key) (hk.entry s)
  rw [Heap.due?, hk.callback, hkey, Heap.due?]

theorem Expired.none (hl : ∀ s ∈ h.order, now < (h.entry s).deadline) : h.Expired now [] [] h :=
  ⟨.refl _, .nil, rfl, fun _ hs => (List.not_mem_nil hs).elim, hl⟩

theorem expireLoop_expired (now : Nanos) (fuel : Nat) (hw : h.Sound) (hn : h.order.size ≤ fuel) :
    ∃ out, h.Expired now out (expireLoop now fuel h).1 (expireLoop now fuel h).2 := by
  induction fuel generalizing h with
  | zero =>
    refine ⟨[], .none ?_⟩
    intro s hs
    obtain ⟨i, hi, -⟩ := mem_order.1 hs
    omega
  | succ fuel ih =>
    simp only [expireLoop]
    cases hr : h.order[0]? with
    | none =>
      refine ⟨[], .none ?_⟩
      intro s hs
      obtain ⟨r, hr'⟩ := exists_root hs
      rw [hr] at hr'
      cases hr'
    | some r =>
      dsimp only
      split_ifs with hd
      · exact ⟨[], .none fun s hs => Nat.lt_of_lt_of_le hd (hw.ordered.root_deadline_le hr hs)⟩
      · have hi := (Array.getElem?_eq_some_iff.1 hr).1
        have hk := removeAt_onlyReorders h 0
        have hw' := removeAt_sound hw hi
        have hmem := (removeAt_linked hw.linked hi).2
        rw [slotAt_eq hr] at hmem
        obtain ⟨out, he⟩ := ih hw' (by rw [removeAt_size]; omega)
        refine ⟨r :: out, ?_, ?_, ?_, ?_, ?_⟩
        · have hroot : h.order.toList.Perm (r :: (h.removeAt 0).order.toList) := by
            have hnr : r ∉ (h.removeAt 0).order.toList := by simp [hmem]
            rw [List.perm_ext_iff_of_nodup hw.order_nodup
              (List.nodup_cons.2 ⟨hnr, hw'.order_nodup⟩)]
            intro t
            simp only [List.mem_cons, Array.mem_toList_iff, hmem]
            by_cases ht : t = r
            · simp [ht, root_mem hr]
            · simp [ht]
          exact hroot.trans (he.order.cons r)
        · refine List.pairwise_cons.2 ⟨?_, ?_⟩
          · intro t ht
            have hleft := he.order.mem_iff.2 (List.mem_append_left _ ht)
            exact hw.ordered.root_deadline_le hr ((hmem t).1 (Array.mem_toList_iff.1 hleft)).1
          · simpa only [hk.deadline] using he.sorted
        · have hdue : (((h.removeAt 0).entry r).callback.toList.map
            (((h.removeAt 0).entry r).key, ·)) =
              (h.due? r).toList := by
            rw [← hk.due?, due?]
            cases ((h.removeAt 0).entry r).callback <;> rfl
          rw [hdue, he.due, hk.due?, List.filterMap_cons]
          cases h.due? r <;> rfl
        · intro s hs
          rcases List.mem_cons.1 hs with rfl | hs
          · exact Nat.not_lt.1 hd
          · exact hk.deadline s ▸ he.passed s hs
        · intro s hs
          exact hk.deadline s ▸ he.later s hs

theorem expire_expired (hw : h.Sound) (now : Nanos) :
    ∃ out, h.Expired now out (h.expire now).1 (h.expire now).2 :=
  expireLoop_expired now h.order.size hw (Nat.le_refl _)

theorem Expired.mem_order {out : List Nat} {due : List (String × κ)} (he : h.Expired now out due h')
    (s : Nat) : s ∈ h.order ↔ s ∈ out ∨ s ∈ h'.order := by
  rw [← Array.mem_toList_iff, ← Array.mem_toList_iff, he.order.mem_iff, List.mem_append]

theorem Expired.length_le {out : List Nat} {due : List (String × κ)}
    (he : h.Expired now out due h') : due.length + h'.size ≤ h.size := by
  have hlen := he.order.length_eq
  have hdue : due.length ≤ out.length := he.due ▸ List.length_filterMap_le _ _
  simp only [List.length_append, Array.length_toList] at hlen
  simp only [size]
  omega

theorem Expired.peek?_later {out : List Nat} {due : List (String × κ)}
    (he : h.Expired now out due h') (hk : h.OnlyReorders h') : h'.peek?.any (· ≤ now) = false := by
  cases hp : h'.peek? with
  | none => rfl
  | some d =>
    obtain ⟨r, hr, rfl⟩ := (peek?_eq_some h' d).1 hp
    have hlt := he.later r (root_mem hr)
    rw [← hk.deadline] at hlt
    simpa using hlt

theorem Expired.count_due [DecidableEq κ] {out : List Nat} {due : List (String × κ)} (hw : h.Sound)
    (he : h.Expired now out due h') (hk : h.OnlyReorders h')
    (ha : ∀ s, (h.entry s).callback = some callback →
      s = a.slot ∧ (h.entry s).generation = a.generation) :
    (due.map (·.2)).count callback + (if h'.Waits a then 1 else 0) ≤
      if h.Waits a then 1 else 0 := by
  have hnodup := List.nodup_append.1 (he.order.nodup_iff.1 hw.order_nodup)
  have hmem := he.mem_order
  have hcount : (due.map (·.2)).count callback =
      out.countP fun s => (h.entry s).callback == some callback := by
    have hdue : due.map (·.2) = out.filterMap fun s => (h.entry s).callback := by
      rw [he.due, List.map_filterMap]
      apply List.filterMap_congr
      intro s _
      simp [due?, Function.comp_def]
    rw [hdue, List.count_filterMap]
  by_cases hs : ∃ s ∈ out, (h.entry s).callback = some callback
  · obtain ⟨s, hs, hc⟩ := hs
    obtain ⟨rfl, hg⟩ := ha s hc
    have hwaits : h.Waits a := ⟨(hmem _).2 (.inl hs), hg⟩
    have hgone : ¬ h'.Waits a := fun hw' => hnodup.2.2 _ hs _ (Array.mem_toList_iff.2 hw'.1) rfl
    have hone : (out.countP fun s => (h.entry s).callback == some callback) ≤ out.count a.slot := by
      apply List.countP_mono_left
      intro s _ hc
      simpa using (ha s (by simpa using hc)).1
    have hle := List.nodup_iff_count_le_one.1 hnodup.1 a.slot
    rw [if_neg hgone, if_pos hwaits, hcount]
    omega
  · have hzero : (out.countP fun s => (h.entry s).callback == some callback) = 0 := by
      rw [List.countP_eq_zero]
      intro s hs' hc
      exact hs ⟨s, hs', by simpa using hc⟩
    have hwaits (hw' : h'.Waits a) : h.Waits a :=
      ⟨(hmem _).2 (.inr hw'.1), (hk.generation _).symm.trans hw'.2⟩
    rw [hcount, hzero]
    split_ifs with h1 h2
    · omega
    · exact absurd (hwaits h1) h2
    · omega
    · omega

theorem KeepsOthers.waits_iff (hs : h.KeepsOthers s h') (hb : b.slot ≠ s) : h'.Waits b ↔
    h.Waits b := by
  rw [Waits, Waits, hs.scheduled b.slot hb, hs.generation hb]

theorem Sound.armed (hw : h.Sound) (ha : h.live? a ≠ none) : ∃ callback, h.Armed a callback := by
  obtain ⟨e, he⟩ := Option.ne_none_iff_exists'.1 ha
  obtain ⟨rfl, hu, hg⟩ := (live?_eq_some h a e).1 he
  obtain ⟨callback, hc⟩ := Option.isSome_iff_exists.1 (hw.callback a.slot hu)
  exact ⟨callback, hc, hu, hg⟩

theorem set_stale (hl : h.live? a = none) (d : Nanos) :
    h.set a d = (false, h) := by simp only [set, hl]

theorem del_stale (hl : h.live? a = none) : h.del a = (false, h) := by simp only [del, hl]

theorem set_live (hl : h.live? a ≠ none) (d : Nanos) : (h.set a d).1 = true := by
  obtain ⟨e, he⟩ := Option.ne_none_iff_exists'.1 hl
  simp only [set, he]
  split_ifs <;> rfl

theorem set_waits (hf : h.Fit) (hne : b ≠ a) (hb : (h.set a d).2.Waits b) : h.Waits b := by
  obtain ⟨hm, ht⟩ := set_keepsCallbacks hf a d
  by_cases hs : b.slot = a.slot
  · -- Not both handles can be out, so the one that waits is that of the slot.
    by_cases hl : h.live? a = none
    · rw [set_stale hl] at hb
      exact hb
    · obtain ⟨callback, ha⟩ := hf.sound.armed hl
      refine absurd (handle_ext hs ?_) hne
      rw [← hb.2, hs, ht.generation, ha.generation]
  · exact (hm.keepsOthers.waits_iff hs).1 hb

theorem del_order (hf : h.Fit) (hs : s ∈ (h.del a).2.order) : s ∈ h.order ∧
    ((h.del a).2.entry s).unplaced = (h.entry s).unplaced := by
  have hm := del_holderUses hf a
  by_cases hsa : s = a.slot
  · subst hsa
    rcases hm.own with ht | ⟨hc, -⟩
    · by_cases hl : h.live? a = none
      · rw [del_stale hl] at hs ⊢
        exact ⟨hs, rfl⟩
      · obtain ⟨callback, ha⟩ := hf.sound.armed hl
        exact absurd (ht.armed ha) (del_spent hf ha).not_armed
    · have hsome := hm.fit.sound.callback _ (hm.fit.sound.scheduled _ hs)
      rw [hc] at hsome
      cases hsome
  · exact ⟨(hm.keepsOthers.scheduled s hsa).1 hs, hm.keepsOthers.entry s hsa⟩

theorem del_waits (hf : h.Fit) (hb : (h.del a).2.Waits b) : h.Waits b := by
  obtain ⟨hs, he⟩ := del_order hf hb.1
  exact ⟨hs, (congrArg Entry.generation he).symm.trans hb.2⟩

theorem del_true (hf : h.Fit) (hd : (h.del a).1 = true) : (h.del a).2.Spent a := by
  by_cases hl : h.live? a = none
  · rw [del_stale hl] at hd
    cases hd
  · obtain ⟨callback, ha⟩ := hf.sound.armed hl
    exact del_spent hf ha

theorem HandsOut.waits (hg : h.HandsOut a callback h') (hb : h'.Waits b) : b = a ∨ h.Waits b := by
  by_cases hs : b.slot = a.slot
  · left
    apply handle_ext hs
    rw [← hb.2, hs, hg.armed.generation]
  · exact .inr ((hg.keepsOthers.waits_iff hs).1 hb)

theorem setKey_kept (h : Heap κ) (a : Handle) (key : String) : (h.setKey a key).order = h.order ∧
    ∀ s, ((h.setKey a key).entry s).deadline = (h.entry s).deadline ∧
      ((h.setKey a key).entry s).generation = (h.entry s).generation := by
  rw [setKey]
  split
  · exact ⟨rfl, fun _ => ⟨rfl, rfl⟩⟩
  · refine ⟨rfl, ?_⟩
    intro s
    rw [entry_modify]
    split_ifs with hs
    · rw [hs.1]
      exact ⟨rfl, rfl⟩
    · exact ⟨rfl, rfl⟩

end

end PushGateway.Timer.Heap
