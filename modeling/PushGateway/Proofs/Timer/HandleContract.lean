import Mathlib.Data.List.Induction
import PushGateway.Proofs.Timer.Expiry

/-!
A handle is given out once and for all. From then until it is given back it names its own entry,
fired or not, and calls on other handles do not reach that entry, whichever slots are used again and
wherever the heap moves them. Before and after, the handle names nothing, and a call on it does
nothing.
-/

namespace PushGateway.Timer.Heap

variable {κ : Type}

def Op.Elsewhere (b : Handle) : Op κ → Prop
  | .add .. => True
  | .del a | .set a _ | .setKey a _ => a ≠ b
  | .expire _ => False

/-- The holder of handle `b` cannot tell `h'` from `h`. -/
structure Undisturbed (h : Heap κ) (b : Handle) (h' : Heap κ) : Prop where
  deadline : (h'.entry b.slot).deadline = (h.entry b.slot).deadline
  key : (h'.entry b.slot).key = (h.entry b.slot).key
  callback : (h'.entry b.slot).callback = (h.entry b.slot).callback
  live : (h'.live? b).isSome = (h.live? b).isSome
  scheduled : (h'.entry b.slot).place.isSome = (h.entry b.slot).place.isSome

section
variable {h h' : Heap κ} {a b : Handle} {s : Nat}

theorem isSome_live?_iff (h : Heap κ) (a : Handle) :
    (h.live? a).isSome ↔ (h.entry a.slot).inUse = true ∧
      (h.entry a.slot).generation = a.generation := by
  rw [← not_iff_not, Bool.not_eq_true, Option.isSome_eq_false_iff, Option.isNone_iff_eq_none,
    live?_eq_none]

theorem KeepsOthers.undisturbed (hs : h.KeepsOthers s h') (hl : h.Linked) (hl' : h'.Linked)
    (hb : b.slot ≠ s) : h.Undisturbed b h' := by
  have he := hs.entry b.slot hb
  refine ⟨congrArg (·.deadline) he, congrArg (·.key) he, hs.callback_eq hb, ?_, ?_⟩
  · rw [Bool.eq_iff_iff, isSome_live?_iff, isSome_live?_iff, hs.generation hb]
    exact and_congr_left' (iff_of_eq (congrArg (·.inUse = true) he))
  · rw [Bool.eq_iff_iff, ← hl'.mem_iff, ← hl.mem_iff]
    exact hs.scheduled b.slot hb

theorem Holds.slot_ne {hs : List Handle} (hh : h.Holds hs) (ha : a ∈ hs) (hb : b ∈ hs)
    (hne : a ≠ b) : b.slot ≠ a.slot := by
  intro he
  have hga := ((hh.mem a).1 ha).2
  have hgb := ((hh.mem b).1 hb).2
  rw [he] at hgb
  exact hne (handle_ext he.symm (hga.symm.trans hgb))

theorem Holds.live?_eq_none {hs : List Handle} (hh : h.Holds hs) (ha : a ∉ hs) : h.live? a = none :=
  (Heap.live?_eq_none h a).2 (mt (hh.mem a).2 ha)

theorem setKey_stale (hl : h.live? a = none) (key : String) : h.setKey a key = h := by
  simp only [setKey, hl]

end

namespace Held

/-- An `add` of the run returned `a`, and the operations `later` came after it. -/
def Returned (size : Nat) (ops : List (Op κ)) (a : Handle) (later : List (Op κ)) : Prop :=
  ∃ before deadline key callback, ops = before ++ .add deadline key callback :: later ∧
    ((run size before).heap.add deadline key callback).1 = a

/-- The handle was returned by an `add` of the run and has not been deleted since. -/
def Outstanding (size : Nat) (ops : List (Op κ)) (a : Handle) : Prop :=
  ∃ later, Returned size ops a later ∧ Op.del a ∉ later

structure HandleContract (size : Nat) (ops : List (Op κ)) (h : Heap κ) : Prop where
  fresh : ∀ deadline key callback later, ¬ Returned size ops (h.add deadline key callback).1 later
  del : ∀ a, (h.del a).1 = true ↔ Outstanding size ops a
  set : ∀ a deadline, (h.set a deadline).1 = true ↔ Outstanding size ops a
  /-- A handle that is not out names nothing. -/
  inert : ∀ a, ¬ Outstanding size ops a →
    (h.del a).2 = h ∧ (∀ deadline, (h.set a deadline).2 = h) ∧ ∀ key, h.setKey a key = h
  frame : ∀ b, Outstanding size ops b → ∀ op : Op κ, op.Elsewhere b →
    h.Undisturbed b ((run size ops).step op).heap

section
variable {s : Held κ} {size : Nat} {ops later : List (Op κ)} {op : Op κ} {a b : Handle}

theorem Valid.fit (hv : s.Valid) : s.heap.Fit := ⟨hv.sound, s.out, hv.holds⟩

theorem run_valid (size : Nat) (ops : List (Op κ)) : (run size ops).Valid :=
  (foldl_valid ops (s := ⟨new size, []⟩) ⟨new_sound size, new_holds size⟩).1

theorem run_snoc (size : Nat) (ops : List (Op κ)) (op : Op κ) :
    run size (ops ++ [op]) = (run size ops).step op := by
  rw [run, List.foldl_append]
  rfl

/-- Whoever calls on one handle disturbs no other that is out: slots of theirs differ. -/
theorem Valid.frame (hv : s.Valid) (hb : b ∈ s.out) (ho : op.Elsewhere b) :
    s.heap.Undisturbed b (s.step op).heap := by
  have hl := hv.sound.linked
  have hl' := (step_valid hv op).sound.linked
  have hstale {a : Handle} {h : Heap κ} (ha : a ∉ s.out) (hm : s.heap.live? a = none → h = s.heap) :
      s.heap.Undisturbed b h := by
    rw [hm (hv.holds.live?_eq_none ha)]
    exact ⟨rfl, rfl, rfl, rfl, rfl⟩
  cases op with
  | add deadline key callback =>
    have hg := add_handsOut hv.fit deadline key callback
    refine hg.keepsOthers.undisturbed hl hl' fun he => ?_
    have hu := ((hv.holds.mem b).1 hb).1
    rw [he, hg.vacant] at hu
    cases hu
  | del a =>
    by_cases ha : a ∈ s.out
    · exact (del_holderUses hv.fit a).keepsOthers.undisturbed hl hl' (hv.holds.slot_ne ha hb ho)
    · exact hstale ha fun hn => congrArg Prod.snd (del_stale hn)
  | set a deadline =>
    by_cases ha : a ∈ s.out
    · exact (set_keepsCallbacks hv.fit a deadline).1.keepsOthers.undisturbed hl hl'
        (hv.holds.slot_ne ha hb ho)
    · exact hstale ha fun hn => congrArg Prod.snd (set_stale hn deadline)
  | setKey a key =>
    by_cases ha : a ∈ s.out
    · exact (setKey_keepsCallbacks hv.fit a key).1.keepsOthers.undisturbed hl hl'
        (hv.holds.slot_ne ha hb ho)
    · exact hstale ha fun hn => setKey_stale hn key
  | expire now => exact ho.elim

theorem Valid.spent_step (hv : s.Valid) (ha : s.heap.Spent a) (op : Op κ) :
    (s.step op).heap.Spent a := by
  cases op with
  | add deadline key callback => exact (add_handsOut hv.fit deadline key callback).spent ha
  | del b => exact (del_holderUses hv.fit b).spent ha
  | set b deadline => exact (set_keepsCallbacks hv.fit b deadline).1.spent ha
  | setKey b key => exact (setKey_keepsCallbacks hv.fit b key).1.spent ha
  | expire now => exact (expire_onlyReorders s.heap now).spent ha

theorem Valid.out_step (hv : s.Valid) (ha : a ∈ s.out) (op : Op κ) :
    a ∈ (s.step op).out ∨ (s.step op).heap.Spent a := by
  cases op with
  | add deadline key callback => exact .inl (List.mem_cons_of_mem _ ha)
  | del b =>
    by_cases hb : a = b
    · obtain ⟨hu, hg⟩ := (hv.holds.mem a).1 ha
      obtain ⟨callback, hc⟩ := Option.isSome_iff_exists.1 (hv.sound.callback a.slot hu)
      exact .inr (hb ▸ del_spent hv.fit ⟨hc, hu, hg⟩)
    · exact .inl (hv.holds.nodup.mem_erase_iff.2 ⟨hb, ha⟩)
  | set b deadline => exact .inl ha
  | setKey b key => exact .inl ha
  | expire now => exact .inl ha

theorem returned_snoc : Returned size (ops ++ [op]) a later ↔
    (∃ deadline key callback, op = .add deadline key callback ∧ later = [] ∧
      ((run size ops).heap.add deadline key callback).1 = a) ∨
    ∃ later', later = later' ++ [op] ∧ Returned size ops a later' := by
  constructor
  · rintro ⟨before, deadline, key, callback, he, ha⟩
    rcases List.eq_nil_or_concat later with rfl | ⟨later', op', rfl⟩
    · obtain ⟨rfl, rfl⟩ := List.append_singleton_inj.1 he
      exact .inl ⟨deadline, key, callback, rfl, rfl, ha⟩
    · rw [List.concat_eq_append, ← List.cons_append, ← List.append_assoc] at he
      obtain ⟨rfl, rfl⟩ := List.append_singleton_inj.1 he
      exact .inr ⟨later', List.concat_eq_append, before, deadline, key, callback, rfl, ha⟩
  · rintro (⟨deadline, key, callback, rfl, rfl, ha⟩ | ⟨later', rfl, before, deadline, key, callback,
      rfl, ha⟩)
    · exact ⟨ops, deadline, key, callback, rfl, ha⟩
    · exact ⟨before, deadline, key, callback, by rw [List.append_assoc]; rfl, ha⟩

theorem outstanding_snoc : Outstanding size (ops ++ [op]) a ↔
    (∃ deadline key callback, op = .add deadline key callback ∧
      ((run size ops).heap.add deadline key callback).1 = a) ∨ Outstanding size ops a ∧
      op ≠ .del a := by
  simp only [Outstanding, returned_snoc]
  constructor
  · rintro ⟨later, ⟨deadline, key, callback, he, -, ha⟩ | ⟨later', rfl, hr⟩, hd⟩
    · exact .inl ⟨deadline, key, callback, he, ha⟩
    · refine .inr ⟨⟨later', hr, fun hm => hd (List.mem_append_left _ hm)⟩, ?_⟩
      rintro rfl
      exact hd (by simp)
  · rintro (⟨deadline, key, callback, he, ha⟩ | ⟨⟨later', hr, hd⟩, hne⟩)
    · exact ⟨[], .inl ⟨deadline, key, callback, he, rfl, ha⟩, List.not_mem_nil⟩
    · refine ⟨later' ++ [op], .inr ⟨later', rfl, hr⟩, ?_⟩
      rw [List.mem_append, List.mem_singleton]
      exact not_or.2 ⟨hd, Ne.symm hne⟩

theorem mem_out_iff (size : Nat) (ops : List (Op κ)) (a : Handle) :
    a ∈ (run size ops).out ↔ Outstanding size ops a := by
  induction ops using List.reverseRecOn with
  | nil =>
    refine ⟨fun h => absurd h List.not_mem_nil, ?_⟩
    rintro ⟨later, ⟨before, deadline, key, callback, he, -⟩, -⟩
    exact absurd he.symm (by simp)
  | append_singleton ops op ih =>
    rw [run_snoc, outstanding_snoc, ← ih]
    cases op with
    | add deadline key callback => simp [step, eq_comm]
    | del b => simp [step, (run_valid size ops).holds.nodup.mem_erase_iff, and_comm, eq_comm]
    | set b deadline => simp [step]
    | setKey b key => simp [step]
    | expire now => simp [step]

theorem out_or_spent (hr : Returned size ops a later) :
    a ∈ (run size ops).out ∨ (run size ops).heap.Spent a := by
  induction ops using List.reverseRecOn generalizing later with
  | nil =>
    obtain ⟨before, deadline, key, callback, he, -⟩ := hr
    exact absurd he.symm (by simp)
  | append_singleton ops op ih =>
    have hv := run_valid size ops
    rw [run_snoc]
    rcases returned_snoc.1 hr with ⟨deadline, key, callback, rfl, -, rfl⟩ | ⟨later', -, hr'⟩
    · exact .inl List.mem_cons_self
    · rcases ih hr' with ha | ha
      · exact hv.out_step ha op
      · exact .inr (hv.spent_step ha op)

/-- Whatever the operations, the heap gives out new handles only, answers for those that are out,
takes no notice of the others, and keeps the entries of handles that are out apart. -/
theorem run_handleContract (size : Nat) (ops : List (Op κ)) :
    HandleContract size ops (run size ops).heap := by
  have hv := run_valid size ops
  have hout := mem_out_iff size ops
  constructor
  · intro deadline key callback later hr
    have hg := add_handsOut hv.fit deadline key callback
    rcases out_or_spent hr with ha | ha
    · have hu := ((hv.holds.mem _).1 ha).1
      rw [hg.vacant] at hu
      cases hu
    · exact Nat.ne_of_gt ha hg.generation
  · intro a
    rw [← hout]
    exact (del_spec hv.sound hv.holds a).2.2
  · intro a deadline
    rw [← hout]
    exact (set_spec hv.sound hv.holds a deadline).2.2
  · intro a ha
    have hl := hv.holds.live?_eq_none (mt (hout a).1 ha)
    exact ⟨congrArg Prod.snd (del_stale hl), fun d => congrArg Prod.snd (set_stale hl d),
      setKey_stale hl⟩
  · exact fun b hb op ho => hv.frame ((hout b).2 hb) ho

end

end Held

end PushGateway.Timer.Heap
