import Mathlib.Tactic.Common
import Mathlib.Data.List.Nodup
import PushGateway.BufferPool
import PushGateway.Proofs.Frame.RoundTrip

/-!
Buffers in storage. The free list and the holders have numbers of buffers, not bytes, so that two
holders could have the same buffer, and one could come back with what was in it. What rules that out
is that every number is in one hand: a free buffer is in the list once and lent to nobody, a lent
one is lent once. So a loan is as good as a buffer of one's own, and the free list is the pool of
values.
-/

namespace PushGateway

namespace FreeList

variable {α β : Type}

def map (f : α → β) (l : FreeList α) : FreeList β := ⟨l.items.map f, l.limit⟩

theorem get_map (f : α → β) (l : FreeList α) (fresh : α) :
    (l.map f).get (f fresh) = (f (l.get fresh).1, (l.get fresh).2.map f) := by
  obtain ⟨items, limit⟩ := l
  cases items <;> rfl

theorem put_map (f : α → β) (l : FreeList α) (a : α) : (l.map f).put (f a) = (l.put a).map f := by
  unfold put map
  simp only [List.length_map]
  split_ifs <;> rfl

theorem get_limit (l : FreeList α) (fresh : α) : (l.get fresh).2.limit = l.limit := by
  unfold get
  split <;> rfl

theorem put_limit (l : FreeList α) (a : α) : (l.put a).limit = l.limit := by
  unfold put
  split_ifs <;> rfl

theorem get_items (l : FreeList α) (fresh : α) : (l.get fresh).2.items = l.items.tail := by
  unfold get
  split <;> simp [*]

theorem get_cases (l : FreeList α) (fresh : α) :
    l.items = [] ∧ (l.get fresh).1 = fresh ∨
      l.items = (l.get fresh).1 :: (l.get fresh).2.items := by
  unfold get
  cases h : l.items with
  | nil => exact .inl ⟨rfl, rfl⟩
  | cons a r => exact .inr rfl

theorem length_put_le {l : FreeList α} (h : l.items.length ≤ l.limit) (a : α) :
    (l.put a).items.length ≤ (l.put a).limit := by
  rw [put_limit]
  unfold put
  split_ifs with hroom
  · exact hroom
  · exact h

theorem nodup_put {l : FreeList α} {a : α} (h : l.items.Nodup) (ha : a ∉ l.items) :
    (l.put a).items.Nodup := by
  unfold put
  split_ifs
  · exact List.nodup_cons.2 ⟨ha, h⟩
  · exact h

theorem mem_put {l : FreeList α} {a b : α} (h : b ∈ (l.put a).items) : b = a ∨ b ∈ l.items := by
  unfold put at h
  split_ifs at h
  · exact List.mem_cons.1 h
  · exact .inr h

end FreeList

namespace BufferPool

/-- What a holder does with its buffer: writes at the back, splits bytes off the front, or has the
stream reader split off a frame. -/
inductive Use
  | write (data : Bytes)
  | split (n : Nat)
  | decode (maxBody : Nat)
  deriving DecidableEq, Repr

inductive Yield
  | nothing
  | piece (b : Bytes)
  | answer (a : Except GatewayError (Option Frame))

def Use.on (b : Bytes) : Use → Yield × Bytes
  | .write data => (.nothing, b ++ data)
  | .split n => (.piece (b.take n), b.drop n)
  | .decode maxBody => (.answer (Frame.decodeOnce maxBody b).1, (Frame.decodeOnce maxBody b).2)

/-- A buffer of one's own, used over and over: what that gives, and what the buffer holds in the
end. -/
def useAll (b : Bytes) : List Use → List Yield × Bytes
  | [] => ([], b)
  | u :: us => ((u.on b).1 :: (useAll (u.on b).2 us).1, (useAll (u.on b).2 us).2)

/-- Loans have numbers, in the order in which they are made. -/
inductive Move
  | get
  | use (loan : Nat) (u : Use)
  | put (loan : Nat)
  deriving DecidableEq, Repr

def Move.loan? : Move → Option Nat
  | .get => none
  | .use i _ | .put i => some i

def usesOf (i : Nat) : List Move → List Use
  | [] => []
  | .get :: ms => usesOf i ms
  | .use j u :: ms => if j = i then u :: usesOf i ms else usesOf i ms
  | .put j :: ms => if j = i then [] else usesOf i ms

/-- All buffers there are, by number, which of them are free, and which loan has which. -/
structure Storage where
  cells : Array Bytes
  free : FreeList Nat
  loans : Array (Option Nat) := #[]

namespace Storage

def new (count : Nat) : Storage :=
  { cells := .replicate count [], free := ⟨List.range count, count⟩ }

def cell (s : Storage) (o : Nat) : Bytes := s.cells.getD o []

def holding? (s : Storage) (i : Nat) : Option Nat := s.loans.getD i none

def held? (s : Storage) (i : Nat) : Option Bytes := (s.holding? i).map s.cell

def pool (s : Storage) : BufferPool := s.free.map s.cell

def next (s : Storage) : Nat := (s.free.get s.cells.size).1

def get (s : Storage) : Storage where
  cells := if s.next < s.cells.size then s.cells else s.cells.push []
  free := (s.free.get s.cells.size).2
  loans := s.loans.push (some s.next)

def setCell (s : Storage) (o : Nat) (b : Bytes) : Storage :=
  { s with cells := s.cells.setIfInBounds o b }

def use (s : Storage) (i : Nat) (u : Use) : Storage :=
  match s.holding? i with
  | some o => s.setCell o (u.on (s.cell o)).2
  | none => s

def endLoan (s : Storage) (i : Nat) : Storage := { s with loans := s.loans.setIfInBounds i none }

def put (s : Storage) (i : Nat) : Storage :=
  match s.holding? i with
  | some o => { (s.endLoan i).setCell o [] with free := s.free.put o }
  | none => s

def step (s : Storage) : Move → Storage
  | .get => s.get
  | .use i u => s.use i u
  | .put i => s.put i

def after (s : Storage) (ms : List Move) : Storage := ms.foldl step s

def yield? (s : Storage) (i : Nat) : Move → Option Yield
  | .use j u => if j = i then (s.held? i).map fun b => (u.on b).1 else none
  | _ => none

def yields (s : Storage) (i : Nat) : List Move → List Yield
  | [] => []
  | m :: ms => (s.yield? i m).toList ++ (s.step m).yields i ms

/-- Every buffer is in one hand, and what is free is blank. -/
structure WellFormed (s : Storage) : Prop where
  once : s.free.items.Nodup
  blank : ∀ o ∈ s.free.items, o < s.cells.size ∧ s.cell o = []
  lent : ∀ i o, s.holding? i = some o → o < s.cells.size ∧ o ∉ s.free.items
  apart : ∀ i j o, s.holding? i = some o → s.holding? j = some o → i = j
  bounded : s.free.items.length ≤ s.free.limit

section
variable {s : Storage} {i j o : Nat} {b : Bytes} {m : Move}

theorem cell_of_le (h : s.cells.size ≤ o) : s.cell o = [] := by
  rw [cell, Array.getD_eq_getD_getElem?, Array.getElem?_eq_none h]
  rfl

theorem cell_setCell (s : Storage) (o : Nat) (b : Bytes) (o' : Nat) :
    (s.setCell o b).cell o' = if o' = o ∧ o < s.cells.size then b else s.cell o' := by
  simp only [cell, setCell, Array.getD_eq_getD_getElem?, Array.getElem?_setIfInBounds]
  grind

theorem cell_get (s : Storage) (o : Nat) : s.get.cell o = s.cell o := by
  simp only [cell, get, Array.getD_eq_getD_getElem?]
  split_ifs
  · rfl
  · rw [Array.getElem?_push]
    grind

theorem size_get (s : Storage) : s.cells.size ≤ s.get.cells.size := by
  unfold get
  dsimp only
  split_ifs <;> simp

theorem holding?_get (s : Storage) (i : Nat) :
    s.get.holding? i = if i = s.loans.size then some s.next else s.holding? i := by
  simp only [holding?, get, Array.getD_eq_getD_getElem?, Array.getElem?_push]
  split_ifs <;> rfl

theorem holding?_endLoan (s : Storage) (i j : Nat) :
    (s.endLoan i).holding? j = if j = i then none else s.holding? j := by
  simp only [holding?, endLoan, Array.getD_eq_getD_getElem?, Array.getElem?_setIfInBounds]
  grind

theorem new_wellFormed (count : Nat) : (new count).WellFormed where
  once := List.nodup_range
  blank o ho := by
    have hlt : o < count := List.mem_range.1 ho
    simp [new, cell, hlt]
  lent i o ho := by simp [new, holding?] at ho
  apart i j o ho := by simp [new, holding?] at ho
  bounded := by simp [new]

theorem WellFormed.next_cases (h : s.WellFormed) :
    s.next = s.cells.size ∧ s.free.items = [] ∨
      s.next < s.cells.size ∧ s.cell s.next = [] ∧ s.free.items = s.next :: s.get.free.items := by
  rcases s.free.get_cases s.cells.size with ⟨hf, hn⟩ | hf
  · exact .inl ⟨hn, hf⟩
  · have hm : s.next ∈ s.free.items := hf ▸ List.mem_cons_self
    exact .inr ⟨(h.blank _ hm).1, (h.blank _ hm).2, hf⟩

theorem WellFormed.cell_next (h : s.WellFormed) : s.cell s.next = [] := by
  rcases h.next_cases with ⟨hn, -⟩ | ⟨-, hb, -⟩
  · exact cell_of_le (Nat.le_of_eq hn.symm)
  · exact hb

theorem WellFormed.next_not_lent (h : s.WellFormed) (j : Nat) : s.holding? j ≠ some s.next := by
  intro hj
  obtain ⟨hlt, hfree⟩ := h.lent j s.next hj
  rcases h.next_cases with ⟨hn, -⟩ | ⟨-, -, hf⟩
  · omega
  · exact hfree (hf ▸ List.mem_cons_self)

theorem WellFormed.next_taken (h : s.WellFormed) : s.next < s.get.cells.size ∧
    s.next ∉ s.get.free.items := by
  have htail : s.get.free.items = s.free.items.tail := s.free.get_items _
  rcases h.next_cases with ⟨hn, hf⟩ | ⟨hlt, -, hf⟩
  · refine ⟨?_, by simp [htail, hf]⟩
    simp [Storage.get, hn]
  · have hnd := h.once
    rw [hf, List.nodup_cons] at hnd
    exact ⟨Nat.lt_of_lt_of_le hlt (size_get s), hnd.1⟩

theorem WellFormed.get (h : s.WellFormed) : s.get.WellFormed := by
  have htail : s.get.free.items = s.free.items.tail := s.free.get_items _
  have hfree {o : Nat} (ho : o ∈ s.get.free.items) : o ∈ s.free.items :=
    List.mem_of_mem_tail (htail ▸ ho)
  refine ⟨htail ▸ h.once.tail, ?_, ?_, ?_, ?_⟩
  · intro o ho
    obtain ⟨hlt, hb⟩ := h.blank o (hfree ho)
    exact ⟨Nat.lt_of_lt_of_le hlt (size_get s), (cell_get s o).trans hb⟩
  · intro i o ho
    rw [holding?_get] at ho
    split_ifs at ho
    · cases ho
      exact h.next_taken
    · obtain ⟨hlt, hnot⟩ := h.lent i o ho
      exact ⟨Nat.lt_of_lt_of_le hlt (size_get s), fun hm => hnot (hfree hm)⟩
  · intro i j o hi hj
    rw [holding?_get] at hi hj
    split_ifs at hi hj with hin hjn hjn
    · rw [hin, hjn]
    · cases hi
      exact absurd hj (h.next_not_lent j)
    · cases hj
      exact absurd hi (h.next_not_lent i)
    · exact h.apart i j o hi hj
  · have hb := h.bounded
    have hlimit : s.get.free.limit = s.free.limit := s.free.get_limit _
    rw [htail, List.length_tail, hlimit]
    omega

theorem WellFormed.setCell (h : s.WellFormed) (ho : o ∉ s.free.items) (b : Bytes) :
    (s.setCell o b).WellFormed where
  once := h.once
  blank o' ho' := by
    obtain ⟨hlt, hb⟩ := h.blank o' ho'
    have hne : o' ≠ o := fun he => ho (he ▸ ho')
    refine ⟨?_, ?_⟩
    · simpa [Storage.setCell] using hlt
    · rw [cell_setCell, if_neg fun hc => hne hc.1, hb]
  lent i o' ho' := by simpa [Storage.setCell] using h.lent i o' ho'
  apart := h.apart
  bounded := h.bounded

theorem WellFormed.endLoan (h : s.WellFormed) (i : Nat) : (s.endLoan i).WellFormed where
  once := h.once
  blank := h.blank
  lent j o ho := by
    rw [holding?_endLoan] at ho
    split_ifs at ho
    exact h.lent j o ho
  apart j k o hj hk := by
    rw [holding?_endLoan] at hj hk
    split_ifs at hj hk
    exact h.apart j k o hj hk
  bounded := h.bounded

theorem WellFormed.freed (h : s.WellFormed) (ho : o < s.cells.size) (hb : s.cell o = [])
    (hf : o ∉ s.free.items) (hl : ∀ i, s.holding? i ≠ some o) :
    { s with free := s.free.put o }.WellFormed := by
  refine ⟨?_, ?_, ?_, h.apart, ?_⟩
  · exact FreeList.nodup_put h.once hf
  · intro o' ho'
    rcases FreeList.mem_put ho' with rfl | ho'
    · exact ⟨ho, hb⟩
    · exact h.blank o' ho'
  · intro i o' ho'
    obtain ⟨hlt, hnot⟩ := h.lent i o' ho'
    refine ⟨hlt, fun hm => ?_⟩
    rcases FreeList.mem_put hm with rfl | hm
    · exact hl i ho'
    · exact hnot hm
  · exact FreeList.length_put_le h.bounded o

theorem WellFormed.use (h : s.WellFormed) (i : Nat) (u : Use) : (s.use i u).WellFormed := by
  unfold Storage.use
  split
  · rename_i o ho
    exact h.setCell (h.lent i o ho).2 _
  · exact h

theorem WellFormed.put (h : s.WellFormed) (i : Nat) : (s.put i).WellFormed := by
  unfold Storage.put
  split
  · rename_i o ho
    obtain ⟨hlt, hfree⟩ := h.lent i o ho
    refine ((h.endLoan i).setCell hfree []).freed ?_ ?_ hfree fun j hj => ?_
    · simpa [Storage.setCell, Storage.endLoan] using hlt
    · exact (cell_setCell (s.endLoan i) o [] o).trans (if_pos ⟨rfl, hlt⟩)
    · change (s.endLoan i).holding? j = some o at hj
      rw [holding?_endLoan] at hj
      split_ifs at hj with hji
      exact hji (h.apart j i o hj ho)
  · exact h

theorem WellFormed.step (h : s.WellFormed) (m : Move) : (s.step m).WellFormed := by
  cases m with
  | get => exact h.get
  | use i u => exact h.use i u
  | put i => exact h.put i

theorem WellFormed.after (h : s.WellFormed) (ms : List Move) : (s.after ms).WellFormed := by
  induction ms generalizing s with
  | nil => exact h
  | cons m ms ih => exact ih (h.step m)

theorem held?_eq_some (hb : s.held? i = some b) : ∃ o, s.holding? i = some o ∧ s.cell o = b :=
  Option.map_eq_some_iff.1 hb

theorem held?_eq_none (ho : s.holding? i = none) : s.held? i = none :=
  congrArg (Option.map s.cell) ho

theorem WellFormed.held?_get (h : s.WellFormed) (i : Nat) :
    s.get.held? i = if i = s.loans.size then some [] else s.held? i := by
  have hc : s.get.cell = s.cell := funext (cell_get s)
  rw [held?, holding?_get, hc]
  split_ifs
  · exact congrArg some h.cell_next
  · rfl

theorem WellFormed.held?_setCell (h : s.WellFormed) (ho : s.holding? i = some o) (b : Bytes)
    (hj : j ≠ i) : (s.setCell o b).held? j = s.held? j := by
  change (s.holding? j).map (s.setCell o b).cell = (s.holding? j).map s.cell
  cases hj' : s.holding? j with
  | none => rfl
  | some o' =>
    have hne : o' ≠ o := fun he => hj (h.apart j i o (he ▸ hj') ho)
    rw [Option.map_some, Option.map_some, cell_setCell, if_neg fun hc => hne hc.1]

theorem WellFormed.held?_use (h : s.WellFormed) (i : Nat) (u : Use) (j : Nat) :
    (s.use i u).held? j = if j = i then (s.held? i).map fun b => (u.on b).2 else s.held? j := by
  unfold Storage.use
  split <;> rename_i ho <;> split_ifs with hj
  · have hlt := (h.lent i _ ho).1
    change (s.holding? j).map (s.setCell _ _).cell = _
    rw [hj, held?, ho, Option.map_some, Option.map_some, Option.map_some, cell_setCell,
      if_pos ⟨rfl, hlt⟩]
  · exact h.held?_setCell ho _ hj
  · rw [hj, held?_eq_none ho]
    rfl
  · rfl

theorem WellFormed.held?_put (h : s.WellFormed) (i j : Nat) :
    (s.put i).held? j = if j = i then none else s.held? j := by
  unfold Storage.put
  split <;> rename_i ho
  · change ((s.endLoan i).holding? j).map (s.setCell _ []).cell = _
    rw [holding?_endLoan]
    split_ifs with hj
    · rfl
    · exact h.held?_setCell ho [] hj
  · split_ifs with hj
    · rw [hj, held?_eq_none ho]
    · rfl

theorem WellFormed.held?_step (h : s.WellFormed) (hj : j < s.loans.size) (hm : m.loan? ≠ some j) :
    (s.step m).held? j = s.held? j := by
  cases m with
  | get => exact (h.held?_get j).trans (if_neg (Nat.ne_of_lt hj))
  | use i u => exact (h.held?_use i u j).trans (if_neg fun he => hm (congrArg some he.symm))
  | put i => exact (h.held?_put i j).trans (if_neg fun he => hm (congrArg some he.symm))

theorem pool_new (count : Nat) : (new count).pool = BufferPool.new count := by
  refine congrArg (FreeList.mk · count) (List.eq_replicate_iff.2 ⟨by simp [new], ?_⟩)
  intro b hb
  obtain ⟨o, ho, rfl⟩ := List.mem_map.1 hb
  exact ((new_wellFormed count).blank o ho).2

theorem pool_setCell (ho : o ∉ s.free.items) (b : Bytes) : (s.setCell o b).pool = s.pool := by
  refine congrArg (FreeList.mk · s.free.limit) (List.map_congr_left fun o' ho' => ?_)
  have hne : o' ≠ o := fun he => ho (he ▸ ho')
  rw [cell_setCell, if_neg fun hc => hne hc.1]

theorem WellFormed.pool_get (h : s.WellFormed) : s.pool.get = ([], s.get.pool) := by
  have hmap := s.free.get_map s.cell s.cells.size
  have hc : s.get.cell = s.cell := funext (cell_get s)
  rw [cell_of_le (Nat.le_refl _)] at hmap
  calc s.pool.get = (s.cell s.next, s.get.free.map s.cell) := hmap
    _ = ([], s.get.pool) := by rw [h.cell_next, Storage.pool, hc]

theorem WellFormed.pool_use (h : s.WellFormed) (i : Nat) (u : Use) : (s.use i u).pool = s.pool := by
  unfold Storage.use
  split
  · rename_i o ho
    exact pool_setCell (h.lent i o ho).2 _
  · rfl

theorem WellFormed.pool_put (h : s.WellFormed) (hb : s.held? i = some b) :
    (s.put i).pool = s.pool.put b := by
  obtain ⟨o, ho, -⟩ := held?_eq_some hb
  obtain ⟨hlt, hfree⟩ := h.lent i o ho
  have hc : (s.setCell o []).cell o = [] := (cell_setCell s o [] o).trans (if_pos ⟨rfl, hlt⟩)
  have hmap := s.free.put_map (s.setCell o []).cell o
  rw [hc] at hmap
  calc (s.put i).pool = (s.free.put o).map (s.setCell o []).cell := by rw [Storage.put, ho]; rfl
    _ = (s.setCell o []).pool.put b := hmap.symm
    _ = s.pool.put b := by rw [pool_setCell hfree]

theorem size_loans_get (s : Storage) : s.loans.size < s.get.loans.size := by simp [get]

theorem size_loans_step (s : Storage) (m : Move) : s.loans.size ≤ (s.step m).loans.size := by
  cases m with
  | get => exact Nat.le_of_lt (size_loans_get s)
  | use i u =>
    simp only [step, use]
    split <;> exact Nat.le_refl _
  | put i =>
    simp only [step, put]
    split <;> simp [setCell, endLoan]

theorem WellFormed.ended (h : s.WellFormed) (hi : i < s.loans.size) (hb : s.held? i = none)
    (ms : List Move) : s.yields i ms = [] ∧ (s.after ms).held? i = none := by
  induction ms generalizing s with
  | nil => exact ⟨rfl, hb⟩
  | cons m ms ih =>
    have hm : (s.step m).held? i = none := by
      cases m with
      | get => exact (h.held?_step hi (by simp [Move.loan?])).trans hb
      | use j u =>
        refine (h.held?_use j u i).trans ?_
        split_ifs with hj
        · rw [← hj, hb]
          rfl
        · exact hb
      | put j => exact (h.held?_put j i).trans (by rw [hb, ite_self])
    have hy : s.yield? i m = none := by
      cases m with
      | use j u => simp [yield?, hb]
      | get | put => rfl
    obtain ⟨hn, he⟩ := ih (h.step m) (Nat.lt_of_lt_of_le hi (size_loans_step s m)) hm
    rw [yields, hy, hn]
    exact ⟨rfl, he⟩

/-- Whatever others do in between, the holder of a loan sees what it would see of a buffer of its
own. -/
theorem WellFormed.follow (h : s.WellFormed) (hi : i < s.loans.size) (hb : s.held? i = some b)
    (ms : List Move) :
    s.yields i ms = (useAll b (usesOf i ms)).1 ∧
      (s.after ms).held? i = if .put i ∈ ms then none else some (useAll b (usesOf i ms)).2 := by
  induction ms generalizing s b with
  | nil => exact ⟨rfl, hb⟩
  | cons m ms ih =>
    have hs := h.step m
    have hlt := Nat.lt_of_lt_of_le hi (size_loans_step s m)
    by_cases hm : m.loan? = some i
    · cases m with
      | get => cases hm
      | use j u =>
        obtain rfl : j = i := Option.some.inj hm
        have hu := h.held?_use j u j
        rw [if_pos rfl, hb, Option.map_some] at hu
        obtain ⟨hy, ha⟩ := ih hs hlt hu
        simp only [yields, yield?, usesOf, useAll, if_true, hb, Option.map_some,
          Option.toList_some, hy, List.singleton_append, List.mem_cons, reduceCtorEq, false_or]
        exact ⟨trivial, ha⟩
      | put j =>
        obtain rfl : j = i := Option.some.inj hm
        have hp := h.held?_put j j
        rw [if_pos rfl] at hp
        obtain ⟨hy, ha⟩ := hs.ended hlt hp ms
        simp only [yields, yield?, usesOf, useAll, if_true, Option.toList_none, hy, List.nil_append,
          List.mem_cons, true_or]
        exact ⟨trivial, ha⟩
    · obtain ⟨hy, ha⟩ := ih hs hlt ((h.held?_step hi hm).trans hb)
      have hu : usesOf i (m :: ms) = usesOf i ms := by
        cases m with
        | get => rfl
        | use j u | put j => exact if_neg fun he => hm (congrArg some he)
      have hn : s.yield? i m = none := by
        cases m with
        | use j u => exact if_neg fun he => hm (congrArg some he)
        | get | put => rfl
      have hp : Move.put i ∈ m :: ms ↔ Move.put i ∈ ms := by
        rw [List.mem_cons, or_iff_right]
        rintro rfl
        exact hm rfl
      rw [yields, hn, hu, hy]
      exact ⟨rfl, ha.trans (by simp only [hp])⟩

end

end Storage

end BufferPool

end PushGateway
