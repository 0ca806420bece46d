import PushGateway.Time

/-!
Deadlines in a binary heap. Entries live in numbered slots that are used again after they are
freed; a handle names a slot and the generation it was given out in, so that a handle kept too long
names nothing. The heap orders the slots of the scheduled entries, and every entry knows its place
in it.
-/

namespace PushGateway.Timer

/-- Deadlines that would move by less than this stay where they are. -/
def lazyDelay : Nanos := .ofMillis 300

structure Handle where
  slot : Nat
  generation : Nat
  deriving DecidableEq, Repr, Inhabited

/-- An entry calls `callback` when its deadline passes. A vacant slot has none. -/
structure Entry (κ : Type) where
  deadline : Nanos := 0
  callback : Option κ := none
  place : Option Nat := none
  key : String := ""
  generation : Nat := 0
  inUse : Bool := false
  deriving Repr, DecidableEq

structure Heap (κ : Type) where
  entries : Array (Entry κ)
  free : List Nat
  order : Array Nat
  deriving Repr

namespace Heap

variable {κ : Type}

/-- Slot 0 is given out first. -/
def new (size : Nat) : Heap κ := ⟨.replicate size {}, List.range size, #[]⟩

def size (h : Heap κ) : Nat := h.order.size

def isEmpty (h : Heap κ) : Bool := h.order.isEmpty

def allocated (h : Heap κ) : Nat := h.entries.size - h.free.length

def entry (h : Heap κ) (slot : Nat) : Entry κ := h.entries.getD slot {}

def slotAt (h : Heap κ) (i : Nat) : Nat := h.order.getD i 0

def deadlineAt (h : Heap κ) (i : Nat) : Nanos := (h.entry (h.slotAt i)).deadline

def peek? (h : Heap κ) : Option Nanos := h.order[0]?.map fun slot => (h.entry slot).deadline

def isRoot (h : Heap κ) (handle : Handle) : Bool := h.order[0]? = some handle.slot

def live? (h : Heap κ) (handle : Handle) : Option (Entry κ) :=
  h.entries[handle.slot]?.filter fun e => e.inUse && e.generation == handle.generation

def modify (h : Heap κ) (slot : Nat) (f : Entry κ → Entry κ) : Heap κ :=
  { h with entries := h.entries.modify slot f }

def settle (h : Heap κ) (i : Nat) : Heap κ :=
  h.modify (h.slotAt i) fun e => { e with place := some i }

def swap (h : Heap κ) (i j : Nat) : Heap κ :=
  ({ h with order := h.order.swapIfInBounds i j }.settle i).settle j

@[simp] theorem swap_size (h : Heap κ) (i j : Nat) : (h.swap i j).order.size = h.order.size := by
  simp [swap, settle, modify]

def less (h : Heap κ) (i j : Nat) : Bool := h.deadlineAt i < h.deadlineAt j

/-- Moves the slot at `j` towards the root while it is earlier than its parent. -/
def up (h : Heap κ) (j : Nat) : Heap κ :=
  if 0 < j ∧ h.less j ((j - 1) / 2) then (h.swap ((j - 1) / 2) j).up ((j - 1) / 2) else h
termination_by j
decreasing_by omega

/-- The earlier child of `i`; the left one of two that are due together. -/
def child (h : Heap κ) (i : Nat) : Nat :=
  if 2 * i + 2 < h.order.size ∧ h.less (2 * i + 2) (2 * i + 1) then 2 * i + 2 else 2 * i + 1

theorem child_gt (h : Heap κ) (i : Nat) : i < h.child i := by
  simp only [child]; split <;> omega

theorem child_lt (h : Heap κ) {i : Nat} (hi : 2 * i + 1 < h.order.size) :
    h.child i < h.order.size := by
  simp only [child]; split <;> omega

/-- Moves the slot at `i` away from the root while a child is earlier. -/
def down (h : Heap κ) (i : Nat) : Heap κ :=
  if 2 * i + 1 < h.order.size ∧ h.less (h.child i) i then
    (h.swap i (h.child i)).down (h.child i)
  else h
termination_by h.order.size - i
decreasing_by
  rename_i hc
  have := h.child_gt i
  have := h.child_lt hc.1
  rw [swap_size]
  omega

def push (h : Heap κ) (slot : Nat) : Heap κ :=
  let h' := { h with order := h.order.push slot }
  (h'.settle h.order.size).up h.order.size

def pop (h : Heap κ) : Heap κ :=
  let slot := h.slotAt (h.order.size - 1)
  { h with order := h.order.pop }.modify slot fun e => { e with place := none }

/-- Unschedules the slot at place `i`: the last one takes its place and is sifted both ways. -/
def removeAt (h : Heap κ) (i : Nat) : Heap κ :=
  let last := h.order.size - 1
  let h' := (if i = last then h else h.swap i last).pop
  if i < h'.order.size then (h'.down i).up i else h'

/-- The slot for a new entry: the one freed last, or one more. -/
def reserve (h : Heap κ) : Nat × Heap κ :=
  match h.free with
  | slot :: r => (slot, { h with free := r })
  | [] => (h.entries.size, { h with entries := h.entries.push {} })

def add (h : Heap κ) (deadline : Nanos) (key : String) (callback : κ) : Handle × Heap κ :=
  let (slot, h) := h.reserve
  let handle := ⟨slot, (h.entry slot).generation⟩
  let h := h.modify slot fun e => { e with deadline, key, callback := some callback, inUse := true }
  (handle, h.push slot)

def unschedule (h : Heap κ) (e : Entry κ) : Heap κ :=
  match e.place with
  | some i => h.removeAt i
  | none => h

/-- Gives an entry back. The generation of its slot goes up, so its handle names nothing now. -/
def del (h : Heap κ) (handle : Handle) : Bool × Heap κ :=
  match h.live? handle with
  | none => (false, h)
  | some e =>
    let h := (h.unschedule e).modify handle.slot fun e =>
      { e with inUse := false, callback := none, key := "", generation := e.generation + 1 }
    (true, { h with free := handle.slot :: h.free })

def distance (a b : Nanos) : Nanos := max a b - min a b

/-- Moves a deadline, or arms a fired entry again. A scheduled entry that would move by less than
the lazy delay stays. -/
def set (h : Heap κ) (handle : Handle) (deadline : Nanos) : Bool × Heap κ :=
  match h.live? handle with
  | none => (false, h)
  | some e =>
    if e.place.isSome ∧ distance deadline e.deadline < lazyDelay then (true, h)
    else (true, ((h.unschedule e).modify handle.slot fun e => { e with deadline }).push handle.slot)

def setKey (h : Heap κ) (handle : Handle) (key : String) : Heap κ :=
  match h.live? handle with
  | none => h
  | some _ => h.modify handle.slot fun e => { e with key }

/-- Unschedules the entries due at `now`, root by root. They stay allocated. -/
def expireLoop (now : Nanos) : Nat → Heap κ → List (String × κ) × Heap κ
  | 0, h => ([], h)
  | fuel + 1, h =>
    match h.order[0]? with
    | none => ([], h)
    | some slot =>
      if now < (h.entry slot).deadline then ([], h)
      else
        let h := h.removeAt 0
        let e := h.entry slot
        let (fired, h) := expireLoop now fuel h
        (e.callback.toList.map (e.key, ·) ++ fired, h)

/-- The keys and callbacks of the entries due at `now`, in the order they leave the heap. -/
def expire (h : Heap κ) (now : Nanos) : List (String × κ) × Heap κ := expireLoop now h.order.size h

def entryAt? (h : Heap κ) (i : Nat) : Option (Entry κ) :=
  h.order[i]?.bind fun slot => h.entries[slot]?

/-- The check a heap makes of itself: the scheduled entries know their places and are in order, and
an entry with a place is in use. An index that is out of range fails it. -/
def consistent (h : Heap κ) : Bool :=
  ((List.range h.order.size).all fun i => (h.entryAt? i).any fun e => e.place = some i ∧
    (0 < i → (h.entryAt? ((i - 1) / 2)).any fun parent => parent.deadline ≤ e.deadline)) ∧
  h.entries.all fun e => e.place.isSome → e.inUse

end Heap

end PushGateway.Timer
