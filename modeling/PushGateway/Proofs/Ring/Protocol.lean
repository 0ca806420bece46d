import Mathlib.Algebra.Group.Nat.Defs
import Mathlib.Tactic.Common
import PushGateway.Channel
import PushGateway.Proofs.Ring

/-!
One writer and one reader at a ring, access by access and in any mix. The writer fills a slot it has
reserved and then commits it; the reader looks at the oldest slot, may move the value out, and then
commits the read. What has been sent and not been got is a queue, and the ring holds exactly that,
whatever the writer has in preparation; only the front of it may already have been moved out.
-/

namespace PushGateway

open private Nat.nextPowerOfTwo.go from Init.Data.Nat.Power2.Basic

/-- `c` is `n`, at least one, rounded up to a power of two. -/
structure RoundsUp (n c : Nat) : Prop where
  isPowerOfTwo : c.isPowerOfTwo
  le : max n 1 ≤ c
  least : ∀ k, max n 1 ≤ 2 ^ k → c ≤ 2 ^ k

theorem nextPowerOfTwo_go_least (n p : Nat) (h : 0 < p) (hp : p.isPowerOfTwo)
    (hlow : ∀ k, n ≤ 2 ^ k → p ≤ 2 ^ k) :
    n ≤ Nat.nextPowerOfTwo.go n p h ∧ ∀ k, n ≤ 2 ^ k → Nat.nextPowerOfTwo.go n p h ≤ 2 ^ k := by
  unfold Nat.nextPowerOfTwo.go
  split
  · rename_i hlt
    refine nextPowerOfTwo_go_least n (p * 2) _ (Nat.isPowerOfTwo_mul_two_of_isPowerOfTwo hp) ?_
    intro k hk
    obtain ⟨j, rfl⟩ := hp
    have hjk : j < k := (Nat.pow_lt_pow_iff_right (by decide)).1 (Nat.lt_of_lt_of_le hlt hk)
    rw [← Nat.pow_succ]
    exact Nat.pow_le_pow_right (by decide) hjk
  · exact ⟨by omega, hlow⟩
termination_by n - p

namespace Ring

variable {α : Type} [Inhabited α]

theorem new_roundsUp (n : Nat) : RoundsUp n (new n : Ring α).capacity := by
  have hcap : (new n : Ring α).capacity = (max n 1).nextPowerOfTwo := Array.size_replicate
  have hgo := nextPowerOfTwo_go_least (max n 1) 1 Nat.one_pos Nat.isPowerOfTwo_one
    fun k _ => Nat.one_le_two_pow
  rw [hcap]
  exact ⟨Nat.isPowerOfTwo_nextPowerOfTwo _, hgo.1, hgo.2⟩

omit [Inhabited α] in
/-- A slot is the counter under a mask, also in words of 64 bits. -/
theorem slot_eq_mask {r : Ring α} (hp : r.capacity.isPowerOfTwo) (hc : r.capacity ≤ 2 ^ 63)
    {k : Nat} (hk : k < 2 ^ 64) :
    (UInt64.ofNat k &&& (UInt64.ofNat r.capacity - 1)).toNat = r.slot k := by
  obtain ⟨j, hj⟩ := hp
  have hpos : 1 ≤ r.capacity := hj ▸ Nat.one_le_two_pow
  have hmask : (UInt64.ofNat r.capacity - 1).toNat = r.capacity - 1 := by
    rw [UInt64.toNat_sub_of_le, UInt64.toNat_ofNat_of_lt']
    · rfl
    · exact Nat.lt_of_le_of_lt hc (by decide)
    · rw [UInt64.le_iff_toNat_le, UInt64.toNat_ofNat_of_lt' (Nat.lt_of_le_of_lt hc (by decide))]
      exact hpos
  rw [UInt64.toNat_and, hmask, UInt64.toNat_ofNat_of_lt' hk, hj, Nat.and_two_pow_sub_one_eq_mod,
    slot, hj]

inductive Access (α : Type) where
  | reserveWrite
  | fill (x : α)
  | commitWrite
  | reserveRead
  | take
  | commitRead
  deriving DecidableEq, Repr

/-- A ring between a writer and a reader: the slot the writer has reserved and what it has put
there, the value the reader looks at and whether it has moved it out, and what both have
committed. -/
structure Protocol (α : Type) where
  ring : Ring α
  reserved : Bool := false
  draft : Option α := none
  hand : Option α := none
  moved : Bool := false
  sent : List α := []
  got : List α := []

namespace Protocol

def start (n : Nat) : Protocol α := { ring := .new n }

def step (p : Protocol α) : Access α → Protocol α
  | .reserveWrite => { p with reserved := p.ring.reserveWrite?.isSome }
  | .fill x => { p with ring := p.ring.fill x, draft := some x }
  | .commitWrite =>
    { p with
      ring := p.ring.commitWrite, reserved := false, draft := none,
      sent := p.sent ++ p.draft.toList }
  | .reserveRead => { p with hand := p.hand.or p.ring.reserveRead? }
  | .take => { p with ring := p.ring.vacate, moved := true }
  | .commitRead =>
    { p with
      ring := p.ring.commitRead, hand := none, moved := false, got := p.got ++ p.hand.toList }

def run (p : Protocol α) (as : List (Access α)) : Protocol α := as.foldl step p

/-- A slot is filled once it is reserved, a write committed once its slot is filled, and a value
taken out or its read committed once it has been shown. -/
def allows (p : Protocol α) : Access α → Bool
  | .reserveWrite | .reserveRead => true
  | .fill _ => p.reserved
  | .commitWrite => p.draft.isSome
  | .take | .commitRead => p.hand.isSome

def disciplined (p : Protocol α) : List (Access α) → Bool
  | [] => true
  | a :: as => p.allows a && (p.step a).disciplined as

def unread (p : Protocol α) : List α := p.sent.drop p.got.length

def stored (p : Protocol α) : List α := if p.moved then p.unread.set 0 default else p.unread

structure Sound (p : Protocol α) : Prop where
  holds : p.ring.Holds p.stored
  got : p.got <+: p.sent
  writes : p.ring.writes = p.sent.length
  room : p.reserved → p.unread.length < p.ring.capacity
  reserved : p.draft.isSome → p.reserved
  draft : ∀ x, p.draft = some x → p.ring.slots[p.ring.slot p.ring.writes]? = some x
  hand : ∀ x, p.hand = some x → ∃ xs, p.unread = x :: xs
  moved : p.moved → p.hand.isSome

variable {p : Protocol α} {a : Access α} {x : α} {xs : List α}

omit [Inhabited α] in
theorem sent_eq (h : p.got <+: p.sent) : p.sent = p.got ++ p.unread :=
  (List.prefix_iff_eq_append.1 h).symm

omit [Inhabited α] in
theorem unread_eq (h : p.sent = p.got ++ xs) : p.unread = xs := by
  rw [unread, h, List.drop_left]

theorem length_stored (p : Protocol α) : p.stored.length = p.unread.length := by
  rw [stored]
  split
  · exact List.length_set
  · rfl

theorem Sound.writable (h : p.Sound) : p.ring.reserveWrite?.isSome ↔
    p.unread.length < p.ring.capacity := by
  have hfits := h.holds.fits
  have hnone := h.holds.reserveWrite?_eq_none
  rw [p.length_stored] at hfits hnone
  rw [Option.isSome_iff_ne_none, Ne, hnone]
  omega

theorem Sound.stored_hand (h : p.Sound) (hm : p.moved) : ∃ x xs, p.unread = x :: xs ∧
    p.stored = default :: xs := by
  obtain ⟨x, hx⟩ := Option.isSome_iff_exists.1 (h.moved hm)
  obtain ⟨xs, hxs⟩ := h.hand x hx
  refine ⟨x, xs, hxs, ?_⟩
  rw [stored, if_pos hm, hxs]
  rfl

theorem start_sound (n : Nat) : (start n : Protocol α).Sound where
  holds := new_holds n
  got := List.prefix_rfl
  writes := rfl
  room h := Bool.noConfusion h
  reserved h := Bool.noConfusion h
  draft _ h := by cases h
  hand _ h := by cases h
  moved h := Bool.noConfusion h

theorem Sound.reserveWrite (h : p.Sound) : (p.step .reserveWrite).Sound where
  __ := h
  room := h.writable.1
  reserved hd := h.writable.2 (h.room (h.reserved hd))

theorem Sound.fill (h : p.Sound) (hr : p.reserved) (x : α) : (p.step (.fill x)).Sound where
  __ := h
  holds := h.holds.fill (p.length_stored ▸ h.room hr) x
  room _ := (capacity_fill p.ring x).symm ▸ h.room hr
  reserved _ := hr
  draft y hy := by
    cases hy
    exact h.holds.written x

theorem Sound.commitWrite (h : p.Sound) (hd : p.draft.isSome) : (p.step .commitWrite).Sound := by
  obtain ⟨x, hx⟩ := Option.isSome_iff_exists.1 hd
  have hlt : p.unread.length < p.ring.capacity := h.room (h.reserved hd)
  have hsent : (p.step .commitWrite).sent = p.sent ++ [x] := by
    change p.sent ++ p.draft.toList = _
    rw [hx]
    rfl
  have hunread : (p.step .commitWrite).unread = p.unread ++ [x] := by
    refine unread_eq ?_
    rw [hsent, sent_eq h.got, List.append_assoc]
    rfl
  have hstored : (p.step .commitWrite).stored = p.stored ++ [x] := by
    rw [stored, hunread]
    change (if p.moved then _ else _) = _
    split
    · rename_i hm
      obtain ⟨y, ys, hu, hs⟩ := h.stored_hand hm
      rw [hu, hs]
      rfl
    · rename_i hm
      rw [stored, if_neg hm]
  constructor
  · rw [hstored]
    exact h.holds.commitWrite (p.length_stored ▸ hlt) (h.draft x hx)
  · rw [hsent]
    exact h.got.trans (List.prefix_append _ _)
  · rw [hsent, List.length_append]
    exact congrArg (· + 1) h.writes
  · exact Bool.noConfusion
  · exact Bool.noConfusion
  · intro y hy
    cases hy
  · intro y hy
    obtain ⟨ys, hys⟩ := h.hand y hy
    exact ⟨ys ++ [x], by rw [hunread, hys]; rfl⟩
  · exact h.moved

theorem Sound.reserveRead (h : p.Sound) : (p.step .reserveRead).Sound where
  __ := h
  hand x hx := by
    change p.hand.or p.ring.reserveRead? = some x at hx
    cases hh : p.hand with
    | some y =>
      rw [hh] at hx
      cases hx
      exact h.hand x hh
    | none =>
      have hm : ¬ p.moved := fun hm => by simpa [hh] using h.moved hm
      rw [hh, Option.none_or, h.holds.reserveRead?, stored, if_neg hm, List.head?_eq_some_iff] at hx
      exact hx
  moved hm := by
    change (p.hand.or p.ring.reserveRead?).isSome
    rw [Option.isSome_or, h.moved hm, Bool.true_or]

theorem Sound.take (h : p.Sound) (hh : p.hand.isSome) : (p.step .take).Sound where
  __ := h
  holds := by
    have hs : (p.step .take).stored = p.stored.set 0 default := by
      change p.unread.set 0 default = _
      rw [stored]
      split
      · rw [List.set_set]
      · rfl
    rw [hs]
    exact h.holds.vacate
  room hr := (capacity_vacate p.ring).symm ▸ h.room hr
  draft x hx := by
    obtain ⟨y, hy⟩ := Option.isSome_iff_exists.1 hh
    obtain ⟨ys, hys⟩ := h.hand y hy
    have hroom := h.room (h.reserved (Option.isSome_iff_exists.2 ⟨x, hx⟩))
    have hw := h.holds.writes
    rw [p.length_stored] at hw
    have hlen : p.unread.length = ys.length + 1 := by rw [hys, List.length_cons]
    have hne : p.ring.slot p.ring.reads ≠ p.ring.slot p.ring.writes := slot_ne (by omega) (by omega)
    change (p.ring.slots.setIfInBounds (p.ring.slot p.ring.reads) default)[p.ring.vacate.slot
      p.ring.writes]? = _
    rw [slot_vacate]
    rw [Array.getElem?_setIfInBounds_ne hne]
    exact h.draft x hx
  moved _ := hh

theorem Sound.commitRead (h : p.Sound) (hh : p.hand.isSome) : (p.step .commitRead).Sound := by
  obtain ⟨x, hx⟩ := Option.isSome_iff_exists.1 hh
  obtain ⟨xs, hxs⟩ := h.hand x hx
  have hsent : p.sent = (p.step .commitRead).got ++ xs := by
    change _ = (p.got ++ p.hand.toList) ++ xs
    rw [sent_eq h.got, hxs, hx, List.append_assoc]
    rfl
  have hunread : (p.step .commitRead).unread = xs := unread_eq hsent
  have hstored : ∃ y, p.stored = y :: xs := by
    by_cases hm : p.moved
    · obtain ⟨y, ys, hu, hs⟩ := h.stored_hand hm
      rw [hxs] at hu
      cases hu
      exact ⟨_, hs⟩
    · exact ⟨x, by rw [stored, if_neg hm, hxs]⟩
  obtain ⟨y, hy⟩ := hstored
  constructor
  · change p.ring.commitRead.Holds (p.step .commitRead).unread
    rw [hunread]
    exact (hy ▸ h.holds).commitRead
  · exact ⟨xs, hsent.symm⟩
  · exact h.writes
  · intro hr
    have hroom := h.room hr
    rw [hxs, List.length_cons] at hroom
    rw [hunread]
    exact Nat.lt_of_succ_lt hroom
  · exact h.reserved
  · exact h.draft
  · intro z hz
    cases hz
  · exact Bool.noConfusion

theorem Sound.step (h : p.Sound) (ha : p.allows a) : (p.step a).Sound := by
  cases a with
  | reserveWrite => exact h.reserveWrite
  | fill x => exact h.fill ha x
  | commitWrite => exact h.commitWrite ha
  | reserveRead => exact h.reserveRead
  | take => exact h.take ha
  | commitRead => exact h.commitRead ha

theorem Sound.run {as : List (Access α)} (h : p.Sound) (ha : p.disciplined as) :
    (p.run as).Sound := by
  induction as generalizing p with
  | nil => exact h
  | cons a as ih =>
    rw [disciplined, Bool.and_eq_true] at ha
    exact ih (h.step ha.1) ha.2

theorem step_capacity (p : Protocol α) (a : Access α) :
    (p.step a).ring.capacity = p.ring.capacity := by
  cases a with
  | fill x => exact capacity_fill p.ring x
  | take => exact capacity_vacate p.ring
  | reserveWrite | commitWrite | reserveRead | commitRead => rfl

theorem step_writes (p : Protocol α) (a : Access α) :
    (p.step a).ring.writes ≤ p.ring.writes + 1 := by
  cases a with
  | commitWrite => exact Nat.le_refl _
  | fill | take | reserveWrite | reserveRead | commitRead => exact Nat.le_succ _

theorem run_ring (p : Protocol α) (as : List (Access α)) :
    (p.run as).ring.capacity = p.ring.capacity ∧
      (p.run as).ring.writes ≤ p.ring.writes + as.length := by
  induction as generalizing p with
  | nil => exact ⟨rfl, Nat.le_refl _⟩
  | cons a as ih =>
    obtain ⟨hc, hw⟩ := ih (p.step a)
    have hw' := p.step_writes a
    refine ⟨hc.trans (p.step_capacity a), ?_⟩
    change ((p.step a).run as).ring.writes ≤ _
    rw [List.length_cons]
    omega

/-- A bounded queue, as far as its two parties can tell. -/
structure Fifo (p : Protocol α) : Prop where
  got : p.got <+: p.sent
  length_le : p.unread.length ≤ p.ring.capacity
  reserveWrite? : p.ring.reserveWrite? = none ↔ p.unread.length = p.ring.capacity
  reserveRead? : p.ring.reserveRead? = none ↔ p.unread = []
  front : p.moved = false → p.ring.reserveRead? = p.unread.head?
  hand : ∀ x, p.hand = some x → p.unread.head? = some x
  toList : p.ring.toList = if p.moved then p.unread.set 0 default else p.unread
  size : p.ring.size = p.unread.length
  isEmpty : p.ring.isEmpty ↔ p.unread = []
  isFull : p.ring.isFull ↔ p.unread.length = p.ring.capacity

theorem Sound.fifo (h : p.Sound) : p.Fifo := by
  have hlen := p.length_stored
  have hnil : p.stored = [] ↔ p.unread = [] := by
    rw [← List.length_eq_zero_iff, hlen, List.length_eq_zero_iff]
  constructor
  · exact h.got
  · exact hlen ▸ h.holds.fits
  · exact hlen ▸ h.holds.reserveWrite?_eq_none
  · rw [h.holds.reserveRead?, List.head?_eq_none_iff, hnil]
  · intro hm
    rw [h.holds.reserveRead?, stored, hm]
    rfl
  · intro x hx
    obtain ⟨xs, hxs⟩ := h.hand x hx
    rw [hxs]
    rfl
  · exact h.holds.toList
  · exact hlen ▸ h.holds.size
  · exact h.holds.isEmpty_iff.trans hnil
  · exact hlen ▸ h.holds.isFull_iff

end Protocol

end Ring

inductive Mail where
  | put (f : Frame)
  | fetch
  deriving Repr

structure Mailbox where
  channel : Channel
  taken : List Frame := []
  given : List Frame := []

namespace Mailbox

def step (m : Mailbox) : Mail → Mailbox
  | .put f => match m.channel.pushInbound f with
    | .ok channel => { m with channel, taken := m.taken ++ [f] }
    | .error _ => m
  | .fetch => match m.channel.popInbound with
    | some (f, channel) => { m with channel, given := m.given ++ [f] }
    | none => m

def run (m : Mailbox) (mails : List Mail) : Mailbox := mails.foldl step m

def waiting (m : Mailbox) : List Frame := m.taken.drop m.given.length

structure Fifo (n : Nat) (m : Mailbox) : Prop where
  capacity : RoundsUp n m.channel.inbound.capacity
  given : m.given <+: m.taken
  toList : m.channel.inbound.toList = m.waiting
  popInbound : m.channel.popInbound.map Prod.fst = m.waiting.head?
  pushInbound : ∀ f, m.channel.pushInbound f = .error .ringFull ↔
    m.waiting.length = m.channel.inbound.capacity
  refused : ∀ f e, m.channel.pushInbound f = .error e → e = .ringFull ∧ m.step (.put f) = m

structure Sound (n : Nat) (m : Mailbox) : Prop where
  capacity : RoundsUp n m.channel.inbound.capacity
  given : m.given <+: m.taken
  holds : m.channel.inbound.Holds m.waiting

variable {n : Nat} {m : Mailbox}

theorem pushInbound_full (h : m.Sound n) (hf : m.waiting.length = m.channel.inbound.capacity)
    (f : Frame) : m.channel.pushInbound f = .error .ringFull := by
  rw [Channel.pushInbound, h.holds.push?_full hf]

theorem pushInbound_ok (h : m.Sound n) (hf : m.waiting.length < m.channel.inbound.capacity)
    (f : Frame) :
    ∃ ring, m.channel.pushInbound f = .ok { m.channel with inbound := ring } ∧
      ring.Holds (m.waiting ++ [f]) ∧
      ring.capacity = m.channel.inbound.capacity := by
  obtain ⟨ring, hp, hh, hc⟩ := h.holds.push? hf f
  exact ⟨ring, by rw [Channel.pushInbound, hp], hh, hc⟩

theorem popInbound_nil (h : m.Sound n) (hw : m.waiting = []) : m.channel.popInbound = none := by
  have hh := h.holds
  rw [hw] at hh
  rw [Channel.popInbound, hh.pop?_nil]
  rfl

theorem popInbound_cons {f : Frame} {fs : List Frame} (h : m.Sound n) (hw : m.waiting = f :: fs) :
    ∃ ring, m.channel.popInbound = some (f, { m.channel with inbound := ring }) ∧ ring.Holds fs ∧
      ring.capacity = m.channel.inbound.capacity := by
  have hh := h.holds
  rw [hw] at hh
  obtain ⟨ring, hp, hh, hc⟩ := hh.pop?_cons
  refine ⟨ring, ?_, hh, hc⟩
  rw [Channel.popInbound, hp]
  rfl

theorem Sound.step (h : m.Sound n) (mail : Mail) : (m.step mail).Sound n := by
  have htaken : m.taken = m.given ++ m.waiting := (List.prefix_iff_eq_append.1 h.given).symm
  cases mail with
  | put f =>
    rcases Nat.lt_or_eq_of_le h.holds.fits with hlt | hfull
    · obtain ⟨ring, hp, hh, hc⟩ := pushInbound_ok h hlt f
      have hw : (m.taken ++ [f]).drop m.given.length = m.waiting ++ [f] := by
        rw [htaken, List.append_assoc, List.drop_left]
      rw [Mailbox.step, hp]
      exact ⟨hc ▸ h.capacity, h.given.trans (List.prefix_append _ _),
        (congrArg ring.Holds hw).mpr hh⟩
    · rw [Mailbox.step, pushInbound_full h hfull]
      exact h
  | fetch =>
    cases hw : m.waiting with
    | nil =>
      rw [Mailbox.step, popInbound_nil h hw]
      exact h
    | cons f fs =>
      obtain ⟨ring, hp, hh, hc⟩ := popInbound_cons h hw
      rw [hw, ← List.singleton_append, ← List.append_assoc] at htaken
      have hw' : m.taken.drop (m.given ++ [f]).length = fs := by rw [htaken, List.drop_left]
      rw [Mailbox.step, hp]
      exact ⟨hc ▸ h.capacity, ⟨fs, htaken.symm⟩, (congrArg ring.Holds hw').mpr hh⟩

theorem Sound.run (h : m.Sound n) (mails : List Mail) : (m.run mails).Sound n := by
  induction mails generalizing m with
  | nil => exact h
  | cons mail mails ih => exact ih (h.step mail)

theorem Sound.fifo (h : m.Sound n) : m.Fifo n := by
  have hfits := h.holds.fits
  refine ⟨h.capacity, h.given, h.holds.toList, ?_, ?_, ?_⟩
  · cases hw : m.waiting with
    | nil =>
      rw [popInbound_nil h hw]
      rfl
    | cons f fs =>
      obtain ⟨ring, hp, -⟩ := popInbound_cons h hw
      rw [hp]
      rfl
  · intro f
    refine ⟨fun he => ?_, fun hf => pushInbound_full h hf f⟩
    by_contra hne
    obtain ⟨ring, hp, -⟩ := pushInbound_ok h (by omega) f
    rw [hp] at he
    cases he
  · intro f e he
    rcases Nat.lt_or_eq_of_le hfits with hlt | hfull
    · obtain ⟨ring, hp, -⟩ := pushInbound_ok h hlt f
      rw [hp] at he
      cases he
    · have hp := pushInbound_full h hfull f
      refine ⟨?_, by rw [Mailbox.step, hp]⟩
      rw [hp] at he
      cases he
      rfl

end Mailbox

namespace Ring.Protocol

/-- Of any size and after any accesses in order a ring is a queue, its counters within a machine
word; and a channel that refuses a reply still gives out those it took, in their order. -/
theorem run_fifo (n : Nat) (as : List (Access Frame)) (ha : (start n).disciplined as) :
    RoundsUp n ((start n).run as).ring.capacity ∧ ((start n).run as).Fifo ∧
    (n ≤ 2 ^ 63 → as.length < 2 ^ 64 →
      ((start n).run as).ring.capacity ≤ 2 ^ 63 ∧
      ((start n).run as).ring.reads ≤ ((start n).run as).ring.writes ∧
      ((start n).run as).ring.writes < 2 ^ 64 ∧
      ∀ k < 2 ^ 64, ((start n).run as).ring.slot k =
        (UInt64.ofNat k &&& (UInt64.ofNat ((start n).run as).ring.capacity - 1)).toNat) ∧
    ∀ (mid : Int64) (key ip : String) (svr : Nat) (canWait : Bool) (mails : List Mail),
      (Mailbox.run ⟨.new mid key ip n svr canWait, [], []⟩ mails).Fifo n := by
  have hs := (start_sound n).run ha
  obtain ⟨hcap, hw⟩ := (start n : Protocol Frame).run_ring as
  have hup : RoundsUp n ((start n).run as).ring.capacity := hcap ▸ new_roundsUp n
  refine ⟨hup, hs.fifo, ?_, ?_⟩
  · intro hn has
    have hle : ((start n).run as).ring.capacity ≤ 2 ^ 63 := hup.least 63 (by omega)
    have hrw := hs.holds.writes
    refine ⟨hle, by omega, ?_, fun k hk => (slot_eq_mask hup.isPowerOfTwo hle hk).symm⟩
    have h0 : (start n : Protocol Frame).ring.writes = 0 := rfl
    omega
  · intro mid key ip svr canWait mails
    have hm : Mailbox.Sound n ⟨.new mid key ip n svr canWait, [], []⟩ :=
      ⟨new_roundsUp n, List.prefix_rfl, new_holds n⟩
    exact (hm.run mails).fifo

/-- A ring of one slot, used around the circle: a write goes ahead once the read before it is
committed. -/
def wrapped : List (Access Frame) :=
  [.reserveWrite, .fill { seq := 1 }, .commitWrite, .reserveWrite, .reserveRead, .take, .commitRead,
    .reserveWrite, .fill { seq := 2 }, .reserveRead, .commitWrite, .reserveRead]

theorem run_fifo_wrapped : (start 0).disciplined wrapped ∧
    ((start 0).run wrapped).unread.map Frame.seq = [2] ∧ ((start 0).run wrapped).Fifo :=
  have ha : (start 0).disciplined wrapped := by decide +kernel
  ⟨ha, by decide +kernel, (run_fifo 0 wrapped ha).2.1⟩

end Ring.Protocol

end PushGateway
