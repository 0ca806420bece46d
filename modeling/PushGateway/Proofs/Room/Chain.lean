import Mathlib.Data.List.Nodup
import Mathlib.Data.List.Perm.Subperm
import Mathlib.Tactic.Common
import PushGateway.Room

/-!
The member list of a room as a list of slots. Every member of it names the slots before and behind
its own, and the vacant slots are the ones that are free. Linking a channel puts a slot in front;
unlinking takes one out, wherever it stands.
-/

namespace PushGateway.Room

def owner? (r : Room) (slot : Nat) : Option Nat := (r.member? slot).map (·.channel)

def prior (l : List Nat) (i : Nat) : Option Nat := if i = 0 then none else l[i - 1]?

/-- The members of `r` are linked in the order of `l`. -/
structure Chain (r : Room) (l : List Nat) : Prop where
  head : r.head = l[0]?
  node : ∀ i s, l[i]? = some s → ∃ c, r.member? s = some ⟨c, prior l i, l[i + 1]?⟩
  nodup : l.Nodup
  vacant : ∀ s, s ∉ l → r.member? s = none
  free_nodup : r.free.Nodup
  free : ∀ s, s ∈ r.free ↔ s < r.slots.size ∧ r.member? s = none
  online : r.online = l.length
  dropped : r.dropped = true → l = []

theorem new_chain (id : String) : (new id).Chain [] := by
  constructor <;> simp [new, member?]

theorem Chain.allOnline {r : Room} {l : List Nat} (hc : r.Chain l) (count : Int32) :
    { r with allOnline := count }.Chain l := { hc with }

theorem member?_set (r : Room) (slot : Nat) (m : Option Member) (s : Nat) :
    member? { r with slots := r.slots.setIfInBounds slot m } s =
      if s = slot ∧ slot < r.slots.size then m else r.member? s := by
  simp only [member?, Array.getD_eq_getD_getElem?, Array.getElem?_setIfInBounds]
  by_cases hs : slot = s
  · subst hs
    by_cases hlt : slot < r.slots.size
    · simp [hlt]
    · simp [hlt]
  · simp [hs, Ne.symm hs]

theorem member?_modify (r : Room) (slot : Option Nat) (f : Member → Member) (s : Nat) :
    (r.modify slot f).member? s = if slot = some s then (r.member? s).map f else r.member? s := by
  cases slot with
  | none => rfl
  | some slot =>
    simp only [modify, member?, Array.getD_eq_getD_getElem?, Array.getElem?_modify,
      Option.some.injEq]
    split_ifs with hs
    · cases r.slots[s]? <;> rfl
    · rfl

@[simp] theorem modify_head (r : Room) (slot : Option Nat) (f : Member → Member) :
    (r.modify slot f).head = r.head := by
  cases slot <;> rfl

@[simp] theorem modify_free (r : Room) (slot : Option Nat) (f : Member → Member) :
    (r.modify slot f).free = r.free := by
  cases slot <;> rfl

@[simp] theorem modify_id (r : Room) (slot : Option Nat) (f : Member → Member) :
    (r.modify slot f).id = r.id := by
  cases slot <;> rfl

@[simp] theorem modify_dropped (r : Room) (slot : Option Nat) (f : Member → Member) :
    (r.modify slot f).dropped = r.dropped := by
  cases slot <;> rfl

@[simp] theorem modify_size (r : Room) (slot : Option Nat) (f : Member → Member) :
    (r.modify slot f).slots.size = r.slots.size := by
  cases slot with
  | none => rfl
  | some slot => exact Array.size_modify

section
variable {r : Room} {l : List Nat}

theorem member?_lt {s : Nat} {m : Member} (hm : r.member? s = some m) : s < r.slots.size := by
  by_contra hn
  simp [member?, hn] at hm

theorem Chain.mem_iff (hc : r.Chain l) (s : Nat) : s ∈ l ↔ (r.member? s).isSome := by
  constructor
  · intro hs
    obtain ⟨i, hi⟩ := List.mem_iff_getElem?.1 hs
    obtain ⟨c, hm⟩ := hc.node i s hi
    rw [hm]
    rfl
  · intro hs
    by_contra hn
    rw [hc.vacant s hn] at hs
    cases hs

theorem Chain.eq_nil_iff (hc : r.Chain l) : l = [] ↔ ∀ s, r.owner? s = none := by
  rw [List.eq_nil_iff_forall_not_mem]
  apply forall_congr'
  intro s
  rw [hc.mem_iff, owner?, Option.map_eq_none_iff, Option.not_isSome_iff_eq_none]

theorem Chain.mem_of_owner (hc : r.Chain l) {s c : Nat} (ho : r.owner? s = some c) : s ∈ l := by
  rw [hc.mem_iff, ← Option.isSome_map, ← owner?, ho]
  rfl

theorem getElem?_inj (hn : l.Nodup) {i j s : Nat} (hi : l[i]? = some s) (hj : l[j]? = some s) :
    i = j :=
  (List.getElem?_inj (List.getElem?_eq_some_iff.1 hi).1 hn).1 (hi.trans hj.symm)

theorem Chain.length_le (hc : r.Chain l) : l.length ≤ r.slots.size := by
  have hsub : l ⊆ List.range r.slots.size := by
    intro s hs
    obtain ⟨m, hm⟩ := Option.isSome_iff_exists.1 ((hc.mem_iff s).1 hs)
    exact List.mem_range.2 (member?_lt hm)
  simpa using (hc.nodup.subperm hsub).length_le

structure Allocated (r : Room) (m : Member) (slot : Nat) (r' : Room) : Prop where
  vacant : r.member? slot = none
  member? : ∀ s, r'.member? s = if s = slot then some m else r.member? s
  free_nodup : r'.free.Nodup
  free : ∀ s, s ∈ r'.free ↔ s < r'.slots.size ∧ r'.member? s = none
  id : r'.id = r.id
  dropped : r'.dropped = r.dropped

theorem Chain.allocate (hc : r.Chain l) (m : Member) :
    r.Allocated m (r.allocate m).1 (r.allocate m).2 := by
  have hfree := hc.free
  have hnd := hc.free_nodup
  cases hf : r.free with
  | nil =>
    have hr : r.allocate m = (r.slots.size, { r with slots := r.slots.push (some m) }) := by
      simp only [Room.allocate, hf]
    have hm (s : Nat) : Room.member? { r with slots := r.slots.push (some m) } s =
        if s = r.slots.size then some m else r.member? s := by
      simp only [Room.member?, Array.getD_eq_getD_getElem?, Array.getElem?_push]
      split_ifs <;> rfl
    have hused (s : Nat) (hs : s < r.slots.size) : r.member? s ≠ none := fun hn => by
      have := (hfree s).2 ⟨hs, hn⟩
      rw [hf] at this
      cases this
    rw [hr]
    refine ⟨by simp [Room.member?], hm, hnd, ?_, rfl, rfl⟩
    intro s
    rw [hm, hf]
    constructor
    · intro hs
      cases hs
    · rintro ⟨hlt, hn⟩
      have hlt' : s < r.slots.size + 1 := by simpa using hlt
      split_ifs at hn with hs
      exact absurd hn (hused s (by omega))
  | cons slot free =>
    have hr : r.allocate m =
        (slot, { r with free, slots := r.slots.setIfInBounds slot (some m) }) := by
      simp only [Room.allocate, hf]
    rw [hf] at hfree hnd
    obtain ⟨hlt, hn⟩ := (hfree slot).1 (by simp)
    obtain ⟨hnf, hnd'⟩ := List.nodup_cons.1 hnd
    have hm (s : Nat) :
        Room.member? { r with free, slots := r.slots.setIfInBounds slot (some m) } s =
        if s = slot then some m else r.member? s := by
      refine (member?_set r slot (some m) s).trans ?_
      simp only [hlt, and_true]
    rw [hr]
    refine ⟨hn, hm, hnd', ?_, rfl, rfl⟩
    intro s
    rw [hm]
    change s ∈ free ↔ s < (r.slots.setIfInBounds slot (some m)).size ∧ _
    rw [Array.size_setIfInBounds]
    split_ifs with hs
    · simp [hs, hnf]
    · rw [← hfree s]
      simp [hs]

structure Prepended (r : Room) (channel slot : Nat) (r' : Room) : Prop where
  vacant : r.member? slot = none
  member? : ∀ s, r'.member? s = if s = slot then some ⟨channel, none, r.head⟩ else
    (r.member? s).map fun m => { m with before := if r.head = some s then some slot else m.before }
  head : r'.head = some slot
  free_nodup : r'.free.Nodup
  free : ∀ s, s ∈ r'.free ↔ s < r'.slots.size ∧ r'.member? s = none
  id : r'.id = r.id
  online : r'.online = r.online + 1
  dropped : r'.dropped = r.dropped

theorem Chain.not_head (hc : r.Chain l) {slot : Nat} (hv : r.member? slot = none) :
    r.head ≠ some slot := by
  intro hh
  rw [hc.head] at hh
  have hm := (hc.mem_iff slot).1 (List.mem_of_getElem? hh)
  rw [hv] at hm
  cases hm

theorem Chain.link_prepended (hc : r.Chain l) (hd : r.dropped = false) (channel : Nat) :
    ∃ slot r', r.link channel = .ok (slot, r') ∧ r.Prepended channel slot r' := by
  have ha := hc.allocate ⟨channel, none, r.head⟩
  rcases hal : r.allocate ⟨channel, none, r.head⟩ with ⟨slot, r₁⟩
  rw [hal] at ha
  have hm (s : Nat) : (r₁.modify r.head fun m => { m with before := some slot }).member? s =
      if s = slot then some ⟨channel, none, r.head⟩ else
        (r.member? s).map fun m =>
          { m with before := if r.head = some s then some slot else m.before } := by
    rw [member?_modify, ha.member?]
    by_cases hs : s = slot
    · rw [if_pos hs, if_pos hs, if_neg (hs ▸ hc.not_head ha.vacant)]
    · by_cases hh : r.head = some s
      · simp only [if_neg hs, if_pos hh]
      · cases r.member? s <;> simp [hs, hh]
  have hl : r.link channel =
    .ok (slot, { r₁.modify r.head fun m => { m with before := some slot } with
      head := some slot, online := r.online + 1 }) := by
    simp only [Room.link, hd, hal]
    rfl
  refine ⟨slot, _, hl, ha.vacant, hm, rfl, ?_, ?_, ?_, rfl, ?_⟩
  · change (r₁.modify ..).free.Nodup
    rw [modify_free]
    exact ha.free_nodup
  · intro s
    change s ∈ (r₁.modify ..).free ↔ s < (r₁.modify ..).slots.size ∧ (r₁.modify ..).member? s = none
    rw [modify_free, modify_size, ha.free, hm, ha.member?]
    by_cases hs : s = slot
    · simp only [if_pos hs, reduceCtorEq]
    · simp only [if_neg hs, Option.map_eq_none_iff]
  · exact (modify_id ..).trans ha.id
  · exact (modify_dropped ..).trans ha.dropped

structure Joined (r : Room) (channel slot : Nat) (r' : Room) : Prop where
  owner? : ∀ s, r'.owner? s = if s = slot then some channel else r.owner? s
  vacant : r.owner? slot = none
  id : r'.id = r.id

theorem Prepended.joined {channel slot : Nat} {r' : Room} (hp : r.Prepended channel slot r') :
    r.Joined channel slot r' := by
  refine ⟨?_, ?_, hp.id⟩
  · intro s
    rw [owner?, hp.member?]
    by_cases hs : s = slot
    · rw [if_pos hs, if_pos hs]
      rfl
    · rw [if_neg hs, if_neg hs, owner?, Option.map_map]
      rfl
  · rw [owner?, hp.vacant]
    rfl

theorem Chain.prepend (hc : r.Chain l) (hd : r.dropped = false) {channel slot : Nat} {r' : Room}
    (hp : r.Prepended channel slot r') : r'.Chain (slot :: l) := by
  have hsl : slot ∉ l := by
    intro hs
    have hm := (hc.mem_iff slot).1 hs
    rw [hp.vacant] at hm
    cases hm
  refine ⟨hp.head, ?_, List.nodup_cons.2 ⟨hsl, hc.nodup⟩, ?_, hp.free_nodup, hp.free, ?_, ?_⟩
  · intro i s hi
    rw [hp.member?, hc.head]
    cases i with
    | zero =>
      obtain rfl : slot = s := by simpa using hi
      exact ⟨channel, if_pos rfl⟩
    | succ i =>
      rw [List.getElem?_cons_succ] at hi
      have hne : s ≠ slot := fun he => hsl (he ▸ List.mem_of_getElem? hi)
      obtain ⟨c, hm⟩ := hc.node i s hi
      refine ⟨c, ?_⟩
      rw [if_neg hne, hm, Option.map_some]
      split_ifs with h0
      · obtain rfl := getElem?_inj hc.nodup h0 hi
        rfl
      · have hi0 : i ≠ 0 := fun he => h0 (he ▸ hi)
        simp [prior, hi0, List.getElem?_cons]
  · intro s hs
    obtain ⟨hne, hs⟩ := not_or.1 (mt List.mem_cons.2 hs)
    rw [hp.member?, if_neg hne, hc.vacant s hs]
    rfl
  · rw [hp.online, hc.online, List.length_cons]
  · intro h
    rw [hp.dropped, hd] at h
    cases h

theorem Chain.link (hc : r.Chain l) (hd : r.dropped = false) (channel : Nat) :
    ∃ slot r', r.link channel = .ok (slot, r') ∧ r'.Chain (slot :: l) ∧
      r.Joined channel slot r' := by
  obtain ⟨slot, r', hl, hp⟩ := hc.link_prepended hd channel
  exact ⟨slot, r', hl, hc.prepend hd hp, hp.joined⟩

structure Left (r : Room) (slot : Nat) (r' : Room) : Prop where
  owner? : ∀ s, r'.owner? s = if s = slot then none else r.owner? s
  id : r'.id = r.id
  dropped : r'.dropped = true ↔ ∀ s, r'.owner? s = none

theorem prior_succ (l : List Nat) (i : Nat) : prior l (i + 1) = l[i]? := rfl

theorem prior_eraseIdx (l : List Nat) (k i : Nat) :
    prior (l.eraseIdx k) i = if i ≤ k then prior l i else l[i]? := by
  cases i with
  | zero => simp [prior]
  | succ i =>
    rw [prior_succ, prior_succ, List.getElem?_eraseIdx]
    rfl

section
variable {k i s : Nat}

theorem prior_closed (hn : l.Nodup) (hi : (l.eraseIdx k)[i]? = some s) : prior (l.eraseIdx k) i =
    if l[k + 1]? = some s then prior l k else prior l (if i < k then i else i + 1) := by
  rw [List.getElem?_eraseIdx] at hi
  rw [prior_eraseIdx]
  rcases Nat.lt_trichotomy i k with hik | rfl | hik
  · rw [if_pos hik] at hi
    have hb : l[k + 1]? ≠ some s := fun hb => by
      have := getElem?_inj hn hi hb
      omega
    rw [if_pos (by omega), if_neg hb, if_pos hik]
  · rw [if_neg (Nat.lt_irrefl i)] at hi
    rw [if_pos (Nat.le_refl i), if_pos hi]
  · rw [if_neg (by omega)] at hi
    have hb : l[k + 1]? ≠ some s := fun hb => by
      have := getElem?_inj hn hi hb
      omega
    rw [if_neg (by omega), if_neg hb, if_neg (by omega), prior_succ]

theorem behind_closed (hn : l.Nodup) (hi : (l.eraseIdx k)[i]? = some s) : (l.eraseIdx k)[i + 1]? =
    if prior l k = some s then l[k + 1]? else l[(if i < k then i else i + 1) + 1]? := by
  have hp (j : Nat) (hj : l[j]? = some s) : prior l k = some s ↔ k = j + 1 := by
    cases k with
    | zero => simp [prior]
    | succ k =>
      rw [prior_succ]
      constructor
      · intro hk
        rw [getElem?_inj hn hk hj]
      · intro hk
        rwa [Nat.succ.inj hk]
  rw [List.getElem?_eraseIdx] at hi ⊢
  by_cases hik : i < k
  · rw [if_pos hik] at hi
    by_cases hk : k = i + 1
    · rw [if_neg (by omega), if_pos ((hp i hi).2 hk), hk]
    · rw [if_pos (by omega), if_neg (mt (hp i hi).1 hk), if_pos hik]
  · rw [if_neg hik] at hi
    have hk : prior l k ≠ some s := fun hk => by
      have := (hp (i + 1) hi).1 hk
      omega
    rw [if_neg (by omega), if_neg hk, if_neg hik]

end

structure Unlinked (r : Room) (m : Member) (slot : Nat) (r' : Room) : Prop where
  member? : ∀ s, r'.member? s = if s = slot then none else (r.member? s).map fun n =>
    { n with
      before := if m.behind = some s then m.before else n.before
      behind := if m.before = some s then m.behind else n.behind }
  head : r'.head = if m.before = none then m.behind else r.head
  free : r'.free = slot :: r.free
  size : r'.slots.size = r.slots.size
  id : r'.id = r.id
  online : r'.online = r.online - 1
  dropped : r'.dropped = decide (r.online ≤ 1)

theorem unlink_unlinked {m : Member} {slot : Nat} (hm : r.member? slot = some m) :
    ∃ r', r.unlink slot = some r' ∧ r.Unlinked m slot r' := by
  have hlt := member?_lt hm
  have hset (s : Nat) : Room.member? { r with slots := r.slots.setIfInBounds slot none } s =
      if s = slot then none else r.member? s := by
    refine (member?_set r slot none s).trans ?_
    simp only [hlt, and_true]
  obtain ⟨channel, before, behind⟩ := m
  rw [unlink, hm]
  cases before with
  | none =>
    refine ⟨_, rfl, ?_, rfl, ?_, ?_, ?_, rfl, rfl⟩
    · intro s
      refine (member?_modify _ _ _ _).trans ?_
      rw [hset]
      by_cases hs : s = slot
      · simp [hs]
      · by_cases hb : behind = some s
        · simp [hs, hb]
        · cases r.member? s <;> simp [hs, hb]
    · rfl
    · exact (modify_size ..).trans Array.size_setIfInBounds
    · exact modify_id ..
  | some p =>
    refine ⟨_, rfl, ?_, ?_, ?_, ?_, ?_, rfl, rfl⟩
    · intro s
      refine (member?_modify _ _ _ _).trans ?_
      rw [member?_modify, hset]
      by_cases hs : s = slot
      · simp [hs]
      · by_cases hb : behind = some s
        · by_cases hp : p = s
          · cases r.member? s <;> simp [hs, hb, hp]
          · cases r.member? s <;> simp [hs, hb, hp]
        · by_cases hp : p = s
          · cases r.member? s <;> simp [hs, hb, hp]
          · cases r.member? s <;> simp [hs, hb, hp]
    · exact (modify_head ..).trans (modify_head ..)
    · rfl
    · exact (modify_size ..).trans ((modify_size ..).trans Array.size_setIfInBounds)
    · exact (modify_id ..).trans (modify_id ..)

theorem Unlinked.left_owner {m : Member} {slot : Nat} {r' : Room} (hu : r.Unlinked m slot r')
    (s : Nat) : r'.owner? s = if s = slot then none else r.owner? s := by
  rw [owner?, hu.member?]
  by_cases hs : s = slot
  · rw [if_pos hs, if_pos hs]
    rfl
  · rw [if_neg hs, if_neg hs, owner?, Option.map_map]
    rfl

theorem Chain.closed_head (hc : r.Chain l) {k slot : Nat} (hk : l[k]? = some slot) :
    (if prior l k = none then l[k + 1]? else r.head) = (l.eraseIdx k)[0]? := by
  rw [hc.head, List.getElem?_eraseIdx]
  cases k with
  | zero => rfl
  | succ k =>
    have hlt : k < l.length := by
      have := (List.getElem?_eq_some_iff.1 hk).1
      omega
    rw [prior_succ, List.getElem?_eq_getElem hlt, if_neg (by simp), if_pos (by omega)]

theorem Chain.closed (hc : r.Chain l) {c k slot : Nat} {r' : Room} (hk : l[k]? = some slot)
    (hm : r.member? slot = some ⟨c, prior l k, l[k + 1]?⟩)
    (hu : r.Unlinked ⟨c, prior l k, l[k + 1]?⟩ slot r') : r'.Chain (l.erase slot) := by
  have hke : l.erase slot = l.eraseIdx k := by
    refine List.erase_eq_eraseIdx_of_idxOf (getElem?_inj hc.nodup ?_ hk)
    exact List.getElem?_idxOf (List.mem_of_getElem? hk)
  have hmem (s : Nat) : s ∈ l.eraseIdx k ↔ s ≠ slot ∧ s ∈ l := by
    rw [← hke]
    exact hc.nodup.mem_erase_iff
  rw [hke]
  have hlen : (l.eraseIdx k).length = l.length - 1 :=
    List.length_eraseIdx_of_lt (List.getElem?_eq_some_iff.1 hk).1
  refine ⟨hu.head.trans (hc.closed_head hk), ?_, hke ▸ hc.nodup.erase slot, ?_, ?_, ?_, ?_, ?_⟩
  · intro i s hi
    have hne := ((hmem s).1 (List.mem_of_getElem? hi)).1
    rw [prior_closed hc.nodup hi, behind_closed hc.nodup hi, hu.member?, if_neg hne]
    rw [List.getElem?_eraseIdx, ← apply_ite (l[·]?)] at hi
    obtain ⟨c, hms⟩ := hc.node _ s hi
    exact ⟨c, by rw [hms]; rfl⟩
  · intro s hs
    rw [hu.member?]
    by_cases hss : s = slot
    · rw [if_pos hss]
    · rw [if_neg hss, hc.vacant s fun h => hs ((hmem s).2 ⟨hss, h⟩)]
      rfl
  · rw [hu.free]
    refine List.nodup_cons.2 ⟨?_, hc.free_nodup⟩
    intro hf
    rw [((hc.free slot).1 hf).2] at hm
    cases hm
  · intro s
    rw [hu.free, hu.size, hu.member?, List.mem_cons, hc.free]
    by_cases hss : s = slot
    · simp [hss, member?_lt hm]
    · simp only [hss, false_or, if_false, Option.map_eq_none_iff]
  · rw [hu.online, hc.online, hlen]
  · intro h
    rw [hu.dropped, hc.online, decide_eq_true_eq] at h
    exact List.eq_nil_of_length_eq_zero (by omega)

theorem Chain.unlink (hc : r.Chain l) {slot : Nat} (hs : slot ∈ l) :
    ∃ r', r.unlink slot = some r' ∧ r'.Chain (l.erase slot) ∧ r.Left slot r' := by
  obtain ⟨k, hk⟩ := List.mem_iff_getElem?.1 hs
  obtain ⟨c, hm⟩ := hc.node k slot hk
  obtain ⟨r', hr, hu⟩ := unlink_unlinked hm
  have hc' := hc.closed hk hm hu
  refine ⟨r', hr, hc', hu.left_owner, hu.id, ?_⟩
  rw [← hc'.eq_nil_iff, ← List.length_eq_zero_iff, List.length_erase_of_mem hs, hu.dropped,
    hc.online, decide_eq_true_eq]
  omega

theorem Chain.walk_eq (hc : r.Chain l) (fuel i : Nat) (hf : l.length ≤ fuel + i) :
    r.walk fuel l[i]? = l.drop i := by
  induction fuel generalizing i with
  | zero => rw [walk, List.drop_eq_nil_of_le (by omega)]
  | succ fuel ih =>
    cases hi : l[i]? with
    | none =>
      rw [walk, List.drop_eq_nil_of_le (List.getElem?_eq_none_iff.1 hi)]
    | some s =>
      obtain ⟨hlt, hs⟩ := List.getElem?_eq_some_iff.1 hi
      obtain ⟨c, hm⟩ := hc.node i s hi
      rw [walk, hm, List.drop_eq_getElem_cons hlt, hs]
      dsimp only
      rw [ih (i + 1) (by omega)]

theorem Chain.linked_eq (hc : r.Chain l) : r.linked = l := by
  have hw := hc.walk_eq r.slots.size 0 hc.length_le
  rw [linked, hc.head, hw, List.drop_zero]

theorem Chain.countLinked?_eq (hc : r.Chain l) (fuel i : Nat) (hf : l.length ≤ fuel + i) :
    r.countLinked? fuel (prior l i) l[i]? = some (l.length - i) := by
  induction fuel generalizing i with
  | zero =>
    rw [List.getElem?_eq_none (by omega), countLinked?, Nat.sub_eq_zero_of_le (by omega)]
  | succ fuel ih =>
    cases hi : l[i]? with
    | none => rw [countLinked?, Nat.sub_eq_zero_of_le (List.getElem?_eq_none_iff.1 hi)]
    | some s =>
      have hlt := (List.getElem?_eq_some_iff.1 hi).1
      obtain ⟨c, hm⟩ := hc.node i s hi
      have hn := ih (i + 1) (by omega)
      rw [prior_succ, hi] at hn
      rw [countLinked?, hm]
      dsimp only
      rw [if_pos rfl, hn, Option.map_some]
      congr 1
      omega

theorem Chain.linkedLength?_eq (hc : r.Chain l) : r.linkedLength? = some r.online := by
  have hw := hc.countLinked?_eq r.slots.size 0 hc.length_le
  rw [linkedLength?, hc.head, hc.online]
  exact hw

theorem Chain.members_eq (hc : r.Chain l) : r.members = l.filterMap r.owner? := by
  rw [members, hc.linked_eq]
  rfl

theorem Chain.length_members (hc : r.Chain l) : r.members.length = r.online := by
  rw [hc.members_eq, List.length_filterMap_eq_countP, hc.online, List.countP_eq_length]
  intro s hs
  rw [owner?, Option.isSome_map]
  exact (hc.mem_iff s).1 hs

theorem Chain.mem_members (hc : r.Chain l) (c : Nat) :
    c ∈ r.members ↔ ∃ s, r.owner? s = some c := by
  rw [hc.members_eq, List.mem_filterMap]
  exact exists_congr fun s => and_iff_right_of_imp hc.mem_of_owner

theorem Chain.members_nodup (hc : r.Chain l)
    (hi : ∀ s t c, r.owner? s = some c → r.owner? t = some c → s = t) : r.members.Nodup := by
  rw [hc.members_eq]
  exact List.Nodup.filterMap hi hc.nodup

theorem Chain.members_link {channel slot : Nat} {r' : Room} (hc : r.Chain l)
    (hc' : r'.Chain (slot :: l)) (hj : r.Joined channel slot r') :
    r'.members = channel :: r.members := by
  have hslot : r'.owner? slot = some channel := by rw [hj.owner?, if_pos rfl]
  rw [hc'.members_eq, hc.members_eq, List.filterMap_cons_some hslot]
  congr 1
  refine List.filterMap_congr ?_
  intro s hs
  have hne : s ≠ slot := fun he => (List.nodup_cons.1 hc'.nodup).1 (he ▸ hs)
  rw [hj.owner?, if_neg hne]

theorem Chain.members_unlink {channel slot : Nat} {r' : Room} (hc : r.Chain l)
    (hc' : r'.Chain (l.erase slot)) (hl : r.Left slot r') (ho : r.owner? slot = some channel)
    (hi : ∀ s t c, r.owner? s = some c → r.owner? t = some c → s = t) :
    r'.members = r.members.erase channel := by
  rw [(hc.members_nodup hi).erase_eq_filter, hc'.members_eq, hc.members_eq,
    hc.nodup.erase_eq_filter, List.filterMap_filter, List.filter_filterMap]
  refine List.filterMap_congr ?_
  intro s hs
  rw [hl.owner?]
  by_cases hss : s = slot
  · simp [hss, ho, Option.filter]
  · cases hos : r.owner? s with
    | none => simp [hss]
    | some c =>
      -- A channel has one slot only, so this one is another's.
      have hne : c ≠ channel := fun he => hss (hi s slot channel (he ▸ hos) ho)
      simp [hss, hne, Option.filter]

end

end PushGateway.Room
