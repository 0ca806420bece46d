import PushGateway.Proofs.Directory.Sharding
import PushGateway.Proofs.Directory.Unmoved
import PushGateway.Proofs.Tally

/-!
Counting who is in the rooms. Whatever is called, and in whatever state the channels are, the member
list of every room stays a chain whose length is the number that the room keeps, and every bucket
lists its rooms by their own ids. So the counts of the node are the lengths of the lists, added up
over the buckets.
-/

namespace PushGateway

namespace Table

variable {α β γ : Type} [DecidableEq α] {t : Table α β}

theorem get?_filterMap (hn : t.keys.Nodup) (f : β → Option γ) (k : α) :
    Table.get? (t.filterMap fun p => (f p.2).map fun c => (p.1, c)) k = (t.get? k).bind f := by
  induction t with
  | nil => rfl
  | cons p t ih =>
    obtain ⟨a, v⟩ := p
    obtain ⟨ha, hn⟩ := List.nodup_cons.1 hn
    rw [List.filterMap_cons, get?]
    cases hf : f v with
    | none =>
      refine (ih hn).trans ?_
      split_ifs with hak
      · rw [(get?_eq_none_iff t k).2 (hak ▸ ha)]
        exact hf.symm
      · rfl
    | some c =>
      rw [Option.map_some, get?, ih hn]
      split_ifs
      · exact hf.symm
      · rfl

omit [DecidableEq α] in
theorem keys_filterMap (t : Table α β) (f : β → Option γ) :
    (Table.keys (t.filterMap fun p => (f p.2).map fun c => (p.1, c))).Sublist t.keys := by
  induction t with
  | nil => exact .slnil
  | cons p t ih =>
    rw [List.filterMap_cons]
    cases f p.2 with
    | none => exact ih.cons p.1
    | some c => exact ih.cons_cons p.1

theorem get?_map (t : Table α β) (f : β → γ) (k : α) :
    Table.get? (t.map fun p => (p.1, f p.2)) k = (t.get? k).map f := by
  induction t with
  | nil => rfl
  | cons p t ih =>
    rw [List.map_cons, get?, get?, ih]
    split_ifs <;> rfl

omit [DecidableEq α] in
theorem keys_map (t : Table α β) (f : β → γ) : Table.keys (t.map fun p => (p.1, f p.2)) = t.keys :=
  List.map_map

end Table

structure Lobby.KeepsChains (l l' : Lobby) : Prop where
  size : l.rooms.size ≤ l'.rooms.size
  id : ∀ r < l.rooms.size, (l'.room r).id = (l.room r).id
  chain : ∀ r slots, (l.room r).Chain slots → ∃ slots', (l'.room r).Chain slots'

namespace Lobby

variable {l l' l'' : Lobby} {r c : Nat}

theorem KeepsChains.refl (l : Lobby) : l.KeepsChains l :=
  ⟨Nat.le_refl _, fun _ _ => rfl, fun _ slots h => ⟨slots, h⟩⟩

theorem KeepsChains.trans (h : l.KeepsChains l') (h' : l'.KeepsChains l'') : l.KeepsChains l'' := by
  refine ⟨Nat.le_trans h.size h'.size, fun r hr => ?_, fun r slots hc => ?_⟩
  · exact (h'.id r (Nat.lt_of_lt_of_le hr h.size)).trans (h.id r hr)
  · obtain ⟨slots', hc'⟩ := h.chain r slots hc
    exact h'.chain r slots' hc'

theorem KeepsChains.of_rooms (h : l'.rooms = l.rooms) : l.KeepsChains l' := by
  have hroom (r : Nat) : l'.room r = l.room r := by rw [room, h, room]
  refine ⟨Nat.le_of_eq (congrArg Array.size h.symm), fun r _ => by rw [hroom], fun r slots hc => ?_⟩
  exact ⟨slots, hroom r ▸ hc⟩

theorem addRoom_keepsChains (l : Lobby) (id : String) : l.KeepsChains (l.addRoom id).2 := by
  refine ⟨?_, fun r hr => ?_, fun r slots hc => ?_⟩
  · have hsize : (l.addRoom id).2.rooms.size = l.rooms.size + 1 := Array.size_push _
    exact hsize ▸ Nat.le_succ _
  · rw [room_addRoom, if_neg (Nat.ne_of_lt hr)]
  · rw [room_addRoom]
    split_ifs
    · exact ⟨[], Room.new_chain id⟩
    · exact ⟨slots, hc⟩

theorem setRoom_keepsChains {room : Room} (hid : room.id = (l.room r).id)
    (hc : ∀ slots, (l.room r).Chain slots → ∃ slots', room.Chain slots') :
    l.KeepsChains (l.setRoom r room) := by
  refine ⟨Nat.le_of_eq Array.size_setIfInBounds.symm, fun r' _ => ?_, fun r' slots h => ?_⟩
  · rw [room_setRoom]
    split_ifs with hr
    · rw [hid, hr.1]
    · rfl
  · rw [room_setRoom]
    split_ifs with hr
    · exact hc slots (hr.1 ▸ h)
    · exact ⟨slots, h⟩

theorem setAllOnline_keepsChains (l : Lobby) (r : Nat) (count : Int32) :
    l.KeepsChains (l.setAllOnline r count) := by
  refine ⟨Nat.le_of_eq Array.size_modify.symm, fun r' _ => ?_, fun r' slots hc => ?_⟩
  · obtain ⟨told, hroom⟩ := l.room_setAllOnline r count r'
    rw [hroom]
  · obtain ⟨told, hroom⟩ := l.room_setAllOnline r count r'
    exact ⟨slots, hroom ▸ hc.allOnline told⟩

theorem join_keepsChains (h : l.join r c = .ok l') (hs : ∀ r, ∃ slots, (l.room r).Chain slots) :
    l.KeepsChains l' := by
  obtain ⟨slots, hch⟩ := hs r
  cases hd : (l.room r).dropped with
  | true =>
    rw [join_dropped hd] at h
    cases h
  | false =>
    obtain ⟨slot, room, hj, hch', hjoined⟩ := join_reseat hch hd c
    cases h.symm.trans hj
    exact (setRoom_keepsChains (l := l) hjoined.id fun _ _ => ⟨_, hch'⟩).trans (.of_rooms rfl)

theorem leave_keepsChains (l : Lobby) (r c : Nat) (hs : ∀ r, ∃ slots, (l.room r).Chain slots) :
    l.KeepsChains (l.leave r c).2 := by
  have hmod : l.KeepsChains (l.modify c fun ch => { ch with seat := none }) := .of_rooms rfl
  simp only [leave]
  split
  · exact .refl l
  · rename_i seat _
    split_ifs
    · exact .refl l
    · split
      · exact hmod
      · rename_i room hu
        obtain ⟨slots, hch⟩ := hs r
        have hin : seat.slot ∈ slots := by
          rw [hch.mem_iff]
          obtain ⟨m, hm, -⟩ := Option.map_eq_some_iff.1 hu
          exact hm ▸ rfl
        obtain ⟨room', hu', hch', hleft⟩ := hch.unlink hin
        cases hu.symm.trans hu'
        exact hmod.trans (setRoom_keepsChains hleft.id fun _ _ => ⟨_, hch'⟩)

end Lobby

namespace Directory

/-- The member lists are chains, and the buckets list the rooms, each once under its own id. -/
structure RoomsListed (d : Directory) : Prop where
  chain : ∀ r, ∃ slots, (d.lobby.room r).Chain slots
  nodup : ∀ b, (d.bucket b).rooms.keys.Nodup
  room : ∀ b id r, d.room? b id = some r → d.Offers id r

def linkedIn (d : Directory) (b : Nat) (id : String) : Nat :=
  ((d.room? b id).map fun r => (d.lobby.room r).linked.length).getD 0

def linkedTotal (d : Directory) (id : String) : Nat :=
  ((List.range d.buckets.size).map fun b => d.linkedIn b id).sum

variable {d d' : Directory} {b c r : Nat} {id : String}

theorem RoomsListed.keepsChains (h : d.RoomsListed) (hl : d.lobby.KeepsChains d'.lobby)
    (hb : ∀ b, (d'.bucket b).rooms = (d.bucket b).rooms) : d'.RoomsListed := by
  refine ⟨fun r => ?_, fun b => hb b ▸ h.nodup b, fun b id r hr => ?_⟩
  · obtain ⟨slots, hc⟩ := h.chain r
    exact hl.chain r slots hc
  · have hr' : d.room? b id = some r := by
      rw [room?, hb] at hr
      exact hr
    obtain ⟨hlt, hid⟩ := h.room b id r hr'
    exact ⟨Nat.lt_of_lt_of_le hlt hl.size, (hl.id r hlt).trans hid⟩

theorem RoomsListed.withLobby (h : d.RoomsListed) {l : Lobby} (hl : d.lobby.KeepsChains l) :
    (d.withLobby l).RoomsListed :=
  h.keepsChains hl fun _ => rfl

theorem RoomsListed.setBucket (h : d.RoomsListed) {bucket : Bucket} (hn : bucket.rooms.keys.Nodup)
    (hr : ∀ id r, bucket.rooms.get? id = some r → d.Offers id r) :
    (d.setBucket b bucket).RoomsListed := by
  refine ⟨h.chain, fun b' => ?_, fun b' id r hroom => ?_⟩
  · rw [getBucket_setBucket]
    split_ifs
    · exact hn
    · exact h.nodup b'
  · rw [room?_setBucket] at hroom
    split_ifs at hroom
    · exact hr id r hroom
    · exact h.room b' id r hroom

theorem RoomsListed.opened (h : d.RoomsListed) (b : Nat) (id : String) :
    ((d.withLobby (d.lobby.addRoom id).2).setBucket b
      { d.bucket b with
        rooms := (d.bucket b).rooms.insert id d.lobby.rooms.size }).RoomsListed := by
  have hadd := h.withLobby (d.lobby.addRoom_keepsChains id)
  refine hadd.setBucket (Table.nodup_insert (h.nodup b) _ _) fun id' r hr => ?_
  rw [Table.get?_insert] at hr
  split_ifs at hr with hid
  · cases hr
    exact hid ▸ d.opened_offers b id
  · exact hadd.room b id' r hr

theorem RoomsListed.erased (h : d.RoomsListed) (b : Nat) (id : String) :
    (d.setBucket b { d.bucket b with rooms := (d.bucket b).rooms.erase id }).RoomsListed := by
  refine h.setBucket (Table.nodup_erase (h.nodup b) id) fun id' r hr => ?_
  rw [Table.get?_erase] at hr
  split_ifs at hr
  exact h.room b id' r hr

theorem RoomsListed.roomOrCreate (h : d.RoomsListed) (b : Nat) (id : String) :
    (d.roomOrCreate b id).2.RoomsListed := by
  rw [Directory.roomOrCreate]
  split
  · exact h
  · exact h.opened b id

theorem RoomsListed.replaceDropped (h : d.RoomsListed) (b r : Nat) :
    (d.replaceDropped b r).2.RoomsListed := by
  simp only [Directory.replaceDropped]
  split
  · exact h
  · exact h.opened b _

theorem RoomsListed.joinRetry (h : d.RoomsListed) (b c attempts r : Nat) :
    (joinRetry b c attempts r d).2.RoomsListed := by
  induction attempts generalizing r d with
  | zero => exact h
  | succ attempts ih =>
    rw [Directory.joinRetry]
    split
    · rename_i hj
      exact h.withLobby (Lobby.join_keepsChains hj h.chain)
    · exact ih (h.replaceDropped b r) _
    · exact h

theorem RoomsListed.joinRoom (h : d.RoomsListed) (b : Nat) (id : String) (c : Nat) :
    (d.joinRoom b id c).2.RoomsListed :=
  (h.roomOrCreate b id).joinRetry b c joinAttempts _

theorem RoomsListed.delRoom (h : d.RoomsListed) (b r : Nat) : (d.delRoom b r).RoomsListed := by
  rw [Directory.delRoom]
  split_ifs
  · exact h.erased b _
  · exact h

theorem RoomsListed.leaveRoom (h : d.RoomsListed) (b r c : Nat) :
    (d.leaveRoom b r c).RoomsListed := by
  have hl := h.withLobby (d.lobby.leave_keepsChains r c h.chain)
  rw [leaveRoom_eq]
  split_ifs
  · exact hl.delRoom b r
  · exact hl

theorem RoomsListed.changeRoom (h : d.RoomsListed) (b : Nat) (id : String) (c : Nat) :
    (d.changeRoom b id c).2.RoomsListed := by
  have henter {d : Directory} (h : d.RoomsListed) :
      (if id = "" then (.ok (), d)
        else d.joinRoom b id c : Except GatewayError Unit × Directory).2.RoomsListed := by
    split_ifs
    · exact h
    · exact h.joinRoom b id c
  simp only [Directory.changeRoom]
  split
  · exact henter h
  · split_ifs with hid hold
    · exact h
    · exact h.leaveRoom b _ c
    · exact (h.leaveRoom b _ c).joinRoom b id c

theorem RoomsListed.closeRoom (h : d.RoomsListed) (b : Nat) (id : String) :
    (d.closeRoom b id).2.RoomsListed := by
  simp only [Directory.closeRoom]
  split
  · exact h
  · rename_i r _
    exact (h.withLobby (.of_rooms (Lobby.closeRoom_equalButQueues d.lobby r).rooms)).erased b id

theorem register_rooms (d : Directory) (b c b' : Nat) :
    ((d.register b c).bucket b').rooms = (d.bucket b').rooms := by
  rw [Directory.register, getBucket_setBucket]
  split_ifs with hb
  · rw [hb.1]
  · rfl

theorem RoomsListed.register (h : d.RoomsListed) (b c : Nat) : (d.register b c).RoomsListed :=
  h.keepsChains (.of_rooms (register_lobby d b c).rooms) (d.register_rooms b c)

theorem RoomsListed.put (h : d.RoomsListed) (b : Nat) (id : String) (c : Nat) :
    (d.put b id c).2.RoomsListed := by
  simp only [Directory.put]
  split_ifs
  · exact h.register b c
  · exact (h.register b c).joinRoom b id c

theorem unregister_rooms (d : Directory) (b c b' : Nat) :
    ((d.unregister b c).bucket b').rooms = (d.bucket b').rooms := by
  by_cases hb : b' = b ∧ b < d.buckets.size
  · rw [hb.1, unregister_bucket hb.2, dropIp_rooms]
    split_ifs <;> rfl
  · rw [Directory.unregister]
    split_ifs <;> exact congrArg Bucket.rooms ((getBucket_setBucket _ b _ b').trans (if_neg hb))

theorem RoomsListed.unregister (h : d.RoomsListed) (b c : Nat) : (d.unregister b c).RoomsListed :=
  h.keepsChains (.of_rooms (unregister_lobby d b c).rooms) (d.unregister_rooms b c)

theorem RoomsListed.del (h : d.RoomsListed) (b c : Nat) : (d.del b c).RoomsListed := by
  simp only [Directory.del]
  split
  · exact h.unregister b c
  · exact (h.unregister b c).leaveRoom b _ c

theorem RoomsListed.call (h : d.RoomsListed) (a : Call) : (d.call a).RoomsListed := by
  cases a with
  | create ch => exact h.withLobby (.of_rooms rfl)
  | touch c f => exact h.withLobby (.of_rooms rfl)
  | put id c =>
    rw [Directory.call]
    split_ifs
    · exact h.put _ id c
    · exact h
  | changeRoom id c => exact h.changeRoom _ id c
  | closeRoom b id => exact h.closeRoom b id
  | del c => exact h.del _ c

theorem RoomsListed.calls (h : d.RoomsListed) (cs : List Call) : (d.calls cs).RoomsListed := by
  induction cs generalizing d with
  | nil => exact h
  | cons a cs ih => exact ih (h.call a)

theorem new_roomsListed (buckets workers depth : Nat) :
    (new buckets workers depth).RoomsListed := by
  refine ⟨fun r => ⟨[], Room.new_chain ""⟩, fun b => ?_, fun b id r h => ?_⟩
  · rw [(new_bucket ..).2.1]
    exact .nil
  · rw [room?, (new_bucket ..).2.1] at h
    cases h

def nonzero? (n : Nat) : Option Nat := if 0 < n then some n else none

theorem map_nonzero? (n : Nat) : (nonzero? n).map Int32.ofNat = total? n := by
  rcases n.eq_zero_or_pos with rfl | hn
  · rfl
  · rw [nonzero?, total?, if_pos hn, if_neg (Nat.ne_of_gt hn), Option.map_some]

theorem roomsCountIn_eq (d : Directory) (b : Nat) :
    d.roomsCountIn b = (d.bucket b).rooms.filterMap fun p =>
      (nonzero? (d.lobby.room p.2).online).map fun n => (p.1, n) := by
  refine List.filterMap_congr fun p _ => ?_
  dsimp only
  rw [nonzero?]
  split_ifs <;> rfl

theorem RoomsListed.roomsCountIn_nodup (h : d.RoomsListed) (b : Nat) :
    (d.roomsCountIn b).keys.Nodup := by
  have hsub := Table.keys_filterMap (d.bucket b).rooms fun r => nonzero? (d.lobby.room r).online
  rw [roomsCountIn_eq]
  exact hsub.nodup (h.nodup b)

theorem RoomsListed.get?_roomsCountIn (h : d.RoomsListed) (b : Nat) (id : String) :
    (d.roomsCountIn b).get? id = nonzero? (d.linkedIn b id) := by
  have hget := Table.get?_filterMap (h.nodup b) (fun r => nonzero? (d.lobby.room r).online) id
  rw [roomsCountIn_eq, hget, linkedIn, room?]
  cases (d.bucket b).rooms.get? id with
  | none => rfl
  | some r =>
    obtain ⟨slots, hc⟩ := h.chain r
    rw [Option.bind_some, Option.map_some, Option.getD_some, hc.linked_eq, hc.online]

/-- The report has the members linked under an id over all buckets, and nothing for an id under
which nobody is. -/
theorem RoomsListed.get?_roomCounts (h : d.RoomsListed) (id : String) :
    d.roomCounts.get? id = total? (d.linkedTotal id) := by
  have hkeys (b : Nat) :
    (Table.keys ((d.roomsCountIn b).map fun p => (p.1, Int32.ofNat p.2))).Nodup :=
    Table.keys_map (d.roomsCountIn b) Int32.ofNat ▸ h.roomsCountIn_nodup b
  have hget : ((List.range d.buckets.size).map fun b =>
      Table.get? ((d.roomsCountIn b).map fun p => (p.1, Int32.ofNat p.2)) id) =
      ((List.range d.buckets.size).map fun b => d.linkedIn b id).map total? := by
    rw [List.map_map]
    refine List.map_congr_left fun b _ => ?_
    rw [Table.get?_map, h.get?_roomsCountIn, map_nonzero?, Function.comp_apply]
  refine (Table.get?_foldl_addAll _ _ (fun b _ => hkeys b) [] id).trans ?_
  rw [hget]
  refine (foldl_merge_total? _ 0).trans ?_
  rw [Nat.zero_add, linkedTotal]

theorem linkedTotal_pos : 0 < d.linkedTotal id ↔ ∃ b < d.buckets.size, 0 < d.linkedIn b id := by
  rw [linkedTotal, List.sum_pos_iff_exists_pos_nat]
  constructor
  · rintro ⟨n, hn, hpos⟩
    obtain ⟨b, hb, rfl⟩ := List.mem_map.1 hn
    exact ⟨b, List.mem_range.1 hb, hpos⟩
  · rintro ⟨b, hb, hpos⟩
    exact ⟨_, List.mem_map.2 ⟨b, List.mem_range.2 hb, rfl⟩, hpos⟩

theorem RoomsListed.mem_roomIds (h : d.RoomsListed) (id : String) : id ∈ d.roomIds ↔
    0 < d.linkedTotal id := by
  rw [roomIds, List.mem_eraseDups, List.mem_flatMap, linkedTotal_pos]
  refine exists_congr fun b => ?_
  rw [List.mem_range, Table.mem_keys_iff, h.get?_roomsCountIn, nonzero?]
  simp

theorem roomCounts_nodup (d : Directory) : d.roomCounts.keys.Nodup :=
  Table.nodup_foldl_addAll _ _ .nil

theorem nodup_eraseDups (ids : List String) : ids.eraseDups.Nodup := by
  cases ids with
  | nil => exact .nil
  | cons id ids =>
    rw [List.eraseDups_cons, List.nodup_cons, List.mem_eraseDups]
    exact ⟨by simp, nodup_eraseDups _⟩
termination_by ids.length
decreasing_by exact Nat.lt_succ_of_le (List.length_filter_le _ ids)

theorem RoomsListed.roomIds_perm (h : d.RoomsListed) : d.roomIds.Perm d.roomCounts.keys := by
  have hn : d.roomIds.Nodup := nodup_eraseDups _
  refine (List.perm_ext_iff_of_nodup hn d.roomCounts_nodup).2 fun id => ?_
  rw [h.mem_roomIds, Table.mem_keys_iff, h.get?_roomCounts, total?]
  split_ifs with hz
  · simp [hz]
  · exact ⟨fun _ => rfl, fun _ => Nat.pos_of_ne_zero hz⟩

theorem RoomsListed.countAt_roomCounts (h : d.RoomsListed) (hlt : d.linkedTotal id < 2 ^ 31) :
    d.roomCounts.countAt id = d.linkedTotal id := by
  rw [Table.countAt, h.get?_roomCounts, total?]
  split_ifs with hz
  · rw [hz]
    rfl
  · exact Int32.toInt_ofNat_of_lt hlt

theorem RoomsListed.linkedTotal_lt (h : d.RoomsListed)
    (hlt : ∀ id ∈ d.roomIds, d.linkedTotal id < 2 ^ 31) (id : String) :
    d.linkedTotal id < 2 ^ 31 := by
  rcases (d.linkedTotal id).eq_zero_or_pos with hz | hpos
  · exact hz ▸ Nat.two_pow_pos 31
  · exact hlt id ((h.mem_roomIds id).2 hpos)

theorem room?_lt (h : d.room? b id = some r) : b < d.buckets.size := by
  by_contra hb
  rw [room?, bucket, Array.getD_eq_getD_getElem?, Array.getElem?_eq_none (Nat.le_of_not_lt hb)] at h
  cases h

theorem RoomsListed.online_le (h : d.RoomsListed) (hr : d.room? b id = some r) :
    (d.lobby.room r).online ≤ d.linkedTotal id := by
  obtain ⟨slots, hc⟩ := h.chain r
  have hlinked : d.linkedIn b id = (d.lobby.room r).online := by
    rw [linkedIn, hr, Option.map_some, Option.getD_some, hc.linked_eq, hc.online]
  rw [← hlinked]
  exact List.le_sum_of_mem (List.mem_map.2 ⟨b, List.mem_range.2 (room?_lt hr), rfl⟩)

def listing (d : Directory) : List (String × Nat) :=
  (List.range d.buckets.size).flatMap fun b => (d.bucket b).rooms

def tell (counts : Table String Int32) (ps : List (String × Nat)) (l : Lobby) : Lobby :=
  ps.foldl (fun l p => l.setAllOnline p.2 ((counts.get? p.1).getD 0)) l

theorem tell_keepsChains (counts : Table String Int32) (ps : List (String × Nat)) (l : Lobby) :
    l.KeepsChains (tell counts ps l) := by
  induction ps generalizing l with
  | nil => exact .refl l
  | cons p ps ih => exact (l.setAllOnline_keepsChains p.2 _).trans (ih _)

theorem updateCounts_eq (d : Directory) (counts : Table String Int32) :
    d.updateCounts counts = d.withLobby (tell counts d.listing d.lobby) := by
  -- a bucket at a time, with what was told in those before it
  have hbuckets (bs : List Nat) (l : Lobby) :
      bs.foldl (fun d b => d.updateCountsIn b counts) (d.withLobby l) =
        d.withLobby (tell counts (bs.flatMap fun b => (d.bucket b).rooms) l) := by
    induction bs generalizing l with
    | nil => rfl
    | cons b bs ih =>
      refine (ih _).trans ?_
      rw [List.flatMap_cons, tell, tell, List.foldl_append]
      rfl
  exact hbuckets (List.range d.buckets.size) d.lobby

theorem room_setAllOnline {l : Lobby} (hr : r < l.rooms.size) (count : Int32) (r' : Nat) :
    (l.setAllOnline r count).room r' = if r' = r then { l.room r' with allOnline := count }
      else l.room r' := by
  simp only [Lobby.room, Lobby.setAllOnline, Array.getD_eq_getD_getElem?, Array.getElem?_modify,
    eq_comm (a := r)]
  split_ifs with h
  · rw [h, Array.getElem?_eq_getElem hr]
    rfl
  · rfl

theorem room_tell (counts : Table String Int32) {ps : List (String × Nat)} {l : Lobby}
    (hps : ∀ p ∈ ps, p.2 < l.rooms.size ∧ (l.room p.2).id = p.1) (r : Nat) :
    (tell counts ps l).room r =
      if r ∈ ps.map (·.2) then { l.room r with allOnline := (counts.get? (l.room r).id).getD 0 }
      else l.room r := by
  induction ps generalizing l with
  | nil => rfl
  | cons p ps ih =>
    obtain ⟨hlt, hid⟩ := hps p List.mem_cons_self
    have hroom := room_setAllOnline hlt ((counts.get? p.1).getD 0)
    have hids (r : Nat) : ((l.setAllOnline p.2 ((counts.get? p.1).getD 0)).room r).id =
        (l.room r).id := by
      rw [hroom]
      split_ifs <;> rfl
    have hsize : (l.setAllOnline p.2 ((counts.get? p.1).getD 0)).rooms.size = l.rooms.size :=
      Array.size_modify
    refine (ih fun q hq => ?_).trans ?_
    · obtain ⟨hlt, hid⟩ := hps q (List.mem_cons_of_mem p hq)
      exact ⟨hsize ▸ hlt, (hids q.2).trans hid⟩
    · rw [hids, hroom, List.map_cons]
      by_cases hp : r = p.2
      · subst hp
        simp [hid]
      · have hmem : r ∈ p.2 :: ps.map (·.2) ↔ r ∈ ps.map (·.2) :=
          List.mem_cons.trans (or_iff_right hp)
        simp only [if_neg hp, hmem]

theorem RoomsListed.mem_listing (h : d.RoomsListed) {p : String × Nat} :
    p ∈ d.listing ↔ ∃ b, d.room? b p.1 = some p.2 := by
  rw [listing, List.mem_flatMap]
  constructor
  · rintro ⟨b, -, hp⟩
    exact ⟨b, Table.get?_of_mem (h.nodup b) hp⟩
  · rintro ⟨b, hp⟩
    exact ⟨b, List.mem_range.2 (room?_lt hp), Table.mem_of_get? hp⟩

theorem RoomsListed.updateCounts (h : d.RoomsListed) (counts : Table String Int32) :
    (d.updateCounts counts).RoomsListed :=
  d.updateCounts_eq counts ▸ h.withLobby (tell_keepsChains counts d.listing d.lobby)

/-- Every room of a bucket is told the count of its id, or zero if there is none. -/
theorem RoomsListed.room_updateCounts (h : d.RoomsListed) (counts : Table String Int32)
    (hr : d.room? b id = some r) :
    (d.updateCounts counts).lobby.room r =
      { d.lobby.room r with allOnline := (counts.get? id).getD 0 } := by
  have hlisted : ∀ p ∈ d.listing, p.2 < d.lobby.rooms.size ∧ (d.lobby.room p.2).id = p.1 := by
    intro p hp
    obtain ⟨b, hp⟩ := h.mem_listing.1 hp
    exact h.room b p.1 p.2 hp
  have hmem : r ∈ d.listing.map (·.2) := List.mem_map.2 ⟨(id, r), h.mem_listing.2 ⟨b, hr⟩, rfl⟩
  rw [updateCounts_eq]
  refine (room_tell counts hlisted r).trans ?_
  rw [if_pos hmem, (h.room b id r hr).2]

theorem room?_updateCounts (d : Directory) (counts : Table String Int32) (b : Nat) (id : String) :
    (d.updateCounts counts).room? b id = d.room? b id := by
  rw [updateCounts_eq]
  rfl

end Directory

end PushGateway
