import PushGateway.Node.Event
import PushGateway.Proofs.Directory.Census

/-!
Renewing the online counts. A node reports how many are in its rooms, and passes on what the control
plane makes of the reports of all servers. A call that is refused or hangs tells the rooms nothing.
Whatever the node and the other servers did before, what it counts is what is linked, and the
control plane goes by the reports that have come in.
-/

namespace PushGateway

open ControlPlane (Report tally)

/-- A room that has been told a count of the cluster reports it. A zero is ignored, but then nobody
is in the room either. -/
theorem Room.onlineNum_told {room : Room} {count : Int32}
    (hle : (room.online : Int) ≤ count.toInt) :
    ({ room with allOnline := count } : Room).onlineNum = count := by
  rw [onlineNum]
  split_ifs with hpos
  · rfl
  · have hzero : count.toInt ≤ 0 := Int.not_lt.1 fun h => hpos (Int32.lt_iff_toInt_lt.2 h)
    have honline : room.online = 0 := by omega
    rw [honline] at hle ⊢
    exact Int32.toInt_inj.1 (Int.le_antisymm hle hzero)

namespace Node

inductive RenewalEvent
  /-- Somebody comes, moves or goes. -/
  | call (a : Directory.Call)
  /-- The node renews its counts. -/
  | renew
  /-- Another server reports. -/
  | hear (server : String) (counts : Table String Int32)
  /-- The control plane begins or ceases to fail. -/
  | fault (m : Method) (f : Option Fault)

/-- What the control plane has heard once the node has reported, the latest first. -/
def renewed (n : Node) (rs : List Report) : List Report :=
  (n.serverId, n.directory.roomCounts) :: rs

def renewalStep : List Report × Node → RenewalEvent → List Report × Node
  | (rs, n), .call a => (rs, { n with directory := n.directory.call a })
  | (rs, n), .renew =>
    (match n.callRenewOnline.1 with
      | .ready (.ok ()) => n.renewed rs
      | _ => rs, n.callRenewOnline.2)
  | (rs, n), .hear server counts =>
    ((server, counts) :: rs, { n with plane := (n.plane.renewOnline server counts).2 })
  | (rs, n), .fault m f => (rs, n.setFault m f)

def afterRenewals (n : Node) (es : List RenewalEvent) : List Report × Node :=
  es.foldl renewalStep ([], n)

structure CountsInOrder (rs : List Report) (n : Node) : Prop where
  roomsListed : n.directory.RoomsListed
  heard : n.plane.Heard rs

variable {n : Node} {rs : List Report} {b r : Nat} {id : String}

theorem callRenewOnline_ok (h : n.faults.get? .renewOnline = none) :
    n.callRenewOnline.1 = .ready (.ok ()) ∧
      n.callRenewOnline.2.plane = (n.plane.renewOnline n.serverId n.directory.roomCounts).2 ∧
      n.callRenewOnline.2.directory =
      n.directory.updateCounts (n.plane.renewOnline n.serverId n.directory.roomCounts).1 := by
  have hfaults : (n.record none (.renewOnline n.serverId n.directory.roomCounts)).faults.get?
    .renewOnline = none := h
  simp only [callRenewOnline, answer, hfaults]
  exact ⟨rfl, rfl, rfl⟩

theorem callRenewOnline_fails (h : n.faults.get? .renewOnline ≠ none) :
    n.callRenewOnline.1 ≠ .ready (.ok ()) ∧ n.callRenewOnline.2.plane = n.plane ∧
      n.callRenewOnline.2.directory = n.directory := by
  obtain ⟨fault, hf⟩ := Option.ne_none_iff_exists'.1 h
  have hfaults : (n.record none (.renewOnline n.serverId n.directory.roomCounts)).faults.get?
    .renewOnline = some fault := hf
  cases fault with
  | hangs =>
    simp only [callRenewOnline, answer, hfaults]
    exact ⟨by simp, rfl, rfl⟩
  | refuses reason =>
    simp only [callRenewOnline, answer, hfaults]
    exact ⟨by simp, rfl, rfl⟩

theorem callRenewOnline_ok_iff (n : Node) :
    n.callRenewOnline.1 = .ready (.ok ()) ↔ n.faults.get? .renewOnline = none := by
  refine ⟨fun h => ?_, fun h => (callRenewOnline_ok h).1⟩
  by_contra hf
  exact (callRenewOnline_fails hf).1 h

theorem roomCounts_sound (h : n.directory.RoomsListed)
    (hlt : ∀ id, n.directory.linkedTotal id < 2 ^ 31) :
    Report.Sound (n.serverId, n.directory.roomCounts) := by
  refine ⟨n.directory.roomCounts_nodup, fun m hm => ?_⟩
  rw [Table.values_eq_map n.directory.roomCounts_nodup 0] at hm
  obtain ⟨id, -, rfl⟩ := List.mem_map.1 hm
  exact (Int.natCast_nonneg _).trans_eq (h.countAt_roomCounts (hlt id)).symm

theorem renewed_sound (h : n.directory.RoomsListed)
    (hlt : ∀ id, n.directory.linkedTotal id < 2 ^ 31) (hs : ∀ r ∈ rs, r.Sound) :
    ∀ r ∈ n.renewed rs, r.Sound :=
  List.forall_mem_cons.2 ⟨roomCounts_sound h hlt, hs⟩

theorem linkedTotal_le_tally (h : n.directory.RoomsListed) (hs : ∀ r ∈ n.renewed rs, r.Sound)
    (hlt : n.directory.linkedTotal id < 2 ^ 31) :
    (n.directory.linkedTotal id : Int) ≤ tally (n.renewed rs) id := by
  have hle := ControlPlane.latest_le_tally hs List.mem_cons_self id
  rw [renewed, ControlPlane.latest, if_pos rfl, h.countAt_roomCounts hlt] at hle
  exact hle

/-- Once the counts are renewed, a room reports what the servers have told of its id, each the last
time. -/
theorem CountsInOrder.onlineNum_renewed (h : CountsInOrder rs n) (hs : ∀ r ∈ rs, r.Sound)
    (hlt : ∀ id, n.directory.linkedTotal id < 2 ^ 31) (hok : n.callRenewOnline.1 = .ready (.ok ()))
    (hr : n.callRenewOnline.2.directory.room? b id = some r)
    (htally : tally (n.renewed rs) id < 2 ^ 31) :
    (n.callRenewOnline.2.directory.lobby.room r).onlineNum.toInt = tally (n.renewed rs) id := by
  obtain ⟨-, -, hd⟩ := callRenewOnline_ok ((callRenewOnline_ok_iff n).1 hok)
  have hsound := renewed_sound h.roomsListed hlt hs
  have hreply := ControlPlane.countAt_totals hsound
    (h.heard.renewOnline n.serverId n.directory.roomCounts) htally
  rw [hd, Directory.room?_updateCounts] at hr
  rw [hd, h.roomsListed.room_updateCounts _ hr, Room.onlineNum_told]
  · exact hreply
  · have honline : ((n.directory.lobby.room r).online : Int) ≤ n.directory.linkedTotal id :=
      Int.ofNat_le.2 (h.roomsListed.online_le hr)
    exact (honline.trans (linkedTotal_le_tally h.roomsListed hsound (hlt id))).trans_eq hreply.symm

theorem CountsInOrder.renewalStep (h : CountsInOrder rs n) (e : RenewalEvent) :
    CountsInOrder (renewalStep (rs, n) e).1 (renewalStep (rs, n) e).2 := by
  cases e with
  | call a => exact ⟨h.roomsListed.call a, h.heard⟩
  | hear server counts => exact ⟨h.roomsListed, h.heard.renewOnline server counts⟩
  | fault m f => exact ⟨h.roomsListed, h.heard⟩
  | renew =>
    by_cases hf : n.faults.get? .renewOnline = none
    · obtain ⟨hok, hp, hd⟩ := callRenewOnline_ok hf
      refine ⟨?_, ?_⟩
      · exact hd ▸ h.roomsListed.updateCounts _
      · rw [Node.renewalStep, hok, hp]
        exact h.heard.renewOnline n.serverId n.directory.roomCounts
    · obtain ⟨hno, hp, hd⟩ := callRenewOnline_fails hf
      refine ⟨hd ▸ h.roomsListed, ?_⟩
      rw [Node.renewalStep, hp]
      split
      · exact absurd ‹_› hno
      · exact h.heard

theorem CountsInOrder.afterRenewals (h : CountsInOrder rs n) (es : List RenewalEvent) :
    CountsInOrder (es.foldl Node.renewalStep (rs, n)).1 (es.foldl Node.renewalStep (rs, n)).2 := by
  induction es generalizing rs n with
  | nil => exact h
  | cons e es ih => exact ih (h.renewalStep e)

theorem new_countsInOrder (config : Config) (hostname : Option String) (entropy : Entropy) :
    CountsInOrder [] (new config hostname entropy) := ⟨Directory.new_roomsListed _ _ _, rfl⟩

/-- Whoever has come, moved and gone, and whatever has been reported: the node counts for every id
the members that are linked over all buckets, with no entry where there is nobody, and lists the ids
that it counts. Every reply of the control plane has for every room the sum of what each server has
told last. When a renewal succeeds, every room in every bucket reports that sum, which is no less
than what the node itself has; when it is refused or hangs, nothing changes in the rooms. -/
theorem afterRenewals_counts {config : Config} {hostname : Option String} {entropy : Entropy}
    {es : List RenewalEvent} (hes : (new config hostname entropy).afterRenewals es = (rs, n)) :
    (∀ id, n.directory.roomCounts.get? id = total? (n.directory.linkedTotal id)) ∧
      n.directory.roomIds.Perm n.directory.roomCounts.keys ∧ n.directory.roomCounts.keys.Nodup ∧
      ((∀ r ∈ rs, r.Sound) →
        (∀ server counts, Report.Sound (server, counts) →
        ∀ id, tally ((server, counts) :: rs) id < 2 ^ 31 →
          (n.plane.renewOnline server counts).1.countAt id = tally ((server, counts) :: rs) id) ∧
        ((∀ id ∈ n.directory.roomIds, n.directory.linkedTotal id < 2 ^ 31) →
          n.callRenewOnline.1 = .ready (.ok ()) →
          ∀ b id r, n.callRenewOnline.2.directory.room? b id = some r →
          tally (n.renewed rs) id < 2 ^ 31 →
            (n.callRenewOnline.2.directory.lobby.room r).onlineNum.toInt = tally (n.renewed rs) id ∧
            n.directory.linkedTotal id ≤ tally (n.renewed rs) id)) ∧
      (n.callRenewOnline.1 = .ready (.ok ()) ↔ n.faults.get? .renewOnline = none) ∧
      (n.callRenewOnline.1 ≠ .ready (.ok ()) → n.callRenewOnline.2.directory = n.directory) := by
  have hinformed : CountsInOrder rs n := by
    have h := (new_countsInOrder config hostname entropy).afterRenewals es
    rw [afterRenewals] at hes
    rwa [hes] at h
  have hlisted := hinformed.roomsListed
  refine ⟨hlisted.get?_roomCounts, hlisted.roomIds_perm, n.directory.roomCounts_nodup,
    fun hs => ⟨?_, ?_⟩, n.callRenewOnline_ok_iff, fun hno => ?_⟩
  · intro server counts hc id hlt
    have hsound : ∀ r ∈ (server, counts) :: rs, Report.Sound r := List.forall_mem_cons.2 ⟨hc, hs⟩
    exact ControlPlane.countAt_totals hsound (hinformed.heard.renewOnline server counts) hlt
  · intro hroom hok b id r hr htally
    have hlt := hlisted.linkedTotal_lt hroom
    exact ⟨hinformed.onlineNum_renewed hs hlt hok hr htally,
      linkedTotal_le_tally hlisted (renewed_sound hlisted hlt hs) (hlt id)⟩
  · exact (callRenewOnline_fails fun hf => hno ((callRenewOnline_ok hf).1)).2.2

/-- Three clients come, two of them to a room in which the other server has members too. After a
renewal one of the two goes and the third client takes the place. The other server tells of the room
once more. -/
def twoServers : List RenewalEvent :=
  [.call (.create (.new 1 "a" "10.0.0.1" 1 2 true)),
    .call (.create (.new 2 "b" "10.0.0.2" 1 2 true)),
    .call (.create (.new 3 "c" "10.0.0.3" 1 2 true)), .call (.put "r" 0), .call (.put "r" 1),
    .call (.put "s" 2), .hear "other" [("r", 4), ("t", 1)], .renew, .call (.changeRoom "r" 2),
    .call (.del 1), .hear "other" [("r", 5)]]

def afterTwoServers : List Report × Node := (new Config.testing none ⟨0⟩).afterRenewals twoServers

/-- The same, with a control plane that hangs from then on. -/
def twoServersHanging : List Report × Node :=
  (new Config.testing none ⟨0⟩).afterRenewals (twoServers ++ [.fault .renewOnline (some .hangs)])

theorem afterRenewals_counts_twoServers :
    afterTwoServers.2.directory.linkedTotal "r" = 2 ∧
      afterTwoServers.2.directory.roomCounts.get? "r" = total? 2 ∧
      afterTwoServers.2.directory.roomIds.Perm afterTwoServers.2.directory.roomCounts.keys ∧
      (afterTwoServers.2.plane.renewOnline "third" [("r", 2)]).1.countAt "r" = 9 ∧
      (∀ b ∈ [2, 3], ∃ r, afterTwoServers.2.callRenewOnline.2.directory.room? b "r" = some r ∧
        (afterTwoServers.2.callRenewOnline.2.directory.lobby.room r).onlineNum.toInt = 7) ∧
      twoServersHanging.2.callRenewOnline.2.directory = twoServersHanging.2.directory := by
  have hs : ∀ r ∈ afterTwoServers.1, r.Sound := by decide +kernel
  have hexchanged : (new Config.testing none ⟨0⟩).afterRenewals twoServers =
      (afterTwoServers.1, afterTwoServers.2) := by
    rw [Prod.mk.eta, afterTwoServers]
  obtain ⟨hcounts, hids, -, hreply, -, -⟩ := afterRenewals_counts hexchanged
  obtain ⟨htotal, hrenew⟩ := hreply hs
  have htotalR : afterTwoServers.2.directory.linkedTotal "r" = 2 := by decide +kernel
  have hlt : ∀ id ∈ afterTwoServers.2.directory.roomIds,
      afterTwoServers.2.directory.linkedTotal id < 2 ^ 31 := by
    decide +kernel
  have htally : ControlPlane.tally (("third", [("r", 2)]) :: afterTwoServers.1) "r" =
    9 := by decide +kernel
  have htold : tally (afterTwoServers.2.renewed afterTwoServers.1) "r" = 7 := by decide +kernel
  have hok : afterTwoServers.2.callRenewOnline.1 = .ready (.ok ()) :=
    afterTwoServers.2.callRenewOnline_ok_iff.2 (by decide +kernel)
  have hroom (b r : Nat) (hr : afterTwoServers.2.callRenewOnline.2.directory.room? b "r" = some r) :
      (afterTwoServers.2.callRenewOnline.2.directory.lobby.room r).onlineNum.toInt = 7 := by
    rw [← htold]
    exact (hrenew hlt hok b "r" r hr (htold ▸ by decide)).1
  have habandoned : (new Config.testing none ⟨0⟩).afterRenewals
    (twoServers ++ [.fault .renewOnline (some .hangs)]) =
      (twoServersHanging.1, twoServersHanging.2) := by
    rw [Prod.mk.eta, twoServersHanging]
  obtain ⟨-, -, -, -, hiff, hlost⟩ := afterRenewals_counts habandoned
  refine ⟨htotalR, htotalR ▸ hcounts "r", hids, ?_, ?_, hlost fun h => ?_⟩
  · rw [← htally]
    exact htotal "third" [("r", 2)] (by decide +kernel) "r" (htally ▸ by decide)
  · have hlisted : ∀ b ∈ [2, 3],
      (afterTwoServers.2.callRenewOnline.2.directory.room? b "r").isSome := by decide +kernel
    intro b hb
    obtain ⟨r, hr⟩ := Option.isSome_iff_exists.1 (hlisted b hb)
    exact ⟨r, hr, hroom b r hr⟩
  · have hhangs : twoServersHanging.2.faults.get? .renewOnline = some .hangs := by decide +kernel
    exact nomatch hhangs.symm.trans (hiff.1 h)

end Node

end PushGateway
