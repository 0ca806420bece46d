import Mathlib.Data.List.Count
import PushGateway.Proofs.Directory.History
import PushGateway.Proofs.Directory.Rooms

/-!
Putting a channel under its key and taking it off. Both leave rooms and seats alone; what they do
to a channel that stands under the key already is no more than to ask it to finish. The tables
they write are those of the history: a key names the channel put last under it while that one is
there, and an address counts the channels that are there.
-/

namespace PushGateway.Directory

structure KeepsRooms (d : Directory) (b : Nat) (d' : Directory) : Prop where
  roomsInOrder : d'.RoomsInOrder b
  equalButQueues : d.lobby.EqualButQueues d'.lobby
  room? : ∀ id, d'.room? b id = d.room? b id

section
variable {d : Directory} {b c : Nat}

theorem register_lobby (d : Directory) (b c : Nat) :
    d.lobby.EqualButQueues (d.register b c).lobby := by
  have hold := Lobby.modify_equalButQueues d.lobby c (f := Channel.hold) ⟨rfl, rfl, rfl⟩
  cases hs : (d.bucket b).sessions.get? (d.lobby.channel c).key with
  | none =>
    simp only [register, hs]
    exact hold
  | some old =>
    simp only [register, hs]
    refine hold.trans (Lobby.modify_equalButQueues _ old ?_)
    split_ifs <;> exact ⟨rfl, rfl, rfl⟩

theorem register_bucket (hb : b < d.buckets.size) (c : Nat) : (d.register b c).bucket b =
    { d.bucket b with
      sessions := (d.bucket b).sessions.insert (d.lobby.channel c).key c
      ips := (d.bucket b).ips.insert (d.lobby.channel c).ip
        ((d.bucket b).ipCount (d.lobby.channel c).ip + 1) } := by
  rw [register]
  exact bucket_setBucket hb _

theorem register_keepsRooms (hd : d.RoomsInOrder b) (c : Nat) :
    d.KeepsRooms b (d.register b c) := by
  have hl := register_lobby d b c
  have hr (id : String) : (d.register b c).room? b id = d.room? b id := by
    rw [Directory.room?, register_bucket hd.lt]
    rfl
  exact ⟨hd.of_equalButQueues (setBucket_size _) hl fun id r h => (hr id).symm.trans h, hl, hr⟩

theorem unregister_lobby (d : Directory) (b c : Nat) :
    d.lobby.EqualButQueues (d.unregister b c).lobby := by
  simp only [unregister]
  split_ifs
  · exact Lobby.modify_equalButQueues d.lobby c ⟨rfl, rfl, rfl⟩
  · exact .refl _

theorem unregister_bucket (hb : b < d.buckets.size) (c : Nat) : (d.unregister b c).bucket b =
    (if (d.bucket b).sessions.get? (d.lobby.channel c).key = some c then
      { d.bucket b with sessions := (d.bucket b).sessions.erase (d.lobby.channel c).key }
      else d.bucket b).dropIp (d.lobby.channel c).ip := by
  rw [unregister]
  split_ifs <;> exact bucket_setBucket hb _

theorem dropIp_rooms (b : Bucket) (ip : String) : (b.dropIp ip).rooms = b.rooms := by
  rw [Bucket.dropIp]
  split <;> rfl

theorem dropIp_sessions (b : Bucket) (ip : String) : (b.dropIp ip).sessions = b.sessions := by
  rw [Bucket.dropIp]
  split <;> rfl

theorem unregister_keepsRooms (hd : d.RoomsInOrder b) (c : Nat) :
    d.KeepsRooms b (d.unregister b c) := by
  have hl := unregister_lobby d b c
  have hr (id : String) : (d.unregister b c).room? b id = d.room? b id := by
    rw [Directory.room?, unregister_bucket hd.lt, dropIp_rooms]
    split_ifs <;> rfl
  refine ⟨hd.of_equalButQueues ?_ hl fun id r h => (hr id).symm.trans h, hl, hr⟩
  simp only [unregister]
  split_ifs <;> exact setBucket_size _

end

end PushGateway.Directory

namespace PushGateway

namespace Bucket

/-- The addresses in the bucket are those that somebody has, with how many have each. -/
def Counts (b : Bucket) (count : String → Nat) : Prop :=
  ∀ x, b.ips.get? x = if count x = 0 then none else some (count x)

variable {b : Bucket} {count : String → Nat}

theorem Counts.ipCount (h : b.Counts count) (x : String) : b.ipCount x = count x := by
  rw [Bucket.ipCount, h]
  split_ifs with h0
  · exact h0.symm
  · rfl

theorem Counts.insert (h : b.Counts count) (a : String) :
    { b with ips := b.ips.insert a (b.ipCount a + 1) }.Counts
      fun x => count x + if a = x then 1 else 0 := by
  intro x
  change (b.ips.insert a (b.ipCount a + 1)).get? x = _
  rw [Table.get?_insert, h.ipCount, h]
  by_cases hx : a = x
  · simp [hx]
  · simp [hx]

theorem get?_dropIp (b : Bucket) (a x : String) : (b.dropIp a).ips.get? x =
    if a = x then (b.ips.get? a).bind fun n => if n ≤ 1 then none else some (n - 1)
    else b.ips.get? x := by
  rw [Bucket.dropIp]
  cases hg : b.ips.get? a with
  | none =>
    split_ifs with hx
    · rw [← hx, hg]
      rfl
    · rfl
  | some n =>
    dsimp only
    split_ifs with hn hx hx
    · rw [Table.get?_erase, if_pos hx, Option.bind_some, if_pos hn]
    · rw [Table.get?_erase, if_neg hx]
    · rw [Table.get?_insert, if_pos hx, Option.bind_some, if_neg hn]
    · rw [Table.get?_insert, if_neg hx]

theorem Counts.dropIp (h : b.Counts count) {a : String} (ha : 0 < count a) :
    (b.dropIp a).Counts fun x => count x - if a = x then 1 else 0 := by
  intro x
  rw [get?_dropIp, h, h]
  by_cases hx : a = x
  · subst hx
    simp only [if_true, if_neg (Nat.ne_of_gt ha), Option.bind_some]
    by_cases h1 : count a = 1
    · rw [h1]
      rfl
    · rw [if_neg (by omega), if_neg (by omega)]
  · simp only [if_neg hx, Nat.sub_zero]

end Bucket

namespace BucketOp

structure SessionsMatch (key ip : Nat → String) (h : List BucketOp) (bucket : Bucket) : Prop where
  session : ∀ k, bucket.sessions.get? k = (latest key k h).filter (· ∈ live h)
  ips : ∀ x, bucket.ips.get? x =
    if (live h).countP (ip · = x) = 0 then none else some ((live h).countP (ip · = x))

section
variable {key ip : Nat → String} {h : List BucketOp} {bucket : Bucket} {c : Nat}

theorem SessionsMatch.ipCount (hf : SessionsMatch key ip h bucket) (x : String) :
    bucket.ipCount x = (live h).countP (ip · = x) := Bucket.Counts.ipCount hf.ips x

theorem SessionsMatch.mem_ips (hf : SessionsMatch key ip h bucket) (x : String) :
    x ∈ bucket.ips.keys ↔ 0 < (live h).countP (ip · = x) := by
  rw [Table.mem_keys_iff, hf.ips]
  split_ifs with h0
  · simp [h0]
  · simp only [Option.isSome_some, true_iff]
    omega

theorem filter_congr_latest {k : String} {p q : Nat → Bool} (hpq : ∀ c', key c' = k → p c' = q c') :
    (latest key k h).filter p = (latest key k h).filter q := by
  cases hl : latest key k h with
  | none => rfl
  | some c' => simp only [Option.filter_some, hpq c' (latest_key hl)]

theorem SessionsMatch.put (hf : SessionsMatch key ip h bucket) (id : String) (c : Nat) :
    SessionsMatch key ip (.put id c :: h)
      { bucket with
        sessions := bucket.sessions.insert (key c) c
        ips := bucket.ips.insert (ip c) (bucket.ipCount (ip c) + 1) } := by
  constructor
  · intro k
    change (bucket.sessions.insert (key c) c).get? k =
      (if key c = k then some c else latest key k h).filter (· ∈ c :: live h)
    rw [Table.get?_insert, hf.session]
    split_ifs with hk
    · rw [Option.filter_some, if_pos (by simp)]
    · apply filter_congr_latest
      intro c' hc'
      have hne : c' ≠ c := fun he => hk (he ▸ hc')
      simp [hne]
  · intro x
    have hcount := Bucket.Counts.insert hf.ips (ip c) x
    change (bucket.ips.insert (ip c) (bucket.ipCount (ip c) + 1)).get? x =
      if (c :: live h).countP (ip · = x) = 0 then none else some ((c :: live h).countP (ip · = x))
    simpa [List.countP_cons] using hcount

theorem SessionsMatch.changeRoom (hf : SessionsMatch key ip h bucket) (id : String) (c : Nat) :
    SessionsMatch key ip (.changeRoom id c :: h) bucket := ⟨hf.session, hf.ips⟩

theorem SessionsMatch.closeRoom (hf : SessionsMatch key ip h bucket) (id : String) :
    SessionsMatch key ip (.closeRoom id :: h) bucket := ⟨hf.session, hf.ips⟩

theorem SessionsMatch.del_session (hf : SessionsMatch key ip h bucket) (hn : (live h).Nodup)
    (hc : c ∈ live h) (k : String) :
    (if bucket.sessions.get? (key c) = some c then bucket.sessions.erase (key c)
      else bucket.sessions).get? k = (latest key k h).filter (· ∈ (live h).erase c) := by
  have hmem (c' : Nat) : c' ∈ (live h).erase c ↔ c' ≠ c ∧ c' ∈ live h := hn.mem_erase_iff
  split_ifs with hs
  · have hl := hf.session (key c)
    rw [hs, eq_comm, Option.filter_eq_some_iff] at hl
    rw [Table.get?_erase]
    split_ifs with hk
    · rw [← hk, hl.1, Option.filter_some, if_neg (by simp [hmem])]
    · rw [hf.session]
      apply filter_congr_latest
      intro c' hc'
      have hne : c' ≠ c := fun he => hk (he ▸ hc')
      simp [hmem, hne]
  · rw [hf.session]
    cases hl : latest key k h with
    | none => rfl
    | some c' =>
      -- Had `c` been put last under its key, the key would name it.
      have hne : c' ≠ c := by
        rintro rfl
        apply hs
        rw [hf.session, latest_key hl, hl, Option.filter_some, if_pos (by simpa using hc)]
      simp only [Option.filter_some, hmem, hne, ne_eq, not_false_eq_true, true_and]

theorem countP_live_erase (hc : c ∈ live h) (x : String) : ((live h).erase c).countP (ip · = x) =
    (live h).countP (ip · = x) - if ip c = x then 1 else 0 := by
  rw [List.countP_erase]
  simp [hc]

theorem SessionsMatch.del_ips (hf : SessionsMatch key ip h bucket) (hc : c ∈ live h) :
    (bucket.dropIp (ip c)).Counts fun x => ((live h).erase c).countP (ip · = x) := by
  have hpos : 0 < (live h).countP (ip · = ip c) := List.countP_pos_iff.2 ⟨c, hc, by simp⟩
  simp only [countP_live_erase hc]
  exact Bucket.Counts.dropIp hf.ips hpos

theorem SessionsMatch.del (hf : SessionsMatch key ip h bucket) (hn : (live h).Nodup)
    (hc : c ∈ live h) :
    SessionsMatch key ip (.del c :: h)
      ((if bucket.sessions.get? (key c) = some c then
        { bucket with sessions := bucket.sessions.erase (key c) } else bucket).dropIp (ip c)) := by
  have hses := hf.del_session hn hc
  have hips := hf.del_ips hc
  split_ifs at hses ⊢
  · constructor
    · intro k
      rw [Directory.dropIp_sessions]
      exact hses k
    · intro x
      have hx := hips x
      rw [Bucket.get?_dropIp] at hx ⊢
      exact hx
  · refine ⟨?_, hips⟩
    intro k
    rw [Directory.dropIp_sessions]
    exact hses k

end

end BucketOp

end PushGateway
