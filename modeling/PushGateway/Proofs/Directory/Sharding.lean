import Mathlib.Data.Set.Card
import PushGateway.Proofs.Directory.Names
import PushGateway.Proofs.Lobby.Fanout
import PushGateway.Proofs.Table

/-!
Every key has one bucket. As long as each call goes to the bucket of the channel it is about, a
channel stands under its own key, in the bucket of that key and nowhere else, so the buckets taken
together name each channel once. A broadcast, which walks through the buckets, then asks the very
channels that a push to all keys asks.
-/

namespace PushGateway

namespace Directory

inductive Call
  | create (ch : Channel)
  /-- Whatever the tasks of a channel and the pushes do with it. -/
  | touch (c : Nat) (f : Channel → Channel)
  | put (id : String) (c : Nat)
  | changeRoom (id : String) (c : Nat)
  | closeRoom (b : Nat) (id : String)
  | del (c : Nat)

def home (d : Directory) (c : Nat) : Nat := d.bucketOf (d.lobby.channel c).key

/-- A call goes to the bucket of the channel it is about. A channel keeps its key for good, and one
that does not exist is not put. -/
def call (d : Directory) : Call → Directory
  | .create ch => d.withLobby (d.lobby.addChannel ch).2
  | .touch c f => d.withLobby (d.lobby.modify c fun ch => { f ch with key := ch.key })
  | .put id c => if c < d.lobby.channels.size then (d.put (d.home c) id c).2 else d
  | .changeRoom id c => (d.changeRoom (d.home c) id c).2
  | .closeRoom b id => (d.closeRoom b id).2
  | .del c => d.del (d.home c) c

def calls (d : Directory) (cs : List Call) : Directory := cs.foldl call d

def Registered (d : Directory) (c : Nat) : Prop := ∃ b key, d.session? b key = some c

/-- A key stands in its own bucket only, and under it a channel that has this key. -/
structure Sharded (d : Directory) : Prop where
  pos : 0 < d.buckets.size
  nodup : ∀ b, (d.bucket b).sessions.keys.Nodup
  exists? : ∀ {b key c}, d.session? b key = some c → c < d.lobby.channels.size
  key : ∀ {b key c}, d.session? b key = some c → (d.lobby.channel c).key = key
  bucketOf : ∀ {b key c}, d.session? b key = some c → d.bucketOf key = b

section
variable {d d' : Directory} {b c : Nat} {key : String}

theorem new_sharded (buckets workers depth : Nat) : (new buckets workers depth).Sharded := by
  have hsessions (b : Nat) : ((new buckets workers depth).bucket b).sessions = [] := by
    rw [bucket, new, Array.getD_eq_getD_getElem?, Array.getElem?_replicate]
    split_ifs <;> rfl
  have hnone {b : Nat} {key : String} {c : Nat} :
      (new buckets workers depth).session? b key ≠ some c := by
    rw [session?, hsessions]
    intro h
    cases h
  constructor
  · simp [new]
  · intro b
    rw [hsessions]
    exact .nil
  · exact fun h => absurd h hnone
  · exact fun h => absurd h hnone
  · exact fun h => absurd h hnone

theorem Sharded.of_sessions (h : d.Sharded) (hb : d'.buckets.size = d.buckets.size)
    (hs : ∀ b, (d'.bucket b).sessions = (d.bucket b).sessions)
    (hc : d.lobby.channels.size ≤ d'.lobby.channels.size)
    (hk : ∀ c, c < d.lobby.channels.size → (d'.lobby.channel c).key = (d.lobby.channel c).key) :
    d'.Sharded := by
  have hsession (b : Nat) (key : String) : d'.session? b key = d.session? b key := by
    rw [session?, hs, session?]
  constructor
  · exact hb ▸ h.pos
  · exact fun b => hs b ▸ h.nodup b
  · intro b key c hd
    exact Nat.lt_of_lt_of_le (h.exists? (hsession b key ▸ hd)) hc
  · intro b key c hd
    rw [hsession] at hd
    exact (hk c (h.exists? hd)).trans (h.key hd)
  · intro b key c hd
    rw [hsession] at hd
    exact (bucketOf_congr hb key).trans (h.bucketOf hd)

theorem Sharded.deliversNothing (h : d.Sharded) (hr : d.DeliversNothing d') : d'.Sharded :=
  h.of_sessions hr.buckets hr.sessions hr.lobby.size fun c hc => (hr.lobby.channel c hc).key

theorem Sharded.register (h : d.Sharded) (hc : c < d.lobby.channels.size) :
    (d.register (d.home c) c).Sharded := by
  have hq := d.register_nobodyReceives (d.home c) c
  have hb := d.register_buckets (d.home c) c
  have hkey {c' : Nat} (hc' : c' < d.lobby.channels.size) := (hq.channel c' hc').key
  have hsession {b : Nat} {key : String} {c' : Nat}
      (hs : (d.register (d.home c) c).session? b key = some c') :
      (key = (d.lobby.channel c).key ∧ b = d.home c ∧ c' = c) ∨ d.session? b key = some c' := by
    rw [session?, register_sessions] at hs
    split_ifs at hs with hb
    · rw [Table.get?_insert] at hs
      split_ifs at hs with hk
      · cases hs
        exact .inl ⟨hk.symm, hb.1, rfl⟩
      · exact .inr (hb.1 ▸ hs)
    · exact .inr hs
  constructor
  · exact hb ▸ h.pos
  · intro b
    rw [register_sessions]
    split_ifs
    · exact Table.nodup_insert (h.nodup _) _ _
    · exact h.nodup b
  · intro b key c' hs
    obtain ⟨-, -, rfl⟩ | hs := hsession hs
    · exact Nat.lt_of_lt_of_le hc hq.size
    · exact Nat.lt_of_lt_of_le (h.exists? hs) hq.size
  · intro b key c' hs
    obtain ⟨rfl, -, rfl⟩ | hs := hsession hs
    · exact hkey hc
    · exact (hkey (h.exists? hs)).trans (h.key hs)
  · intro b key c' hs
    obtain ⟨rfl, rfl, rfl⟩ | hs := hsession hs
    · exact bucketOf_congr hb _
    · exact (bucketOf_congr hb _).trans (h.bucketOf hs)

theorem Sharded.unregister (h : d.Sharded) (b c : Nat) : (d.unregister b c).Sharded := by
  have hq := d.unregister_nobodyReceives b c
  have hb := d.unregister_buckets b c
  have hsession {b' : Nat} {key : String} {c' : Nat}
      (hs : (d.unregister b c).session? b' key = some c') : d.session? b' key = some c' := by
    rw [session?, unregister_sessions] at hs
    split_ifs at hs with hh
    · rw [Table.get?_erase] at hs
      split_ifs at hs
      exact hh.1 ▸ hs
    · exact hs
  constructor
  · exact hb ▸ h.pos
  · intro b'
    rw [unregister_sessions]
    split_ifs
    · exact Table.nodup_erase (h.nodup _) _
    · exact h.nodup b'
  · exact fun hs => Nat.lt_of_lt_of_le (h.exists? (hsession hs)) hq.size
  · intro b' key c' hs
    have hs := hsession hs
    exact (hq.channel c' (h.exists? hs)).key.trans (h.key hs)
  · exact fun hs => (bucketOf_congr hb _).trans (h.bucketOf (hsession hs))

theorem Sharded.call (h : d.Sharded) (a : Call) : (d.call a).Sharded := by
  cases a with
  | create ch => exact h.deliversNothing (withLobby_delivers (d.lobby.addChannel_nobodyReceives ch))
  | touch c f =>
    refine h.of_sessions rfl (fun _ => rfl) ?_ ?_
    · exact Nat.le_of_eq (Lobby.modify_channels_size ..).symm
    · intro c' _
      simp only [Directory.call, withLobby, Lobby.channel_modify]
      split_ifs with hc
      · rw [hc.1]
      · rfl
  | put id c =>
    simp only [Directory.call]
    split_ifs with hc
    · exact (h.register hc).deliversNothing (d.put_deliversNothing (d.home c) id c)
    · exact h
  | changeRoom id c => exact h.deliversNothing (d.changeRoom_deliversNothing (d.home c) id c)
  | closeRoom b id => exact h.deliversNothing (d.closeRoom_deliversNothing b id)
  | del c => exact (h.unregister (d.home c) c).deliversNothing (d.del_deliversNothing (d.home c) c)

theorem Sharded.calls (h : d.Sharded) (cs : List Call) : (d.calls cs).Sharded := by
  induction cs generalizing d with
  | nil => exact h
  | cons a cs ih => exact ih (h.call a)

def registered (d : Directory) : List Nat :=
  (List.range d.buckets.size).flatMap fun b => (d.bucket b).sessions.values

def registeredKeys (d : Directory) : List String :=
  (List.range d.buckets.size).flatMap fun b => (d.bucket b).sessions.keys

theorem session?_lt (h : d.session? b key = some c) : b < d.buckets.size := by
  by_contra hb
  have hnone : d.bucket b = default := by
    simp [bucket, Array.getD_eq_getD_getElem?, Nat.not_lt.1 hb]
  rw [session?, hnone] at h
  cases h

theorem mem_registeredKeys : key ∈ d.registeredKeys ↔ ∃ b, (d.session? b key).isSome := by
  simp only [registeredKeys, List.mem_flatMap, List.mem_range, Table.mem_keys_iff]
  constructor
  · intro hk
    obtain ⟨b, -, hs⟩ := hk
    exact ⟨b, hs⟩
  · intro hk
    obtain ⟨b, hs⟩ := hk
    obtain ⟨c, hc⟩ := Option.isSome_iff_exists.1 hs
    exact ⟨b, session?_lt hc, hs⟩

theorem Sharded.mem_registered (h : d.Sharded) : c ∈ d.registered ↔ d.Registered c := by
  simp only [registered, List.mem_flatMap, List.mem_range, Table.mem_values_iff (h.nodup _)]
  constructor
  · intro hc
    obtain ⟨b, -, hs⟩ := hc
    exact ⟨b, hs⟩
  · intro hc
    obtain ⟨b, key, hs⟩ := hc
    exact ⟨b, session?_lt hs, key, hs⟩

/-- No channel is named twice: its key is under it once in each bucket, and has one bucket. -/
theorem Sharded.registered_nodup (h : d.Sharded) : d.registered.Nodup := by
  rw [registered, List.nodup_flatMap]
  constructor
  · intro b _
    apply List.Nodup.of_map fun c => (d.lobby.channel c).key
    have hkeys : (d.bucket b).sessions.values.map (fun c => (d.lobby.channel c).key) =
        (d.bucket b).sessions.keys := by
      rw [Table.values, List.map_map, Table.keys]
      apply List.map_congr_left
      rintro ⟨key, c⟩ hm
      exact h.key (Table.get?_of_mem (h.nodup b) hm)
    rw [hkeys]
    exact h.nodup b
  · refine List.nodup_range.imp ?_
    intro b b' hne c hc hc'
    obtain ⟨key, hs⟩ := (Table.mem_values_iff (h.nodup b)).1 hc
    obtain ⟨key', hs'⟩ := (Table.mem_values_iff (h.nodup b')).1 hc'
    have hkey : key = key' := (h.key hs).symm.trans (h.key hs')
    apply hne
    calc b = d.bucketOf key := (h.bucketOf hs).symm
      _ = d.bucketOf key' := by rw [hkey]
      _ = b' := h.bucketOf hs'

theorem Sharded.find?_eq_some (h : d.Sharded) : d.find? key = some c ↔
    ∃ b, d.session? b key = some c := by
  constructor
  · exact fun hf => ⟨_, hf⟩
  · rintro ⟨b, hs⟩
    rw [find?, h.bucketOf hs]
    exact hs

theorem Sharded.registered_perm (h : d.Sharded) {keys : List String} (hn : keys.Nodup)
    (hk : ∀ key, key ∈ keys ↔ ∃ b, (d.session? b key).isSome) :
    d.registered.Perm (keys.filterMap d.find?) := by
  rw [List.perm_ext_iff_of_nodup h.registered_nodup]
  · intro c
    rw [h.mem_registered, List.mem_filterMap]
    constructor
    · rintro ⟨b, key, hs⟩
      exact ⟨key, (hk key).2 ⟨b, Option.isSome_of_eq_some hs⟩, h.find?_eq_some.2 ⟨b, hs⟩⟩
    · rintro ⟨key, -, hf⟩
      exact ⟨d.bucketOf key, key, hf⟩
  · apply hn.filterMap
    intro key key' c hf hf'
    exact (h.key hf).symm.trans (h.key hf')

theorem broadcast_eq (d : Directory) (op : Int32) (f : Frame) : d.broadcast op f =
    ((Lobby.offerAll op f d.lobby d.registered).1,
      d.withLobby (Lobby.offerAll op f d.lobby d.registered).2) := by
  -- a bucket at a time, with what was counted and delivered in those before it
  have hbuckets (bs : List Nat) (n : Nat) (l : Lobby) :
      bs.foldl (fun (p : Nat × Directory) b =>
          (p.1 + (p.2.broadcastIn b op f).1, (p.2.broadcastIn b op f).2)) (n, d.withLobby l) =
        (n + (Lobby.offerAll op f l (bs.flatMap fun b => (d.bucket b).sessions.values)).1,
          d.withLobby (Lobby.offerAll op f l
          (bs.flatMap fun b => (d.bucket b).sessions.values)).2) := by
    induction bs generalizing n l with
    | nil => rfl
    | cons b bs ih =>
      refine (ih _ _).trans ?_
      rw [List.flatMap_cons, Lobby.offerAll_append, ← Nat.add_assoc]
      rfl
  have hall := hbuckets (List.range d.buckets.size) 0 d.lobby
  rw [Nat.zero_add] at hall
  exact hall

theorem Sharded.broadcast_count (h : d.Sharded) (op : Int32) (f : Frame) :
    (d.broadcast op f).1 = {c | d.Registered c ∧ (d.lobby.channel c).accepts op}.ncard := by
  have hset : {c | d.Registered c ∧ (d.lobby.channel c).accepts op} =
      ↑(d.registered.filter fun c => (d.lobby.channel c).accepts op).toFinset := by
    ext c
    simp [h.mem_registered]
  rw [broadcast_eq, Lobby.offerAll_count h.registered_nodup, hset, Set.ncard_coe_finset,
    List.toFinset_card_of_nodup (h.registered_nodup.filter _), List.countP_eq_length_filter]

/-- What calls to the right buckets have made of an empty directory, a broadcast treats as a push to
all keys does, in whatever order these stand: the same number of channels take it, namely the
registered ones that watch for it, have a reader and a place; each of them finds it once at the back
of its queue, and nothing else has changed. -/
theorem broadcast_eq_pushKeys {buckets workers depth : Nat} {cs : List Call} {keys : List String}
    (hd : (new buckets workers depth).calls cs = d) (hn : keys.Nodup)
    (hk : ∀ key, key ∈ keys ↔ ∃ b, (d.session? b key).isSome) (op : Int32) (f : Frame) :
    d.broadcast op f = d.pushKeys keys op f ∧
      (d.broadcast op f).1 = {c | d.Registered c ∧ (d.lobby.channel c).accepts op}.ncard ∧
      (∀ c, d.Registered c ∧ (d.lobby.channel c).accepts op →
        (d.broadcast op f).2.lobby.channel c = (d.lobby.channel c).queued f) ∧
      ∀ c, ¬ (d.Registered c ∧ (d.lobby.channel c).accepts op) →
        (d.broadcast op f).2.lobby.channel c = d.lobby.channel c := by
  have h : d.Sharded := hd ▸ (new_sharded buckets workers depth).calls cs
  have hchannel (c : Nat) : (Lobby.offerAll op f d.lobby d.registered).2.channel c =
      if c ∈ d.registered ∧ (d.lobby.channel c).accepts op then (d.lobby.channel c).queued f
      else d.lobby.channel c := Lobby.offerAll_channel h.registered_nodup c
  refine ⟨?_, h.broadcast_count op f, ?_, ?_⟩
  · rw [broadcast_eq, Lobby.offerAll_perm h.registered_nodup (h.registered_perm hn hk)]
    rfl
  · intro c hc
    rw [broadcast_eq]
    exact (hchannel c).trans (if_pos ⟨h.mem_registered.2 hc.1, hc.2⟩)
  · intro c hc
    rw [broadcast_eq]
    exact (hchannel c).trans (if_neg fun hr => hc ⟨h.mem_registered.1 hr.1, hr.2⟩)

/-- Two buckets. The second channel with key `a` has taken it over from the first, and the queue of
the channel with key `c` is full. -/
def twoBuckets : List Call :=
  [.create (.new 1 "a" "10.0.0.1" 1 2 true), .create (.new 2 "b" "10.0.0.2" 1 2 true),
    .create (.new 3 "a" "10.0.0.3" 1 2 true), .create (.new 4 "c" "10.0.0.4" 1 1 true),
    .put "r" 0, .put "r" 1, .put "" 2, .put "s" 3, .del 0,
    .touch 0 (·.watch [5]), .touch 1 (·.watch [5]), .touch 2 (·.watch [5]), .touch 3 (·.watch [5]),
    .changeRoom "s" 1, .closeRoom 1 "s"]

theorem broadcast_eq_pushKeys_twoBuckets :
    let d := (new 2 1 1).calls twoBuckets
    ["c", "a", "b"].Nodup ∧ (∀ key, key ∈ ["c", "a", "b"] ↔ ∃ b, (d.session? b key).isSome) ∧
      d.broadcast 5 { op := 5 } = d.pushKeys ["c", "a", "b"] 5 { op := 5 } ∧
      (d.broadcast 5 { op := 5 }).1 = 2 := by
  intro d
  have hkeys : d.registeredKeys = ["a", "b", "c"] := by decide +kernel
  have hp : ["c", "a", "b"].Perm ["a", "b", "c"] := by decide
  have hk (key : String) : key ∈ ["c", "a", "b"] ↔ ∃ b, (d.session? b key).isSome := by
    rw [← mem_registeredKeys, hkeys, hp.mem_iff]
  have hn : ["c", "a", "b"].Nodup := by decide
  exact ⟨hn, hk, (broadcast_eq_pushKeys rfl hn hk 5 { op := 5 }).1, by decide +kernel⟩

end

end Directory

end PushGateway
