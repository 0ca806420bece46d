import PushGateway.Proofs.Lobby.Offers

/-!
A push offered to several channels, each of them once. Whether a channel takes it is up to that
channel alone, so neither what is in the queues afterwards nor how many took it depends on who is
asked first.
-/

namespace PushGateway

namespace Channel

def accepts (ch : Channel) (op : Int32) : Bool :=
  ch.needsPush op && (ch.outbox.hasReceiver && ch.outbox.hasPlace)

def queued (ch : Channel) (f : Frame) : Channel := { ch with outbox := ch.outbox.push (.data f) }

theorem deliver_eq (ch : Channel) (f : Frame) : ch.deliver f =
    if ch.outbox.hasReceiver && ch.outbox.hasPlace then (true, ch.queued f) else (false, ch) := by
  simp only [deliver, Outbox.offer?]
  split_ifs <;> rfl

end Channel

namespace Lobby

variable {l : Lobby} {op : Int32} {f : Frame} {c : Nat} {cs ds : List Nat}

theorem eq_of_channel {l' : Lobby} (hs : l'.channels.size = l.channels.size)
    (hc : ∀ c, l'.channel c = l.channel c) (hr : l'.rooms = l.rooms) : l' = l := by
  obtain ⟨channels, rooms⟩ := l
  obtain ⟨channels', rooms'⟩ := l'
  simp only [mk.injEq]
  refine ⟨Array.ext hs ?_, hr⟩
  intro c h h'
  simpa [channel, Array.getD_eq_getD_getElem?, h, h'] using hc c

theorem accepts_lt (h : (l.channel c).accepts op = true) : c < l.channels.size := by
  by_contra hc
  have hnone : l.channel c = default := by
    simp [channel, Array.getD_eq_getD_getElem?, Nat.not_lt.1 hc]
  rw [hnone] at h
  cases h

theorem modify_self (l : Lobby) (c : Nat) : (l.modify c fun _ => l.channel c) = l := by
  apply eq_of_channel
  · exact modify_channels_size l c _
  · intro c'
    rw [channel_modify]
    split_ifs with hc
    · rw [hc.1]
    · rfl
  · rfl

theorem offer_eq (l : Lobby) (op : Int32) (f : Frame) (c : Nat) : l.offer op f c =
    if (l.channel c).accepts op then (true, l.modify c fun _ => (l.channel c).queued f)
    else (false, l) := by
  simp only [offer, deliver, Channel.deliver_eq, Channel.accepts]
  by_cases hn : (l.channel c).needsPush op = true
  · by_cases hp : ((l.channel c).outbox.hasReceiver && (l.channel c).outbox.hasPlace) = true
    · simp [hn, hp]
    · simp [hn, hp, modify_self]
  · simp [hn]

theorem offer_channel (l : Lobby) (op : Int32) (f : Frame) (c c' : Nat) :
    (l.offer op f c).2.channel c' =
      if c' = c ∧ (l.channel c').accepts op then (l.channel c').queued f else l.channel c' := by
  rw [offer_eq]
  by_cases ha : (l.channel c).accepts op = true
  · rw [if_pos ha, channel_modify]
    by_cases hc : c' = c
    · simp [hc, ha, accepts_lt ha]
    · simp [hc]
  · rw [if_neg ha, if_neg]
    rintro ⟨rfl, ha'⟩
    exact ha ha'

theorem offerAll_rooms (l : Lobby) (op : Int32) (f : Frame) (cs : List Nat) :
    (offerAll op f l cs).2.rooms = l.rooms := by
  induction cs generalizing l with
  | nil => rfl
  | cons c cs ih =>
    refine (ih (l.offer op f c).2).trans ?_
    rw [offer_eq]
    split_ifs <;> rfl

theorem offerAll_size (l : Lobby) (op : Int32) (f : Frame) (cs : List Nat) :
    (offerAll op f l cs).2.channels.size = l.channels.size := by
  induction cs generalizing l with
  | nil => rfl
  | cons c cs ih =>
    refine (ih (l.offer op f c).2).trans ?_
    rw [offer_eq]
    split_ifs
    · exact modify_channels_size l c _
    · rfl

theorem offerAll_append (l : Lobby) (op : Int32) (f : Frame) (cs ds : List Nat) :
    offerAll op f l (cs ++ ds) =
      ((offerAll op f l cs).1 + (offerAll op f (offerAll op f l cs).2 ds).1,
        (offerAll op f (offerAll op f l cs).2 ds).2) := by
  induction cs generalizing l with
  | nil => simp [offerAll]
  | cons c cs ih =>
    simp only [List.cons_append, offerAll, ih, Prod.mk.injEq, and_true]
    omega

theorem offerAll_channel (hn : cs.Nodup) (c : Nat) : (offerAll op f l cs).2.channel c =
    if c ∈ cs ∧ (l.channel c).accepts op then (l.channel c).queued f else l.channel c := by
  induction cs generalizing l with
  | nil => simp [offerAll]
  | cons d cs ih =>
    obtain ⟨hd, hn⟩ := List.nodup_cons.1 hn
    have hrest := ih (l := (l.offer op f d).2) hn
    simp only [offer_channel] at hrest
    refine hrest.trans ?_
    by_cases hc : c = d
    · subst hc
      simp [hd]
    · simp [hc]

theorem offerAll_count (hn : cs.Nodup) :
    (offerAll op f l cs).1 = cs.countP fun c => (l.channel c).accepts op := by
  induction cs generalizing l with
  | nil => rfl
  | cons d cs ih =>
    obtain ⟨hd, hn⟩ := List.nodup_cons.1 hn
    have hrest : (cs.countP fun c => ((l.offer op f d).2.channel c).accepts op) =
        cs.countP fun c => (l.channel c).accepts op := by
      apply List.countP_congr
      intro c hc
      have hne : c ≠ d := fun he => hd (he ▸ hc)
      simp [offer_channel, hne]
    have hhead : (l.offer op f d).1 = (l.channel d).accepts op := by
      rw [offer_eq]
      split_ifs with ha <;> simp [ha]
    simp only [offerAll, ih hn, hrest, hhead, List.countP_cons]
    cases (l.channel d).accepts op <;> rfl

theorem offerAll_perm (hn : cs.Nodup) (hp : cs.Perm ds) :
    offerAll op f l cs = offerAll op f l ds := by
  have hn' : ds.Nodup := hp.nodup_iff.1 hn
  apply Prod.ext
  · rw [offerAll_count hn, offerAll_count hn', hp.countP_eq]
  · apply eq_of_channel
    · rw [offerAll_size, offerAll_size]
    · intro c
      simp only [offerAll_channel hn, offerAll_channel hn', hp.mem_iff]
    · rw [offerAll_rooms, offerAll_rooms]

end Lobby

end PushGateway
