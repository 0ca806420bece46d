import PushGateway.Proofs.Channel.Outbox
import PushGateway.Proofs.Lobby.Seats

/-!
What others may do to a channel: offer it pushes and ask it to finish. Who it belongs to and the
replies in its ring are the business of its own two tasks. Every operation on the lobby keeps to
this, and which pushes a channel has taken can be read off the signals that came in.
-/

namespace PushGateway

/-- The channel has taken the pushes `ps` from elsewhere, and nothing else of it that its tasks look
at has changed. -/
structure Channel.Receives (ch : Channel) (ps : List Frame) (ch' : Channel) : Prop where
  mid : ch'.mid = ch.mid
  key : ch'.key = ch.key
  inbound : ch'.inbound = ch.inbound
  outbox : ∃ extra, ch.outbox.Appends extra ch'.outbox ∧ extra.filterMap Signal.push? = ps

namespace Channel

variable {ch ch' ch'' : Channel} {ps ps' : List Frame}

theorem Receives.refl (ch : Channel) : ch.Receives [] ch := ⟨rfl, rfl, rfl, [], .refl _, rfl⟩

theorem Receives.trans (h : ch.Receives ps ch') (h' : ch'.Receives ps' ch'') :
    ch.Receives (ps ++ ps') ch'' := by
  obtain ⟨extra, hf, hp⟩ := h.outbox
  obtain ⟨extra', hf', hp'⟩ := h'.outbox
  refine ⟨h'.mid.trans h.mid, h'.key.trans h.key, h'.inbound.trans h.inbound, extra ++ extra',
    hf.trans hf', ?_⟩
  rw [List.filterMap_append, hp, hp']

theorem Receives.pushes (h : ch.Receives ps ch') : ch'.outbox.pushes = ch.outbox.pushes ++ ps := by
  obtain ⟨extra, hf, hp⟩ := h.outbox
  rw [hf.pushes, hp]

theorem deliver_receives (ch : Channel) (f : Frame) :
    ch.Receives (if (ch.deliver f).1 then [f] else []) (ch.deliver f).2 := by
  rw [deliver]
  cases ho : ch.outbox.offer? (.data f) with
  | none => exact .refl ch
  | some outbox => exact ⟨rfl, rfl, rfl, [.data f], Outbox.offer?_appends ho, rfl⟩

theorem close_receives (ch : Channel) : ch.Receives [] ch.close := by
  obtain ⟨k, hk⟩ := Outbox.finish_appends ch.outbox
  exact ⟨rfl, rfl, rfl, _, hk, Outbox.filterMap_finish k⟩

theorem wake_receives (ch : Channel) : ch.Receives [] ch.wake := by
  rw [wake]
  split
  · exact .refl ch
  · split
    · rename_i ho
      exact ⟨rfl, rfl, rfl, _, Outbox.offer?_appends ho, rfl⟩
    · exact .refl ch

theorem watch_receives (ch : Channel) (ops : List Int32) : ch.Receives [] (ch.watch ops) :=
  ⟨rfl, rfl, rfl, [], .refl _, rfl⟩

theorem unwatch_receives (ch : Channel) (ops : List Int32) : ch.Receives [] (ch.unwatch ops) :=
  ⟨rfl, rfl, rfl, [], .refl _, rfl⟩

theorem hold_receives (ch : Channel) : ch.Receives [] ch.hold := ⟨rfl, rfl, rfl, [], .refl _, rfl⟩

theorem release_receives (ch : Channel) : ch.Receives [] ch.release :=
  ⟨rfl, rfl, rfl, [], .refl _, rfl⟩

theorem seat_receives (ch : Channel) (seat : Option Seat) : ch.Receives [] { ch with seat } :=
  ⟨rfl, rfl, rfl, [], .refl _, rfl⟩

theorem KeepsIdentity.refl (ch : Channel) : ch.KeepsIdentity ch := ⟨rfl, rfl, rfl⟩

theorem deliver_keepsIdentity (ch : Channel) (f : Frame) : ch.KeepsIdentity (ch.deliver f).2 := by
  rw [deliver]
  split <;> exact ⟨rfl, rfl, rfl⟩

theorem wake_keepsIdentity (ch : Channel) : ch.KeepsIdentity ch.wake := by
  rw [wake]
  split
  · exact .refl ch
  · split <;> exact ⟨rfl, rfl, rfl⟩

theorem pushInbound_keepsIdentity {f : Frame} (h : ch.pushInbound f = .ok ch') :
    ch.KeepsIdentity ch' := by
  rw [pushInbound] at h
  split at h
  · cases h
    exact ⟨rfl, rfl, rfl⟩
  · cases h

theorem popInbound_keepsIdentity {f : Frame} (h : ch.popInbound = some (f, ch')) :
    ch.KeepsIdentity ch' := by
  obtain ⟨⟨f', inbound⟩, -, he⟩ := Option.map_eq_some_iff.1 h
  cases he
  exact ⟨rfl, rfl, rfl⟩

theorem receive_keepsIdentity {s : Signal} (h : ch.receive = some (s, ch')) :
    ch.KeepsIdentity ch' := by
  obtain ⟨⟨s', outbox⟩, -, he⟩ := Option.map_eq_some_iff.1 h
  cases he
  exact ⟨rfl, rfl, rfl⟩

end Channel

namespace Lobby

/-- Channels may have come in, and those that were there have taken the pushes `ps`. -/
structure Delivers (l : Lobby) (ps : Nat → List Frame) (l' : Lobby) : Prop where
  size : l.channels.size ≤ l'.channels.size
  channel : ∀ c, c < l.channels.size → (l.channel c).Receives (ps c) (l'.channel c)

abbrev NobodyReceives (l l' : Lobby) : Prop := l.Delivers (fun _ => []) l'

variable {l l' l'' : Lobby} {ps ps' : Nat → List Frame}

theorem NobodyReceives.refl (l : Lobby) : l.NobodyReceives l := ⟨Nat.le_refl _, fun _ _ => .refl _⟩

theorem Delivers.trans (h : l.Delivers ps l') (h' : l'.Delivers ps' l'') :
    l.Delivers (fun c => ps c ++ ps' c) l'' :=
  ⟨Nat.le_trans h.size h'.size,
    fun c hc => (h.channel c hc).trans (h'.channel c (Nat.lt_of_lt_of_le hc h.size))⟩

theorem NobodyReceives.trans (h : l.NobodyReceives l') (h' : l'.Delivers ps l'') :
    l.Delivers ps l'' := by
  have ht := Delivers.trans h h'
  simpa only [List.nil_append] using ht

theorem NobodyReceives.of_channels (h : l'.channels = l.channels) : l.NobodyReceives l' := by
  refine ⟨Nat.le_of_eq (congrArg Array.size h.symm), ?_⟩
  intro c _
  have hc : l'.channel c = l.channel c := by rw [Lobby.channel, h, Lobby.channel]
  rw [hc]
  exact .refl _

@[simp] theorem modify_channels_size (l : Lobby) (c : Nat) (f : Channel → Channel) :
    (l.modify c f).channels.size = l.channels.size := Array.size_modify

theorem modify_nobodyReceives (l : Lobby) (c : Nat) {f : Channel → Channel}
    (hf : (l.channel c).Receives [] (f (l.channel c))) : l.NobodyReceives (l.modify c f) := by
  refine ⟨Nat.le_of_eq (modify_channels_size l c f).symm, ?_⟩
  intro c' _
  rw [channel_modify]
  split_ifs with hc
  · rw [hc.1]
    exact hf
  · exact .refl _

theorem Delivers.modify_new (h : l.Delivers ps l') {c : Nat} (hc : l.channels.size ≤ c)
    (f : Channel → Channel) : l.Delivers ps (l'.modify c f) := by
  refine ⟨?_, ?_⟩
  · rw [modify_channels_size]
    exact h.size
  · intro d hd
    have hne : ¬ (d = c ∧ c < l'.channels.size) := fun he => Nat.not_lt.2 hc (he.1 ▸ hd)
    rw [channel_modify, if_neg hne]
    exact h.channel d hd

theorem channel_addChannel (l : Lobby) (ch : Channel) (c : Nat) :
    (l.addChannel ch).2.channel c = if c = l.channels.size then ch else l.channel c := by
  simp only [Lobby.channel, addChannel, Array.getD_eq_getD_getElem?, Array.getElem?_push]
  split_ifs <;> rfl

theorem addChannel_nobodyReceives (l : Lobby) (ch : Channel) :
    l.NobodyReceives (l.addChannel ch).2 := by
  refine ⟨?_, ?_⟩
  · simp [addChannel]
  · intro c hc
    rw [channel_addChannel, if_neg (Nat.ne_of_lt hc)]
    exact .refl _

def taken (op : Int32) (f : Frame) (c : Nat) (l : Lobby) : List Nat → List Frame
  | [] => []
  | d :: ds =>
    let (ok, l) := l.offer op f d
    (if ok ∧ d = c then [f] else []) ++ taken op f c l ds

theorem deliver_delivers (l : Lobby) (d : Nat) (f : Frame) :
    l.Delivers (fun c => if (l.deliver d f).1 ∧ d = c then [f] else []) (l.deliver d f).2 := by
  simp only [deliver]
  refine ⟨Nat.le_of_eq (modify_channels_size l d _).symm, ?_⟩
  intro c hc
  rw [channel_modify]
  by_cases hd : d = c
  · subst hd
    simp only [hc, and_self, and_true, if_true]
    exact (l.channel d).deliver_receives f
  · simp only [Ne.symm hd, hd, false_and, and_false, if_false]
    exact .refl _

theorem offer_delivers (l : Lobby) (op : Int32) (f : Frame) (d : Nat) :
    l.Delivers (fun c => if (l.offer op f d).1 ∧ d = c then [f] else []) (l.offer op f d).2 := by
  rw [offer]
  split
  · exact l.deliver_delivers d f
  · simpa using NobodyReceives.refl l

theorem offerAll_delivers (l : Lobby) (op : Int32) (f : Frame) (ds : List Nat) :
    l.Delivers (fun c => l.taken op f c ds) (offerAll op f l ds).2 := by
  induction ds generalizing l with
  | nil => exact NobodyReceives.refl l
  | cons d ds ih => exact (l.offer_delivers op f d).trans (ih (l.offer op f d).2)

theorem broadcast_delivers (l : Lobby) (r : Nat) (f : Frame) :
    l.Delivers (fun c => l.taken f.op f c (l.members r)) (l.broadcast r f).2 :=
  l.offerAll_delivers f.op f (l.members r)

theorem deliver_equalButQueues (l : Lobby) (d : Nat) (f : Frame) :
    l.EqualButQueues (l.deliver d f).2 :=
  l.modify_equalButQueues d ((l.channel d).deliver_keepsIdentity f)

theorem offerAll_equalButQueues (l : Lobby) (op : Int32) (f : Frame) (ds : List Nat) :
    l.EqualButQueues (offerAll op f l ds).2 := by
  induction ds generalizing l with
  | nil => exact .refl l
  | cons d ds ih =>
    refine EqualButQueues.trans ?_ (ih (l.offer op f d).2)
    rw [offer]
    split
    · exact l.deliver_equalButQueues d f
    · exact .refl l

theorem closeRoom_nobodyReceives (l : Lobby) (r : Nat) : l.NobodyReceives (l.closeRoom r) := by
  rw [closeRoom]
  generalize l.members r = cs
  induction cs generalizing l with
  | nil => exact .refl l
  | cons c cs ih => exact (l.modify_nobodyReceives c (Channel.close_receives _)).trans (ih _)

theorem join_nobodyReceives {r c : Nat} (h : l.join r c = .ok l') : l.NobodyReceives l' := by
  simp only [join, bind, Except.bind, pure, Except.pure] at h
  split at h
  · cases h
  · rename_i linked _
    cases h
    have hr : l.NobodyReceives (l.setRoom r linked.2) := .of_channels rfl
    exact hr.trans (modify_nobodyReceives _ c (Channel.seat_receives _ _))

theorem leave_nobodyReceives (l : Lobby) (r c : Nat) : l.NobodyReceives (l.leave r c).2 := by
  have hq : l.NobodyReceives (l.modify c fun ch => { ch with seat := none }) :=
    l.modify_nobodyReceives c (Channel.seat_receives _ _)
  simp only [leave]
  split
  · exact .refl l
  · split
    · exact .refl l
    · split
      · exact hq
      · exact hq.trans (NobodyReceives.of_channels rfl)

end Lobby

end PushGateway
