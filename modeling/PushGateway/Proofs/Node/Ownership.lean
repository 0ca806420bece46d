import PushGateway.Proofs.Node.Moves

/-!
Whose channel is whose. A channel that a reader or a writer works on belongs to one connection, and
to both tasks of it alike; it bears the names of the grant it was made for as long as it exists.
Until a connection is let in it has no channel, and no writer.
-/

namespace PushGateway

def Reader.channel? : Reader → Option Nat
  | .serving s | .calling s _ _ => some s.channel
  | .leaving c _ => some c
  | _ => none

def Line.Owns (l : Line) (c : Nat) : Prop := l.reader.channel? = some c ∨ l.writer.channel? = some c

theorem Reader.channel?_of_session? {r : Reader} {s : Session} (h : r.session? = some s) :
    r.channel? = some s.channel := by
  cases r <;> cases h <;> rfl

theorem Reader.channel?_of_isHandshake {r : Reader} (h : r.isHandshake) : r.channel? = none := by
  cases r with
  | serving s => cases h
  | calling s f u => cases h
  | leaving c u => cases h
  | _ => rfl

theorem Reader.isHandshake_of_session? {r : Reader} {s : Session} (h : r.session? = some s) :
    r.isHandshake = false := by
  cases r <;> cases h <;> rfl

theorem Reader.MayFollowLastCall.channel? {r : Reader} {c d : Nat} (h : r.MayFollowLastCall c)
    (hd : r.channel? = some d) : d = c := by
  cases h with
  | returned => cases hd
  | leaving u => exact (Option.some.inj hd).symm

theorem Reader.MayFollowLastCall.session? {r : Reader} {c : Nat} (h : r.MayFollowLastCall c) :
    r.session? = none := by
  cases h <;> rfl

theorem Reader.MayFollowLastCall.isHandshake {r : Reader} {c : Nat} (h : r.MayFollowLastCall c) :
    r.isHandshake = false := by
  cases h <;> rfl

namespace Node

structure KeepsNames (n n' : Node) : Prop where
  size : n.directory.lobby.channels.size ≤ n'.directory.lobby.channels.size
  mid : ∀ c < n.directory.lobby.channels.size, (n'.channel c).mid = (n.channel c).mid
  key : ∀ c < n.directory.lobby.channels.size, (n'.channel c).key = (n.channel c).key

structure Owned (n : Node) : Prop where
  buckets : 0 < n.directory.buckets.size
  lt : ∀ i c, (n.line i).Owns c → c < n.directory.lobby.channels.size
  one : ∀ i c d, (n.line i).Owns c → (n.line i).Owns d → c = d
  alone : ∀ i j c, (n.line i).Owns c → (n.line j).Owns c → i = j
  handshake : ∀ i, (n.line i).reader.isHandshake → (n.line i).writer = .absent
  names : ∀ i s, (n.line i).reader.session? = some s →
    (n.channel s.channel).mid = s.grant.mid ∧ (n.channel s.channel).key = s.grant.key

variable {n n' : Node} {m : Move} {i c : Nat} {g : Line → Line}

theorem KeepsNames.of_delivers {ps : Nat → List Frame}
    (h : n.directory.lobby.Delivers ps n'.directory.lobby) :
    n.KeepsNames n' := ⟨h.size, fun c hc => (h.channel c hc).mid, fun c hc => (h.channel c hc).key⟩

theorem OnlyChannel.keepsNames {P : Channel → Channel → Prop} (h : n.OnlyChannel c P n') :
    n.KeepsNames n' := by
  refine ⟨h.size, ?_, ?_⟩
  · intro d hd
    by_cases hdc : d = c
    · rw [hdc, h.mid]
    · exact (h.others d hd hdc).mid
  · intro d hd
    by_cases hdc : d = c
    · rw [hdc, h.key]
    · exact (h.others d hd hdc).key

theorem line_blank_owns : ¬ Line.blank.Owns c := by
  rintro (h | h) <;> cases h

theorem Owned.mono (h : n.Owned) (hb : n'.directory.buckets.size = n.directory.buckets.size)
    (hk : n.KeepsNames n') (hown : ∀ j c, (n'.line j).Owns c → (n.line j).Owns c)
    (hhand : ∀ j, (n'.line j).reader.isHandshake → (n'.line j).writer = .absent)
    (hs : ∀ j s, (n'.line j).reader.session? = some s →
      ∃ s', (n.line j).reader.session? = some s' ∧ s'.grant = s.grant ∧ s'.channel = s.channel) :
    n'.Owned := by
  have hlt (j : Nat) (s : Session) (hj : (n.line j).reader.session? = some s) :
      s.channel < n.directory.lobby.channels.size :=
        h.lt j _ (.inl (Reader.channel?_of_session? hj))
  refine ⟨hb ▸ h.buckets, ?_, ?_, ?_, hhand, ?_⟩
  · intro j c hj
    exact Nat.lt_of_lt_of_le (h.lt j c (hown j c hj)) hk.size
  · intro j c d hc hd
    exact h.one j c d (hown j c hc) (hown j d hd)
  · intro j k c hj hkc
    exact h.alone j k c (hown j c hj) (hown k c hkc)
  · intro j s hj
    obtain ⟨s', hs', hg, hc⟩ := hs j s hj
    rw [← hc, ← hg, hk.mid _ (hlt j s' hs'), hk.key _ (hlt j s' hs')]
    exact h.names j s' hs'

theorem Owned.lineChange (h : n.Owned) (ht : n.LineChange i g n')
    (hb : n'.directory.buckets.size = n.directory.buckets.size) (hk : n.KeepsNames n')
    (hown : ∀ c, (g (n.line i)).Owns c → (n.line i).Owns c)
    (hhand : (g (n.line i)).reader.isHandshake → (g (n.line i)).writer = .absent)
    (hs : ∀ s, (g (n.line i)).reader.session? = some s →
      ∃ s', (n.line i).reader.session? = some s' ∧ s'.grant = s.grant ∧ s'.channel = s.channel) :
    n'.Owned := by
  refine h.mono hb hk ?_ ?_ ?_
  · intro j c hj
    by_cases hji : j = i
    · subst hji
      exact hown c (ht.here ▸ hj)
    · exact ht.elsewhere j hji ▸ hj
  · intro j hj
    by_cases hji : j = i
    · subst hji
      rw [ht.here] at hj ⊢
      exact hhand hj
    · rw [ht.elsewhere j hji] at hj ⊢
      exact h.handshake j hj
  · intro j s hj
    by_cases hji : j = i
    · subst hji
      exact hs s (ht.here ▸ hj)
    · exact ⟨s, ht.elsewhere j hji ▸ hj, rfl, rfl⟩

theorem Owned.lineChange_new (h : n.Owned) (ht : n.LineChange i g n')
    (hb : n'.directory.buckets.size = n.directory.buckets.size) (hk : n.KeepsNames n')
    (hc : n.directory.lobby.channels.size ≤ c) (hc' : c < n'.directory.lobby.channels.size)
    (hown : ∀ d, (g (n.line i)).Owns d → d = c) (hhand : (g (n.line i)).reader.isHandshake = false)
    (hs : ∀ s, (g (n.line i)).reader.session? = some s →
      (n'.channel s.channel).mid = s.grant.mid ∧ (n'.channel s.channel).key = s.grant.key) :
    n'.Owned := by
  have hold (j d : Nat) (hji : j ≠ i) (hj : (n'.line j).Owns d) : (n.line j).Owns d := by
    rw [ht.elsewhere j hji] at hj
    exact hj
  have hnew (d : Nat) (hd : (n'.line i).Owns d) : d = c := by
    rw [ht.here] at hd
    exact hown d hd
  have hne (j : Nat) (hji : j ≠ i) (hj : (n'.line j).Owns c) : False :=
    Nat.not_lt.2 hc (h.lt j c (hold j c hji hj))
  refine ⟨hb ▸ h.buckets, ?_, ?_, ?_, ?_, ?_⟩
  · intro j d hj
    by_cases hji : j = i
    · subst hji
      rw [hnew d hj]
      exact hc'
    · exact Nat.lt_of_lt_of_le (h.lt j d (hold j d hji hj)) hk.size
  · intro j d e hd he
    by_cases hji : j = i
    · subst hji
      rw [hnew d hd, hnew e he]
    · exact h.one j d e (hold j d hji hd) (hold j e hji he)
  · intro j k d hj hkd
    by_cases hji : j = i
    · by_cases hki : k = i
      · rw [hji, hki]
      · subst hji
        rw [hnew d hj] at hkd
        exact (hne k hki hkd).elim
    · by_cases hki : k = i
      · subst hki
        rw [hnew d hkd] at hj
        exact (hne j hji hj).elim
      · exact h.alone j k d (hold j d hji hj) (hold k d hki hkd)
  · intro j hj
    by_cases hji : j = i
    · subst hji
      rw [ht.here, hhand] at hj
      cases hj
    · rw [ht.elsewhere j hji] at hj ⊢
      exact h.handshake j hj
  · intro j s hj
    by_cases hji : j = i
    · subst hji
      rw [ht.here] at hj
      exact hs s hj
    · rw [ht.elsewhere j hji] at hj
      have hlt := h.lt j _ (.inl (Reader.channel?_of_session? hj))
      rw [hk.mid _ hlt, hk.key _ hlt]
      exact h.names j s hj

theorem Owned.onlyArrivals (h : n.Owned) (ha : n.OnlyArrivals m n') : n'.Owned := by
  refine h.mono ha.buckets (.of_delivers ha.lobby) ?_ ?_ ?_
  · intro j c hj
    rcases ha.line j with hl | ⟨-, hl⟩
    · rw [hl] at hj
      exact hj
    · rw [hl] at hj
      rcases hj with hj | hj <;> cases hj
  · intro j hj
    rcases ha.line j with hl | ⟨-, hl⟩
    · rw [hl] at hj ⊢
      exact h.handshake j hj
    · rw [hl]
      rfl
  · intro j s hj
    rcases ha.line j with hl | ⟨-, hl⟩
    · rw [hl] at hj
      exact ⟨s, hj, rfl, rfl⟩
    · rw [hl] at hj
      cases hj

theorem Owned.quiet_end (h : n.Owned) (ht : n.LineChange i g n')
    (hb : n'.directory.buckets.size = n.directory.buckets.size) (hk : n.KeepsNames n')
    (hr : (g (n.line i)).reader.channel? = none) (hhand : (g (n.line i)).reader.isHandshake = false)
    (hw : (g (n.line i)).writer = (n.line i).writer) : n'.Owned := by
  refine h.lineChange ht hb hk ?_ ?_ ?_
  · rintro c (hc | hc)
    · rw [hr] at hc
      cases hc
    · rw [hw] at hc
      exact .inr hc
  · intro hg
    rw [hhand] at hg
    cases hg
  · intro s hs
    rw [Reader.channel?_of_session? hs] at hr
    cases hr

theorem Owned.shaking (h : n.Owned) (ht : n.LineChange i g n')
    (hb : n'.directory.buckets.size = n.directory.buckets.size) (hk : n.KeepsNames n')
    (hold : (n.line i).reader.isHandshake) (hnew : (g (n.line i)).reader.isHandshake)
    (hw : (g (n.line i)).writer = (n.line i).writer) : n'.Owned := by
  have hr := Reader.channel?_of_isHandshake hnew
  refine h.lineChange ht hb hk ?_ ?_ ?_
  · rintro c (hc | hc)
    · rw [hr] at hc
      cases hc
    · rw [hw] at hc
      exact .inr hc
  · intro _
    rw [hw]
    exact h.handshake i hold
  · intro s hs
    rw [Reader.channel?_of_session? hs] at hr
    cases hr

theorem Owned.serving {s s' : Session} (h : n.Owned) (ht : n.LineChange i g n')
    (hb : n'.directory.buckets.size = n.directory.buckets.size) (hk : n.KeepsNames n')
    (hold : (n.line i).reader.session? = some s) (hnew : (g (n.line i)).reader.session? = some s')
    (hg : s'.grant = s.grant) (hc : s'.channel = s.channel)
    (hw : (g (n.line i)).writer = (n.line i).writer) : n'.Owned := by
  have hr := Reader.channel?_of_session? hnew
  refine h.lineChange ht hb hk ?_ ?_ ?_
  · rintro c (hc' | hc')
    · rw [hr, hc] at hc'
      exact .inl ((Reader.channel?_of_session? hold).trans hc')
    · rw [hw] at hc'
      exact .inr hc'
  · intro hh
    rw [Reader.channel?_of_isHandshake hh] at hr
    cases hr
  · intro t ht'
    rw [hnew] at ht'
    cases ht'
    exact ⟨s, hold, hg.symm, hc.symm⟩

theorem Owned.reading (h : n.Owned) (hr : n.Reading i n') : n'.Owned := by
  cases hr with
  | rejected rest hs ha hq =>
    exact h.quiet_end hq.toLineChange hq.buckets (.of_delivers hq.lobby) rfl rfl rfl
  | asked r rest ha _ hr he ho =>
    rcases hr with rfl | ⟨u, rfl⟩
    · exact h.quiet_end he.toLineChange he.buckets (.of_delivers he.lobby) rfl rfl rfl
    · exact h.shaking he.toLineChange he.buckets (.of_delivers he.lobby) (by rw [ha]; rfl) rfl rfl
  | granted f g rest ha _ hin hop he ho =>
    exact h.shaking he.toLineChange he.buckets (.of_delivers he.lobby) (by rw [ha]; rfl) rfl rfl
  | greeted f g hg hq =>
    exact h.shaking hq.toLineChange hq.buckets (.of_delivers hq.lobby) (by rw [hg]; rfl) rfl rfl
  | enrolled g s hg hsg ht hadm =>
    refine h.lineChange_new ht hadm.buckets (.of_delivers hadm.lobby) (Nat.le_of_eq hadm.fresh.symm)
      hadm.lt ?_ rfl ?_
    · rintro d (hd | hd) <;> exact (Option.some.inj hd).symm
    · intro t ht'
      cases ht'
      rw [hsg]
      exact ⟨hadm.channel.mid, hadm.channel.key⟩
  | overrun g c hg ht hadm =>
    exact h.quiet_end ht hadm.buckets (.of_delivers hadm.lobby) rfl rfl rfl
  | unseated g c r hg hl hle hlt ht hp hs =>
    have hw : (n.line i).writer = .absent := h.handshake i (by rw [hg]; rfl)
    refine h.lineChange_new ht hp.buckets (.of_delivers hp.lobby) hle hlt ?_ hl.isHandshake ?_
    · rintro d (hd | hd)
      · exact hl.channel? hd
      · change (n.line i).writer.channel? = some d at hd
        rw [hw] at hd
        cases hd
    · intro t ht'
      cases hl.session?.symm.trans ht'
  | replied s s' f rest ho hg hc ht htouch =>
    exact h.serving ht htouch.buckets htouch.keepsNames ho.session? rfl hg hc rfl
  | calling s f u rest hs ho hq =>
    exact h.serving hq.toLineChange hq.buckets (.of_delivers hq.lobby) ho.session? rfl rfl rfl rfl
  | tornDown s r rest hs hl ht hp hn =>
    refine h.lineChange ht hp.buckets (.of_delivers hp.lobby) ?_ ?_ ?_
    · rintro d (hd | hd)
      · rw [hl.channel? hd]
        exact .inl (Reader.channel?_of_session? hs)
      · exact .inr hd
    · intro hh
      cases hl.isHandshake.symm.trans hh
    · intro t ht'
      cases hl.session?.symm.trans ht'
  | crashed s rest hs hq =>
    exact h.quiet_end hq.toLineChange hq.buckets (.of_delivers hq.lobby) rfl rfl rfl
  | left c u hl hq =>
    exact h.quiet_end hq.toLineChange hq.buckets (.of_delivers hq.lobby) rfl rfl rfl

theorem Owned.writerLineChange (h : n.Owned) (hw : n.Writing i n') :
    ∃ c g, n.WriterLineChange i c g n' :=
  hw.writerLineChange fun c hc => h.lt i c (.inr hc)

theorem Owned.writing (h : n.Owned) (hw : n.Writing i n') : n'.Owned := by
  obtain ⟨c, g, ht⟩ := h.writerLineChange hw
  refine h.lineChange ht.toLineChange ht.onlyChannel.buckets ht.onlyChannel.keepsNames ?_ ?_ ?_
  · rintro d (hd | hd)
    · rw [ht.reader] at hd
      exact .inl hd
    · rw [ht.later d hd]
      exact .inr ht.before
  · intro hh
    rw [ht.reader] at hh
    cases (congrArg Writer.channel? (h.handshake i hh)).symm.trans ht.before
  · intro s hs
    rw [ht.reader] at hs
    exact ⟨s, hs, rfl, rfl⟩

theorem Reading.others (h : n.Reading i n') (hc : c < n.directory.lobby.channels.size)
    (hn : ¬ (n.line i).Owns c) : (n.channel c).Receives [] (n'.channel c) := by
  cases h with
  | rejected rest hs ha hq => exact hq.lobby.channel c hc
  | asked r rest ha _ hr he ho => exact he.lobby.channel c hc
  | granted f g rest ha _ hin hop he ho => exact he.lobby.channel c hc
  | greeted f g hg hq => exact hq.lobby.channel c hc
  | enrolled g s hg hsg ht hadm => exact hadm.lobby.channel c hc
  | overrun g d hg ht hadm => exact hadm.lobby.channel c hc
  | unseated g d r hg hl hle hlt ht hp hs => exact hp.lobby.channel c hc
  | replied s s' f rest ho hg hch ht htouch =>
    refine htouch.others c hc ?_
    rintro rfl
    exact hn (.inl (Reader.channel?_of_session? ho.session?))
  | calling s f u rest hs ho hq => exact hq.lobby.channel c hc
  | tornDown s r rest hs hl ht hp hn => exact hp.lobby.channel c hc
  | crashed s rest hs hq => exact hq.lobby.channel c hc
  | left d u hl hq => exact hq.lobby.channel c hc

theorem WriterLineChange.others {d : Nat} (h : n.WriterLineChange i d g n')
    (hc : c < n.directory.lobby.channels.size) (hn : ¬ (n.line i).Owns c) :
    (n.channel c).Receives [] (n'.channel c) := by
  refine h.onlyChannel.others c hc ?_
  rintro rfl
  exact hn (.inr h.before)

theorem Owned.moveCases (h : n.Owned) (m : Move) : n.MoveCases m (n.move m) :=
  move_cases h.buckets (fun i _ hs => h.lt i _ (.inl (Reader.channel?_of_session? hs)))
    (fun i _ hc => h.lt i _ (.inr hc)) m

theorem Owned.line_elsewhere (ho : n.Owned) (hm : m ≠ .task (.reader i)) :
    ((n.move m).line i).reader = (n.line i).reader ∧
      ((n.move m).line i).incoming = (n.line i).incoming ++ n.arrived i m ∨
    n.line i = .blank ∧ ((n.move m).line i).reader = .crashed := by
  have hsame (hl : (n.move m).line i = n.line i) (ha : n.arrived i m = []) :
      ((n.move m).line i).reader = (n.line i).reader ∧
        ((n.move m).line i).incoming = (n.line i).incoming ++ n.arrived i m := by
    rw [hl, ha, List.append_nil]
    exact ⟨rfl, rfl⟩
  cases ho.moveCases m with
  | onlyArrivals _ ha =>
    refine (ha.line i).imp (fun hl => ?_) fun ⟨hb, hl⟩ => ⟨hb, congrArg Line.reader hl⟩
    rw [hl]
    exact ⟨rfl, rfl⟩
  | reading j hj hr =>
    obtain ⟨g, ht⟩ := hr.lineChange
    subst hj
    exact .inl (hsame (ht.elsewhere i fun hij => hm (by rw [hij])) rfl)
  | writing j hj hw =>
    subst hj
    left
    by_cases hij : i = j
    · subst hij
      obtain ⟨w, ws, k, hl⟩ := hw.line
      rw [hl]
      exact ⟨rfl, (List.append_nil _).symm⟩
    · obtain ⟨c, g, ht⟩ := ho.writerLineChange hw
      exact hsame (ht.elsewhere i hij) rfl

theorem Owned.move (h : n.Owned) (m : Move) : (n.move m).Owned := by
  cases h.moveCases m with
  | onlyArrivals _ ha => exact h.onlyArrivals ha
  | reading i _ hr => exact h.reading hr
  | writing i _ hw => exact h.writing hw

theorem new_line (config : Config) (hostname : Option String) (entropy : Entropy) (i : Nat) :
    (new config hostname entropy).line i = .blank := line_of_le (Nat.zero_le i)

theorem new_owned (config : Config) (hostname : Option String) (entropy : Entropy) :
    (new config hostname entropy).Owned := by
  have hl := new_line config hostname entropy
  have hnone (i c : Nat) : ¬ ((new config hostname entropy).line i).Owns c := by
    rw [hl]
    exact line_blank_owns
  refine ⟨?_, fun i c h => (hnone i c h).elim, fun i c _ h => (hnone i c h).elim,
    fun i _ c h => (hnone i c h).elim, ?_, ?_⟩
  · change 0 < (Array.replicate (max config.bucketSize 1) _).size
    rw [Array.size_replicate]
    omega
  · intro i _
    rw [hl]
    rfl
  · intro i s hs
    rw [hl] at hs
    cases hs

theorem Owned.after (h : n.Owned) (ms : List Move) : (n.after ms).Owned := by
  induction ms with
  | nil => exact h
  | cons m ms ih => exact ih.move m

end Node

end PushGateway
