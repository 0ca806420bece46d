import PushGateway.Proofs.Directory.Load
import PushGateway.Proofs.Node.DisconnectCalls

/-!
Who is online. The control plane and the directory learn of a session at different moments, and each
decides in its own way whether a late end still matters: the directory by the channel, the control
plane by the member alone. They agree on a key as long as connections that hold grants under it at
the same time are of different members, and only one of them is in the handshake.
-/

namespace PushGateway

def Reader.greeting? : Reader → Option ControlPlane.Grant
  | .greeting _ g | .greeted g => some g
  | _ => none

def Reader.grant? : Reader → Option ControlPlane.Grant
  | .greeting _ g | .greeted g => some g
  | .serving s | .calling s _ _ => some s.grant
  | _ => none

/-- Two connections hold no grants under one key, or grants of different members of which at most
one is not let in yet. -/
def Reader.isApart (r r' : Reader) : Bool :=
  match r.grant?, r'.grant? with
  | some g, some g' => g.key ≠ g'.key ∨ g.mid ≠ g'.mid ∧ (r.greeting?.isNone ∨ r'.greeting?.isNone)
  | _, _ => true

namespace Reader

variable {r : Reader} {g : ControlPlane.Grant}

theorem grant?_of_greeting? (h : r.greeting? = some g) : r.grant? = some g := by
  cases r <;> cases h <;> rfl

theorem grant?_of_session? {s : Session} (h : r.session? = some s) : r.grant? = some s.grant := by
  cases r <;> cases h <;> rfl

theorem greeting?_of_session? {s : Session} (h : r.session? = some s) : r.greeting? = none := by
  cases r <;> cases h <;> rfl

theorem MayFollowLastCall.greeting? {c : Nat} (h : r.MayFollowLastCall c) : r.greeting? = none := by
  cases h <;> rfl

end Reader

namespace Node

theorem Told.greeting {r : Reader} {p : Prop} {server : String} {said : List Call}
    {gs : List ControlPlane.Grant} (h : Told r p server said gs) (hr : r.greeting? ≠ none) :
    ¬ p := by
  cases r with
  | greeting f g => exact h.2.2
  | greeted g => exact h.2.2
  | _ => exact absurd rfl hr

/-- No disconnect call fails, and no handshake after its connect call. -/
def NoFailedCall (n : Node) (m : Move) : Prop :=
  n.faults.get? .disconnect = none ∧
  ∀ i < n.connections.size, (n.line i).reader.greeting?.isSome →
    ((n.move m).line i).reader.isReturned → 0 < ((n.move m).line i).flushed

def DistinctGrants (n : Node) : Prop :=
  ∀ i < n.connections.size, ∀ j < n.connections.size, i ≠ j →
    (n.line i).reader.isApart (n.line j).reader

instance (n : Node) (m : Move) : Decidable (n.NoFailedCall m) := inferInstanceAs (Decidable (_ ∧ _))

instance (n : Node) : Decidable n.DistinctGrants :=
  inferInstanceAs (Decidable (∀ i < n.connections.size, ∀ j < n.connections.size, i ≠ j →
    (n.line i).reader.isApart (n.line j).reader))

theorem eq_of_cleared {α : Type} [DecidableEq α] {f f' : String → Option α} {k key : String} {x : α}
    (h : f' = if f k = some x then Function.update f k none else f)
    (hne : k = key → f key ≠ some x) : f' key = f key := by
  rw [h]
  split_ifs with hx
  · refine Function.update_of_ne ?_ _ _
    rintro rfl
    exact hne rfl hx
  · rfl

/-- How the control plane and the directory stand to each other on a key: someone is about to come
in, nobody is there, or channel `c` is there and no other session will take its member offline. -/
inductive PresenceAgrees (n : Node) (key : String) : Prop
  | coming (i : Nat) (g : ControlPlane.Grant) : (n.line i).reader.greeting? = some g → g.key = key →
      n.online? key = some g.mid → PresenceAgrees n key
  | away : (∀ i g, (n.line i).reader.greeting? = some g → g.key ≠ key) → n.online? key = none →
      n.session? key = none → PresenceAgrees n key
  | registered (c : Nat) : (∀ i g, (n.line i).reader.greeting? = some g → g.key ≠ key) →
      n.session? key = some c → c < n.directory.lobby.channels.size →
      n.online? key = some (n.channel c).mid →
      (∀ i s, (n.line i).reader.session? = some s → s.grant.key = key → s.channel ≠ c →
        s.grant.mid ≠ (n.channel c).mid) → PresenceAgrees n key

variable {n n' : Node} {m : Move} {i j : Nat} {g : Line → Line} {key : String}

theorem lt_of_grant? {gr : ControlPlane.Grant} (h : (n.line i).reader.grant? = some gr) :
    i < n.connections.size := by
  by_contra hi
  rw [line_of_le (Nat.not_lt.1 hi)] at h
  cases h

theorem DistinctGrants.apart {gi gj : ControlPlane.Grant} (h : n.DistinctGrants) (hij : i ≠ j)
    (hi : (n.line i).reader.grant? = some gi) (hj : (n.line j).reader.grant? = some gj)
    (hk : gi.key = gj.key) :
    gi.mid ≠ gj.mid ∧ ((n.line i).reader.greeting? = none ∨
      (n.line j).reader.greeting? = none) := by
  have ha := h i (lt_of_grant? hi) j (lt_of_grant? hj) hij
  simpa [Reader.isApart, hi, hj, hk] using ha

theorem DistinctGrants.mid_ne {gi gj : ControlPlane.Grant} (h : n.DistinctGrants) (hij : i ≠ j)
    (hi : (n.line i).reader.grant? = some gi) (hj : (n.line j).reader.grant? = some gj)
    (hk : gi.key = gj.key) : gi.mid ≠ gj.mid := (h.apart hij hi hj hk).1

theorem DistinctGrants.alone {gi gj : ControlPlane.Grant} (h : n.DistinctGrants)
    (hi : (n.line i).reader.greeting? = some gi) (hj : (n.line j).reader.greeting? = some gj)
    (hk : gi.key = gj.key) : i = j := by
  by_contra hij
  have ha := h.apart hij (Reader.grant?_of_greeting? hi) (Reader.grant?_of_greeting? hj) hk
  simp [hi, hj] at ha

/-- Once the one in the handshake has left it, nobody under its key is in the handshake. -/
theorem DistinctGrants.none_greeting {grant : ControlPlane.Grant} (h : n.DistinctGrants)
    (hi : (n.line i).reader.greeting? = some grant) (ht : n.LineChange i g n')
    (hg : (g (n.line i)).reader.greeting? = none) (j : Nat) (gr : ControlPlane.Grant)
    (hj : (n'.line j).reader.greeting? = some gr) : gr.key ≠ grant.key := by
  intro he
  by_cases hji : j = i
  · rw [hji, ht.here, hg] at hj
    cases hj
  · rw [ht.elsewhere j hji] at hj
    exact hji (h.alone hj hi he)

theorem PresenceAgrees.frame (h : n.PresenceAgrees key) (hk : n.KeepsNames n')
    (ho : n'.online? key = n.online? key) (hs : n'.session? key = n.session? key)
    (hg : ∀ i g, g.key = key →
      ((n'.line i).reader.greeting? = some g ↔ (n.line i).reader.greeting? = some g))
    (hh : ∀ i s, (n'.line i).reader.session? = some s → s.grant.key = key →
      ∃ s', (n.line i).reader.session? = some s' ∧ s'.grant = s.grant ∧ s'.channel = s.channel) :
    n'.PresenceAgrees key := by
  have hnone (hn : ∀ i g, (n.line i).reader.greeting? = some g → g.key ≠ key) (i : Nat)
      (g : ControlPlane.Grant) (hi : (n'.line i).reader.greeting? = some g) : g.key ≠ key :=
    fun he => hn i g ((hg i g he).1 hi) he
  cases h with
  | coming i g hi he hon => exact .coming i g ((hg i g he).2 hi) he (ho.trans hon)
  | away hn hon hse => exact .away (hnone hn) (ho.trans hon) (hs.trans hse)
  | registered c hn hse hc hon hothers =>
    refine .registered c (hnone hn) (hs.trans hse) (Nat.lt_of_lt_of_le hc hk.size) ?_ ?_
    · rw [ho, hon, hk.mid c hc]
    · intro i s hi he hne
      obtain ⟨s', hs', hgrant, hch⟩ := hh i s hi he
      rw [hk.mid c hc, ← hgrant]
      exact hothers i s' hs' (hgrant ▸ he) (hch ▸ hne)

theorem PresenceAgrees.lineChange (h : n.PresenceAgrees key) (ht : n.LineChange i g n')
    (hk : n.KeepsNames n')
    (ho : n'.online? key = n.online? key) (hs : n'.session? key = n.session? key)
    (hg : ∀ gr, gr.key = key →
      ((g (n.line i)).reader.greeting? = some gr ↔ (n.line i).reader.greeting? = some gr))
    (hh : ∀ s, (g (n.line i)).reader.session? = some s → s.grant.key = key →
      ∃ s', (n.line i).reader.session? = some s' ∧ s'.grant = s.grant ∧ s'.channel = s.channel) :
    n'.PresenceAgrees key := by
  refine h.frame hk ho hs ?_ ?_
  · intro j gr he
    by_cases hj : j = i
    · rw [hj, ht.here]
      exact hg gr he
    · rw [ht.elsewhere j hj]
  · intro j s hjs he
    by_cases hj : j = i
    · rw [hj, ht.here] at hjs
      rw [hj]
      exact hh s hjs he
    · rw [ht.elsewhere j hj] at hjs
      exact ⟨s, hjs, rfl, rfl⟩

theorem PresenceAgrees.letIn {grant : ControlPlane.Grant} {c : Nat} (h : n.PresenceAgrees key)
    (hd : n.DistinctGrants) (hi : (n.line i).reader.greeting? = some grant)
    (ht : n.LineChange i g n') (hadm : n.LetIn grant c n')
    (hg : (g (n.line i)).reader.greeting? = none)
    (hs : ∀ s, (g (n.line i)).reader.session? = some s → s.grant = grant ∧ s.channel = c) :
    n'.PresenceAgrees key := by
  by_cases hkey : grant.key = key
  · have hnone := hkey ▸ hd.none_greeting hi ht hg
    have hothers (j : Nat) (s : Session) (hj : (n'.line j).reader.session? = some s)
        (he : s.grant.key = key) (hne : s.channel ≠ c) : s.grant.mid ≠ (n'.channel c).mid := by
      rw [hadm.channel.mid]
      by_cases hji : j = i
      · rw [hji, ht.here] at hj
        exact absurd (hs s hj).2 hne
      · rw [ht.elsewhere j hji] at hj
        exact hd.mid_ne hji (Reader.grant?_of_session? hj) (Reader.grant?_of_greeting? hi)
          (he.trans hkey.symm)
    have hsession : n'.session? key = some c := by rw [hadm.session, ← hkey, Function.update_self]
    cases h with
    | coming j gr hj he hon =>
      have hji := hd.alone hj hi (he.trans hkey.symm)
      subst hji
      rw [hi] at hj
      cases hj
      refine .registered c hnone hsession hadm.lt ?_ hothers
      rw [hadm.online, hon, hadm.channel.mid]
    | away hn hon hse => exact absurd hkey (hn i grant hi)
    | registered d hn hse hdlt hon ho => exact absurd hkey (hn i grant hi)
  · refine h.lineChange ht (.of_delivers hadm.lobby) (congrFun hadm.online key) ?_ ?_ ?_
    · rw [hadm.session, Function.update_of_ne (Ne.symm hkey)]
    · intro gr he
      rw [hg, hi]
      constructor
      · nofun
      · rintro ⟨⟩
        exact absurd he hkey
    · intro s hss he
      rw [(hs s hss).1] at he
      exact absurd he hkey

theorem PresenceAgrees.unseated {grant : ControlPlane.Grant} {c : Nat} (h : n.PresenceAgrees key)
    (hd : n.DistinctGrants) (hf : n.faults.get? .disconnect = none)
    (hi : (n.line i).reader = .greeted grant) (ht : n.LineChange i g n')
    (hl : (g (n.line i)).reader.MayFollowLastCall c)
    (hp : n.ToldDisconnect i grant.mid grant.key n')
    (hs : n'.session? = Function.update n.session? grant.key none) : n'.PresenceAgrees key := by
  have hgr : (n.line i).reader.greeting? = some grant := by rw [hi]; rfl
  have hon := hp.online hf
  by_cases hkey : grant.key = key
  · have hnone := hkey ▸ hd.none_greeting hgr ht hl.greeting?
    have hsession : n'.session? key = none := by rw [hs, ← hkey, Function.update_self]
    cases h with
    | coming j gr hj he hmid =>
      have hji := hd.alone hj hgr (he.trans hkey.symm)
      subst hji
      rw [hgr] at hj
      cases hj
      refine .away hnone ?_ hsession
      rw [hon, hkey, if_pos hmid, Function.update_self]
    | away hn _ _ => exact absurd hkey (hn i grant hgr)
    | registered d hn _ _ _ _ => exact absurd hkey (hn i grant hgr)
  · refine h.lineChange ht (.of_delivers hp.lobby) (eq_of_cleared hon fun hk => absurd hk hkey)
      ?_ ?_ ?_
    · rw [hs, Function.update_of_ne (Ne.symm hkey)]
    · intro gr he
      rw [hgr, hl.greeting?]
      constructor
      · nofun
      · rintro ⟨⟩
        exact absurd he hkey
    · intro s hss _
      cases hl.session?.symm.trans hss

/-- A session ends. If its key has been taken over, the newcomer is of another member or still in
the handshake, and what the late end takes away is not its own. -/
theorem PresenceAgrees.tornDown {s : Session} {r : Reader} {rest : List (Except GatewayError Frame)}
    (h : n.PresenceAgrees key) (ho : n.Owned) (hd : n.DistinctGrants)
    (hf : n.faults.get? .disconnect = none)
    (hi : (n.line i).reader.session? = some s) (hl : r.MayFollowLastCall s.channel)
    (ht : n.LineChange i (fun l => { l with reader := r, incoming := rest }) n')
    (hp : n.ToldDisconnect i s.grant.mid s.grant.key n')
    (hs : n'.session? = if n.session? s.grant.key = some s.channel then
      Function.update n.session? s.grant.key none else n.session?) : n'.PresenceAgrees key := by
  have hon := hp.online hf
  have hgr := Reader.greeting?_of_session? hi
  have hkeeps (ho' : n'.online? key = n.online? key) (hs' : n'.session? key = n.session? key) :
      n'.PresenceAgrees key := by
    refine h.lineChange ht (.of_delivers hp.lobby) ho' hs' ?_ ?_
    · intro gr _
      rw [hgr, hl.greeting?]
    · intro t hts _
      cases hl.session?.symm.trans hts
  cases h with
  | coming j gr hj he hmid =>
    have hji : j ≠ i := by
      rintro rfl
      rw [hgr] at hj
      cases hj
    refine .coming j gr (ht.elsewhere j hji ▸ hj) he ((eq_of_cleared hon fun hk => ?_).trans hmid)
    rw [hmid]
    intro heq
    exact hd.mid_ne hji (Reader.grant?_of_greeting? hj) (Reader.grant?_of_session? hi)
      (he.trans hk.symm) (Option.some.inj heq)
  | away hn hoff hse =>
    refine hkeeps (eq_of_cleared hon fun _ => ?_) (eq_of_cleared hs fun _ => ?_)
    · rw [hoff]
      nofun
    · rw [hse]
      nofun
  | registered c hn hse hc hmid hothers =>
    by_cases hown : s.grant.key = key ∧ s.channel = c
    · obtain ⟨rfl, rfl⟩ := hown
      refine .away ?_ ?_ ?_
      · intro j g hj
        by_cases hji : j = i
        · rw [hji, ht.here, hl.greeting?] at hj
          cases hj
        · exact hn j g (ht.elsewhere j hji ▸ hj)
      · rw [hon, if_pos (hmid.trans (congrArg some (ho.names i s hi).1)), Function.update_self]
      · rw [hs, if_pos hse, Function.update_self]
    · refine hkeeps (eq_of_cleared hon fun hk => ?_) (eq_of_cleared hs fun hk => ?_)
      · rw [hmid]
        intro heq
        exact hothers i s hi hk (fun hc => hown ⟨hk, hc⟩) (Option.some.inj heq).symm
      · rw [hse]
        intro heq
        exact hown ⟨hk, (Option.some.inj heq).symm⟩

theorem PresenceAgrees.quiet (h : n.PresenceAgrees key) (hq : n.QuietLineChange i g n')
    (hg : (g (n.line i)).reader.greeting? = (n.line i).reader.greeting?)
    (hh : ∀ s, (g (n.line i)).reader.session? = some s → (n.line i).reader.session? = some s) :
    n'.PresenceAgrees key := by
  refine h.lineChange hq.toLineChange (.of_delivers hq.lobby) (congrFun hq.online key)
    (congrFun hq.session key) ?_ ?_
  · intro gr _
    rw [hg]
  · intro s hs _
    exact ⟨s, hh s hs, rfl, rfl⟩

theorem PresenceAgrees.askedConnect (h : n.PresenceAgrees key) (he : n.AskedConnect i g n')
    (ho : n'.online? key = n.online? key) (hs : (g (n.line i)).reader.session? = none)
    (hg : ∀ gr, gr.key = key →
      ((g (n.line i)).reader.greeting? = some gr ↔ (n.line i).reader.greeting? = some gr)) :
    n'.PresenceAgrees key := by
  refine h.lineChange he.toLineChange (.of_delivers he.lobby) ho (congrFun he.session key) hg ?_
  intro s hss _
  cases hs.symm.trans hss

theorem PresenceAgrees.reading {gs : List ControlPlane.Grant} (h : n.PresenceAgrees key)
    (ho : n.Owned) (hd : n.DistinctGrants)
    (ha : n.DisconnectsMatch i gs) (hf : n.faults.get? .disconnect = none)
    (hcalm : (n.line i).reader.greeting?.isSome → (n'.line i).reader.isReturned →
      0 < (n'.line i).flushed)
    (hr : n.Reading i n') : n'.PresenceAgrees key := by
  cases hr with
  | rejected rest hs _ hq =>
    have hnone : (n.line i).reader.greeting? = none := by
      -- The reply is not out yet, so being rejected would be a handshake that fails.
      by_contra hsome
      have hpos := hcalm (Option.isSome_iff_ne_none.2 hsome) (by rw [hq.here]; rfl)
      rw [hq.here] at hpos
      exact ha.told.greeting hsome hpos
    exact h.quiet hq hnone.symm nofun
  | asked r rest haw _ hr he hon =>
    refine h.askedConnect he (congrFun hon key) ?_ ?_
    · rcases hr with rfl | ⟨u, rfl⟩ <;> rfl
    · rw [haw]
      rcases hr with rfl | ⟨u, rfl⟩ <;> exact fun _ _ => Iff.rfl
  | granted f grant rest haw _ _ _ he hon =>
    by_cases hkey : grant.key = key
    · refine .coming i grant (by rw [he.here]; rfl) hkey ?_
      rw [hon, ← hkey, Function.update_self]
    · refine h.askedConnect he ?_ rfl ?_
      · rw [hon, Function.update_of_ne (Ne.symm hkey)]
      · intro gr hgr
        rw [haw]
        constructor
        · rintro ⟨⟩
          exact absurd hgr hkey
        · nofun
  | greeted f grant hg hq =>
    refine h.quiet hq ?_ nofun
    rw [hg]
    rfl
  | enrolled grant s hg hsg ht hadm =>
    refine h.letIn hd (by rw [hg]; rfl) ht hadm rfl ?_
    rintro t ⟨⟩
    exact ⟨hsg, rfl⟩
  | overrun grant c hg ht hadm => exact h.letIn hd (by rw [hg]; rfl) ht hadm rfl nofun
  | unseated grant c r hg hl _ _ ht hp hs => exact h.unseated hd hf hg ht hl hp hs
  | replied s s' f rest hw hg hc ht htouch =>
    have hs := hw.session?
    refine h.lineChange ht htouch.keepsNames (congrFun htouch.online key)
      (congrFun htouch.session key) ?_ ?_
    · intro gr _
      rw [Reader.greeting?_of_session? hs]
      exact Iff.rfl
    · rintro t ⟨⟩ _
      exact ⟨s, hs, hg.symm, hc.symm⟩
  | calling s f u rest hs _ hq =>
    refine h.quiet hq ?_ ?_ <;> rw [hs]
    · rfl
    · exact fun _ ht => ht
  | tornDown s r rest hs hl ht hp hn =>
    rw [(ho.names i s hs).1, (ho.names i s hs).2] at hp
    rw [(ho.names i s hs).2] at hn
    exact h.tornDown ho hd hf hs hl ht hp hn
  | crashed s rest hs hq => exact h.quiet hq (Reader.greeting?_of_session? hs).symm nofun
  | left c u hl hq =>
    refine h.quiet hq ?_ nofun
    rw [hl]
    rfl

theorem PresenceAgrees.writing (h : n.PresenceAgrees key) (ho : n.Owned) (hw : n.Writing i n') :
    n'.PresenceAgrees key := by
  obtain ⟨c, g, ht⟩ := ho.writerLineChange hw
  refine h.lineChange ht.toLineChange ht.onlyChannel.keepsNames (congrFun ht.onlyChannel.online key)
    (congrFun ht.onlyChannel.session key) ?_ ?_ <;> rw [ht.reader]
  · exact fun _ _ => Iff.rfl
  · exact fun s hs _ => ⟨s, hs, rfl, rfl⟩

theorem PresenceAgrees.onlyArrivals (h : n.PresenceAgrees key) (ha : n.OnlyArrivals m n') :
    n'.PresenceAgrees key := by
  refine h.frame (.of_delivers ha.lobby) (congrFun ha.online key) (congrFun ha.session key) ?_ ?_
  · intro j gr _
    rcases ha.line j with hl | ⟨hb, hl⟩
    · rw [hl]
    · rw [hl, hb]
      exact Iff.rfl
  · intro j s hs _
    rcases ha.line j with hl | ⟨-, hl⟩
    · rw [hl] at hs
      exact ⟨s, hs, rfl, rfl⟩
    · rw [hl] at hs
      cases hs

theorem PresenceAgrees.move (h : n.PresenceAgrees key) (ho : n.Owned)
    (ha : ∀ i, ∃ gs, n.DisconnectsMatch i gs) (hm : n.NoFailedCall m) (hd : n.DistinctGrants) :
    (n.move m).PresenceAgrees key := by
  cases ho.moveCases m with
  | onlyArrivals _ hamb => exact h.onlyArrivals hamb
  | reading i _ hr =>
    obtain ⟨gs, hgs⟩ := ha i
    refine h.reading ho hd hgs hm.1 ?_ hr
    intro hg
    obtain ⟨gr, hgr⟩ := Option.isSome_iff_exists.1 hg
    exact hm.2 i (lt_of_grant? (Reader.grant?_of_greeting? hgr)) hg
  | writing i _ hw => exact h.writing ho hw

theorem new_presenceAgrees (config : Config) (hostname : Option String) (entropy : Entropy)
    (key : String) : (new config hostname entropy).PresenceAgrees key := by
  refine .away ?_ rfl (Directory.new_find? ..)
  intro i g hi
  rw [new_line] at hi
  cases hi

theorem presenceAgrees_after (config : Config) (hostname : Option String) (entropy : Entropy)
    (ms : List Move)
    (h : Along (fun n m => n.NoFailedCall m ∧ n.DistinctGrants) (new config hostname entropy) ms)
    (key : String) : ((new config hostname entropy).after ms).PresenceAgrees key := by
  induction ms with
  | nil => exact new_presenceAgrees config hostname entropy key
  | cons m ms ih =>
    obtain ⟨hms, hcalm, hd⟩ := h
    -- What each connection has told tells a handshake that fails from one that has got through.
    refine (ih hms).move ((new_owned config hostname entropy).after ms) ?_ hcalm hd
    intro i
    exact ⟨_, (new_disconnectsMatch config hostname entropy i).after
      (new_owned config hostname entropy) ms⟩

theorem PresenceAgrees.isOnline_iff (h : n.PresenceAgrees key)
    (hn : ∀ i g, (n.line i).reader.greeting? = some g → g.key ≠ key) :
    n.plane.isOnline key ↔ (n.directory.find? key).isSome := by
  change (n.online? key).isSome ↔ (n.session? key).isSome
  cases h with
  | coming i g hi he hon => exact absurd he (hn i g hi)
  | away _ hon hse =>
    rw [hon, hse]
    exact Iff.rfl
  | registered c _ hse _ hon _ =>
    rw [hon, hse]
    exact Iff.rfl

theorem Settled.greeting_stalled (h : n.Settled) {g : ControlPlane.Grant}
    (hg : (n.line i).reader.greeting? = some g) : (n.connection i).wire.stalled := by
  have hs : n.readerStep i = none := h (.reader i)
  have hg' : (n.connection i).reader.greeting? = some g := hg
  rw [readerStep] at hs
  generalize (n.connection i).reader = r at hs hg'
  cases r with
  | greeting f g =>
    dsimp only at hs
    split_ifs at hs
    assumption
  | greeted g =>
    dsimp only at hs
    split_ifs at hs
    assumption
  | _ => cases hg'

def NoneStalled (n : Node) : Prop := ∀ i, (n.connection i).wire.stalled = false

theorem noneStalled_of_all (h : n.connections.all fun c => !c.wire.stalled) : n.NoneStalled := by
  intro i
  rw [Node.connection, Array.getD_eq_getD_getElem?]
  cases hc : n.connections[i]? with
  | none => rfl
  | some c => simpa using Array.all_eq_true'.1 h c (Array.mem_of_getElem? hc)

theorem step_mem_tasks {t : Task} (h : n.step t = some n') : t ∈ n.tasks := by
  simp only [tasks, List.mem_append, List.mem_map, List.mem_flatMap, List.mem_range]
  cases t with
  | timer t =>
    obtain ⟨⟨callback, s⟩, hs, -⟩ := Option.map_eq_some_iff.1 h
    obtain ⟨s₀, hs₀, -⟩ := Option.bind_eq_some_iff.1 hs
    obtain ⟨ht, -⟩ := Array.getElem?_eq_some_iff.1 hs₀
    exact .inl (.inl (.inl (.inl ⟨t, ht, rfl⟩)))
  | ticker k =>
    have hk : k < n.tickers.size := by
      by_contra hk
      rw [step, tickerStep, Array.getElem?_eq_none (Nat.not_lt.1 hk)] at h
      cases h
    exact .inl (.inl (.inl (.inr ⟨k, hk, rfl⟩)))
  | reader i => exact .inl (.inl (.inr ⟨i, readerStep_lt h, rfl⟩))
  | worker b w =>
    obtain ⟨d, hd, -⟩ := Option.map_eq_some_iff.1 h
    obtain ⟨hb, hw⟩ := Directory.workerStep_lt hd
    exact .inl (.inr ⟨b, hb, w, hw, rfl⟩)
  | writer i => exact .inr ⟨i, writerStep_lt h, rfl⟩

theorem settled_of_tasks (h : ∀ t ∈ n.tasks, (n.step t).isNone) : n.Settled := by
  intro t
  cases hs : n.step t with
  | none => rfl
  | some n' => cases hs ▸ h t (step_mem_tasks hs)

/-- At every point of a history in which no disconnect call and no handshake fails, and connections
with grants under one key are of different members and come in one after the other: the control
plane has a key online exactly when the directory has a channel under it, but for keys that someone
in the handshake is about to take; at rest, with no transport stalled, there are none such. -/
theorem after_isOnline_iff (config : Config) (hostname : Option String) (entropy : Entropy)
    (ms : List Move)
    (h : Along (fun n m => n.NoFailedCall m ∧ n.DistinctGrants) (new config hostname entropy) ms) :
    let n := (new config hostname entropy).after ms
    (∀ key, (∀ i g, (n.line i).reader.greeting? = some g → g.key ≠ key) →
      (n.plane.isOnline key ↔ (n.directory.find? key).isSome)) ∧
    (n.Settled → n.NoneStalled → ∀ key, n.plane.isOnline key ↔ (n.directory.find? key).isSome) := by
  intro n
  have hagree := presenceAgrees_after config hostname entropy ms h
  refine ⟨fun key hn => (hagree key).isOnline_iff hn,
    fun hs hstall key => (hagree key).isOnline_iff ?_⟩
  intro i g hg
  have hst := hs.greeting_stalled hg
  rw [hstall i] at hst
  cases hst

/-- A client is let in under the key k, and another, of the member given, takes the key over while
the first is still there; then the first goes, and all comes to rest. -/
def takeover (member : UInt8) : List Move :=
  List.replicate 8 (.task (.timer 0)) ++ List.replicate 8 (.task (.timer 1)) ++
  [.task (.reader 0), .task (.writer 0), .task (.reader 1), .task (.reader 1), .task (.reader 1),
    .event (.arrive 1 [.ok (authFrame member)]), .event (.open "ip" ""), .task (.reader 0),
    .task (.reader 0), .task (.reader 0), .event (.arrive 0 [.ok (authFrame 1)]),
    .event (.open "ip" "")]

theorem after_isOnline_iff_takeover :
    let start := new Config.testing none ⟨0⟩
    let n := start.after (takeover 2)
    Along (fun n m => n.NoFailedCall m ∧ n.DistinctGrants) start (takeover 2) ∧ n.Settled ∧
    n.NoneStalled ∧
      n.plane.isOnline "k" ∧ (n.directory.find? "k").isSome := by
  have halong : Along (fun n m => n.NoFailedCall m ∧ n.DistinctGrants) (new Config.testing none ⟨0⟩)
      (takeover 2) := by
    decide +kernel
  intro start n
  have hs : n.Settled := settled_of_tasks (by decide +kernel)
  have hf : n.NoneStalled := noneStalled_of_all (by decide +kernel)
  have hon : n.plane.isOnline "k" := by decide +kernel
  exact ⟨halong, hs, hf, hon,
    ((after_isOnline_iff Config.testing none ⟨0⟩ (takeover 2) halong).2 hs hf "k").1 hon⟩

/-- If the newcomer is of the same member, the late end of the first client takes its key
offline. -/
theorem takeover_offline :
    let start := new Config.testing none ⟨0⟩
    let n := start.after (takeover 1)
    Along NoFailedCall start (takeover 1) ∧ n.faults.isEmpty ∧ n.Settled ∧ n.NoneStalled ∧
      (n.directory.find? "k").isSome ∧ n.plane.isOnline "k" = false := by
  have hcalm : Along NoFailedCall (new Config.testing none ⟨0⟩) (takeover 1) := by decide +kernel
  intro start n
  exact ⟨hcalm, by decide +kernel, settled_of_tasks (by decide +kernel),
    noneStalled_of_all (by decide +kernel), by decide +kernel, by decide +kernel⟩

end Node

end PushGateway
