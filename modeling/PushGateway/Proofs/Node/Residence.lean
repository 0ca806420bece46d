import PushGateway.Proofs.Node.MoveEffects

/-!
Who is in the directory because of whom. A connection is let in once at most, with a channel of its
own; from then on until it leaves, and no longer, that channel is registered in the directory. No
other channel is.
-/

namespace PushGateway

theorem Reader.hasLeft_of_session? {r : Reader} {s : Session} (h : r.session? = some s) :
    r.hasLeft = false := by
  cases r <;> cases h <;> rfl

theorem Reader.isHandshake_of_hasLeft {r : Reader} (h : r.hasLeft) : r.isHandshake = false := by
  cases r with
  | leaving c u => rfl
  | returned => rfl
  | _ => cases h

theorem Reader.MayFollowLastCall.hasLeft {r : Reader} {c : Nat} (h : r.MayFollowLastCall c) :
    r.hasLeft := by
  cases h <;> rfl

namespace Node

/-- The channels that connection `i` gets in a history, with the grants they are for. -/
def enrolments (n : Node) (i : Nat) : List Move → List (Nat × ControlPlane.Grant)
  | [] => []
  | m :: h => n.enrolments i h ++
      ((n.after h).enrolled i m).toList.map ((n.after h).directory.lobby.channels.size, ·)

/-- The channels in the directory are those in `es` of connections that have not left. -/
structure ListsChannels (n : Node) (es : Nat → List (Nat × ControlPlane.Grant)) : Prop where
  wellFormed : n.directory.WellFormed
  registers : ∃ ts, n.directory.Registers ts ∧
    ∀ c, c ∈ ts ↔ ∃ i g, (c, g) ∈ es i ∧ (n.line i).reader.hasLeft = false
  waiting : ∀ i, (n.line i).reader.isHandshake → es i = []
  one : ∀ i, (es i).length ≤ 1
  owned : ∀ i c, (n.line i).Owns c → ∃ g, (c, g) ∈ es i
  lt : ∀ i c g, (c, g) ∈ es i → c < n.directory.lobby.channels.size
  names : ∀ i c g, (c, g) ∈ es i → (n.channel c).key = g.key ∧
    (n.channel c).ip = (n.connection i).ip
  alone : ∀ i j c g g', (c, g) ∈ es i → (c, g') ∈ es j → i = j

variable {n n' : Node} {es : Nat → List (Nat × ControlPlane.Grant)} {i j c d : Nat} {m : Move}

theorem MoveCases.owns_old (ho : n.Owned) (h : n.MoveCases m n')
    (hc : c < n.directory.lobby.channels.size) (hn : (n'.line j).Owns c) : (n.line j).Owns c := by
  have hturn {i : Nat} {g : Line → Line} (ht : n.LineChange i g n')
      (hg : (g (n.line i)).Owns c → (n.line i).Owns c) : (n.line j).Owns c := by
    by_cases hj : j = i
    · subst hj
      exact hg (ht.here ▸ hn)
    · rw [← ht.elsewhere j hj]
      exact hn
  cases h with
  | onlyArrivals _ ha =>
    rcases ha.line j with hl | ⟨-, hl⟩
    · rw [hl] at hn
      exact hn
    · rw [hl] at hn
      rcases hn with hn | hn <;> cases hn
  | writing i _ hw =>
    obtain ⟨d, g, ht⟩ := ho.writerLineChange hw
    refine hturn ht.toLineChange ?_
    rintro (h | h)
    · rw [ht.reader] at h
      exact .inl h
    · rw [ht.later c h]
      exact .inr ht.before
  | reading i _ hr =>
    cases hr with
    | rejected rest hs ha hq => exact hturn hq.toLineChange (Or.imp_left nofun)
    | asked r rest ha hx hr he hon =>
      refine hturn he.toLineChange (Or.imp_left fun h => ?_)
      rcases hr with rfl | ⟨u, rfl⟩ <;> cases h
    | granted f g rest ha hx hin hop he hon => exact hturn he.toLineChange (Or.imp_left nofun)
    | greeted f g hg hq => exact hturn hq.toLineChange (Or.imp_left nofun)
    | enrolled g s hg hsg ht hadm =>
      refine hturn ht fun h => ?_
      have hcs : c = s.channel := by rcases h with h | h <;> exact (Option.some.inj h).symm
      rw [hcs, hadm.fresh] at hc
      exact absurd hc (Nat.lt_irrefl _)
    | overrun g d hg ht hadm => exact hturn ht (Or.imp_left nofun)
    | unseated g d r hg hl hle hlt ht hp hs =>
      refine hturn ht (Or.imp_left fun h => ?_)
      rw [hl.channel? h] at hc
      exact absurd hc (Nat.not_lt.2 hle)
    | replied s s' f rest hw hg hch ht htouch =>
      refine hturn ht (Or.imp_left fun h => ?_)
      rw [Reader.channel?_of_session? hw.session?, ← hch]
      exact h
    | calling s f u rest hs hw hq =>
      refine hturn hq.toLineChange (Or.imp_left fun h => ?_)
      rw [Reader.channel?_of_session? hw.session?]
      exact h
    | tornDown s r rest hs hl ht hp hn =>
      refine hturn ht (Or.imp_left fun h => ?_)
      rw [Reader.channel?_of_session? hs, hl.channel? h]
    | crashed s rest hs hq => exact hturn hq.toLineChange (Or.imp_left nofun)
    | left d u hl hq => exact hturn hq.toLineChange (Or.imp_left nofun)

theorem ListsChannels.unique {p q : Nat × ControlPlane.Grant} (h : n.ListsChannels es)
    (hp : p ∈ es i) (hq : q ∈ es i) : p = q := by
  have hlen := h.one i
  match hes : es i, hlen with
  | [], _ => rw [hes] at hp; cases hp
  | [r], _ => rw [hes, List.mem_singleton] at hp hq; rw [hp, hq]

theorem ListsChannels.settled (h : n.ListsChannels es) (hne : es i ≠ []) :
    (n.line i).reader.isHandshake = false := by
  by_contra hs
  exact hne (h.waiting i (eq_true_of_ne_false hs))

theorem ListsChannels.mem_registered {ts : List Nat} {g : ControlPlane.Grant}
    (ht : ∀ c, c ∈ ts ↔ ∃ i g, (c, g) ∈ es i ∧ (n.line i).reader.hasLeft = false)
    (hc : (c, g) ∈ es i) (hl : (n.line i).reader.hasLeft = false) :
    c ∈ ts := (ht c).2 ⟨i, g, hc, hl⟩

theorem ListsChannels.mono (h : n.ListsChannels es) (hd : n.directory.KeepsNames n'.directory)
    (ho : n'.directory.WellFormed) (ht : ∃ ts, n'.directory.Registers ts ∧
      ∀ c, c ∈ ts ↔ ∃ j g, (c, g) ∈ es j ∧ (n'.line j).reader.hasLeft = false)
    (hown : ∀ j c, (n'.line j).Owns c → (n.line j).Owns c)
    (hline : ∀ j, es j ≠ [] → (n'.line j).reader.isHandshake = false ∧
      (n'.connection j).ip = (n.connection j).ip) : n'.ListsChannels es := by
  refine ⟨ho, ht, ?_, h.one, fun j c hc => h.owned j c (hown j c hc), ?_, ?_, h.alone⟩
  · intro j hj
    by_contra hne
    rw [(hline j hne).1] at hj
    cases hj
  · intro j c g hc
    rw [hd.channels]
    exact h.lt j c g hc
  · intro j c g hc
    rw [Node.channel, hd.key, hd.ip, (hline j (List.ne_nil_of_mem hc)).2]
    exact h.names j c g hc

theorem ListsChannels.nobodyMoves (h : n.ListsChannels es)
    (hd : n.directory.NobodyMoves n'.directory)
    (hown : ∀ j c, (n'.line j).Owns c → (n.line j).Owns c)
    (hline : ∀ j, es j ≠ [] → (n'.line j).reader.hasLeft = (n.line j).reader.hasLeft ∧
      (n'.line j).reader.isHandshake = false ∧ (n'.connection j).ip = (n.connection j).ip) :
    n'.ListsChannels es := by
  obtain ⟨ts, ht, hts⟩ := h.registers
  refine h.mono hd.keepsNames (hd.wellFormed h.wellFormed) ⟨ts, ht.nobodyMoves hd, fun c => ?_⟩ hown
    fun j hj => (hline j hj).2
  rw [hts]
  refine exists₂_congr fun j g => and_congr_right fun hc => ?_
  rw [(hline j (List.ne_nil_of_mem hc)).1]

theorem ListsChannels.nobodyMoves_of_onlyConnection (h : n.ListsChannels es)
    (hs : n.OnlyConnection i n') (hd : n.directory.NobodyMoves n'.directory)
    (hown : ∀ j c, (n'.line j).Owns c → (n.line j).Owns c)
    (hline : es i ≠ [] → (n'.line i).reader.hasLeft = (n.line i).reader.hasLeft ∧
      (n'.line i).reader.isHandshake = false) : n'.ListsChannels es := by
  refine h.nobodyMoves hd hown fun j hj => ?_
  by_cases hji : j = i
  · subst hji
    exact ⟨(hline hj).1, (hline hj).2, hs.ip⟩
  · rw [line, hs.others j hji]
    exact ⟨rfl, h.settled hj, rfl⟩

theorem ListsChannels.onlyConnectionAndChannel (h : n.ListsChannels es)
    (hs : n.OnlyConnectionAndChannel i c n') {g : ControlPlane.Grant} (hc : (c, g) ∈ es i)
    (hown : ∀ j c, (n'.line j).Owns c → (n.line j).Owns c) (hl : (n.line i).reader.hasLeft = false)
    (hl' : (n'.line i).reader.hasLeft = false) (hr : (n'.line i).reader.isHandshake = false) :
    n'.ListsChannels es := by
  obtain ⟨ts, ht, hts⟩ := h.registers
  have hmem := ListsChannels.mem_registered hts hc hl
  have hleft (j : Nat) : (n'.line j).reader.hasLeft = (n.line j).reader.hasLeft := by
    by_cases hji : j = i
    · rw [hji, hl, hl']
    · rw [line, hs.others j hji, line]
  refine h.mono hs.directory.keepsNames (hs.directory.wellFormed h.wellFormed)
    ⟨ts, ht.onlyChanges hs.directory.toOnlyChanges hmem, fun c => ?_⟩ hown fun j hj => ?_
  · rw [hts]
    exact exists₂_congr fun j g => by rw [hleft]
  · by_cases hji : j = i
    · subst hji
      exact ⟨hr, hs.ip⟩
    · rw [line, hs.others j hji]
      exact ⟨h.settled hj, rfl⟩

theorem ListsChannels.deletesChannel (h : n.ListsChannels es) (hb : 0 < n.directory.buckets.size)
    {m : Node} (hs : n.OnlyConnectionAndChannel i c m) (hv : m.DeletesChannel i c n')
    {g : ControlPlane.Grant} (hc : (c, g) ∈ es i)
    (hown : ∀ j c, (n'.line j).Owns c → (n.line j).Owns c)
    (hl : (n.line i).reader.hasLeft = false) : n'.ListsChannels es := by
  obtain ⟨ts, ht, hts⟩ := h.registers
  have hmem := ListsChannels.mem_registered hts hc hl
  have ht' := ht.onlyChanges hs.directory.toOnlyChanges hmem
  have ho' := hs.directory.wellFormed h.wellFormed
  have hdel := ht'.del ho' (hs.directory.buckets.symm ▸ hb) hmem
  have hacts := hs.toOnlyConnection.trans hv.toOnlyConnection
  have hothers (j : Nat) (hji : j ≠ i) :
    n'.line j = n.line j := by rw [line, hacts.others j hji, line]
  have hgone : (n'.line i).reader.hasLeft := hv.reader.hasLeft
  refine h.mono ((hs.directory.keepsNames.trans (m.directory.del_keepsNames _ c)).trans
    hv.directory.keepsNames)
    (hv.directory.wellFormed (ho'.del _ c).1) ⟨ts.erase c,
      hdel.nobodyMoves hv.directory.toNobodyMoves, fun d => ?_⟩ hown
    fun j hj => ?_
  · rw [ht.nodup.mem_erase_iff, hts]
    constructor
    · rintro ⟨hdc, j, g', hd, hj⟩
      have hji : j ≠ i := by
        rintro rfl
        exact hdc (congrArg Prod.fst (h.unique hd hc))
      exact ⟨j, g', hd, hothers j hji ▸ hj⟩
    · rintro ⟨j, g', hd, hj⟩
      have hji : j ≠ i := by
        rintro rfl
        rw [hgone] at hj
        cases hj
      refine ⟨?_, j, g', hd, hothers j hji ▸ hj⟩
      rintro rfl
      exact hji (h.alone j i d g' g hd hc)
  · by_cases hji : j = i
    · subst hji
      exact ⟨Reader.isHandshake_of_hasLeft hgone, hacts.ip⟩
    · rw [hothers j hji, hacts.others j hji]
      exact ⟨h.settled hj, rfl⟩

theorem putNewChannel_names (n : Node) (i : Nat) (g : ControlPlane.Grant) :
    let c := n.directory.lobby.channels.size
    let d := (n.putNewChannel i g).2
    d.buckets.size = n.directory.buckets.size ∧ d.lobby.channels.size = c + 1 ∧
      (d.lobby.channel c).key = g.key ∧ (d.lobby.channel c).ip = (n.connection i).ip :=
  n.directory.put_new_names (n.newChannel i g) (n.directory.bucketOf g.key) g.room

theorem putNewChannel_new {ts : List Nat} (ho : n.directory.WellFormed)
    (ht : n.directory.Registers ts) (hb : 0 < n.directory.buckets.size) (i : Nat)
    (g : ControlPlane.Grant) :
    let c := n.directory.lobby.channels.size
    let d := (n.putNewChannel i g).2
    d.WellFormed ∧ d.Registers (c :: ts) ∧ n.directory.KeepsOthers c (n.directory.find? g.key) d ∧
      (d.lobby.channel c).watched = (n.newChannel i g).watched ∧
      (g.room = "" → d.lobby.roomOf c = none) ∧ (g.room ≠ "" → (n.putNewChannel i g).1 = .ok () →
        ∃ r, d.lobby.roomOf c = some r ∧ (d.lobby.room r).id = g.room) :=
  Directory.put_new ho ht hb (show (n.newChannel i g).seat = none from rfl) g.room

/-- Connection `i`, which had no channel in `es`, has channel `c` for `g` in `es'`. -/
structure GainsChannel (es : Nat → List (Nat × ControlPlane.Grant)) (i c : Nat)
    (g : ControlPlane.Grant) (es' : Nat → List (Nat × ControlPlane.Grant)) : Prop where
  before : es i = []
  here : es' i = [(c, g)]
  elsewhere : ∀ j, j ≠ i → es' j = es j

section

variable {es' : Nat → List (Nat × ControlPlane.Grant)} {g g' : ControlPlane.Grant} {ts : List Nat}

theorem GainsChannel.new (h : GainsChannel es i c g es') : (c, g) ∈ es' i := by
  rw [h.here]
  exact List.mem_singleton_self _

theorem GainsChannel.old (h : GainsChannel es i c g es') (hmem : (d, g') ∈ es j) :
    j ≠ i ∧ (d, g') ∈ es' j := by
  have hji : j ≠ i := by
    rintro rfl
    rw [h.before] at hmem
    cases hmem
  exact ⟨hji, (h.elsewhere j hji).symm ▸ hmem⟩

theorem GainsChannel.cases (h : GainsChannel es i c g es') (hmem : (d, g') ∈ es' j) :
    j ≠ i ∧ (d, g') ∈ es j ∨ j = i ∧ d = c ∧ g' = g := by
  by_cases hji : j = i
  · rw [hji, h.here, List.mem_singleton] at hmem
    exact .inr ⟨hji, congrArg Prod.fst hmem, congrArg Prod.snd hmem⟩
  · exact .inl ⟨hji, h.elsewhere j hji ▸ hmem⟩

theorem GainsChannel.length_le_one (h : GainsChannel es i c g es') (hone : ∀ j, (es j).length ≤ 1)
    (j : Nat) : (es' j).length ≤ 1 := by
  by_cases hji : j = i
  · rw [hji, h.here]
    exact Nat.le_refl 1
  · rw [h.elsewhere j hji]
    exact hone j

theorem ListsChannels.comes (h : n.ListsChannels es) (hb : 0 < n.directory.buckets.size)
    (hj : GainsChannel es i n.directory.lobby.channels.size g es') (ha : n.OnlyConnection i n')
    (hnames : (n.putNewChannel i g).2.KeepsNames n'.directory) (ho : n'.directory.WellFormed)
    (ht : n'.directory.Registers ts)
    (hts : ∀ c, c ∈ ts ↔ (∃ j g, (c, g) ∈ es j ∧ (n.line j).reader.hasLeft = false) ∨
      c = n.directory.lobby.channels.size ∧ (n'.line i).reader.hasLeft = false)
    (hr : (n'.line i).reader.isHandshake = false)
    (hold : ∀ j c, c < n.directory.lobby.channels.size → (n'.line j).Owns c → (n.line j).Owns c)
    (hlt : ∀ j c, (n'.line j).Owns c → c < n'.directory.lobby.channels.size) :
    n'.ListsChannels es' := by
  obtain ⟨-, hsize, hkey, hip⟩ := n.putNewChannel_names i g
  obtain ⟨ts₀, ht₀, -⟩ := h.registers
  obtain ⟨-, -, hkeeps, -⟩ := putNewChannel_new h.wellFormed ht₀ hb i g
  have holdlt := h.lt
  generalize n.directory.lobby.channels.size = c at *
  have hothers (j : Nat) (hji : j ≠ i) : n'.connection j = n.connection j := ha.others j hji
  have hline (j : Nat) (hji : j ≠ i) : n'.line j = n.line j := by rw [line, hothers j hji, line]
  have hsize' : n'.directory.lobby.channels.size = c + 1 := hnames.channels.trans hsize
  refine ⟨ho, ⟨ts, ht, fun d => ?_⟩, ?_, hj.length_le_one h.one, ?_, ?_, ?_, ?_⟩
  · rw [hts]
    constructor
    · rintro (⟨j, g', hmem, hl⟩ | ⟨rfl, hl⟩)
      · obtain ⟨hji, hmem⟩ := hj.old hmem
        exact ⟨j, g', hmem, hline j hji ▸ hl⟩
      · exact ⟨i, g, hj.new, hl⟩
    · rintro ⟨j, g', hmem, hl⟩
      rcases hj.cases hmem with ⟨hji, hmem⟩ | ⟨rfl, rfl, -⟩
      · exact .inl ⟨j, g', hmem, hline j hji ▸ hl⟩
      · exact .inr ⟨rfl, hl⟩
  · intro j hs
    have hji : j ≠ i := by
      rintro rfl
      rw [hr] at hs
      cases hs
    rw [hj.elsewhere j hji]
    exact h.waiting j (hline j hji ▸ hs)
  · intro j d hown
    rcases Nat.lt_succ_iff_lt_or_eq.1 (hsize' ▸ hlt j d hown) with hd | rfl
    · obtain ⟨g', hmem⟩ := h.owned j d (hold j d hd hown)
      exact ⟨g', (hj.old hmem).2⟩
    · by_cases hji : j = i
      · exact ⟨g, hji ▸ hj.new⟩
      · obtain ⟨g', hmem⟩ := h.owned j d (hline j hji ▸ hown)
        exact absurd (holdlt j d g' hmem) (Nat.lt_irrefl d)
  · intro j d g' hmem
    rw [hsize']
    rcases hj.cases hmem with ⟨-, hmem⟩ | ⟨-, rfl, -⟩
    · exact Nat.lt_succ_of_lt (holdlt j d g' hmem)
    · exact Nat.lt_succ_self d
  · intro j d g' hmem
    rw [Node.channel, hnames.key, hnames.ip]
    rcases hj.cases hmem with ⟨hji, hmem⟩ | ⟨rfl, rfl, rfl⟩
    · obtain ⟨hk, hx⟩ := hkeeps.names (Nat.ne_of_lt (holdlt j d g' hmem))
      rw [hk, hx, hothers j hji]
      exact h.names j d g' hmem
    · exact ⟨hkey, hip.trans ha.ip.symm⟩
  · intro j k d g' g'' hmem hmem'
    rcases hj.cases hmem with ⟨hji, hmem⟩ | ⟨rfl, rfl, -⟩
    · rcases hj.cases hmem' with ⟨hki, hmem'⟩ | ⟨-, rfl, -⟩
      · exact h.alone j k d g' g'' hmem hmem'
      · exact absurd (holdlt j d g' hmem) (Nat.lt_irrefl d)
    · rcases hj.cases hmem' with ⟨-, hmem'⟩ | ⟨rfl, -⟩
      · exact absurd (holdlt k d g'' hmem') (Nat.lt_irrefl d)
      · rfl

theorem ListsChannels.enrollEffect (h : n.ListsChannels es) (hb : 0 < n.directory.buckets.size)
    (hj : GainsChannel es i n.directory.lobby.channels.size g es') (he : n.EnrollEffect i g n')
    (hold : ∀ j c, c < n.directory.lobby.channels.size → (n'.line j).Owns c → (n.line j).Owns c)
    (hlt : ∀ j c, (n'.line j).Owns c → c < n'.directory.lobby.channels.size) :
    n'.ListsChannels es' := by
  obtain ⟨ts, ht, hts⟩ := h.registers
  obtain ⟨hbuckets, -, hkey, -⟩ := n.putNewChannel_names i g
  obtain ⟨ho', ht', -⟩ := putNewChannel_new h.wellFormed ht hb i g
  cases he with
  | seated hok hh hr =>
    have hreader : (n'.line i).reader.hasLeft = false ∧ (n'.line i).reader.isHandshake = false := by
      rcases hr with hr | ⟨s, hr, -⟩ <;> rw [hr] <;> exact ⟨rfl, rfl⟩
    refine h.comes hb hj hh.toOnlyConnection hh.directory.keepsNames (hh.directory.wellFormed ho')
      (ht'.nobodyMoves hh.directory.toNobodyMoves) (fun c => ?_) hreader.2 hold hlt
    rw [List.mem_cons, hts, or_comm]
    exact or_congr_right (and_iff_left hreader.1).symm
  | unseated hq hd hr =>
    have hbucket := Directory.bucketOf_congr hbuckets g.key
    have hdel := ht'.del ho' (hbuckets.symm ▸ hb) List.mem_cons_self
    rw [hkey, hbucket, List.erase_cons_head] at hdel
    refine h.comes hb hj hq.toOnlyConnection ((Directory.del_keepsNames _ _ _).trans hd.keepsNames)
      (hd.wellFormed (ho'.del _ _).1) (hdel.nobodyMoves hd.toNobodyMoves) (fun c => ?_)
      (Reader.isHandshake_of_hasLeft hr.hasLeft) hold hlt
    rw [hts, hr.hasLeft]
    exact (or_iff_left nofun).symm

end

def letIn (n : Node) (es : Nat → List (Nat × ControlPlane.Grant)) (m : Move) (i : Nat) :
    List (Nat × ControlPlane.Grant) :=
      es i ++ (n.enrolled i m).toList.map (n.directory.lobby.channels.size, ·)

theorem letIn_of_none (h : ∀ i, n.enrolled i m = none) : n.letIn es m = es := by
  funext i
  rw [letIn, h]
  exact List.append_nil _

theorem enrolled_reader (n : Node) (i j : Nat) :
    n.enrolled j (.task (.reader i)) = if i = j then n.enrollment? j else none := rfl

theorem enrollment?_of_reader (h : ∀ g, (n.line i).reader ≠ .greeted g) (j : Nat) :
    n.enrolled j (.task (.reader i)) = none := by
  rw [enrolled_reader]
  split_ifs with hj
  · rw [← hj]
    exact enrollment?_eq_none h
  · rfl

theorem flush_line (hi : i < n.connections.size) (j : Nat) :
    ((n.modifyWire i Wire.flush).line j).Owns c ↔ (n.line j).Owns c := by
  have hq := flush_quiet hi
  by_cases hj : j = i
  · rw [hj, hq.here]
    exact Iff.rfl
  · rw [hq.elsewhere j hj]

theorem ListsChannels.reading (h : n.ListsChannels es) (hb : 0 < n.directory.buckets.size)
    (hc : n.ReaderEffect i n') (hi : i < n.connections.size)
    (hold : ∀ j c, c < n.directory.lobby.channels.size → (n'.line j).Owns c → (n.line j).Owns c)
    (hlt : ∀ j c, (n'.line j).Owns c → c < n'.directory.lobby.channels.size) :
    n'.ListsChannels (n.letIn es (.task (.reader i))) := by
  have hown (hsize : n'.directory.lobby.channels.size = n.directory.lobby.channels.size) (j c : Nat)
      (hc : (n'.line j).Owns c) : (n.line j).Owns c := hold j c (hsize ▸ hlt j c hc) hc
  have hnone (he : n.enrollment? i = none) : n.letIn es (.task (.reader i)) = es := by
    refine letIn_of_none fun j => ?_
    rw [enrolled_reader]
    split_ifs with hj
    · rw [← hj, he]
    · rfl
  have hlate {s : Session} (hs : (n.line i).reader.session? = some s) :
      n.letIn es (.task (.reader i)) = es := by
    refine letIn_of_none (enrollment?_of_reader fun g hg => ?_)
    rw [hg] at hs
    cases hs
  have hmine {s : Session} (hs : (n.line i).reader.session? = some s) :
    ∃ g, (s.channel, g) ∈ es i :=
    h.owned i s.channel (.inl (Reader.channel?_of_session? hs))
  cases hc with
  | shaking hs he hs' hserve hk =>
    rw [hnone he]
    refine h.nobodyMoves_of_onlyConnection hserve.toOnlyConnection (hk.directory.symm ▸ .refl _)
      (hown (by rw [hk.directory])) ?_
    exact fun hne => absurd (h.waiting i hs) hne
  | rejected hs he hr hquit hk =>
    rw [hnone he]
    refine h.nobodyMoves_of_onlyConnection hquit.toOnlyConnection (hk.directory.symm ▸ .refl _)
      (hown (by rw [hk.directory])) ?_
    exact fun hne => absurd (h.waiting i hs) hne
  | enrollEffect g he hn' henr =>
    have hwait := h.waiting i (enrollment?_isHandshake he)
    have hflush : (n.modifyWire i Wire.flush).ListsChannels es := by
      refine h.nobodyMoves_of_onlyConnection
        (n.modifyWire_keepsDeadline i Wire.flush).toOnlyConnection (.refl _) ?_ ?_
      · exact fun j c => (flush_line hi j).1
      · exact fun hne => absurd hwait hne
    refine hflush.enrollEffect hb ⟨hwait, ?_, fun j hj => ?_⟩ henr
      (fun j c hc ho => (flush_line hi j).2 (hold j c hc ho)) hlt
    · rw [letIn, enrolled_reader, if_pos rfl, he, hwait]
      rfl
    · rw [letIn, enrolled_reader, if_neg (Ne.symm hj)]
      exact List.append_nil _
  | served s s' hs hs' hch ha =>
    obtain ⟨g, hg⟩ := hmine hs
    rw [hlate hs]
    refine h.onlyConnectionAndChannel ha hg (hown ha.directory.channels)
      (Reader.hasLeft_of_session? hs) (Reader.hasLeft_of_session? hs') ?_
    exact Reader.isHandshake_of_session? hs'
  | crashed s hs hr ha =>
    obtain ⟨g, hg⟩ := hmine hs
    rw [hlate hs]
    exact h.onlyConnectionAndChannel ha hg (hown ha.directory.channels)
      (Reader.hasLeft_of_session? hs) (by rw [hr]; rfl) (by rw [hr]; rfl)
  | tornDown s m hs ha hv =>
    obtain ⟨g, hg⟩ := hmine hs
    rw [hlate hs]
    refine h.deletesChannel hb ha hv hg (hown ?_) (Reader.hasLeft_of_session? hs)
    exact hv.directory.channels.trans
      ((m.directory.del_keepsNames _ _).channels.trans ha.directory.channels)
  | left c u hl hr hserve hd ht =>
    rw [letIn_of_none (enrollment?_of_reader (by simp [hl]))]
    refine h.nobodyMoves_of_onlyConnection hserve.toOnlyConnection hd.toNobodyMoves
      (hown hd.channels) fun _ => ?_
    rw [hl, hr]
    exact ⟨rfl, rfl⟩

theorem ListsChannels.move (h : n.ListsChannels es) (ho : n.Owned) (m : Move) :
    (n.move m).ListsChannels (n.letIn es m) := by
  have hold (j c : Nat) (hc : c < n.directory.lobby.channels.size) :
      ((n.move m).line j).Owns c → (n.line j).Owns c := (ho.moveCases m).owns_old ho hc
  have hlt := (ho.move m).lt
  have hown (hsize : (n.move m).directory.lobby.channels.size = n.directory.lobby.channels.size)
      (j c : Nat) (hc : ((n.move m).line j).Owns c) :
      (n.line j).Owns c := hold j c (hsize ▸ hlt j c hc) hc
  cases ho.moveEffect m with
  | background he hd =>
    rw [letIn_of_none he]
    refine h.nobodyMoves hd.directory (hown hd.directory.channels) fun j hj => ?_
    obtain ⟨closed, wire, hc, -⟩ := hd.connection j
    rw [line, hc]
    exact ⟨rfl, h.settled hj, rfl⟩
  | opensConnection ip cookie hm hopen =>
    rw [letIn_of_none fun _ => by rw [hm]; rfl]
    refine h.nobodyMoves (hopen.directory.symm ▸ .refl _) (hown (by rw [hopen.directory]))
      fun j hj => ?_
    have hne : j ≠ n.connections.size := by
      rintro rfl
      exact hj (h.waiting _ (by rw [line_of_le (Nat.le_refl _)]; rfl))
    rw [line, hopen.others j hne]
    exact ⟨rfl, h.settled hj, rfl⟩
  | reading i hm hi hc =>
    subst hm
    exact h.reading ho.buckets hc hi hold hlt
  | writing i c hm hc hw =>
    rw [letIn_of_none fun _ => by rw [hm]; rfl]
    refine h.nobodyMoves_of_onlyConnection hw.toOnlyConnection hw.directory.toNobodyMoves
      (hown hw.directory.channels) fun hne => ?_
    rw [hw.reader]
    exact ⟨rfl, h.settled hne⟩

theorem new_listsChannels (config : Config) (hostname : Option String) (entropy : Entropy) :
    (new config hostname entropy).ListsChannels fun _ => [] := by
  have hl := new_line config hostname entropy
  refine ⟨Directory.new_wellFormed .., ⟨[], Directory.new_registers .., fun c => ?_⟩,
    fun _ _ => rfl, fun _ => Nat.zero_le 1, fun i c hc => ?_, nofun, nofun, nofun⟩
  · exact ⟨nofun, fun ⟨i, g, hmem, _⟩ => absurd hmem List.not_mem_nil⟩
  · rw [hl] at hc
    exact absurd hc line_blank_owns

theorem ListsChannels.after (h : n.ListsChannels fun _ => []) (ho : n.Owned) (ms : List Move) :
    (n.after ms).ListsChannels fun i => n.enrolments i ms := by
  induction ms with
  | nil => exact h
  | cons m ms ih => exact ih.move (ho.after ms) m

end Node

end PushGateway
