import PushGateway.Proofs.Node.Ownership

/-!
What the control plane hears of the end of a connection it has given a grant. It is told once, with
the names of the grant, if the auth reply got out to the client; a connection that ends between the
grant and that point returns without a word.
-/

namespace PushGateway

def Call.isDisconnect : Call → Bool
  | .disconnect .. => true
  | _ => false

def ControlPlane.Grant.disconnectCall (g : ControlPlane.Grant) (server : String) : Call :=
  .disconnect server g.mid g.key

def Reader.isReturned : Reader → Bool
  | .returned => true
  | _ => false

theorem Reader.eq_returned {r : Reader} (h : r.isReturned) : r = .returned := by
  cases r with
  | returned => rfl
  | _ => cases h

namespace Node

def disconnectCalls (n : Node) (i : Nat) : List Call :=
  (n.presence.filter fun p => p.1 = some i ∧ p.2.isDisconnect).map (·.2)

def granted (n : Node) (i : Nat) : Move → Option ControlPlane.Grant
  | .task (.reader j) =>
    if j = i then
      match n.connectAnswer? i with
      | some (.ready (.ok g)) => some g
      | _ => none
    else none
  | _ => none

def grants (n : Node) (i : Nat) : List Move → List ControlPlane.Grant
  | [] => []
  | m :: h => n.grants i h ++ ((n.after h).granted i m).toList

/-- What has been granted and what has been said of the end, by the phase of the reader; `letIn`
says that the auth reply is out. -/
def Told (r : Reader) (letIn : Prop) (server : String) (said : List Call)
    (gs : List ControlPlane.Grant) : Prop :=
  match r with
  | .awaitingAuth | .connecting _ => gs = [] ∧ said = [] ∧ ¬ letIn
  | .greeting _ g | .greeted g => gs = [g] ∧ said = [] ∧ ¬ letIn
  | .serving s | .calling s _ _ => gs = [s.grant] ∧ said = [] ∧ letIn
  | .leaving _ _ => ∃ g, gs = [g] ∧ said = [g.disconnectCall server] ∧ letIn
  | .returned =>
    (∃ g, gs = [g] ∧ said = [g.disconnectCall server] ∧ letIn) ∨ gs.length ≤ 1 ∧ said = [] ∧ ¬ letIn
  | .crashed => True

structure DisconnectsMatch (n : Node) (i : Nat) (gs : List ControlPlane.Grant) : Prop where
  told : Told (n.line i).reader (0 < (n.line i).flushed) n.serverId (n.disconnectCalls i) gs
  flushed : (n.line i).flushed ≤ (n.line i).written.length
  written : ∀ g, (n.line i).reader = .greeted g → (n.line i).written ≠ []
  writer : (n.line i).writer ≠ .absent → 0 < (n.line i).flushed

variable {n n' : Node} {m : Move} {i j : Nat} {gs : List ControlPlane.Grant}

theorem disconnectCalls_congr (h : n'.presence = n.presence) (i : Nat) :
    n'.disconnectCalls i = n.disconnectCalls i := by
  rw [disconnectCalls, h, disconnectCalls]

theorem disconnectCalls_append {call : Call} (h : n'.presence = n.presence ++ [(some j, call)])
    (i : Nat) :
    n'.disconnectCalls i = n.disconnectCalls i ++ if j = i ∧ call.isDisconnect then [call]
      else [] := by
  rw [disconnectCalls, h, List.filter_append, List.map_append]
  congr 1
  by_cases hj : j = i <;> cases hc : call.isDisconnect <;> simp [hj, hc]

theorem DisconnectsMatch.elsewhere (h : n.DisconnectsMatch i gs) (hl : n'.line i = n.line i)
    (hs : n'.serverId = n.serverId) (hf : n'.disconnectCalls i = n.disconnectCalls i) :
    n'.DisconnectsMatch i gs := by
  refine ⟨?_, ?_, ?_, ?_⟩ <;> rw [hl]
  · rw [hs, hf]
    exact h.told
  · exact h.flushed
  · exact h.written
  · exact h.writer

theorem disconnectCalls_others {calls : List (Option Nat × Call)}
    (h : n'.presence = n.presence ++ calls) (hc : ∀ p ∈ calls, p.1 = some j) (hij : i ≠ j) :
    n'.disconnectCalls i = n.disconnectCalls i := by
  have hnone : (calls.filter fun p => p.1 = some i ∧ p.2.isDisconnect) = [] := by
    rw [List.filter_eq_nil_iff]
    intro p hp hi
    have hi' : p.1 = some i := (of_decide_eq_true hi).1
    exact hij (Option.some.inj (hi'.symm.trans (hc p hp)))
  rw [disconnectCalls, h, List.filter_append, hnone, List.append_nil, disconnectCalls]

theorem Told.congr {r : Reader} {p q : Prop} {server : String} {said : List Call} (hpq : p ↔ q)
    (h : Told r p server said gs) : Told r q server said gs := by
  rwa [← propext hpq]

variable {r : Reader} {w : Writer} {rest : List (Except GatewayError Frame)}

theorem DisconnectsMatch.phase {gs' : List ControlPlane.Grant} (h : n.DisconnectsMatch i gs)
    (hl : n'.line i = { n.line i with reader := r, incoming := rest })
    (hs : n'.serverId = n.serverId)
    (hr : Told r (0 < (n.line i).flushed) n.serverId (n'.disconnectCalls i) gs')
    (hg : ∀ g, r ≠ .greeted g) : n'.DisconnectsMatch i gs' := by
  refine ⟨?_, ?_, ?_, ?_⟩ <;> rw [hl]
  · rw [hs]
    exact hr
  · exact h.flushed
  · intro g he
    exact absurd he (hg g)
  · exact h.writer

theorem DisconnectsMatch.letIn {g : ControlPlane.Grant} (h : n.DisconnectsMatch i gs)
    (hg : (n.line i).reader = .greeted g) (hl : n'.line i = { n.line i with
      reader := r, writer := w, flushed := (n.line i).written.length })
    (hs : n'.serverId = n.serverId)
    (hr : ∀ p : Prop, p → Told r p n.serverId (n'.disconnectCalls i) gs) (hne : ∀ g,
      r ≠ .greeted g) : n'.DisconnectsMatch i gs := by
  have hpos : 0 < (n.line i).written.length := List.length_pos_iff.2 (h.written g hg)
  refine ⟨?_, Nat.le_of_eq (by rw [hl]), ?_, ?_⟩
  · rw [hl, hs]
    exact hr _ hpos
  · rw [hl]
    intro g' he
    exact absurd he (hne g')
  · rw [hl]
    exact fun _ => hpos

theorem Told.mayFollowLastCall {c : Nat} {p : Prop} {server : String} {g : ControlPlane.Grant}
    (hl : r.MayFollowLastCall c) (hp : p) : Told r p server [g.disconnectCall server] [g] := by
  cases hl with
  | returned => exact .inl ⟨g, rfl, rfl, hp⟩
  | leaving u => exact ⟨g, rfl, rfl, hp⟩

theorem Told.rejected {p : Prop} {server : String} {said : List Call} (h : Told r p server said gs)
    (hr : r.isHandshake) : Told .returned p server said gs := by
  right
  cases r with
  | awaitingAuth => exact ⟨h.1 ▸ Nat.zero_le _, h.2⟩
  | connecting u => exact ⟨h.1 ▸ Nat.zero_le _, h.2⟩
  | greeting f g => exact ⟨h.1 ▸ Nat.le_refl _, h.2⟩
  | greeted g => exact ⟨h.1 ▸ Nat.le_refl _, h.2⟩
  | serving s => cases hr
  | calling s f u => cases hr
  | leaving c u => cases hr
  | returned => cases hr
  | crashed => cases hr

theorem Told.session {s : Session} {p : Prop} {server : String} {said : List Call}
    (h : Told r p server said gs) (hs : r.session? = some s) : gs = [s.grant] ∧ said = [] ∧ p := by
  cases r <;> cases hs <;> exact h

theorem granted_task (n : Node) (i : Nat) :
    n.granted i (.task (.reader i)) = match n.connectAnswer? i with
    | some (.ready (.ok g)) => some g
    | _ => none := if_pos rfl

theorem granted_none (h : ∀ g, n.connectAnswer? i ≠ some (.ready (.ok g))) :
    n.granted i (.task (.reader i)) = none := by
  rw [granted_task]
  split
  · rename_i g hg
    exact absurd hg (h g)
  · rfl

theorem DisconnectsMatch.reading (h : n.DisconnectsMatch i gs) (ho : n.Owned)
    (hr : n.Reading i n') :
    n'.DisconnectsMatch i (gs ++ (n.granted i (.task (.reader i))).toList) := by
  have htold := h.told
  have hsilent (hg : n.granted i (.task (.reader i)) = none) :
      gs ++ (n.granted i (.task (.reader i))).toList = gs := by
    rw [hg]
    exact List.append_nil gs
  have hlater (ha : (n.line i).reader ≠ .awaitingAuth) :
      gs ++ (n.granted i (.task (.reader i))).toList = gs :=
    hsilent (granted_none (by simp [connectAnswer?_eq_none ha]))
  cases hr with
  | rejected rest hs ha hq =>
    rw [hsilent (granted_none (by simp [ha]))]
    exact h.phase hq.here hq.serverId
      ((disconnectCalls_congr hq.presence i).symm ▸ htold.rejected hs) nofun
  | asked r rest ha hn hr he _ =>
    rw [hsilent (granted_none hn)]
    rw [ha] at htold
    obtain ⟨offered, cookie, token, hp⟩ := he.presence
    have hdisconnect : n'.disconnectCalls i = n.disconnectCalls i := by
      rw [disconnectCalls_append hp, if_neg fun h => Bool.false_ne_true h.2, List.append_nil]
    rcases hr with rfl | ⟨u, rfl⟩
    · exact h.phase he.here he.serverId
        (hdisconnect.symm ▸ Told.rejected (r := .awaitingAuth) htold rfl)
        nofun
    · exact h.phase he.here he.serverId (hdisconnect.symm ▸ htold) nofun
  | granted f g rest ha hn hin hop he _ =>
    rw [ha] at htold
    obtain ⟨offered, cookie, token, hp⟩ := he.presence
    have hdisconnect : n'.disconnectCalls i = n.disconnectCalls i := by
      rw [disconnectCalls_append hp, if_neg fun h => Bool.false_ne_true h.2, List.append_nil]
    have hgs : gs ++ (n.granted i (.task (.reader i))).toList = [g] := by
      rw [granted_task, hn, htold.1]
      rfl
    rw [hgs]
    exact h.phase he.here he.serverId (hdisconnect.symm ▸ ⟨rfl, htold.2⟩) nofun
  | greeted f g hg hq =>
    rw [hlater (by simp [hg])]
    rw [hg] at htold
    refine ⟨?_, ?_, ?_, ?_⟩ <;> rw [hq.here]
    · rw [hq.serverId, disconnectCalls_congr hq.presence]
      exact htold
    · rw [List.length_append]
      exact Nat.le_trans h.flushed (Nat.le_add_right _ _)
    · intro g' _
      exact List.append_ne_nil_of_right_ne_nil _ (List.cons_ne_nil _ _)
    · exact h.writer
  | enrolled g s hg hsg ht hadm =>
    rw [hlater (by simp [hg])]
    rw [hg] at htold
    refine h.letIn hg ht.here ht.serverId (fun p hp => ?_) nofun
    rw [disconnectCalls_congr hadm.presence]
    exact ⟨hsg ▸ htold.1, htold.2.1, hp⟩
  | overrun g c hg ht hadm =>
    rw [hlater (by simp [hg])]
    exact h.letIn hg ht.here ht.serverId (fun _ _ => trivial) nofun
  | unseated g c r hg hl hle hlt ht hp hs =>
    rw [hlater (by simp [hg])]
    rw [hg] at htold
    have hdisconnect : n'.disconnectCalls i = [g.disconnectCall n.serverId] := by
      rw [disconnectCalls_append hp.presence, if_pos ⟨rfl, rfl⟩, htold.2.1]
      rfl
    refine h.letIn hg ht.here ht.serverId (fun p hp => ?_) ?_
    · rw [hdisconnect, htold.1]
      exact .mayFollowLastCall hl hp
    · rintro g' rfl
      cases hl
  | replied s s' f rest hw hg hc ht htouch =>
    have hs := hw.session?
    rw [hlater (by rintro he; rw [he] at hs; cases hs)]
    have ⟨hgs, hsaid, hin⟩ := htold.session hs
    exact h.phase ht.here ht.serverId ⟨hg ▸ hgs,
      (disconnectCalls_congr htouch.presence i).trans hsaid, hin⟩ nofun
  | calling s f u rest hs hw hq =>
    rw [hlater (by simp [hs])]
    rw [hs] at htold
    exact h.phase hq.here hq.serverId ((disconnectCalls_congr hq.presence i).symm ▸ htold) nofun
  | tornDown s r rest hs hl ht hp hn =>
    rw [hlater (by rintro he; rw [he] at hs; cases hs)]
    have ⟨hgs, hsaid, hin⟩ := htold.session hs
    have hdisconnect : n'.disconnectCalls i = [s.grant.disconnectCall n.serverId] := by
      rw [disconnectCalls_append hp.presence, if_pos ⟨rfl, rfl⟩, hsaid, (ho.names i s hs).1,
        (ho.names i s hs).2]
      rfl
    refine h.phase ht.here ht.serverId ?_ ?_
    · rw [hdisconnect, hgs]
      exact .mayFollowLastCall hl hin
    · rintro g' rfl
      cases hl
  | crashed s rest hs hq =>
    rw [hlater (by rintro he; rw [he] at hs; cases hs)]
    exact h.phase hq.here hq.serverId trivial nofun
  | left c u hl hq =>
    rw [hlater (by simp [hl])]
    rw [hl] at htold
    exact h.phase hq.here hq.serverId ((disconnectCalls_congr hq.presence i).symm ▸ .inl htold)
      nofun

theorem DisconnectsMatch.wrote {ws : List Outgoing} {k : Nat} (h : n.DisconnectsMatch i gs)
    (hl : n'.line i = { n.line i with writer := w, written := ws, flushed := k })
    (hs : n'.serverId = n.serverId) (hf : n'.disconnectCalls i = n.disconnectCalls i)
    (hw : (n.line i).writer ≠ .absent) (hk : (n.line i).flushed ≤ k) (hk' : k ≤ ws.length) :
    n'.DisconnectsMatch i gs := by
  have hpos := h.writer hw
  have hpos' : 0 < k := Nat.lt_of_lt_of_le hpos hk
  refine ⟨?_, ?_, ?_, ?_⟩ <;> rw [hl]
  · rw [hs, hf]
    exact h.told.congr ⟨fun _ => hpos', fun _ => hpos⟩
  · exact hk'
  · intro _ _
    exact List.length_pos_iff.1 (Nat.lt_of_lt_of_le hpos' hk')
  · exact fun _ => hpos'

theorem DisconnectsMatch.writing (h : n.DisconnectsMatch i gs) (ho : n.Owned)
    (hw : n.Writing i n') : n'.DisconnectsMatch i gs := by
  have hne {v : Writer} {c : Nat} (hv : (n.line i).writer = v) (hc : v.channel? = some c) :
      (n.line i).writer ≠ .absent := by
    rintro ha
    rw [← hv, ha] at hc
    cases hc
  obtain ⟨d, g, hturn⟩ := ho.writerLineChange hw
  have hdisconnect := disconnectCalls_congr hturn.onlyChannel.presence i
  cases hw with
  | takesPush c f hc ht htouch =>
    exact h.wrote ht.here ht.serverId hdisconnect (hne hc rfl) (Nat.le_refl _) h.flushed
  | woken c hc ht htouch =>
    exact h.wrote ht.here ht.serverId hdisconnect (hne hc rfl) (Nat.le_refl _) h.flushed
  | popsReply c f online hc ht htouch =>
    exact h.wrote ht.here ht.serverId hdisconnect (hne hc rfl) (Nat.le_refl _) h.flushed
  | wrote c item hc hq =>
    refine h.wrote hq.here hq.serverId hdisconnect (hne hc rfl) (Nat.le_refl _) ?_
    rw [List.length_append]
    exact Nat.le_trans h.flushed (Nat.le_add_right _ _)
  | drained c hc hq =>
    exact h.wrote hq.here hq.serverId hdisconnect (hne hc rfl) (Nat.le_refl _) h.flushed
  | flushed c hc hq =>
    exact h.wrote hq.here hq.serverId hdisconnect (hne hc rfl) h.flushed (Nat.le_refl _)
  | failed c hc hq =>
    exact h.wrote hq.here hq.serverId hdisconnect (hne rfl hc) (Nat.le_refl _) h.flushed
  | ended c w hc hw ht htouch =>
    exact h.wrote ht.here ht.serverId hdisconnect (hne rfl hc) (Nat.le_refl _) h.flushed

theorem DisconnectsMatch.onlyArrivals (h : n.DisconnectsMatch i gs) (ha : n.OnlyArrivals m n') :
    n'.DisconnectsMatch i gs := by
  have hdisconnect := disconnectCalls_congr ha.presence i
  rcases ha.line i with hl | ⟨hb, hl⟩
  · refine ⟨?_, ?_, ?_, ?_⟩ <;> rw [hl]
    · rw [ha.serverId, hdisconnect]
      exact h.told
    · exact h.flushed
    · exact h.written
    · exact h.writer
  · refine ⟨?_, ?_, ?_, ?_⟩ <;> rw [hl]
    · trivial
    · exact Nat.le_refl 0
    · nofun
    · intro hw
      exact absurd rfl hw

theorem DisconnectsMatch.move (h : n.DisconnectsMatch i gs) (ho : n.Owned) (m : Move) :
    (n.move m).DisconnectsMatch i (gs ++ (n.granted i m).toList) := by
  have hother (hm : m ≠ .task (.reader i)) : gs ++ (n.granted i m).toList = gs := by
    have hnone : n.granted i m = none := by
      cases m with
      | event e => rfl
      | deliver c f => rfl
      | task t =>
        cases t with
        | reader j => exact if_neg fun hj : j = i => hm (by rw [hj])
        | _ => rfl
    rw [hnone]
    exact List.append_nil gs
  cases ho.moveCases m with
  | onlyArrivals hstuck ha =>
    by_cases hm : m = .task (.reader i)
    · have hnone : n.granted i m = none := by
        rw [hm]
        exact granted_none (by simp [connectAnswer?_of_stuck (hstuck i hm)])
      rw [hnone]
      exact (List.append_nil gs).symm ▸ h.onlyArrivals ha
    · rw [hother hm]
      exact h.onlyArrivals ha
  | reading j hm hr =>
    by_cases hij : i = j
    · subst hij
      rw [hm] at hr ⊢
      exact h.reading ho hr
    · rw [hother (by rw [hm]; rintro ⟨⟩; exact hij rfl)]
      obtain ⟨g, ht⟩ := hr.lineChange
      obtain ⟨calls, hp, hc⟩ := hr.presence
      exact h.elsewhere (ht.elsewhere i hij) ht.serverId (disconnectCalls_others hp hc hij)
  | writing j hm hw =>
    rw [hother (by rw [hm]; nofun)]
    by_cases hij : i = j
    · subst hij
      exact h.writing ho hw
    · obtain ⟨c, g, ht⟩ := ho.writerLineChange hw
      exact h.elsewhere (ht.elsewhere i hij) ht.serverId
        (disconnectCalls_congr ht.onlyChannel.presence i)

theorem new_disconnectsMatch (config : Config) (hostname : Option String) (entropy : Entropy)
    (i : Nat) : (new config hostname entropy).DisconnectsMatch i [] := by
  refine ⟨?_, ?_, ?_, ?_⟩ <;> rw [new_line]
  · exact ⟨rfl, rfl, Nat.lt_irrefl 0⟩
  · exact Nat.le_refl 0
  · nofun
  · intro hw
    exact absurd rfl hw

theorem DisconnectsMatch.after (h : n.DisconnectsMatch i []) (ho : n.Owned) (ms : List Move) :
    (n.after ms).DisconnectsMatch i (n.grants i ms) := by
  induction ms with
  | nil => exact h
  | cons m ms ih => exact ih.move (ho.after ms) m

/-- Of a connection that has returned, the control plane has heard the end exactly once if it gave a
grant and the auth reply was flushed to the client, and not at all otherwise. -/
theorem after_disconnectCalls (config : Config) (hostname : Option String) (entropy : Entropy)
    (ms : List Move) (i : Nat)
    (hr : (((new config hostname entropy).after ms).connection i).reader = .returned) :
    let start := new config hostname entropy
    let n := start.after ms
    (start.grants i ms).length ≤ 1 ∧
    n.disconnectCalls i = if 0 < (n.connection i).wire.flushed then
      (start.grants i ms).map (·.disconnectCall n.serverId) else [] := by
  intro start n
  have ha := (new_disconnectsMatch config hostname entropy i).after
    (new_owned config hostname entropy) ms
  have htold := ha.told
  rw [show (Node.line _ i).reader = .returned from hr] at htold
  change (start.grants i ms).length ≤ 1 ∧
    n.disconnectCalls i = if 0 < (n.line i).flushed then _ else []
  rcases htold with ⟨g, hgs, hsaid, hin⟩ | ⟨hle, hsaid, hout⟩
  · rw [if_pos hin]
    exact ⟨hgs ▸ Nat.le_refl _, hsaid.trans (hgs ▸ rfl)⟩
  · rw [if_neg hout]
    exact ⟨hle, hsaid⟩

/-! Two short histories, the latest move first -/

def authFrame (member : UInt8) : Frame :=
  { ver := 1, op := Op.auth, seq := 1, body := [48 + member, 124, 107, 124, 124, 124] }

def completeVisit : List Move :=
  [.task (.reader 0), .event (.arrive 0 [.error .connectionClosed]), .task (.reader 0),
    .task (.reader 0), .task (.reader 0), .event (.arrive 0 [.ok (authFrame 1)]),
    .event (.open "ip" "")]

theorem after_disconnectCalls_completeVisit :
    let n := (new Config.testing none ⟨0⟩).after completeVisit
    (n.connection 0).reader = .returned ∧ n.disconnectCalls 0 = [.disconnect n.serverId 1 "k"] := by
  intro n
  have hr : (n.connection 0).reader = .returned := Reader.eq_returned (by decide +kernel)
  refine ⟨hr, (after_disconnectCalls Config.testing none ⟨0⟩ completeVisit 0 hr).2.trans ?_⟩
  decide +kernel

/-- A client whose transport fails before the auth reply is out. -/
def failedHandshake : List Move :=
  [.task (.reader 0), .task (.reader 0), .event (.arrive 0 [.ok (authFrame 1)]),
    .event (.failWrites 0), .event (.open "ip" "")]

/-- The key stays online for good: the control plane has given a grant and never hears of the
end. -/
theorem failedHandshake_untold :
    let start := new Config.testing none ⟨0⟩
    let n := start.after failedHandshake
    (n.connection 0).reader = .returned ∧
    (start.grants 0 failedHandshake).map (fun g => (g.mid, g.key)) = [(1, "k")] ∧
      n.disconnectCalls 0 = [] ∧ n.plane.isOnline "k" := by
  intro start n
  exact ⟨Reader.eq_returned
    (by decide +kernel), by decide +kernel, by decide +kernel, by decide +kernel⟩

end Node

end PushGateway
