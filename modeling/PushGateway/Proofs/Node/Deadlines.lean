import PushGateway.Proofs.Node.MoveEffects

/-!
Every connection has a handle to an entry of its own on one of the timers, from when it opens until
it leaves; once it has left, the handle has been given back and the connection is closed. No entry
is for anybody else.
-/

namespace PushGateway

def Reader.isTimed : Reader → Bool
  | .leaving .. | .returned | .crashed => false
  | _ => true

theorem Reader.isTimed_of_isHandshake {r : Reader} (h : r.isHandshake) : r.isTimed := by
  cases r with
  | leaving c u => cases h
  | returned => cases h
  | crashed => cases h
  | _ => rfl

theorem Reader.isTimed_of_session? {r : Reader} {s : Session} (h : r.session? = some s) :
    r.isTimed := by
  cases r <;> cases h <;> rfl

theorem Reader.MayFollowLastCall.isTimed {r : Reader} {c : Nat} (h : r.MayFollowLastCall c) :
    r.isTimed = false := by
  cases h <;> rfl

theorem Reader.hasLeft_of_isTimed {r : Reader} (h : r.isTimed) : r.hasLeft = false := by
  cases r with
  | leaving c u => cases h
  | returned => cases h
  | _ => rfl

namespace Node

structure DeadlinesInOrder (n : Node) : Prop where
  wheel : 0 < n.rotation.timers
  wheels : n.rotation.timers = n.timers.size
  fit : ∀ t, (n.timer t).heap.Fit
  assigned : ∀ i < n.connections.size, (n.connection i).timer < n.timers.size
  named : ∀ t s i, ((n.timer t).heap.entry s).callback = some i → i < n.connections.size ∧
    (n.connection i).timer = t ∧ (n.connection i).deadline.slot = s ∧
    (n.ownHeap i).Armed (n.connection i).deadline i
  armed : ∀ i < n.connections.size, (n.line i).reader.isTimed →
    (n.ownHeap i).Armed (n.connection i).deadline i
  gone : ∀ i, (n.line i).reader.hasLeft →
    (n.connection i).closed ∧ (n.ownHeap i).Spent (n.connection i).deadline

variable {n n' : Node} {i j : Nat}

theorem DeadlinesInOrder.hasTimer (h : n.DeadlinesInOrder) (hi : i < n.connections.size) :
    n.HasTimer i :=
  ⟨h.assigned i hi, h.fit _⟩

theorem DeadlinesInOrder.onlyReorders (h : n.DeadlinesInOrder)
    (hsize : n'.connections.size = n.connections.size)
    (hrot : n'.rotation = n.rotation) (htimers : n'.timers.size = n.timers.size)
    (hk : ∀ t, (n.timer t).heap.OnlyReorders (n'.timer t).heap) (hf : ∀ t, (n'.timer t).heap.Fit)
    (hc : ∀ j, (n'.connection j).timer = (n.connection j).timer ∧
      (n'.connection j).deadline = (n.connection j).deadline ∧
      ((n.connection j).closed → (n'.connection j).closed))
    (hr : ∀ j, ((n'.line j).reader.isTimed → (n.line j).reader.isTimed) ∧
      ((n'.line j).reader.hasLeft → (n.line j).reader.hasLeft)) : n'.DeadlinesInOrder := by
  have hown (j : Nat) : (n.ownHeap j).OnlyReorders (n'.ownHeap j) := by
    rw [ownHeap, ownHeap, (hc j).1]
    exact hk _
  refine ⟨hrot ▸ h.wheel, by rw [hrot, htimers,
    h.wheels], hf, fun j hj => ?_, fun t s j hcall => ?_, fun j hj ht => ?_, fun j hj => ?_⟩
  · rw [(hc j).1, htimers]
    exact h.assigned j (hsize ▸ hj)
  · rw [(hk t).callback] at hcall
    obtain ⟨hlt, ht, hs, ha⟩ := h.named t s j hcall
    rw [hsize, (hc j).1, (hc j).2.1]
    exact ⟨hlt, ht, hs, (hown j).armed ha⟩
  · rw [(hc j).2.1]
    exact (hown j).armed (h.armed j (hsize ▸ hj) ((hr j).1 ht))
  · obtain ⟨hclosed, hspent⟩ := h.gone j ((hr j).2 hj)
    rw [(hc j).2.1]
    exact ⟨(hc j).2.2 hclosed, (hown j).spent hspent⟩

theorem OnlyConnection.armed_other (ha : n.OnlyConnection i n') (ht : n.HasTimer i)
    (harmed : (n.ownHeap i).Armed (n.connection i).deadline i) (hj : j ≠ i)
    (hjarmed : (n.ownHeap j).Armed (n.connection j).deadline j) :
    (n'.ownHeap j).Armed (n'.connection j).deadline j := by
  rw [ownHeap, ha.others j hj]
  by_cases htj : (n.connection j).timer = (n.connection i).timer
  · rw [ownHeap, htj] at hjarmed
    rw [htj, ← ha.timer]
    refine (ha.heap ht).keepsOthers.armed hjarmed fun hslot => hj ?_
    have hcall := hjarmed.callback
    rw [hslot] at hcall
    exact Option.some.inj (hcall.symm.trans harmed.callback)
  · rw [ha.elsewhere _ htj]
    exact hjarmed

theorem OnlyConnection.spent_other (ha : n.OnlyConnection i n') (ht : n.HasTimer i) (hj : j ≠ i)
    (hspent : (n.ownHeap j).Spent (n.connection j).deadline) :
    (n'.ownHeap j).Spent (n'.connection j).deadline := by
  rw [ownHeap, ha.others j hj]
  by_cases htj : (n.connection j).timer = (n.connection i).timer
  · rw [ownHeap, htj] at hspent
    rw [htj, ← ha.timer]
    exact (ha.heap ht).spent hspent
  · rw [ha.elsewhere _ htj]
    exact hspent

theorem DeadlinesInOrder.named_onlyConnection (h : n.DeadlinesInOrder) (hi : i < n.connections.size)
    (ha : n.OnlyConnection i n') (harmed : (n.ownHeap i).Armed (n.connection i).deadline i)
    {t s : Nat} (hcall : ((n'.timer t).heap.entry s).callback = some j) : j < n.connections.size ∧
      (n'.connection j).timer = t ∧ (n'.connection j).deadline.slot = s ∧
      (n'.ownHeap j).Armed (n'.connection j).deadline j := by
  have hm := ha.heap (h.hasTimer hi)
  have hold (hcall : ((n.timer t).heap.entry s).callback = some j) (hji : j ≠ i) :
    j < n.connections.size ∧
      (n'.connection j).timer = t ∧ (n'.connection j).deadline.slot = s ∧
      (n'.ownHeap j).Armed (n'.connection j).deadline j := by
    obtain ⟨hlt, ht, hs, hjarmed⟩ := h.named t s j hcall
    refine ⟨hlt, ?_, ?_, ha.armed_other (h.hasTimer hi) harmed hji hjarmed⟩ <;> rw [ha.others j hji]
    · exact ht
    · exact hs
  by_cases ht : t = (n.connection i).timer
  · subst ht
    have hcall' : ((n'.ownHeap i).entry s).callback = some j := by
      rw [ownHeap, ha.timer]
      exact hcall
    by_cases hs : s = (n.connection i).deadline.slot
    · subst hs
      rcases hm.own with heffect | ⟨hnone, -⟩
      · have hji : j = i := Option.some.inj
          (hcall'.symm.trans (heffect.callback.trans harmed.callback))
        rw [hji, ha.timer, ha.deadline]
        exact ⟨hi, rfl, rfl, heffect.armed harmed⟩
      · exact absurd (hcall'.symm.trans hnone) (Option.some_ne_none j)
    · have hbefore := (hm.keepsOthers.callback_eq hs).symm.trans hcall'
      refine hold hbefore fun hji => hs ?_
      rw [← (h.named _ s j hbefore).2.2.1, hji]
  · rw [ha.elsewhere t ht] at hcall
    refine hold hcall fun hji => ht ?_
    rw [← (h.named t s j hcall).2.1, hji]

theorem DeadlinesInOrder.onlyConnection (h : n.DeadlinesInOrder) (hi : i < n.connections.size)
    (ha : n.OnlyConnection i n') (harmed : (n.ownHeap i).Armed (n.connection i).deadline i)
    (hserve : (n'.line i).reader.isTimed → (n'.ownHeap i).Armed (n.connection i).deadline i)
    (hgone : (n'.line i).reader.hasLeft →
      (n'.connection i).closed ∧ (n'.ownHeap i).Spent (n.connection i).deadline) :
    n'.DeadlinesInOrder := by
  have htimed := h.hasTimer hi
  have hline (j : Nat) (hj : j ≠ i) : n'.line j = n.line j := by rw [line, ha.others j hj, line]
  refine ⟨ha.rotation ▸ h.wheel, by rw [ha.rotation, ha.timers,
    h.wheels], fun t => ?_, fun j hj => ?_, fun t s j hcall => ?_, fun j hj ht => ?_,
    fun j hj => ?_⟩
  · by_cases ht : t = (n.connection i).timer
    · rw [ht, ← ha.timer]
      exact (ha.hasTimer htimed).fit
    · rw [ha.elsewhere t ht]
      exact h.fit t
  · rw [ha.timers]
    by_cases hji : j = i
    · rw [hji, ha.timer]
      exact h.assigned i hi
    · rw [ha.others j hji]
      exact h.assigned j (ha.size ▸ hj)
  · rw [ha.size]
    exact h.named_onlyConnection hi ha harmed hcall
  · by_cases hji : j = i
    · subst hji
      rw [ha.deadline]
      exact hserve ht
    · exact ha.armed_other htimed harmed hji (h.armed j (ha.size ▸ hj) (hline j hji ▸ ht))
  · by_cases hji : j = i
    · subst hji
      rw [ha.deadline]
      exact hgone hj
    · obtain ⟨hclosed, hspent⟩ := h.gone j (hline j hji ▸ hj)
      refine ⟨?_, ha.spent_other htimed hji hspent⟩
      rw [ha.others j hji]
      exact hclosed

theorem DeadlinesInOrder.keepsDeadline (h : n.DeadlinesInOrder) (hi : i < n.connections.size)
    (hs : n.KeepsDeadline i n') (ht : (n.line i).reader.isTimed)
    (hl : (n'.line i).reader.hasLeft = false) : n'.DeadlinesInOrder := by
  have harmed := h.armed i hi ht
  refine h.onlyConnection hi hs.toOnlyConnection harmed (fun _ => hs.armed (h.hasTimer hi) i harmed)
    fun hl' => ?_
  rw [hl] at hl'
  cases hl'

theorem DeadlinesInOrder.dropsDeadline (h : n.DeadlinesInOrder) (hi : i < n.connections.size)
    (hq : n.DropsDeadline i n') (ht : (n.line i).reader.isTimed)
    (hl : (n'.line i).reader.isTimed = false) : n'.DeadlinesInOrder := by
  have harmed := h.armed i hi ht
  refine h.onlyConnection hi hq.toOnlyConnection harmed (fun ht' => ?_) fun _ => ⟨hq.shut,
    hq.spent (h.hasTimer hi) i harmed⟩
  rw [hl] at ht'
  cases ht'

theorem DeadlinesInOrder.same_timers (h : n.DeadlinesInOrder) (hs : n.KeepsDeadline i n')
    (ht : n'.timers = n.timers) (hr : ((n'.line i).reader.isTimed → (n.line i).reader.isTimed) ∧
      ((n'.line i).reader.hasLeft → (n.line i).reader.hasLeft)) : n'.DeadlinesInOrder := by
  have htimer (t : Nat) : n'.timer t = n.timer t := by rw [Node.timer, ht, Node.timer]
  refine h.onlyReorders hs.size hs.rotation hs.timers (fun t => htimer t ▸ .refl _)
    (fun t => htimer t ▸ h.fit t) (fun j => ?_) fun j => ?_
  · by_cases hj : j = i
    · rw [hj]
      exact ⟨hs.timer, hs.deadline, hs.closed⟩
    · rw [hs.others j hj]
      exact ⟨rfl, rfl, fun h => h⟩
  · by_cases hj : j = i
    · rw [hj]
      exact hr
    · rw [line, hs.others j hj]
      exact ⟨fun h => h, fun h => h⟩

theorem DeadlinesInOrder.opened (h : n.DeadlinesInOrder) (ho : n.OpensConnection n')
    (hf : ∀ t, (n'.timer t).heap.Fit)
    (harmed : ∀ t a i, (n.timer t).heap.Armed a i → (n'.timer t).heap.Armed a i)
    (hspent : ∀ t a, (n.timer t).heap.Spent a → (n'.timer t).heap.Spent a)
    (hnamed : ∀ t s j, ((n'.timer t).heap.entry s).callback = some j →
      ((n.timer t).heap.entry s).callback = some j ∨ j = n.connections.size ∧
        (n'.connection j).timer = t ∧ (n'.connection j).deadline.slot = s ∧
        (n'.ownHeap j).Armed (n'.connection j).deadline j)
    (hnew : (n'.line n.connections.size).reader.isTimed →
      (n'.ownHeap n.connections.size).Armed (n'.connection n.connections.size).deadline
      n.connections.size)
    (hleft : (n'.line n.connections.size).reader.hasLeft = false) : n'.DeadlinesInOrder := by
  have hold (j : Nat) (hj : j < n.connections.size) : n'.connection j = n.connection j :=
    ho.others j (Nat.ne_of_lt hj)
  have hcases {j : Nat} (hj : j < n'.connections.size) : j < n.connections.size ∨
      j = n.connections.size := by
    rw [ho.size] at hj
    exact Nat.lt_succ_iff_lt_or_eq.1 hj
  refine ⟨ho.rotation ▸ h.wheel, by rw [ho.rotation, ho.timers, h.wheels], hf, fun j hj => ?_,
    fun t s j hcall => ?_, fun j hj ht => ?_, fun j hj => ?_⟩
  · rw [ho.timers]
    rcases hcases hj with hj | rfl
    · rw [hold j hj]
      exact h.assigned j hj
    · rw [ho.timer, ← h.wheels]
      exact Nat.mod_lt _ h.wheel
  · rw [ho.size]
    rcases hnamed t s j hcall with hcall | ⟨rfl, hrest⟩
    · obtain ⟨hlt, ht, hs, ha⟩ := h.named t s j hcall
      rw [ownHeap, hold j hlt]
      exact ⟨Nat.lt_succ_of_lt hlt, ht, hs, harmed _ _ j ha⟩
    · exact ⟨Nat.lt_succ_self _, hrest⟩
  · rcases hcases hj with hj | rfl
    · rw [line, hold j hj] at ht
      rw [ownHeap, hold j hj]
      exact harmed _ _ j (h.armed j hj ht)
    · exact hnew ht
  · by_cases hjs : j = n.connections.size
    · rw [hjs, hleft] at hj
      cases hj
    · rw [line, ho.others j hjs] at hj
      rw [ownHeap, ho.others j hjs]
      exact ⟨(h.gone j hj).1, hspent _ _ (h.gone j hj).2⟩

theorem DeadlinesInOrder.handsOut (h : n.DeadlinesInOrder) (ho : n.OpensConnection n') :
    (n'.line n.connections.size).reader = .crashed ∧ n'.timers = n.timers ∨
      (n'.line n.connections.size).reader = .awaitingAuth ∧
      (∀ t, t ≠ (n'.connection n.connections.size).timer → n'.timer t = n.timer t) ∧
      (n.timer (n'.connection n.connections.size).timer).heap.HandsOut
        (n'.connection n.connections.size).deadline n.connections.size
        (n'.ownHeap n.connections.size) := by
  rcases ho.outcome with hcrash | ⟨hr, s, ht, hg⟩
  · exact .inl hcrash
  · rw [← ho.timer] at ht hg
    have hlt : (n'.connection n.connections.size).timer < n.timers.size := by
      rw [ho.timer, ← h.wheels]
      exact Nat.mod_lt _ h.wheel
    have htimer (t : Nat) : n'.timer t = if t = (n'.connection n.connections.size).timer ∧
        (n'.connection n.connections.size).timer < n.timers.size then s else n.timer t := by
      rw [← timer_setTimer, Node.timer, ht]
      rfl
    refine .inr ⟨hr, fun t hne => (htimer t).trans (if_neg fun h => hne h.1), ?_⟩
    rw [ownHeap, htimer, if_pos ⟨rfl, hlt⟩]
    exact hg (h.fit _)

theorem DeadlinesInOrder.opensConnection (h : n.DeadlinesInOrder) (ho : n.OpensConnection n') :
    n'.DeadlinesInOrder := by
  rcases h.handsOut ho with ⟨hr, ht⟩ | ⟨hr, hrest, hgives⟩
  · have htimer (t : Nat) : n'.timer t = n.timer t := by rw [Node.timer, ht, Node.timer]
    refine h.opened ho (fun t => htimer t ▸ h.fit t) (fun t _ _ => htimer t ▸ fun ha => ha)
      (fun t _ => htimer t ▸ fun ha => ha) (fun t _ _ hc => .inl (htimer t ▸ hc)) (fun hs => ?_)
      (by rw [hr]; rfl)
    rw [hr] at hs
    cases hs
  · rw [ownHeap] at hgives
    generalize htn : (n'.connection n.connections.size).timer = t₀ at hrest hgives
    refine h.opened ho (fun t => ?_) (fun t a j ha => ?_) (fun t a ha => ?_)
      (fun t slot j hcall => ?_) (fun _ => ?_) (by rw [hr]; rfl)
    · by_cases hte : t = t₀
      · rw [hte]
        exact hgives.fit
      · rw [hrest t hte]
        exact h.fit t
    · by_cases hte : t = t₀
      · rw [hte] at ha ⊢
        exact hgives.armed_old ha
      · rw [hrest t hte]
        exact ha
    · by_cases hte : t = t₀
      · rw [hte] at ha ⊢
        exact hgives.spent ha
      · rw [hrest t hte]
        exact ha
    · by_cases hte : t = t₀
      · subst hte
        by_cases hs : slot = (n'.connection n.connections.size).deadline.slot
        · have hj : j = n.connections.size := by
            rw [hs, hgives.armed.callback] at hcall
            exact (Option.some.inj hcall).symm
          rw [hj, ownHeap, htn]
          exact .inr ⟨rfl, rfl, hs.symm, hgives.armed⟩
        · exact .inl ((hgives.keepsOthers.callback_eq hs).symm.trans hcall)
      · exact .inl (hrest t hte ▸ hcall)
    · rw [ownHeap, htn]
      exact hgives.armed

theorem DeadlinesInOrder.reading (h : n.DeadlinesInOrder) (hi : i < n.connections.size)
    (hc : n.ReaderEffect i n') : n'.DeadlinesInOrder := by
  cases hc with
  | shaking hs he hs' hserve hk =>
    exact h.keepsDeadline hi hserve (Reader.isTimed_of_isHandshake hs)
      (Reader.hasLeft_of_isTimed (Reader.isTimed_of_isHandshake hs'))
  | rejected hs he hr hquit hk =>
    exact h.dropsDeadline hi hquit (Reader.isTimed_of_isHandshake hs) (by rw [hr]; rfl)
  | enrollEffect g he hn' henr =>
    have hflush := n.modifyWire_keepsDeadline i Wire.flush
    have ht : (n.line i).reader.isTimed := by
      refine Reader.isTimed_of_isHandshake (enrollment?_isHandshake he)
    cases henr with
    | seated hok hh hr =>
      refine h.keepsDeadline hi (hflush.trans hh.toKeepsDeadline) ht ?_
      rcases hr with hr | ⟨s, hr, -⟩ <;> rw [hr] <;> rfl
    | unseated hq hd hr => exact h.dropsDeadline hi (hflush.dropsDeadline hq) ht hr.isTimed
  | served s s' hs hs' hch ha =>
    exact h.keepsDeadline hi ha.toKeepsDeadline (Reader.isTimed_of_session? hs)
      (Reader.hasLeft_of_isTimed (Reader.isTimed_of_session? hs'))
  | crashed s hs hr ha =>
    exact h.keepsDeadline hi ha.toKeepsDeadline (Reader.isTimed_of_session? hs) (by rw [hr]; rfl)
  | tornDown s m hs ha hv =>
    exact h.dropsDeadline hi (ha.toKeepsDeadline.dropsDeadline hv.toDropsDeadline)
      (Reader.isTimed_of_session? hs) hv.reader.isTimed
  | left c u hl hr hserve hd ht =>
    refine h.same_timers hserve ht ?_
    rw [hl, hr]
    exact ⟨fun h => h, fun h => h⟩

theorem DeadlinesInOrder.move (h : n.DeadlinesInOrder) (ho : n.Owned) (m : Move) :
    (n.move m).DeadlinesInOrder := by
  cases ho.moveEffect m with
  | background he hd =>
    refine h.onlyReorders hd.size hd.rotation hd.timers hd.onlyReorders
      (fun t => hd.fit t (h.fit t)) (fun j => ?_) fun j => ?_
    · obtain ⟨closed, wire, hc, hm⟩ := hd.connection j
      rw [hc]
      exact ⟨rfl, rfl, hm⟩
    · obtain ⟨closed, wire, hc, -⟩ := hd.connection j
      rw [line, hc]
      exact ⟨fun h => h, fun h => h⟩
  | opensConnection ip cookie hm hopen => exact h.opensConnection hopen
  | reading i hm hi hc => exact h.reading hi hc
  | writing i c hm hc hw =>
    refine h.same_timers hw.toKeepsDeadline hw.timers_eq ?_
    rw [hw.reader]
    exact ⟨fun h => h, fun h => h⟩

theorem new_deadlinesInOrder (config : Config) (hostname : Option String) (entropy : Entropy) :
    (new config hostname entropy).DeadlinesInOrder := by
  have htimer (t : Nat) : ∃ size, ((new config hostname entropy).timer t).heap = .new size := by
    rw [Node.timer, new, Array.getD_eq_getD_getElem?, Array.getElem?_replicate]
    split_ifs <;> exact ⟨_, rfl⟩
  have hl := new_line config hostname entropy
  refine ⟨Nat.lt_of_lt_of_le Nat.one_pos (Nat.le_max_right ..), Array.size_replicate.symm,
    fun t => ?_, fun i hi => absurd hi (Nat.not_lt_zero i), fun t s i hcall => ?_,
    fun i hi => absurd hi (Nat.not_lt_zero i), fun i hleft => ?_⟩
  · obtain ⟨size, hs⟩ := htimer t
    rw [hs]
    exact Timer.Heap.new_fit size
  · obtain ⟨size, hs⟩ := htimer t
    rw [hs, Timer.Heap.new_entry] at hcall
    cases hcall
  · rw [hl] at hleft
    cases hleft

theorem DeadlinesInOrder.after (h : n.DeadlinesInOrder) (ho : n.Owned) (ms : List Move) :
    (n.after ms).DeadlinesInOrder := by
  induction ms with
  | nil => exact h
  | cons m ms ih => exact ih.move (ho.after ms) m

end Node

end PushGateway
