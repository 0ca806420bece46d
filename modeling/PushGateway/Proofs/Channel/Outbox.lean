import Mathlib.Data.List.Count
import Mathlib.Tactic.Common
import PushGateway.Channel

/-!
Signals go into an outbound queue at the back and come out at the front. Besides what is offered,
the queue takes in finish requests only: one when it is asked to, and one when a place comes free
for a request that has waited.
-/

namespace PushGateway

def Signal.push? : Signal → Option Frame
  | .data f => some f
  | .ready | .finish => none

namespace Outbox

def pushes (o : Outbox) : List Frame := o.queue.filterMap Signal.push?

/-- The signals `extra` have come in at the back. -/
structure Appends (o : Outbox) (extra : List Signal) (o' : Outbox) : Prop where
  queue : o'.queue = o.queue ++ extra
  places : o'.places = o.places
  hasReceiver : o'.hasReceiver = o.hasReceiver

variable {o o' o'' : Outbox} {s : Signal} {extra extra' : List Signal}

theorem Appends.refl (o : Outbox) : o.Appends [] o := ⟨(List.append_nil _).symm, rfl, rfl⟩

theorem Appends.trans (h : o.Appends extra o') (h' : o'.Appends extra' o'') :
    o.Appends (extra ++ extra') o'' := by
  refine ⟨?_, h'.places.trans h.places, h'.hasReceiver.trans h.hasReceiver⟩
  rw [h'.queue, h.queue, List.append_assoc]

theorem push_appends (o : Outbox) (s : Signal) : o.Appends [s] (o.push s) := ⟨rfl, rfl, rfl⟩

theorem offer?_appends (h : o.offer? s = some o') : o.Appends [s] o' := by
  rw [offer?] at h
  split at h
  · cases h
    exact push_appends o s
  · cases h

theorem hasReceiver_of_offer? (h : o.offer? s = some o') : o.hasReceiver = true := by
  rw [offer?] at h
  split at h
  · rename_i hc
    exact (Bool.and_eq_true_iff.1 hc).1
  · cases h

theorem offer?_eq_none (h : o.offer? s = none) : o.hasReceiver = false ∨
    o.places ≤ o.queue.length := by
  rw [offer?] at h
  split at h
  · cases h
  · rename_i hn
    by_cases hr : o.hasReceiver
    · right
      simpa [hr, hasPlace] using hn
    · left
      simpa using hr

theorem finish_appends (o : Outbox) : ∃ k, o.Appends (List.replicate k .finish) o.finish := by
  rw [finish]
  split
  · exact ⟨0, .refl o⟩
  · split
    · exact ⟨1, push_appends o .finish⟩
    · split
      · exact ⟨0, (List.append_nil _).symm, rfl, rfl⟩
      · exact ⟨0, .refl o⟩

theorem refill_appends (o : Outbox) : ∃ k, o.Appends (List.replicate k .finish) o.refill := by
  rw [refill]
  split
  · exact ⟨1, rfl, rfl, rfl⟩
  · exact ⟨0, .refl o⟩

theorem take?_appends (h : o.take? = some (s, o')) :
    ∃ r k, o.queue = s :: r ∧ { o with queue := r }.Appends (List.replicate k .finish) o' := by
  rw [take?] at h
  split at h
  · rename_i s' r hq
    cases h
    obtain ⟨k, hk⟩ := refill_appends { o with queue := r }
    exact ⟨r, k, hq, hk⟩
  · cases h

theorem filterMap_finish (k : Nat) :
    (List.replicate k Signal.finish).filterMap Signal.push? = [] := by
  simp [Signal.push?]

theorem count_finish (k : Nat) : (List.replicate k Signal.finish).count .ready = 0 := by
  simp [List.count_replicate]

theorem Appends.pushes (h : o.Appends extra o') :
    o'.pushes = o.pushes ++ extra.filterMap Signal.push? := by
  rw [Outbox.pushes, h.queue, List.filterMap_append]
  rfl

theorem Appends.count_ready (h : o.Appends extra o') :
    o'.queue.count .ready = o.queue.count .ready + extra.count .ready := by
  rw [h.queue, List.count_append]

end Outbox

end PushGateway
